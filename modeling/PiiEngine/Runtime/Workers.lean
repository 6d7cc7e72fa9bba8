import PiiEngine.Limiter

open coroutines transitions
open pii_engine.AnalysisLimiter

namespace pii_engine.workers

/-- The thread that `asyncio.to_thread` runs for a task, with the answer it ended with. -/
inductive Worker (ρ : Type) where
  | idle
  | submitted
  | running
  | finished (outcome : ρ)

/-- The locals of a request's task outside `slot`, its `started` event and its thread. -/
structure TaskFrame (ρ : Type) where
  studio_acquired : Bool
  started : Bool
  worker : Worker ρ

/-- The semaphore `_studio_limiter`, which only Studio requests wait for. -/
inductive StudioLimiter where
  | studio
  deriving DecidableEq

section program
variable {ε : Type}

/-- The outcome that a thread hands to the task awaiting it. -/
abbrev Outcome (ε : Type) := Except (Error ε) Unit

/-- A coroutine of the runtime. Besides the limiter, tasks share the value of the semaphore
    `_studio_limiter`. -/
abbrev Program (ε α : Type) :=
  Coroutine (Frame (TaskFrame (Outcome ε))) (Shared Nat) (Awaited StudioLimiter) (Outcome ε) (Error ε) α

abbrev RunTask (ε : Type) :=
  Task (Frame (TaskFrame (Outcome ε))) (Shared Nat) (Awaited StudioLimiter) (Outcome ε) (Error ε) Unit

def studioObject : StudioLimiter → Object (Shared Nat)
  | .studio =>
    { ready := fun shared => !decide (shared.rest = 0)
      take := fun shared => { shared with rest := shared.rest - 1 }
      undo := fun shared => { shared with rest := shared.rest + 1 } }

/-- `_studio_limiter.release()` -/
def releaseStudio (shared : Shared Nat) : Shared Nat := { shared with rest := shared.rest + 1 }

/-- The wait for a Studio permit, with its `acquire` as an argument. -/
def studioWait (waiting : Program ε Unit) : Program ε Unit := do
  try
    waiting
    .modifyFrame (fun frame => { frame with rest := { frame.rest with studio_acquired := true } })
  catch
    | .interrupt .timeout => throw (.capacity "Studio analysis wait timed out")
    | error => throw error

/-- Give a Studio permit back if one was acquired. -/
def leaveStudio : Program ε Unit := do
  let (frame, _) ← .state
  if frame.rest.studio_acquired then
    .modifyShared releaseStudio

/-- The statements inside the slot: tell the supervisor and hand the work to a thread. -/
def work : Program ε Unit := do
  .modifyFrame (fun frame => { frame with rest := { frame.rest with started := true, worker := .submitted } })
  .call .finish

def clearStudio : Program ε Unit :=
  .modifyFrame (fun frame => { frame with rest := { frame.rest with studio_acquired := false } })

def _run_analysis (caller : String) : Program ε Unit := do
  clearStudio
  if caller = "studio" then
    studioWait (.acquire .interrupt (.other .studio) true)
  (slot work).ensuring leaveStudio

def _run_policy_evaluation : Program ε Unit := do
  clearStudio
  Coroutine.ensuring
    (do
      studioWait (.acquire .interrupt (.other .studio) true)
      slot work)
    leaveStudio

/-- The two kinds of requests that run a worker. -/
inductive RequestPath where
  | analysis (caller : String)
  | evaluation

/-- Whether the request needs a Studio permit. -/
def RequestPath.studio : RequestPath → Bool
  | analysis caller => caller = "studio"
  | evaluation => true

def RequestPath.program : RequestPath → Program ε Unit
  | analysis caller => _run_analysis caller
  | evaluation => _run_policy_evaluation

/-- What is left of a request's program after its wait for a Studio permit. -/
def RequestPath.resumed (path : RequestPath) (outcome : Except Interrupt Unit) : Program ε Unit :=
  match path with
  | analysis _ =>
    (studioWait (.finish (outcome.mapError .interrupt))).bind fun _ => (slot work).ensuring leaveStudio
  | evaluation =>
    ((studioWait (.finish (outcome.mapError .interrupt))).bind fun _ => slot work).ensuring leaveStudio

/-- A task before its first run. -/
def newFrame : Frame (TaskFrame (Outcome ε)) := ⟨false, ⟨false, false, .idle⟩⟩

/-- Where the coroutine that awaits a request's task stands: in `asyncio.wait`, in
    `asyncio.wait_for` around the shielded task, or past both. -/
inductive Supervisor where
  | waiting
  | supervising
  | ended

/-- A request whose task was created, and whether `task.cancel()` was called on that. -/
structure Request (ε : Type) where
  path : RequestPath
  supervisor : Supervisor
  cancelling : Bool
  task : Option (RunTask ε)

/-- The runtime's limiters and the requests it serves. -/
structure Engine (ε : Type) where
  shared : Shared Nat
  requests : List (Request ε)

def Engine.initial (max_concurrent max_queued studio_max : Nat) : Engine ε :=
  ⟨⟨.new max_concurrent max_queued, studio_max⟩, []⟩

def Request.started (request : Request ε) : Bool := request.task.any (·.frame.rest.started)

def Request.ended (request : Request ε) : Bool := request.task.any (·.point.isEnded)

/-- What the event loop may do to a request's task. A cancelled task is resumed with
    nothing but its cancellation, and a thread goes on without the task. -/
def Request.Admits (request : Request ε) (task : RunTask ε) : Signal (Outcome ε) → Prop
  | .grant => True
  | .resume => request.cancelling = false
  | .interrupt .timeout => True
  | .interrupt .cancelled => request.cancelling = true
  | .answer outcome =>
    request.cancelling = false ∧ task.frame.rest.worker = .finished outcome ∨
      request.cancelling = true ∧ outcome = .error (.interrupt .cancelled)

def setWorker (task : RunTask ε) (worker : Worker (Outcome ε)) : RunTask ε :=
  { task with frame := { task.frame with rest := { task.frame.rest with worker } } }

/-- What happens to one request: its task begins, the loop or its thread goes on, its
    supervisor goes on, the deadline passes, or its caller is cancelled. -/
inductive Occurrence (ε : Type) where
  | begin
  | signal (signal : Signal (Outcome ε))
  | startWorker
  | finishWorker (outcome : Outcome ε)
  | supervise
  | settle
  | deadline
  | cancel

/-- The steps of one request with the state it shares. -/
inductive RequestStep (r : Request ε) (shared : Shared Nat) : Occurrence ε → Request ε → Shared Nat → Prop
  | begin (next : RunTask ε) (shared' : Shared Nat) (hcreated : r.task = none) (hlive : r.cancelling = false)
      (hrun : run (objects studioObject) r.path.program newFrame shared = (next, shared')) :
      RequestStep r shared .begin { r with task := some next } shared'
  | drop (hcreated : r.task = none) (hcancelling : r.cancelling = true) :
      RequestStep r shared .begin
        { r with task := some ⟨newFrame, .ended (.error (.interrupt .cancelled))⟩ } shared
  | signal (signal : Signal (Outcome ε)) (task next : RunTask ε) (shared' : Shared Nat) (htask : r.task = some task)
      (hadmits : r.Admits task signal)
      (hsignal : task.signal (objects studioObject) signal shared = some (next, shared')) :
      RequestStep r shared (.signal signal) { r with task := some next } shared'
  | startWorker (task : RunTask ε) (htask : r.task = some task) (hworker : task.frame.rest.worker = .submitted) :
      RequestStep r shared .startWorker { r with task := some (setWorker task .running) } shared
  | finishWorker (outcome : Outcome ε) (task : RunTask ε) (htask : r.task = some task)
      (hworker : task.frame.rest.worker = .running) :
      RequestStep r shared (.finishWorker outcome) { r with task := some (setWorker task (.finished outcome)) } shared
  | supervise (hsupervisor : r.supervisor = .waiting) (hstarted : r.started = true) (hrunning : r.ended = false) :
      RequestStep r shared .supervise { r with supervisor := .supervising } shared
  | settle (hsupervisor : r.supervisor ≠ .ended) (hended : r.ended = true) :
      RequestStep r shared .settle { r with supervisor := .ended } shared
  | deadline (hsupervisor : r.supervisor = .supervising) :
      RequestStep r shared .deadline { r with supervisor := .ended } shared
  | cancel (hsupervisor : r.supervisor ≠ .ended) :
      RequestStep r shared .cancel
        { r with supervisor := .ended, cancelling := r.cancelling || !r.started } shared

/-- An event of a runtime: a request arrives, or something happens to one. -/
inductive EngineEvent (ε : Type) where
  | request (path : RequestPath)
  | within (index : Nat) (occurrence : Occurrence ε)

inductive EngineStep : Engine ε → EngineEvent ε → Engine ε → Prop
  | request (s : Engine ε) (path : RequestPath) :
      EngineStep s (.request path) ⟨s.shared, s.requests ++ [⟨path, .waiting, false, none⟩]⟩
  | within (s : Engine ε) (index : Nat) (occurrence : Occurrence ε) (r r' : Request ε) (shared : Shared Nat)
      (hrequest : s.requests[index]? = some r) (hstep : RequestStep r s.shared occurrence r' shared) :
      EngineStep s (.within index occurrence) ⟨shared, s.requests.set index r'⟩

end program

section run
variable {ε : Type} {frame : Frame (TaskFrame (Outcome ε))} {shared : Shared Nat}

def setAcquired (frame : Frame (TaskFrame (Outcome ε))) (studio_acquired : Bool) : Frame (TaskFrame (Outcome ε)) :=
  { frame with rest := { frame.rest with studio_acquired } }

/-- The slot of a request and the cleanup around it. -/
def inside : Program ε Unit := (slot work).ensuring leaveStudio

/-- A request that waits for a Studio permit. -/
def RequestPath.studioPoint (path : RequestPath) (granted : Bool) :
    Point (Frame (TaskFrame (Outcome ε))) (Shared Nat) (Awaited StudioLimiter) (Outcome ε) (Error ε) Unit :=
  .waiting (.other .studio) true granted path.resumed

/-- A request that waits for a shared slot. -/
def queuePoint (granted : Bool) :
    Point (Frame (TaskFrame (Outcome ε))) (Shared Nat) (Awaited StudioLimiter) (Outcome ε) (Error ε) Unit :=
  .waiting .semaphore true granted fun outcome =>
    (admitted (.finish (outcome.mapError .interrupt)) work).ensuring leaveStudio

/-- A request that awaits its thread. -/
def workPoint :
    Point (Frame (TaskFrame (Outcome ε))) (Shared Nat) (Awaited StudioLimiter) (Outcome ε) (Error ε) Unit :=
  .calling fun outcome => (holding (.finish outcome)).ensuring leaveStudio

theorem run_program_plain (path : RequestPath) (hpath : path.studio = false) :
    run (objects studioObject) path.program frame shared =
      run (objects studioObject) inside (setAcquired frame false) shared := by
  cases path with
  | evaluation => cases hpath
  | analysis caller =>
    have hcaller : caller ≠ "studio" := by simpa [RequestPath.studio] using hpath
    simp [RequestPath.program, _run_analysis, clearStudio, Coroutine.modifyFrame, hcaller, setAcquired, inside]

theorem run_program_studio (path : RequestPath) (hpath : path.studio = true) :
    run (objects studioObject) path.program frame shared =
      if shared.rest = 0 then (⟨setAcquired frame false, path.studioPoint false⟩, shared)
      else
        run (objects studioObject) (path.resumed (.ok ())) (setAcquired frame false)
          { shared with rest := shared.rest - 1 } := by
  obtain ⟨limiter, rest⟩ := shared
  cases path with
  | evaluation => cases rest <;> rfl
  | analysis caller =>
    have hcaller : caller = "studio" := by simpa [RequestPath.studio] using hpath
    rw [hcaller]
    cases rest <;> rfl

theorem run_resumed_ok (path : RequestPath) :
    run (objects studioObject) (path.resumed (.ok ())) frame shared =
      run (objects studioObject) inside (setAcquired frame true) shared := by
  cases path with
  | analysis caller => rfl
  | evaluation => rfl

/-- A request whose wait for a Studio permit is interrupted ends without one. -/
theorem run_resumed_error (path : RequestPath) (cause : Interrupt) (hacquired : frame.rest.studio_acquired = false) :
    ∃ error, run (objects studioObject) (path.resumed (.error cause)) frame shared =
      (⟨frame, .ended (.error error)⟩, shared) := by
  obtain ⟨acquired, studio_acquired, started, worker⟩ := frame
  cases hacquired
  cases path <;> cases cause <;> exact ⟨_, rfl⟩

/-- What a request gives back at its end. -/
def settled (frame : Frame (TaskFrame (Outcome ε))) (shared : Shared Nat) : Shared Nat :=
  if frame.rest.studio_acquired then releaseStudio shared else shared

theorem run_leaveStudio {body : Program ε Unit} {frame' : Frame (TaskFrame (Outcome ε))}
    {shared' : Shared Nat} {result : Except (Error ε) Unit}
    (h : run (objects studioObject) body frame shared = (⟨frame', .ended result⟩, shared')) :
    run (objects studioObject) (body.ensuring leaveStudio) frame shared =
      (⟨frame', .ended result⟩, settled frame' shared') := by
  rw [run_ensuring_ended h]
  obtain ⟨acquired, studio_acquired, started, worker⟩ := frame'
  cases studio_acquired with
  | false => rfl
  | true => rfl

/-- A request that goes on with a slot hands its work to a thread. -/
theorem run_admitted_work (hlock : shared.limiter.lock = false) :
    run (objects studioObject) ((admitted (.finish (.ok ())) work).ensuring leaveStudio : Program ε Unit) frame shared =
      (⟨⟨true, { frame.rest with started := true, worker := .submitted }⟩, workPoint⟩,
        shared.modify fun self => { self with queued := self.queued - 1, in_flight := self.in_flight + 1 }) := by
  refine run_ensuring_calling ?_
  rw [run_admitted_ok studioObject hlock]
  exact run_holding_calling studioObject rfl

/-- A request that is interrupted in the queue ends without a slot. -/
theorem run_interrupted_work (hlock : shared.limiter.lock = false) (hacquired : frame.acquired = false)
    (cause : Interrupt) :
    run (objects studioObject)
      ((admitted (.finish (.error (.interrupt cause))) work).ensuring leaveStudio : Program ε Unit) frame shared =
      (⟨frame, .ended (.error (interrupted cause))⟩,
        settled frame (shared.modify fun self => { self with queued := self.queued - 1 })) :=
  run_leaveStudio (run_admitted_error studioObject hlock hacquired cause)

/-- A request whose thread answers ends and gives its slot back. -/
theorem run_answered_work (hlock : shared.limiter.lock = false) (hacquired : frame.acquired = true)
    (outcome : Outcome ε) :
    run (objects studioObject) ((holding (.finish outcome)).ensuring leaveStudio : Program ε Unit) frame shared =
      (⟨frame, .ended outcome⟩,
        settled frame (shared.modify fun self =>
          { self with semaphore := self.semaphore + 1, in_flight := self.in_flight - 1 })) :=
  run_leaveStudio (run_holding_ended studioObject rfl hlock hacquired)

/-- A request at the limiter is refused, queues, or hands its work to a thread. -/
theorem run_inside (hlock : shared.limiter.lock = false) :
    run (objects studioObject) (inside : Program ε Unit) frame shared =
      if shared.limiter.locked ∧ shared.limiter.max_queued ≤ shared.limiter.queued then
        (⟨frame, .ended (.error (.capacity "analysis queue is full"))⟩, settled frame shared)
      else if shared.limiter.locked then
        (⟨{ frame with acquired := false }, queuePoint false⟩,
          shared.modify fun self => { self with queued := self.queued + 1 })
      else
        (⟨⟨true, { frame.rest with started := true, worker := .submitted }⟩, workPoint⟩,
          shared.modify fun self => { self with
            semaphore := self.semaphore - 1, queued := self.queued + 1 - 1, in_flight := self.in_flight + 1 }) := by
  have hslot : run (objects studioObject) (slot work : Program ε Unit) frame shared = _ := run_slot studioObject hlock
  split
  case isTrue hfull =>
    rw [if_pos hfull] at hslot
    exact run_leaveStudio hslot
  case isFalse hopen =>
    rw [if_neg hopen] at hslot
    split
    case isTrue hlocked =>
      rw [if_pos hlocked] at hslot
      exact run_ensuring_waiting hslot
    case isFalse hfree =>
      rw [if_neg hfree] at hslot
      refine run_ensuring_calling (hslot.trans ?_)
      rw [run_admitted_ok studioObject (by exact hlock)]
      exact run_holding_calling studioObject rfl

end run

end pii_engine.workers
