import PiiEngine.Lib.Coroutines

open coroutines transitions

namespace pii_engine

/-- What a limiter keeps: its semaphore's value, its lock and its counters. -/
structure AnalysisLimiter where
  semaphore : Nat
  max_queued : Nat
  queued : Int
  in_flight : Int
  lock : Bool

namespace AnalysisLimiter

/-- What a caller of `slot` may see raised: the interrupt of a wait, a lack of capacity, or
    an error of its own. -/
inductive Error (ε : Type) where
  | interrupt (cause : Interrupt)
  | capacity (message : String)
  | raised (error : ε)

/-- The objects that a caller waits for: those of its limiter and others. -/
inductive Awaited (δ : Type) where
  | lock
  | semaphore
  | other (object : δ)
  deriving DecidableEq

/-- The locals of a task inside `slot`. -/
structure Frame (ψ : Type) where
  acquired : Bool
  rest : ψ

/-- The state that the tasks share. -/
structure Shared (τ : Type) where
  limiter : AnalysisLimiter
  rest : τ

/-- A limiter that nobody uses. -/
def new (max_concurrent max_queued : Nat) : AnalysisLimiter := ⟨max_concurrent, max_queued, 0, 0, false⟩

def locked (self : AnalysisLimiter) : Bool := self.semaphore = 0

def release (self : AnalysisLimiter) : AnalysisLimiter := { self with semaphore := self.semaphore + 1 }

section slot
variable {ψ τ δ ρ ε α : Type}

def Shared.modify (f : AnalysisLimiter → AnalysisLimiter) (shared : Shared τ) : Shared τ :=
  { shared with limiter := f shared.limiter }

@[simp] theorem Shared.modify_limiter (f : AnalysisLimiter → AnalysisLimiter) (shared : Shared τ) :
    (shared.modify f).limiter = f shared.limiter := rfl

@[simp] theorem Shared.modify_rest (f : AnalysisLimiter → AnalysisLimiter) (shared : Shared τ) :
    (shared.modify f).rest = shared.rest := rfl

/-- The lock and the semaphore as a task finds them. -/
def objects (others : δ → Object (Shared τ)) : Awaited δ → Object (Shared τ)
  | .lock =>
    { ready := fun shared => !shared.limiter.lock
      take := Shared.modify (fun self => { self with lock := true })
      undo := Shared.modify (fun self => { self with lock := false }) }
  | .semaphore =>
    { ready := fun shared => !shared.limiter.locked
      take := Shared.modify (fun self => { self with semaphore := self.semaphore - 1 })
      undo := Shared.modify release }
  | .other object => others object

/-- `async with self._lock` around the given statements. -/
def withLock (body : Coroutine (Frame ψ) (Shared τ) (Awaited δ) ρ (Error ε) α) :
    Coroutine (Frame ψ) (Shared τ) (Awaited δ) ρ (Error ε) α := do
  .acquire .interrupt .lock false
  body.ensuring (.modifyShared (Shared.modify fun self => { self with lock := false }))

/-- The admission check of `slot`. -/
def enqueue : Coroutine (Frame ψ) (Shared τ) (Awaited δ) ρ (Error ε) Unit :=
  withLock do
    let (_, shared) ← .state
    if shared.limiter.locked ∧ shared.limiter.max_queued ≤ shared.limiter.queued then
      throw (.capacity "analysis queue is full")
    .modifyShared (Shared.modify fun self => { self with queued := self.queued + 1 })

/-- The statements of `slot` after the body, however it ends. -/
def leave : Coroutine (Frame ψ) (Shared τ) (Awaited δ) ρ (Error ε) Unit := do
  withLock (.modifyShared (Shared.modify fun self => { self with in_flight := self.in_flight - 1 }))
  .modifyShared (Shared.modify release)

/-- The outermost cleanup of `slot`. -/
def dequeue : Coroutine (Frame ψ) (Shared τ) (Awaited δ) ρ (Error ε) Unit := do
  let (frame, _) ← .state
  if frame.acquired = false then
    withLock (.modifyShared (Shared.modify fun self => { self with queued := self.queued - 1 }))

/-- The outermost `try` of `slot`, with the wait for the semaphore as an argument. -/
def admitted (waiting : Coroutine (Frame ψ) (Shared τ) (Awaited δ) ρ (Error ε) Unit)
    (body : Coroutine (Frame ψ) (Shared τ) (Awaited δ) ρ (Error ε) α) :
    Coroutine (Frame ψ) (Shared τ) (Awaited δ) ρ (Error ε) α :=
  Coroutine.ensuring
    (do
      try
        waiting
        .modifyFrame (fun frame => { frame with acquired := true })
      catch
        | .interrupt .timeout => throw (.capacity "analysis queue wait timed out")
        | error => throw error
      withLock (.modifyShared (Shared.modify fun self =>
        { self with queued := self.queued - 1, in_flight := self.in_flight + 1 }))
      body.ensuring leave)
    dequeue

/-- A limiter's slot around the given statements. -/
def slot (body : Coroutine (Frame ψ) (Shared τ) (Awaited δ) ρ (Error ε) α) :
    Coroutine (Frame ψ) (Shared τ) (Awaited δ) ρ (Error ε) α := do
  enqueue
  .modifyFrame (fun frame => { frame with acquired := false })
  admitted (.acquire .interrupt .semaphore true) body

/-- What is left of `slot` once a caller holds it. -/
def holding (body : Coroutine (Frame ψ) (Shared τ) (Awaited δ) ρ (Error ε) α) :
    Coroutine (Frame ψ) (Shared τ) (Awaited δ) ρ (Error ε) α :=
  (body.ensuring leave).ensuring dequeue

/-- The error of a caller whose wait for the semaphore is interrupted. -/
def interrupted : Interrupt → Error ε
  | .cancelled => .interrupt .cancelled
  | .timeout => .capacity "analysis queue wait timed out"

/-- A caller that waits for the semaphore, with what it does once the wait is over. -/
def queueing (body : Coroutine (Frame ψ) (Shared τ) (Awaited δ) ρ (Error ε) α) (granted : Bool) :
    Point (Frame ψ) (Shared τ) (Awaited δ) ρ (Error ε) α :=
  .waiting .semaphore true granted (fun outcome => admitted (.finish (outcome.mapError .interrupt)) body)

variable (others : δ → Object (Shared τ)) {body : Coroutine (Frame ψ) (Shared τ) (Awaited δ) ρ (Error ε) α}
  {frame : Frame ψ} {shared : Shared τ}

/-- The admission check refuses a caller or counts it. -/
theorem run_enqueue (hlock : shared.limiter.lock = false)
    (next : Unit → Coroutine (Frame ψ) (Shared τ) (Awaited δ) ρ (Error ε) α) :
    run (objects others) (enqueue.bind next) frame shared =
      if shared.limiter.locked ∧ shared.limiter.max_queued ≤ shared.limiter.queued then
        (⟨frame, .ended (.error (.capacity "analysis queue is full"))⟩, shared)
      else
        run (objects others) (next ()) frame (shared.modify fun self => { self with queued := self.queued + 1 }) := by
  obtain ⟨⟨semaphore, max_queued, queued, in_flight, lock⟩, rest⟩ := shared
  cases hlock
  by_cases hfull : semaphore = 0 ∧ (max_queued : Int) ≤ queued
  · simp [enqueue, withLock, Coroutine.acquire, Coroutine.state, Coroutine.modifyShared, objects, Except.mapError,
      Shared.modify, locked, if_pos hfull]
  · simp [enqueue, withLock, Coroutine.acquire, Coroutine.state, Coroutine.modifyShared, objects, Except.mapError,
      Shared.modify, locked, if_neg hfull]

/-- Where a caller of `slot` comes to stand: refused, queueing, or in the slot. -/
theorem run_slot (hlock : shared.limiter.lock = false) :
    run (objects others) (slot body) frame shared =
      if shared.limiter.locked ∧ shared.limiter.max_queued ≤ shared.limiter.queued then
        (⟨frame, .ended (.error (.capacity "analysis queue is full"))⟩, shared)
      else if shared.limiter.locked then
        (⟨{ frame with acquired := false }, queueing body false⟩,
          shared.modify fun self => { self with queued := self.queued + 1 })
      else
        run (objects others) (admitted (.finish (.ok ())) body) { frame with acquired := false }
          (shared.modify fun self => { self with semaphore := self.semaphore - 1, queued := self.queued + 1 }) := by
  refine (run_enqueue others hlock _).trans ?_
  split
  case isTrue => rfl
  case isFalse =>
    obtain ⟨⟨semaphore, max_queued, queued, in_flight, lock⟩, rest⟩ := shared
    cases semaphore with
    | zero => rfl
    | succ semaphore => rfl

/-- The slot is taken as soon as the semaphore is. -/
theorem run_admitted_ok (hlock : shared.limiter.lock = false) :
    run (objects others) (admitted (.finish (.ok ())) body) frame shared =
      run (objects others) (holding body) { frame with acquired := true }
        (shared.modify fun self => { self with queued := self.queued - 1, in_flight := self.in_flight + 1 }) := by
  obtain ⟨⟨semaphore, max_queued, queued, in_flight, lock⟩, rest⟩ := shared
  cases hlock
  rfl

/-- A caller whose wait is interrupted leaves the queue. -/
theorem run_admitted_error (hlock : shared.limiter.lock = false) (hacquired : frame.acquired = false)
    (cause : Interrupt) :
    run (objects others) (admitted (.finish (.error (.interrupt cause))) body) frame shared =
      (⟨frame, .ended (.error (interrupted cause))⟩,
        shared.modify fun self => { self with queued := self.queued - 1 }) := by
  obtain ⟨⟨semaphore, max_queued, queued, in_flight, lock⟩, rest⟩ := shared
  obtain ⟨acquired, locals⟩ := frame
  cases hlock
  cases hacquired
  cases cause with
  | cancelled => rfl
  | timeout => rfl

/-- A caller whose body ends gives its slot back. -/
theorem run_holding_ended {frame' : Frame ψ} {shared' : Shared τ} {result : Except (Error ε) α}
    (h : run (objects others) body frame shared = (⟨frame', .ended result⟩, shared'))
    (hlock : shared'.limiter.lock = false) (hacquired : frame'.acquired = true) :
    run (objects others) (holding body) frame shared =
      (⟨frame', .ended result⟩, shared'.modify fun self =>
        { self with semaphore := self.semaphore + 1, in_flight := self.in_flight - 1 }) := by
  obtain ⟨⟨semaphore, max_queued, queued, in_flight, lock⟩, rest⟩ := shared'
  obtain ⟨acquired, locals⟩ := frame'
  cases hlock
  cases hacquired
  have hleft : run (objects others) (body.ensuring leave) frame shared =
      (⟨⟨true, locals⟩, .ended result⟩, ⟨⟨semaphore + 1, max_queued, queued, in_flight - 1, false⟩, rest⟩) :=
    (run_ensuring_ended h).trans rfl
  exact (run_ensuring_ended hleft).trans rfl

/-- A caller whose body calls goes on holding its slot. -/
theorem run_holding_calling {frame' : Frame ψ} {shared' : Shared τ}
    {resume : ρ → Coroutine (Frame ψ) (Shared τ) (Awaited δ) ρ (Error ε) α}
    (h : run (objects others) body frame shared = (⟨frame', .calling resume⟩, shared')) :
    run (objects others) (holding body) frame shared =
      (⟨frame', .calling fun value => holding (resume value)⟩, shared') :=
  run_ensuring_calling (run_ensuring_calling h)

end slot

section callers
variable {ρ ε : Type}

/-- The statements of a caller inside its slot, as the limiter sees them: they wait for
    answers from outside, and return or raise. -/
inductive Body (ρ ε : Type) where
  | ret
  | raise (error : ε)
  | call (resume : ρ → Body ρ ε)

/-- A caller of `slot` on a limiter of its own. -/
abbrev Caller (ρ ε : Type) := Task (Frame Unit) (Shared Unit) (Awaited Empty) ρ (Error ε) Unit

/-- The callers of one limiter. -/
abbrev Callers (ρ ε : Type) := Loop (Frame Unit) (Shared Unit) (Awaited Empty) ρ (Error ε) Unit

def Body.run : Body ρ ε → Coroutine (Frame Unit) (Shared Unit) (Awaited Empty) ρ (Error ε) Unit
  | ret => .finish (.ok ())
  | raise error => .finish (.error (.raised error))
  | call resume => .call (fun value => (resume value).run)

def Callers.initial (max_concurrent max_queued : Nat) : Callers ρ ε := ⟨⟨new max_concurrent max_queued, ()⟩, []⟩

/-- A caller enters `slot` with any statements. -/
def Enters (program : Coroutine (Frame Unit) (Shared Unit) (Awaited Empty) ρ (Error ε) Unit) (_ : Frame Unit) : Prop :=
  ∃ body : Body ρ ε, program = slot body.run

/-- The steps of the callers of one limiter: entries, grants of the semaphore, interrupts
    of a wait and answers to a body. -/
abbrev CallerStep : Callers ρ ε → Event (Frame Unit) (Shared Unit) (Awaited Empty) ρ (Error ε) Unit →
    Callers ρ ε → Prop :=
  Step (objects Empty.elim) Enters

/-- The caller waits for the semaphore, whether it was granted or not. -/
def queues (task : Caller ρ ε) : Bool := task.point.waitsFor .semaphore

/-- The caller was granted the semaphore and has not gone on yet. -/
def isGranted (task : Caller ρ ε) : Bool := task.point.granted .semaphore

/-- The caller is in its body. -/
def holds (task : Caller ρ ε) : Bool := task.point.calls

def Callers.waiting (s : Callers ρ ε) : Nat := s.tasks.countP queues

def Callers.granted (s : Callers ρ ε) : Nat := s.tasks.countP isGranted

def Callers.holding (s : Callers ρ ε) : Nat := s.tasks.countP holds

/-- The caller was refused a place in the queue. -/
def Refused (task : Caller ρ ε) : Prop := task.point = .ended (.error (.capacity "analysis queue is full"))

/-- Where a caller can stand. -/
inductive Reached : Caller ρ ε → Prop
  | ended (frame : Frame Unit) (result : Except (Error ε) Unit) : Reached ⟨frame, .ended result⟩
  | queueing (frame : Frame Unit) (body : Body ρ ε) (granted : Bool) (hacquired : frame.acquired = false) :
      Reached ⟨frame, queueing body.run granted⟩
  | calling (frame : Frame Unit) (resume : ρ → Body ρ ε) (hacquired : frame.acquired = true) :
      Reached ⟨frame, .calling fun value => AnalysisLimiter.holding (resume value).run⟩

/-- A task that stood for the given shares of a limiter's counters moves to its next point:
    the counters change by what it stands for then. -/
structure Moves (waits grants slots : Nat) (self : AnalysisLimiter) (next : Caller ρ ε) (self' : AnalysisLimiter) :
    Prop where
  reached : Reached next
  lock : self'.lock = false
  max_queued : self'.max_queued = self.max_queued
  semaphore : self'.semaphore + weight isGranted next + weight holds next =
    self.semaphore + grants + slots
  queued : self'.queued + waits = self.queued + weight queues next
  in_flight : self'.in_flight + slots = self.in_flight + weight holds next

/-- The task was not refused, and it does not wait for the semaphore unless it did before. -/
def Calm (waits : Nat) (next : Caller ρ ε) : Prop :=
  ¬ Refused next ∧ weight queues next ≤ waits

theorem Calm.of_zero {waits : Nat} {next : Caller ρ ε} (h : Calm 0 next) : Calm waits next :=
  ⟨h.1, Nat.le_trans h.2 (Nat.zero_le waits)⟩

/-- A caller whose body ends gives its slot back, and the counters follow. -/
theorem moves_holding_finish {frame : Frame Unit} {shared shared' : Shared Unit} {next : Caller ρ ε}
    {result : Except (Error ε) Unit} (hresult : result ≠ .error (.capacity "analysis queue is full"))
    (hlock : shared.limiter.lock = false) (hacquired : frame.acquired = true)
    (h : run (objects Empty.elim) (AnalysisLimiter.holding (.finish result)) frame shared = (next, shared')) :
    Moves 0 0 1 shared.limiter next shared'.limiter ∧ Calm 0 next := by
  rw [run_holding_ended Empty.elim rfl hlock hacquired] at h
  cases h
  have hrefused : ¬ Refused (⟨frame, .ended result⟩ : Caller ρ ε) := by
    intro h
    apply hresult
    injection h
  refine ⟨⟨.ended frame result, hlock, rfl, rfl, rfl, ?_⟩, hrefused, Nat.le_refl _⟩
  change shared.limiter.in_flight - 1 + 1 = shared.limiter.in_flight + 0
  omega

/-- A caller in its slot runs its body until that calls or ends. -/
theorem moves_holding {frame : Frame Unit} {shared shared' : Shared Unit} {next : Caller ρ ε} (body : Body ρ ε)
    (hlock : shared.limiter.lock = false) (hacquired : frame.acquired = true)
    (h : run (objects Empty.elim) (AnalysisLimiter.holding body.run) frame shared = (next, shared')) :
    Moves 0 0 1 shared.limiter next shared'.limiter ∧ Calm 0 next := by
  cases body with
  | ret => exact moves_holding_finish (by simp) hlock hacquired h
  | raise error => exact moves_holding_finish (by simp) hlock hacquired h
  | call resume =>
    rw [run_holding_calling Empty.elim rfl] at h
    cases h
    exact ⟨⟨.calling _ _ hacquired, hlock, rfl, rfl, rfl, rfl⟩, by simp [Refused], Nat.le_refl _⟩

/-- A caller that goes on with the semaphore leaves the queue for its slot. -/
theorem moves_admitted {frame : Frame Unit} {shared shared' : Shared Unit} {next : Caller ρ ε} (body : Body ρ ε)
    (hlock : shared.limiter.lock = false)
    (h : run (objects Empty.elim) (admitted (.finish (.ok ())) body.run) frame shared = (next, shared')) :
    Moves 1 1 0 shared.limiter next shared'.limiter ∧ Calm 0 next := by
  rw [run_admitted_ok Empty.elim hlock] at h
  obtain ⟨hmoves, hcalm⟩ := moves_holding body (by exact hlock) rfl h
  obtain ⟨hreached, hunlocked, hmax, hsemaphore, hqueued, hin_flight⟩ := hmoves
  dsimp only [Shared.modify_limiter] at hsemaphore hqueued hin_flight
  refine ⟨⟨hreached, hunlocked, hmax, ?_, ?_, ?_⟩, hcalm⟩
  · omega
  · omega
  · omega

/-- A caller whose wait is interrupted gives back what it was granted and leaves the queue. -/
theorem moves_interrupted {frame : Frame Unit} {shared shared' : Shared Unit} {next : Caller ρ ε} (body : Body ρ ε)
    (granted : Bool) (cause : Interrupt) (hlock : shared.limiter.lock = false) (hacquired : frame.acquired = false)
    (h : run (objects Empty.elim) (admitted (.finish (.error (.interrupt cause))) body.run) frame
      (if granted then shared.modify release else shared) = (next, shared')) :
    Moves 1 (if granted then 1 else 0) 0 shared.limiter next shared'.limiter ∧ Calm 0 next := by
  have hunlocked : (if granted then shared.modify release else shared).limiter.lock = false := by
    cases granted with
    | false => exact hlock
    | true => exact hlock
  rw [run_admitted_error Empty.elim hunlocked hacquired] at h
  cases h
  have hrefused : ¬ Refused (⟨frame, .ended (.error (interrupted cause))⟩ : Caller ρ ε) := by
    cases cause with
    | cancelled => simp [Refused, interrupted]
    | timeout => simp [Refused, interrupted]
  cases granted with
  | false =>
    refine ⟨⟨.ended _ _, hlock, rfl, rfl, ?_, rfl⟩, hrefused, Nat.le_refl _⟩
    change shared.limiter.queued - 1 + 1 = shared.limiter.queued + 0
    omega
  | true =>
    refine ⟨⟨.ended _ _, hlock, rfl, rfl, ?_, rfl⟩, hrefused, Nat.le_refl _⟩
    change shared.limiter.queued - 1 + 1 = shared.limiter.queued + 0
    omega

/-- What the event loop does to a caller moves it and keeps the counters in step. -/
theorem Reached.signal {task next : Caller ρ ε} {shared shared' : Shared Unit} {signal : Signal ρ}
    (hreached : Reached task) (hlock : shared.limiter.lock = false)
    (h : task.signal (objects Empty.elim) signal shared = some (next, shared')) :
    Moves (weight queues task) (weight isGranted task)
      (weight holds task) shared.limiter next shared'.limiter ∧
    Calm (weight queues task) next := by
  cases hreached with
  | ended frame result =>
    rw [signal_ended] at h
    cases h
  | calling frame resume hacquired =>
    obtain ⟨value, -, hrun⟩ := signal_calling h
    exact moves_holding (resume value) hlock hacquired hrun
  | queueing frame body granted hacquired =>
    rcases signal_waiting h with ⟨-, rfl, hready, rfl, rfl⟩ | ⟨-, rfl, hrun⟩ | ⟨cause, -, hrun⟩
    · have hfree : shared.limiter.semaphore ≠ 0 := by simpa [objects, locked] using hready
      refine ⟨⟨.queueing frame body true hacquired, hlock, rfl, ?_, rfl, rfl⟩, by simp [Refused],
        Nat.le_refl _⟩
      change shared.limiter.semaphore - 1 + 1 + 0 = shared.limiter.semaphore + 0 + 0
      omega
    · obtain ⟨hmoves, hcalm⟩ := moves_admitted body hlock hrun
      exact ⟨hmoves, hcalm.of_zero⟩
    · obtain ⟨hmoves, hcalm⟩ := moves_interrupted body granted cause hlock hacquired hrun
      refine ⟨?_, hcalm.of_zero⟩
      cases granted with
      | false => exact hmoves
      | true => exact hmoves

/-- The limiter's counters say what its callers do. -/
structure Accounted (max_concurrent max_queued : Nat) (s : Callers ρ ε) : Prop where
  reached : ∀ task ∈ s.tasks, Reached task
  lock : s.shared.limiter.lock = false
  bound : s.shared.limiter.max_queued = max_queued
  semaphore : s.shared.limiter.semaphore + s.granted + s.holding = max_concurrent
  queued : s.shared.limiter.queued = s.waiting
  in_flight : s.shared.limiter.in_flight = s.holding
  bounded : s.waiting ≤ max_queued

theorem accounted_initial (max_concurrent max_queued : Nat) :
    Accounted max_concurrent max_queued (Callers.initial max_concurrent max_queued : Callers ρ ε) :=
  ⟨by simp [Callers.initial], rfl, rfl, rfl, rfl, rfl, Nat.zero_le _⟩

/-- A caller that enters is refused, queues within the bound or goes into its body. -/
theorem moves_slot {frame : Frame Unit} {shared shared' : Shared Unit} {next : Caller ρ ε} (body : Body ρ ε)
    (hlock : shared.limiter.lock = false)
    (h : run (objects Empty.elim) (slot body.run) frame shared = (next, shared')) :
    Moves 0 0 0 shared.limiter next shared'.limiter ∧
      (Calm 0 next ∨
        Refused next ∧ weight queues next = 0 ∧ shared.limiter.semaphore = 0 ∧
          shared.limiter.max_queued ≤ shared.limiter.queued ∨
        ¬ Refused next ∧ shared.limiter.queued < shared.limiter.max_queued) := by
  rw [run_slot Empty.elim hlock] at h
  split at h
  case isTrue hfull =>
    cases h
    have hsemaphore : shared.limiter.semaphore = 0 := by simpa [locked] using hfull.1
    exact ⟨⟨.ended _ _, hlock, rfl, rfl, rfl, rfl⟩, Or.inr (Or.inl ⟨rfl, rfl, hsemaphore, hfull.2⟩)⟩
  case isFalse hopen =>
    split at h
    case isTrue hlocked =>
      cases h
      refine ⟨⟨.queueing _ _ false rfl, hlock, rfl, rfl, ?_, rfl⟩, Or.inr (Or.inr ⟨by simp [Refused, queueing], ?_⟩)⟩
      · change shared.limiter.queued + 1 + 0 = shared.limiter.queued + 1
        omega
      · exact Int.not_le.mp (fun hle => hopen ⟨hlocked, hle⟩)
    case isFalse hfree =>
      have hsemaphore : shared.limiter.semaphore ≠ 0 := by simpa [locked] using hfree
      obtain ⟨⟨hreached, hunlocked, hmax, hpermits, hqueued, hin_flight⟩, hcalm⟩ :=
        moves_admitted body (by exact hlock) h
      dsimp only [Shared.modify_limiter] at hpermits hqueued hin_flight
      refine ⟨⟨hreached, hunlocked, hmax, ?_, ?_, ?_⟩, Or.inl hcalm⟩
      · omega
      · omega
      · omega

/-- A step refuses its caller only with every slot taken and a full queue. -/
def RefusesOnlyFull (max_concurrent max_queued : Nat) (s t : Callers ρ ε) : Prop :=
  ∀ (index : Nat) (task : Caller ρ ε), t.tasks[index]? = some task → Refused task → s.tasks[index]? = some task ∨
    s.granted + s.holding = max_concurrent ∧ s.waiting = max_queued

theorem Accounted.start {max_concurrent max_queued : Nat} {s : Callers ρ ε} {shared : Shared Unit} {next : Caller ρ ε}
    {frame : Frame Unit} (body : Body ρ ε) (hs : Accounted max_concurrent max_queued s)
    (h : run (objects Empty.elim) (slot body.run) frame s.shared = (next, shared)) :
    Accounted max_concurrent max_queued ⟨shared, s.tasks ++ [next]⟩ ∧
      RefusesOnlyFull max_concurrent max_queued s ⟨shared, s.tasks ++ [next]⟩ := by
  obtain ⟨hreached, hlock, hbound, hsemaphore, hqueued, hin_flight, hbounded⟩ := hs
  obtain ⟨⟨hnext, hunlocked, hmax, hpermits, hwaits, hholds⟩, houtcome⟩ := moves_slot body hlock h
  have hone := weight_le_one (p := queues) next
  dsimp only [Callers.granted, Callers.holding, Callers.waiting] at hsemaphore hqueued hin_flight hbounded
  constructor
  · refine ⟨?_, hunlocked, hmax.trans hbound, ?_, ?_, ?_, ?_⟩
    · intro task htask
      rw [List.mem_append, List.mem_singleton] at htask
      cases htask with
      | inl hold => exact hreached task hold
      | inr hnew => rwa [hnew]
    · simp only [Callers.granted, Callers.holding, countP_append_weight]
      omega
    · simp only [Callers.waiting, countP_append_weight]
      omega
    · simp only [Callers.holding, countP_append_weight]
      omega
    · simp only [Callers.waiting, countP_append_weight]
      rcases houtcome with ⟨-, hcalm⟩ | ⟨-, hzero, -⟩ | ⟨-, hroom⟩
      · omega
      · omega
      · omega
  · intro index task htask hrefused
    rw [List.getElem?_append] at htask
    split at htask
    case isTrue => exact Or.inl htask
    case isFalse =>
      have hnew : task = next := List.mem_singleton.mp (List.mem_of_getElem? htask)
      rw [hnew] at hrefused
      rcases houtcome with ⟨hnot, -⟩ | ⟨-, -, hempty, hfull⟩ | ⟨hnot, -⟩
      · exact absurd hrefused hnot
      · refine Or.inr ⟨?_, ?_⟩
        · dsimp only [Callers.granted, Callers.holding]
          omega
        · dsimp only [Callers.waiting]
          omega
      · exact absurd hrefused hnot

theorem Accounted.signal {max_concurrent max_queued : Nat} {s : Callers ρ ε} {shared : Shared Unit}
    {index : Nat} {signal : Signal ρ} {task next : Caller ρ ε} (hs : Accounted max_concurrent max_queued s)
    (htask : s.tasks[index]? = some task)
    (h : task.signal (objects Empty.elim) signal s.shared = some (next, shared)) :
    Accounted max_concurrent max_queued ⟨shared, s.tasks.set index next⟩ ∧
      RefusesOnlyFull max_concurrent max_queued s ⟨shared, s.tasks.set index next⟩ := by
  obtain ⟨hreached, hlock, hbound, hsemaphore, hqueued, hin_flight, hbounded⟩ := hs
  obtain ⟨⟨hnext, hunlocked, hmax, hpermits, hwaits, hholds⟩, hrefused, hcalm⟩ :=
    (hreached task (List.mem_of_getElem? htask)).signal hlock h
  have hwaiting := countP_set_weight (p := queues) next htask
  have hgranted := countP_set_weight (p := isGranted) next htask
  have hcalls := countP_set_weight (p := holds) next htask
  dsimp only [Callers.granted, Callers.holding, Callers.waiting] at hsemaphore hqueued hin_flight hbounded
  constructor
  · refine ⟨?_, hunlocked, hmax.trans hbound, ?_, ?_, ?_, ?_⟩
    · intro other hother
      cases List.mem_or_eq_of_mem_set hother with
      | inl hold => exact hreached other hold
      | inr hnew => rwa [hnew]
    · dsimp only [Callers.granted, Callers.holding]
      omega
    · dsimp only [Callers.waiting]
      omega
    · dsimp only [Callers.holding]
      omega
    · dsimp only [Callers.waiting]
      omega
  · intro other found hfound hfull
    rw [List.getElem?_set] at hfound
    split at hfound
    case isTrue =>
      have hnew : found = next := by
        split at hfound
        case isTrue => exact (Option.some.inj hfound).symm
        case isFalse => cases hfound
      rw [hnew] at hfull
      exact absurd hfull hrefused
    case isFalse => exact Or.inl hfound

/-- Every step keeps the accounts. -/
theorem Accounted.step {max_concurrent max_queued : Nat} {s t : Callers ρ ε}
    {event : Event (Frame Unit) (Shared Unit) (Awaited Empty) ρ (Error ε) Unit}
    (hs : Accounted max_concurrent max_queued s) (h : CallerStep s event t) :
    Accounted max_concurrent max_queued t ∧ RefusesOnlyFull max_concurrent max_queued s t := by
  cases h with
  | start program frame hstarts =>
    obtain ⟨body, rfl⟩ := hstarts
    exact hs.start body rfl
  | signal index signal task next shared htask hsignal => exact hs.signal htask hsignal

/-- Every reachable state of a limiter's callers keeps the accounts. -/
theorem accounted_of_run {max_concurrent max_queued : Nat}
    {events : List (Event (Frame Unit) (Shared Unit) (Awaited Empty) ρ (Error ε) Unit)} {t : Callers ρ ε}
    (h : Run CallerStep (Callers.initial max_concurrent max_queued) events t) :
    Accounted max_concurrent max_queued t :=
  h.invariant (Accounted max_concurrent max_queued) (fun _ _ _ hs hstep => (hs.step hstep).1)
    (accounted_initial max_concurrent max_queued)

/-- A count over callers that all ended. -/
theorem countP_ended {p : Caller ρ ε → Bool} {tasks : List (Caller ρ ε)} (hended : ∀ task ∈ tasks, task.point.isEnded)
    (hp : ∀ frame result, p ⟨frame, .ended result⟩ = false) : tasks.countP p = 0 := by
  rw [List.countP_eq_zero]
  intro task htask
  obtain ⟨frame, point⟩ := task
  have hpoint := hended _ htask
  cases point with
  | ended result => simp [hp frame result]
  | waiting object timed granted resume => cases hpoint
  | calling resume => cases hpoint

/-- Admission accounting under every interleaving of entries, grants, timeouts,
    cancellations and exits: the counters stay within their bounds and say what the callers
    do, nobody waits for the lock, a caller is refused only when every slot is taken and the
    queue is full, and once all callers have ended everything is free again. -/
theorem slot_accounting {max_concurrent max_queued : Nat}
    {events : List (Event (Frame Unit) (Shared Unit) (Awaited Empty) ρ (Error ε) Unit)} {t : Callers ρ ε}
    (h : Run CallerStep (Callers.initial max_concurrent max_queued) events t) :
    (0 ≤ t.shared.limiter.in_flight ∧ t.shared.limiter.in_flight ≤ max_concurrent) ∧
    (0 ≤ t.shared.limiter.queued ∧ t.shared.limiter.queued ≤ max_queued) ∧
    t.shared.limiter.queued = t.waiting ∧ t.shared.limiter.in_flight = t.holding ∧
    (∀ task ∈ t.tasks, task.point.waitsFor .lock = false) ∧
    (∀ event u, CallerStep t event u → RefusesOnlyFull max_concurrent max_queued t u) ∧
    ((∀ task ∈ t.tasks, task.point.isEnded) →
      t.shared.limiter.queued = 0 ∧ t.shared.limiter.in_flight = 0 ∧
        t.shared.limiter.semaphore = max_concurrent) := by
  obtain ⟨hreached, -, -, hsemaphore, hqueued, hin_flight, hbounded⟩ := accounted_of_run h
  refine ⟨⟨?_, ?_⟩, ⟨?_, ?_⟩, hqueued, hin_flight, ?_, ?_, ?_⟩
  · omega
  · omega
  · omega
  · omega
  · intro task htask
    cases hreached task htask with
    | ended frame result => rfl
    | queueing frame body granted hacquired => rfl
    | calling frame resume hacquired => rfl
  · intro event u hstep
    exact ((accounted_of_run h).step hstep).2
  · intro hended
    have hwaiting : t.waiting = 0 := countP_ended hended (fun _ _ => rfl)
    have hgranted : t.granted = 0 := countP_ended hended (fun _ _ => rfl)
    have hholding : t.holding = 0 := countP_ended hended (fun _ _ => rfl)
    omega

/-- A body that waits for one answer. -/
def Body.sample : Body Unit Unit := .call (fun _ => .ret)

/-- One slot and one place in the queue: a second caller queues, is granted the slot that the
    first one leaves, and is cancelled before it goes on. -/
theorem slot_accounting_cancelled :
    ∃ t : Callers Unit Unit,
      Run CallerStep (Callers.initial 1 1)
        [.start (slot Body.sample.run) ⟨false, ()⟩, .start (slot Body.sample.run) ⟨false, ()⟩,
          .signal 0 (.answer ()), .signal 1 .grant, .signal 1 (.interrupt .cancelled)] t ∧
      t.shared.limiter.queued = 0 ∧ t.shared.limiter.in_flight = 0 ∧ t.shared.limiter.semaphore = 1 := by
  have hrun : Run CallerStep (Callers.initial 1 1)
      [.start (slot Body.sample.run) ⟨false, ()⟩, .start (slot Body.sample.run) ⟨false, ()⟩,
        .signal 0 (.answer ()), .signal 1 .grant, .signal 1 (.interrupt .cancelled)]
      (⟨⟨new 1 1, ()⟩, [⟨⟨true, ()⟩, .ended (.ok ())⟩,
        ⟨⟨false, ()⟩, .ended (.error (.interrupt .cancelled))⟩]⟩ : Callers Unit Unit) :=
    .cons (.start _ _ _ ⟨Body.sample, rfl⟩) <| .cons (.start _ _ _ ⟨Body.sample, rfl⟩) <|
      .cons (.signal _ 0 (.answer ()) _ _ _ rfl rfl) <| .cons (.signal _ 1 .grant _ _ _ rfl rfl) <|
      .cons (.signal _ 1 (.interrupt .cancelled) _ _ _ rfl rfl) <| .nil _
  obtain ⟨-, -, -, -, -, -, hended⟩ := slot_accounting hrun
  exact ⟨_, hrun, hended (by decide)⟩

end callers

end AnalysisLimiter

end pii_engine
