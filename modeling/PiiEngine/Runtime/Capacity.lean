import PiiEngine.Runtime.Workers

open coroutines transitions
open pii_engine.AnalysisLimiter

namespace pii_engine.workers

variable {ε : Type}

/-- The task has a slot, or was granted one. -/
def holdsSlot (r : Request ε) : Bool := r.task.any fun task => task.point.granted .semaphore || task.point.calls

/-- The task has a Studio permit, or was granted one. -/
def holdsStudio (r : Request ε) : Bool :=
  r.task.any fun task =>
    task.point.granted (.other .studio) || (!task.point.isEnded && task.frame.rest.studio_acquired)

/-- The task holds or queues for a slot. -/
def sharesSlots (r : Request ε) : Bool := r.task.any fun task => task.point.waitsFor .semaphore || task.point.calls

/-- A thread works for the request, or is about to. -/
def executes (r : Request ε) : Bool :=
  r.task.any fun task =>
    match task.frame.rest.worker with
    | .idle => false
    | .submitted => true
    | .running => true
    | .finished _ => false

/-- Where a request's task can stand, and what its locals say there. -/
inductive Stands (path : RequestPath) : Option (RunTask ε) → Prop
  | created : Stands path none
  | studio (frame : Frame (TaskFrame (Outcome ε))) (granted : Bool) (hpath : path.studio = true)
      (hstudio : frame.rest.studio_acquired = false) (hstarted : frame.rest.started = false)
      (hworker : frame.rest.worker = .idle) : Stands path (some ⟨frame, path.studioPoint granted⟩)
  | queueing (frame : Frame (TaskFrame (Outcome ε))) (granted : Bool) (hacquired : frame.acquired = false)
      (hstudio : frame.rest.studio_acquired = path.studio) (hstarted : frame.rest.started = false)
      (hworker : frame.rest.worker = .idle) : Stands path (some ⟨frame, queuePoint granted⟩)
  | working (frame : Frame (TaskFrame (Outcome ε))) (hacquired : frame.acquired = true)
      (hstudio : frame.rest.studio_acquired = path.studio) (hstarted : frame.rest.started = true)
      (hworker : frame.rest.worker ≠ .idle) : Stands path (some ⟨frame, workPoint⟩)
  | ended (frame : Frame (TaskFrame (Outcome ε))) (result : Except (Error ε) Unit)
      (hworker : frame.rest.started = false ∧ frame.rest.worker = .idle ∨
        frame.rest.started = true ∧ ∃ outcome, frame.rest.worker = .finished outcome) :
      Stands path (some ⟨frame, .ended result⟩)

/-- The task of a request that held the given permits moves, and the permits that are free
    change by what it holds then. It gives a permit up only at its end. -/
structure Moves (slots permits : Nat) (shared : Shared Nat) (r : Request ε) (shared' : Shared Nat) :
    Prop where
  stands : Stands r.path r.task
  lock : shared'.limiter.lock = false
  semaphore : shared'.limiter.semaphore + weight holdsSlot r = shared.limiter.semaphore + slots
  studio : shared'.rest + weight holdsStudio r = shared.rest + permits
  kept : r.ended = true ∨ slots ≤ weight holdsSlot r ∧ permits ≤ weight holdsStudio r

/-- What a request holds of the Studio permits past its wait for one. -/
def RequestPath.permits (path : RequestPath) : Nat := if path.studio then 1 else 0

/-- A frame of a request past its wait for a Studio permit, before its work. -/
structure Entered (path : RequestPath) (frame : Frame (TaskFrame (Outcome ε))) : Prop where
  studio : frame.rest.studio_acquired = path.studio
  started : frame.rest.started = false
  worker : frame.rest.worker = .idle

theorem settled_lock {frame : Frame (TaskFrame (Outcome ε))} {shared : Shared Nat} :
    (settled frame shared).limiter = shared.limiter := by
  rw [settled]
  split
  case isTrue => rfl
  case isFalse => rfl

theorem settled_rest {frame : Frame (TaskFrame (Outcome ε))} {shared : Shared Nat} {path : RequestPath}
    (h : frame.rest.studio_acquired = path.studio) : (settled frame shared).rest = shared.rest + path.permits := by
  rw [settled, RequestPath.permits, h]
  split
  case isTrue => rfl
  case isFalse => rfl

theorem weight_holdsStudio_queue {r : Request ε} {frame : Frame (TaskFrame (Outcome ε))} {granted : Bool}
    (h : frame.rest.studio_acquired = r.path.studio) :
    weight holdsStudio { r with task := some ⟨frame, queuePoint granted⟩ } = r.path.permits := by
  have hholds : holdsStudio { r with task := some ⟨frame, queuePoint granted⟩ } = r.path.studio := h
  rw [weight, hholds, RequestPath.permits]

theorem weight_holdsStudio_work {r : Request ε} {frame : Frame (TaskFrame (Outcome ε))}
    (h : frame.rest.studio_acquired = r.path.studio) :
    weight holdsStudio { r with task := some ⟨frame, workPoint⟩ } = r.path.permits := by
  have hholds : holdsStudio { r with task := some ⟨frame, workPoint⟩ } = r.path.studio := h
  rw [weight, hholds, RequestPath.permits]

/-- A request at the limiter goes on with its Studio permit or gives it back. -/
theorem moves_inside {frame : Frame (TaskFrame (Outcome ε))} {shared shared' : Shared Nat} {next : RunTask ε}
    {r : Request ε} (hframe : Entered r.path frame) (hlock : shared.limiter.lock = false)
    (h : run (objects studioObject) inside frame shared = (next, shared')) :
    Moves 0 r.path.permits shared { r with task := some next } shared' := by
  rw [run_inside hlock] at h
  split at h
  case isTrue hfull =>
    cases h
    refine ⟨.ended _ _ (Or.inl ⟨hframe.started, hframe.worker⟩), ?_, ?_, ?_, Or.inl rfl⟩
    · rw [settled_lock]
      exact hlock
    · rw [settled_lock]
      rfl
    · rw [settled_rest hframe.studio]
      rfl
  case isFalse hopen =>
    split at h
    case isTrue hlocked =>
      cases h
      have hstudio : weight holdsStudio { r with task := some ⟨frame, queuePoint false⟩ } = r.path.permits :=
        weight_holdsStudio_queue hframe.studio
      refine ⟨.queueing _ false rfl hframe.studio hframe.started hframe.worker, hlock, rfl, ?_, ?_⟩
      · exact congrArg (shared.rest + ·) hstudio
      · exact Or.inr ⟨Nat.zero_le _, Nat.le_of_eq hstudio.symm⟩
    case isFalse hfree =>
      cases h
      have hsemaphore : shared.limiter.semaphore ≠ 0 := by simpa [locked] using hfree
      have hstudio : weight holdsStudio { r with task := some ⟨frame, workPoint⟩ } = r.path.permits :=
        weight_holdsStudio_work hframe.studio
      refine ⟨.working _ rfl hframe.studio rfl (by simp), hlock, ?_, ?_, ?_⟩
      · change shared.limiter.semaphore - 1 + 1 = shared.limiter.semaphore + 0
        omega
      · exact congrArg (shared.rest + ·) hstudio
      · exact Or.inr ⟨Nat.zero_le _, Nat.le_of_eq hstudio.symm⟩

/-- A request that goes on past its wait for a Studio permit holds one. -/
theorem moves_resumed {frame : Frame (TaskFrame (Outcome ε))} {shared shared' : Shared Nat}
    {next : RunTask ε} {r : Request ε} (hpath : r.path.studio = true) (hstarted : frame.rest.started = false)
    (hworker : frame.rest.worker = .idle) (hlock : shared.limiter.lock = false)
    (h : run (objects studioObject) (r.path.resumed (.ok ())) frame shared = (next, shared')) :
    Moves 0 1 shared { r with task := some next } shared' := by
  rw [run_resumed_ok] at h
  have hframe : Entered r.path (setAcquired frame true) := ⟨hpath.symm, hstarted, hworker⟩
  have hmoves := moves_inside hframe hlock h
  rwa [RequestPath.permits, if_pos hpath] at hmoves

/-- The first run of a request's task. -/
theorem moves_program {shared shared' : Shared Nat} {next : RunTask ε} {r : Request ε}
    (hlock : shared.limiter.lock = false)
    (h : run (objects studioObject) r.path.program newFrame shared = (next, shared')) :
    Moves 0 0 shared { r with task := some next } shared' := by
  cases hpath : r.path.studio with
  | false =>
    rw [run_program_plain r.path hpath] at h
    have hframe : Entered r.path (setAcquired (newFrame : Frame (TaskFrame (Outcome ε))) false) :=
      ⟨hpath.symm, rfl, rfl⟩
    have hmoves := moves_inside hframe hlock h
    rwa [RequestPath.permits, if_neg (by simp [hpath])] at hmoves
  | true =>
    rw [run_program_studio r.path hpath] at h
    split at h
    case isTrue hempty =>
      cases h
      exact ⟨.studio _ false hpath rfl rfl rfl, hlock, rfl, rfl, Or.inr ⟨Nat.zero_le _, Nat.zero_le _⟩⟩
    case isFalse hfree =>
      obtain ⟨hstands, hunlocked, hsemaphore, hstudio, -⟩ := moves_resumed hpath rfl rfl (by exact hlock) h
      refine ⟨hstands, hunlocked, hsemaphore, ?_, Or.inr ⟨Nat.zero_le _, Nat.zero_le _⟩⟩
      dsimp only at hstudio
      omega

/-- The answer of a request's thread ends it. -/
theorem moves_answered {frame : Frame (TaskFrame (Outcome ε))} {shared shared' : Shared Nat} {next : RunTask ε}
    {r : Request ε} {outcome : Outcome ε} (hacquired : frame.acquired = true)
    (hstudio : frame.rest.studio_acquired = r.path.studio) (hstarted : frame.rest.started = true)
    (hworker : frame.rest.worker = .finished outcome) (hlock : shared.limiter.lock = false)
    (h : run (objects studioObject) ((holding (.finish outcome)).ensuring leaveStudio) frame shared = (next, shared')) :
    Moves 1 r.path.permits shared { r with task := some next } shared' := by
  rw [run_answered_work hlock hacquired] at h
  cases h
  refine ⟨.ended _ _ (Or.inr ⟨hstarted, outcome, hworker⟩), ?_, ?_, ?_, Or.inl rfl⟩
  · rw [settled_lock]
    exact hlock
  · rw [settled_lock]
    rfl
  · rw [settled_rest hstudio]
    rfl

/-- A request that goes on with a slot hands its work to a thread. -/
theorem moves_admitted_work {frame : Frame (TaskFrame (Outcome ε))} {shared shared' : Shared Nat} {next : RunTask ε}
    {r : Request ε} (hstudio : frame.rest.studio_acquired = r.path.studio) (hlock : shared.limiter.lock = false)
    (h : run (objects studioObject) ((admitted (.finish (.ok ())) work).ensuring leaveStudio) frame shared =
      (next, shared')) :
    Moves 1 r.path.permits shared { r with task := some next } shared' := by
  rw [run_admitted_work hlock] at h
  cases h
  have hweight : weight holdsStudio { r with task := some ⟨frame, workPoint⟩ } = r.path.permits :=
    weight_holdsStudio_work hstudio
  refine ⟨.working _ rfl hstudio rfl (by simp), hlock, rfl, ?_, ?_⟩
  · exact congrArg (shared.rest + ·) hweight
  · exact Or.inr ⟨Nat.le_refl _, Nat.le_of_eq hweight.symm⟩

/-- A request that is interrupted in the queue gives back what it was granted. -/
theorem moves_interrupted_work {frame : Frame (TaskFrame (Outcome ε))} {shared shared' : Shared Nat}
    {next : RunTask ε} {r : Request ε} (granted : Bool) {cause : Interrupt} (hframe : Entered r.path frame)
    (hacquired : frame.acquired = false) (hlock : shared.limiter.lock = false)
    (h : run (objects studioObject) ((admitted (.finish (.error (.interrupt cause))) work).ensuring leaveStudio) frame
      (if granted then shared.modify release else shared) = (next, shared')) :
    Moves (if granted then 1 else 0) r.path.permits shared { r with task := some next } shared' := by
  have hunlocked : (if granted then shared.modify release else shared).limiter.lock = false := by
    cases granted with
    | false => exact hlock
    | true => exact hlock
  rw [run_interrupted_work hunlocked hacquired] at h
  cases h
  refine ⟨.ended _ _ (Or.inl ⟨hframe.started, hframe.worker⟩), ?_, ?_, ?_, Or.inl rfl⟩
  · rw [settled_lock]
    exact hunlocked
  · rw [settled_lock]
    cases granted with
    | false => rfl
    | true => rfl
  · rw [settled_rest hframe.studio]
    cases granted with
    | false => rfl
    | true => rfl

/-- A request that is interrupted before it holds a Studio permit gives back what it was granted. -/
theorem moves_interrupted_studio {frame : Frame (TaskFrame (Outcome ε))} {shared shared' : Shared Nat}
    {next : RunTask ε} {r : Request ε} (granted : Bool) {cause : Interrupt}
    (hstudio : frame.rest.studio_acquired = false) (hstarted : frame.rest.started = false)
    (hworker : frame.rest.worker = .idle) (hlock : shared.limiter.lock = false)
    (h : run (objects studioObject) (r.path.resumed (.error cause)) frame
      (if granted then releaseStudio shared else shared) = (next, shared')) :
    Moves 0 (if granted then 1 else 0) shared { r with task := some next } shared' := by
  obtain ⟨error, hrun⟩ : ∃ error, run (objects studioObject) (r.path.resumed (.error cause)) frame
      (if granted then releaseStudio shared else shared) = (⟨frame, .ended (.error error)⟩, _) :=
    run_resumed_error r.path cause hstudio
  rw [hrun] at h
  cases h
  cases granted with
  | false => exact ⟨.ended _ _ (Or.inl ⟨hstarted, hworker⟩), hlock, rfl, rfl, Or.inl rfl⟩
  | true => exact ⟨.ended _ _ (Or.inl ⟨hstarted, hworker⟩), hlock, rfl, rfl, Or.inl rfl⟩

/-- A request that is granted a Studio permit takes it from the free ones. -/
theorem moves_granted_studio {frame : Frame (TaskFrame (Outcome ε))} {shared : Shared Nat} {r : Request ε}
    (hpath : r.path.studio = true) (hstudio : frame.rest.studio_acquired = false)
    (hstarted : frame.rest.started = false) (hworker : frame.rest.worker = .idle)
    (hlock : shared.limiter.lock = false) (hready : ((studioObject .studio).ready shared) = true) :
    Moves 0 0 shared { r with task := some ⟨frame, r.path.studioPoint true⟩ } ((studioObject .studio).take shared) := by
  have hfree : shared.rest ≠ 0 := by simpa [studioObject] using hready
  refine ⟨.studio frame true hpath hstudio hstarted hworker, hlock, rfl, ?_, Or.inr ⟨Nat.zero_le _, Nat.zero_le _⟩⟩
  change shared.rest - 1 + 1 = shared.rest + 0
  omega

/-- What the event loop and the threads do to a request's task moves it and keeps the
    permits in step. -/
theorem Stands.signal {r : Request ε} {task next : RunTask ε} {shared shared' : Shared Nat}
    {signal : Signal (Outcome ε)} (hstands : Stands r.path r.task) (htask : r.task = some task)
    (hcalm : r.cancelling = true → r.started = false) (hadmits : r.Admits task signal)
    (hlock : shared.limiter.lock = false)
    (h : task.signal (objects studioObject) signal shared = some (next, shared')) :
    Moves (weight holdsSlot r) (weight holdsStudio r) shared { r with task := some next } shared' := by
  obtain ⟨path, supervisor, cancelling, current⟩ := r
  dsimp only at hstands htask
  subst htask
  cases hstands with
  | ended frame result hworker =>
    rw [signal_ended] at h
    cases h
  | working frame hacquired hstudio hstarted hworker =>
    obtain ⟨outcome, rfl, hrun⟩ := signal_calling h
    have hstudioWeight := weight_holdsStudio_work (r := ⟨path, supervisor, cancelling, none⟩) hstudio
    rw [hstudioWeight]
    cases hadmits with
    | inl hanswer => exact moves_answered hacquired hstudio hstarted hanswer.2 hlock hrun
    | inr hcancel =>
      have hunstarted : frame.rest.started = false := hcalm hcancel.1
      rw [hstarted] at hunstarted
      cases hunstarted
  | studio frame granted hpath hstudio hstarted hworker =>
    have hweight : weight holdsStudio ⟨path, supervisor, cancelling, some ⟨frame, path.studioPoint granted⟩⟩ =
        if granted then 1 else 0 := by
      cases granted <;> simp [weight, holdsStudio, RequestPath.studioPoint, Point.granted, Point.isEnded, hstudio]
    rw [hweight]
    rcases signal_waiting h with ⟨-, rfl, hready, rfl, rfl⟩ | ⟨-, rfl, hrun⟩ | ⟨cause, -, hrun⟩
    · exact moves_granted_studio hpath hstudio hstarted hworker hlock hready
    · exact moves_resumed hpath hstarted hworker hlock hrun
    · exact moves_interrupted_studio granted hstudio hstarted hworker hlock hrun
  | queueing frame granted hacquired hstudio hstarted hworker =>
    have hweight : weight holdsStudio ⟨path, supervisor, cancelling, some ⟨frame, queuePoint granted⟩⟩ = path.permits :=
      weight_holdsStudio_queue (r := ⟨path, supervisor, cancelling, none⟩) hstudio
    rw [hweight]
    rcases signal_waiting h with ⟨-, rfl, hready, rfl, rfl⟩ | ⟨-, rfl, hrun⟩ | ⟨cause, -, hrun⟩
    · have hfree : shared.limiter.semaphore ≠ 0 := by simpa [objects, locked] using hready
      refine ⟨.queueing frame true hacquired hstudio hstarted hworker, hlock, ?_, ?_, ?_⟩
      · change shared.limiter.semaphore - 1 + 1 = shared.limiter.semaphore + 0
        omega
      · exact congrArg (shared.rest + ·) hweight
      · exact Or.inr ⟨Nat.zero_le _, Nat.le_of_eq hweight.symm⟩
    · exact moves_admitted_work (r := ⟨path, supervisor, cancelling, none⟩) hstudio hlock hrun
    · have hmoves := moves_interrupted_work (r := ⟨path, supervisor, cancelling, none⟩) granted
        ⟨hstudio, hstarted, hworker⟩ hacquired hlock hrun
      cases granted with
      | false => exact hmoves
      | true => exact hmoves

/-- The task of a request and what its supervisor did to it. -/
structure Request.Fits (r : Request ε) : Prop where
  stands : Stands r.path r.task
  calm : r.cancelling = true → r.started = false

/-- A step of a request keeps what its task stands for, and the free permits follow. -/
structure Keeps (shared : Shared Nat) (r r' : Request ε) (shared' : Shared Nat) : Prop where
  fits : r'.Fits
  lock : shared'.limiter.lock = false
  semaphore : shared'.limiter.semaphore + weight holdsSlot r' = shared.limiter.semaphore + weight holdsSlot r
  studio : shared'.rest + weight holdsStudio r' = shared.rest + weight holdsStudio r
  kept : r'.ended = true ∨ weight holdsSlot r ≤ weight holdsSlot r' ∧ weight holdsStudio r ≤ weight holdsStudio r'

/-- A cancelled request does not come to its work. -/
theorem Stands.signal_cancelling {r : Request ε} {task next : RunTask ε} {shared shared' : Shared Nat}
    {signal : Signal (Outcome ε)} (hstands : Stands r.path r.task) (htask : r.task = some task)
    (hcancelling : r.cancelling = true) (hunstarted : r.started = false) (hadmits : r.Admits task signal)
    (hlock : shared.limiter.lock = false)
    (h : task.signal (objects studioObject) signal shared = some (next, shared')) :
    next.frame.rest.started = false := by
  obtain ⟨path, supervisor, cancelling, current⟩ := r
  dsimp only at hstands htask hcancelling
  subst htask hcancelling
  cases hstands with
  | ended frame result hworker =>
    rw [signal_ended] at h
    cases h
  | working frame hacquired hstudio hstarted hworker => cases hstarted.symm.trans hunstarted
  | studio frame granted hpath hstudio hstarted hworker =>
    rcases signal_waiting h with ⟨-, -, -, rfl, -⟩ | ⟨rfl, -, -⟩ | ⟨cause, -, hrun⟩
    · exact hstarted
    · cases hadmits
    · obtain ⟨error, hended⟩ := run_resumed_error path cause hstudio
      cases hended.symm.trans hrun
      exact hstarted
  | queueing frame granted hacquired hstudio hstarted hworker =>
    rcases signal_waiting h with ⟨-, -, -, rfl, -⟩ | ⟨rfl, -, -⟩ | ⟨cause, -, hrun⟩
    · exact hstarted
    · cases hadmits
    · have hunlocked : (if granted then shared.modify release else shared).limiter.lock = false := by
        cases granted with
        | false => exact hlock
        | true => exact hlock
      cases (run_interrupted_work hunlocked hacquired cause).symm.trans hrun
      exact hstarted

/-- A request whose thread is at work awaits it. -/
theorem Stands.setWorker {path : RequestPath} {task : RunTask ε} {worker : Worker (Outcome ε)}
    (hstands : Stands path (some task))
    (hbusy : task.frame.rest.worker = .submitted ∨ task.frame.rest.worker = .running) (hworker : worker ≠ .idle) :
    Stands path (some (workers.setWorker task worker)) := by
  cases hstands with
  | working frame hacquired hstudio hstarted hidle => exact .working _ hacquired hstudio hstarted hworker
  | studio frame granted hpath hstudio hstarted hidle => simp [hidle] at hbusy
  | queueing frame granted hacquired hstudio hstarted hidle => simp [hidle] at hbusy
  | ended frame result hdone =>
    rcases hdone with ⟨-, hidle⟩ | ⟨-, outcome, hfinished⟩
    · simp [hidle] at hbusy
    · simp [hfinished] at hbusy

theorem RequestStep.keeps {r r' : Request ε} {shared shared' : Shared Nat} {occurrence : Occurrence ε}
    (hfits : r.Fits) (hlock : shared.limiter.lock = false) (h : RequestStep r shared occurrence r' shared') :
    Keeps shared r r' shared' := by
  obtain ⟨hstands, hcalm⟩ := hfits
  cases h with
  | begin next _ hcreated hlive hrun =>
    obtain ⟨hnext, hunlocked, hsemaphore, hstudio, hkept⟩ := moves_program hlock hrun
    have hslot : weight holdsSlot r = 0 := by simp [weight, holdsSlot, hcreated]
    have hpermit : weight holdsStudio r = 0 := by simp [weight, holdsStudio, hcreated]
    refine ⟨⟨hnext, ?_⟩, hunlocked, ?_, ?_, ?_⟩
    · intro hcancelling
      rw [hlive] at hcancelling
      cases hcancelling
    · rw [hslot, hsemaphore]
    · rw [hpermit, hstudio]
    · rwa [hslot, hpermit]
  | drop hcreated hcancelling =>
    have hslot : weight holdsSlot r = 0 := by simp [weight, holdsSlot, hcreated]
    have hpermit : weight holdsStudio r = 0 := by simp [weight, holdsStudio, hcreated]
    refine ⟨⟨.ended _ _ (Or.inl ⟨rfl, rfl⟩), fun _ => rfl⟩, hlock, ?_, ?_, Or.inl rfl⟩
    · rw [hslot]
      rfl
    · rw [hpermit]
      rfl
  | signal signal task next _ htask hadmits hsignal =>
    obtain ⟨hnext, hunlocked, hsemaphore, hstudio, hkept⟩ := hstands.signal htask hcalm hadmits hlock hsignal
    refine ⟨⟨hnext, ?_⟩, hunlocked, hsemaphore, hstudio, hkept⟩
    exact fun hcancelling =>
      hstands.signal_cancelling htask hcancelling (hcalm hcancelling) hadmits hlock hsignal
  | startWorker task htask hworker =>
    obtain ⟨path, supervisor, cancelling, current⟩ := r
    dsimp only at hstands htask
    subst htask
    exact ⟨⟨hstands.setWorker (Or.inl hworker) (by simp), hcalm⟩, hlock, rfl, rfl,
      Or.inr ⟨Nat.le_refl _, Nat.le_refl _⟩⟩
  | finishWorker outcome task htask hworker =>
    obtain ⟨path, supervisor, cancelling, current⟩ := r
    dsimp only at hstands htask
    subst htask
    exact ⟨⟨hstands.setWorker (Or.inr hworker) (by simp), hcalm⟩, hlock, rfl, rfl,
      Or.inr ⟨Nat.le_refl _, Nat.le_refl _⟩⟩
  | supervise hsupervisor hstarted hrunning =>
    exact ⟨⟨hstands, hcalm⟩, hlock, rfl, rfl, Or.inr ⟨Nat.le_refl _, Nat.le_refl _⟩⟩
  | settle hsupervisor hended => exact ⟨⟨hstands, hcalm⟩, hlock, rfl, rfl, Or.inr ⟨Nat.le_refl _, Nat.le_refl _⟩⟩
  | deadline hsupervisor => exact ⟨⟨hstands, hcalm⟩, hlock, rfl, rfl, Or.inr ⟨Nat.le_refl _, Nat.le_refl _⟩⟩
  | cancel hsupervisor =>
    refine ⟨⟨hstands, ?_⟩, hlock, rfl, rfl, Or.inr ⟨Nat.le_refl _, Nat.le_refl _⟩⟩
    intro hcancelling
    rw [Bool.or_eq_true, Bool.not_eq_true'] at hcancelling
    cases hcancelling with
    | inl hbefore => exact hcalm hbefore
    | inr hunstarted => exact hunstarted

/-- Every task stands where its request's path leads, and every permit is free or held. -/
structure Accounted (max_concurrent studio_max : Nat) (s : Engine ε) : Prop where
  fits : ∀ r ∈ s.requests, r.Fits
  lock : s.shared.limiter.lock = false
  semaphore : s.shared.limiter.semaphore + s.requests.countP holdsSlot = max_concurrent
  studio : s.shared.rest + s.requests.countP holdsStudio = studio_max

/-- What the request at an index holds. -/
def held (p : Request ε → Bool) (s : Engine ε) (index : Nat) : Nat := (s.requests[index]?.map (weight p)).getD 0

theorem held_of_some {p : Request ε → Bool} {s : Engine ε} {index : Nat} {r : Request ε}
    (h : s.requests[index]? = some r) : held p s index = weight p r := by
  rw [held, h]
  rfl

/-- A step changes one request. The free permits change by what that one holds, and it gives
    one back only at its end. -/
structure ReleasesOnce (s t : Engine ε) (index : Nat) : Prop where
  others : ∀ other, other ≠ index → t.requests[other]? = s.requests[other]?
  semaphore : t.shared.limiter.semaphore + held holdsSlot t index = s.shared.limiter.semaphore + held holdsSlot s index
  studio : t.shared.rest + held holdsStudio t index = s.shared.rest + held holdsStudio s index
  kept : (∃ r, t.requests[index]? = some r ∧ r.ended = true) ∨
    held holdsSlot s index ≤ held holdsSlot t index ∧ held holdsStudio s index ≤ held holdsStudio t index

theorem accounted_initial (max_concurrent max_queued studio_max : Nat) :
    Accounted max_concurrent studio_max (Engine.initial max_concurrent max_queued studio_max : Engine ε) :=
  ⟨by simp [Engine.initial], rfl, rfl, rfl⟩

theorem Accounted.request {max_concurrent studio_max : Nat} {s : Engine ε} (hs : Accounted max_concurrent studio_max s)
    (path : RequestPath) :
    Accounted max_concurrent studio_max ⟨s.shared, s.requests ++ [⟨path, .waiting, false, none⟩]⟩ ∧
      ReleasesOnce s ⟨s.shared, s.requests ++ [⟨path, .waiting, false, none⟩]⟩ s.requests.length := by
  obtain ⟨hfits, hlock, hsemaphore, hstudio⟩ := hs
  constructor
  · refine ⟨?_, hlock, ?_, ?_⟩
    · intro r hr
      rw [List.mem_append, List.mem_singleton] at hr
      cases hr with
      | inl hold => exact hfits r hold
      | inr hnew =>
        rw [hnew]
        exact ⟨.created, fun h => Bool.noConfusion h⟩
    · rw [countP_append_weight]
      exact hsemaphore
    · rw [countP_append_weight]
      exact hstudio
  · have hbefore : s.requests[s.requests.length]? = none := List.getElem?_eq_none (Nat.le_refl _)
    have hafter : (s.requests ++ [⟨path, .waiting, false, none⟩])[s.requests.length]? =
        some ⟨path, .waiting, false, none⟩ := List.getElem?_concat_length
    refine ⟨?_, ?_, ?_, Or.inr ⟨?_, ?_⟩⟩
    · intro other hother
      rw [List.getElem?_append]
      split
      case isTrue => rfl
      case isFalse hge =>
        rw [List.getElem?_eq_none (Nat.not_lt.mp hge), List.getElem?_eq_none]
        rw [List.length_singleton]
        omega
    · simp only [held, hbefore, hafter]
      rfl
    · simp only [held, hbefore, hafter]
      rfl
    · simp only [held, hbefore, Option.map_none, Option.getD_none, Nat.zero_le]
    · simp only [held, hbefore, Option.map_none, Option.getD_none, Nat.zero_le]

theorem Accounted.within {max_concurrent studio_max : Nat} {s : Engine ε} {index : Nat} {occurrence : Occurrence ε}
    {r r' : Request ε} {shared : Shared Nat} (hs : Accounted max_concurrent studio_max s)
    (hrequest : s.requests[index]? = some r) (hstep : RequestStep r s.shared occurrence r' shared) :
    Accounted max_concurrent studio_max ⟨shared, s.requests.set index r'⟩ ∧
      ReleasesOnce s ⟨shared, s.requests.set index r'⟩ index := by
  obtain ⟨hfits, hlock, hsemaphore, hstudio⟩ := hs
  obtain ⟨hnext, hunlocked, hslots, hpermits, hkept⟩ := hstep.keeps (hfits r (List.mem_of_getElem? hrequest)) hlock
  have hslotCount := countP_set_weight (p := holdsSlot) r' hrequest
  have hpermitCount := countP_set_weight (p := holdsStudio) r' hrequest
  constructor
  · refine ⟨?_, hunlocked, ?_, ?_⟩
    · intro other hother
      cases List.mem_or_eq_of_mem_set hother with
      | inl hold => exact hfits other hold
      | inr hnew => rwa [hnew]
    · dsimp only
      omega
    · dsimp only
      omega
  · have hlt : index < s.requests.length := (List.getElem?_eq_some_iff.mp hrequest).1
    have hafter : (⟨shared, s.requests.set index r'⟩ : Engine ε).requests[index]? = some r' :=
      List.getElem?_set_self hlt
    refine ⟨fun other hother => List.getElem?_set_ne hother.symm, ?_, ?_, ?_⟩
    · rwa [held_of_some hrequest, held_of_some hafter]
    · rwa [held_of_some hrequest, held_of_some hafter]
    · rw [held_of_some hrequest, held_of_some hafter, held_of_some hrequest, held_of_some hafter]
      cases hkept with
      | inl hended => exact Or.inl ⟨r', hafter, hended⟩
      | inr hmore => exact Or.inr hmore

theorem Accounted.step {max_concurrent studio_max : Nat} {s t : Engine ε} {event : EngineEvent ε}
    (hs : Accounted max_concurrent studio_max s) (h : EngineStep s event t) :
    Accounted max_concurrent studio_max t ∧ ∃ index, ReleasesOnce s t index := by
  cases h with
  | request path => exact ⟨(hs.request path).1, _, (hs.request path).2⟩
  | within index occurrence r r' shared hrequest hstep =>
    exact ⟨(hs.within hrequest hstep).1, index, (hs.within hrequest hstep).2⟩

/-- Every reachable state of a runtime keeps the accounts. -/
theorem accounted_of_run {max_concurrent max_queued studio_max : Nat} {events : List (EngineEvent ε)} {t : Engine ε}
    (h : Run EngineStep (Engine.initial max_concurrent max_queued studio_max) events t) :
    Accounted max_concurrent studio_max t :=
  h.invariant (Accounted max_concurrent studio_max) (fun _ _ _ hs hstep => (hs.step hstep).1)
    (accounted_initial max_concurrent max_queued studio_max)

/-- What the state of a request says about its permits: they are held while a thread works,
    given back only once it has finished, and never held by a task that ended or that was
    cancelled before its work. -/
structure Request.Secured (r : Request ε) : Prop where
  executing : executes r = true → holdsSlot r = true ∧ (r.path.studio = true → holdsStudio r = true)
  released : r.started = true → (holdsSlot r = true ∧ (r.path.studio = true → holdsStudio r = true)) ∨
    ∃ task outcome, r.task = some task ∧ task.frame.rest.worker = .finished outcome
  sharing : r.path.studio = true → sharesSlots r = true → holdsStudio r = true
  ended : r.ended = true → holdsSlot r = false ∧ holdsStudio r = false ∧ executes r = false
  cancelled : r.cancelling = true → r.started = false ∧ executes r = false

theorem executes_of_idle {r : Request ε} {task : RunTask ε} (htask : r.task = some task)
    (hworker : task.frame.rest.worker = .idle) : executes r = false := by
  simp [executes, htask, hworker]

theorem executes_of_finished {r : Request ε} {task : RunTask ε} {outcome : Outcome ε} (htask : r.task = some task)
    (hworker : task.frame.rest.worker = .finished outcome) : executes r = false := by
  simp [executes, htask, hworker]

/-- A request that neither started, shares a slot nor ended has no permits to account for. -/
theorem Request.Secured.of_unstarted {r : Request ε} (hexecutes : executes r = false) (hstarted : r.started = false)
    (hended : r.ended = false) (hsharing : r.path.studio = true → sharesSlots r = true → holdsStudio r = true) :
    r.Secured := by
  refine ⟨?_, ?_, hsharing, ?_, fun _ => ⟨hstarted, hexecutes⟩⟩
  · intro h
    rw [hexecutes] at h
    cases h
  · intro h
    rw [hstarted] at h
    cases h
  · intro h
    rw [hended] at h
    cases h

theorem Request.Fits.secured {r : Request ε} (h : r.Fits) : r.Secured := by
  obtain ⟨hstands, hcalm⟩ := h
  obtain ⟨path, supervisor, cancelling, task⟩ := r
  dsimp only at hstands hcalm
  cases hstands with
  | created => exact .of_unstarted rfl rfl rfl (fun _ hshares => Bool.noConfusion hshares)
  | studio frame granted hpath hstudio hstarted hworker =>
    exact .of_unstarted (executes_of_idle rfl hworker) hstarted rfl (fun _ hshares => Bool.noConfusion hshares)
  | queueing frame granted hacquired hstudio hstarted hworker =>
    exact .of_unstarted (executes_of_idle rfl hworker) hstarted rfl (fun hpath _ => hstudio.trans hpath)
  | working frame hacquired hstudio hstarted hworker =>
    refine ⟨fun _ => ⟨rfl, hstudio.trans⟩, fun _ => Or.inl ⟨rfl, hstudio.trans⟩, fun hpath _ => hstudio.trans hpath,
      fun hended => Bool.noConfusion hended, ?_⟩
    intro hcancelling
    cases hstarted.symm.trans (hcalm hcancelling)
  | ended frame result hworker =>
    have hexecutes : executes ⟨path, supervisor, cancelling, some ⟨frame, .ended result⟩⟩ = false := by
      rcases hworker with ⟨-, hidle⟩ | ⟨-, outcome, hfinished⟩
      · exact executes_of_idle rfl hidle
      · exact executes_of_finished rfl hfinished
    refine ⟨?_, ?_, fun _ hshares => Bool.noConfusion hshares, fun _ => ⟨rfl, rfl, hexecutes⟩,
      fun hcancelling => ⟨hcalm hcancelling, hexecutes⟩⟩
    · intro h
      rw [hexecutes] at h
      cases h
    · intro hstarted
      rcases hworker with ⟨hunstarted, -⟩ | ⟨-, outcome, hfinished⟩
      · cases hunstarted.symm.trans hstarted
      · exact Or.inr ⟨_, outcome, rfl, hfinished⟩

/-- What a later state keeps of a request. -/
structure Follows (r r' : Request ε) : Prop where
  path : r'.path = r.path
  ended : r.ended = true → r'.ended = true
  cancelling : r.cancelling = true → r'.cancelling = true

theorem RequestStep.follows {r r' : Request ε} {shared shared' : Shared Nat} {occurrence : Occurrence ε}
    (h : RequestStep r shared occurrence r' shared') : Follows r r' := by
  cases h with
  | begin next _ hcreated hlive hrun =>
    refine ⟨rfl, ?_, id⟩
    intro hended
    rw [Request.ended, hcreated] at hended
    cases hended
  | drop hcreated hcancelling => exact ⟨rfl, fun _ => rfl, id⟩
  | signal signal task next _ htask hadmits hsignal =>
    refine ⟨rfl, ?_, id⟩
    intro hended
    rw [Request.ended, htask] at hended
    obtain ⟨frame, point⟩ := task
    cases point with
    | ended result =>
      rw [signal_ended] at hsignal
      cases hsignal
    | waiting object timed granted resume => cases hended
    | calling resume => cases hended
  | startWorker task htask hworker =>
    refine ⟨rfl, ?_, id⟩
    intro hended
    rwa [Request.ended, htask] at hended
  | finishWorker outcome task htask hworker =>
    refine ⟨rfl, ?_, id⟩
    intro hended
    rwa [Request.ended, htask] at hended
  | supervise hsupervisor hstarted hrunning => exact ⟨rfl, id, id⟩
  | settle hsupervisor hended => exact ⟨rfl, id, id⟩
  | deadline hsupervisor => exact ⟨rfl, id, id⟩
  | cancel hsupervisor =>
    refine ⟨rfl, id, ?_⟩
    intro hcancelling
    dsimp only
    rw [hcancelling, Bool.true_or]

/-- The requests of a state are found again in a later one. -/
def Continues (s t : Engine ε) : Prop :=
  ∀ (index : Nat) (r : Request ε), s.requests[index]? = some r → ∃ r', t.requests[index]? = some r' ∧ Follows r r'

theorem EngineStep.continues {s t : Engine ε} {event : EngineEvent ε} (h : EngineStep s event t) : Continues s t := by
  intro index r hr
  cases h with
  | request path =>
    refine ⟨r, ?_, rfl, id, id⟩
    rw [List.getElem?_append_left (List.getElem?_eq_some_iff.mp hr).1]
    exact hr
  | within other occurrence old new shared hrequest hstep =>
    by_cases hsame : index = other
    · rw [hsame] at hr ⊢
      cases hr.symm.trans hrequest
      exact ⟨new, List.getElem?_set_self (List.getElem?_eq_some_iff.mp hrequest).1, hstep.follows⟩
    · exact ⟨r, (List.getElem?_set_ne (Ne.symm hsame)).trans hr, rfl, id, id⟩

theorem continues_of_run {s t : Engine ε} {events : List (EngineEvent ε)} (h : Run EngineStep s events t) :
    Continues s t := by
  refine h.related Continues ?_ ?_ (fun _ _ _ hstep => hstep.continues)
  · exact fun _ _ r hr => ⟨r, hr, rfl, id, id⟩
  · intro s t u hfirst hsecond index r hr
    obtain ⟨r', hr', hfollows⟩ := hfirst index r hr
    obtain ⟨r'', hr'', hfollows'⟩ := hsecond index r' hr'
    exact ⟨r'', hr'', hfollows'.path.trans hfollows.path, fun h => hfollows'.ended (hfollows.ended h),
      fun h => hfollows'.cancelling (hfollows.cancelling h)⟩

/-- A cancelled task can end with its next step. -/
theorem Request.Fits.cancelled_ends {r : Request ε} {shared : Shared Nat} (h : r.Fits)
    (hlock : shared.limiter.lock = false) (hcancelling : r.cancelling = true) (hrunning : r.ended = false) :
    ∃ occurrence r' shared', RequestStep r shared occurrence r' shared' ∧ r'.ended = true := by
  obtain ⟨hstands, hcalm⟩ := h
  obtain ⟨path, supervisor, cancelling, task⟩ := r
  dsimp only at hstands hcalm hcancelling
  cases hstands with
  | created => exact ⟨.begin, _, shared, .drop rfl hcancelling, rfl⟩
  | studio frame granted hpath hstudio hstarted hworker =>
    obtain ⟨error, hrun⟩ : ∃ error, run (objects studioObject) (path.resumed (.error .cancelled)) frame
        (if granted then releaseStudio shared else shared) = (⟨frame, .ended (.error error)⟩, _) :=
      run_resumed_error path .cancelled hstudio
    exact ⟨.signal (.interrupt .cancelled), _, _,
      .signal _ _ _ _ rfl hcancelling ((signal_interrupt .cancelled).trans (congrArg some hrun)), rfl⟩
  | queueing frame granted hacquired hstudio hstarted hworker =>
    have hunlocked : (if granted then shared.modify release else shared).limiter.lock = false := by
      cases granted with
      | false => exact hlock
      | true => exact hlock
    exact ⟨.signal (.interrupt .cancelled), _, _,
      .signal _ _ _ _ rfl hcancelling ((signal_interrupt .cancelled).trans
        (congrArg some (run_interrupted_work hunlocked hacquired .cancelled))), rfl⟩
  | working frame hacquired hstudio hstarted hworker => cases hstarted.symm.trans (hcalm hcancelling)
  | ended frame result hworker => cases hrunning

/-- The threads that work for a request, or are about to. -/
def Engine.executing (s : Engine ε) : Nat := s.requests.countP executes

/-- The Studio requests that hold or queue for a slot. -/
def Engine.studioSharing (s : Engine ε) : Nat := s.requests.countP fun r => r.path.studio && sharesSlots r

/-- The request at an index never comes to its work: if its task has ended it holds no permit,
    and if not it can end at once and hold none. -/
structure Withdrawn (s : Engine ε) (index : Nat) (r : Request ε) : Prop where
  found : s.requests[index]? = some r
  idle : r.started = false ∧ executes r = false
  ended : r.ended = true → holdsSlot r = false ∧ holdsStudio r = false
  ends : r.ended = false → ∃ event t r', EngineStep s event t ∧ t.requests[index]? = some r' ∧ r'.ended = true ∧
    holdsSlot r' = false ∧ holdsStudio r' = false

theorem Accounted.withdrawn {max_concurrent studio_max : Nat} {s : Engine ε} {index : Nat} {r : Request ε}
    (hs : Accounted max_concurrent studio_max s) (hfound : s.requests[index]? = some r)
    (hcancelling : r.cancelling = true) : Withdrawn s index r := by
  have hfits := hs.fits r (List.mem_of_getElem? hfound)
  refine ⟨hfound, hfits.secured.cancelled hcancelling, ?_, ?_⟩
  · intro hended
    obtain ⟨hslot, hstudio, -⟩ := hfits.secured.ended hended
    exact ⟨hslot, hstudio⟩
  · intro hrunning
    obtain ⟨occurrence, r', shared', hstep, hended⟩ := hfits.cancelled_ends hs.lock hcancelling hrunning
    obtain ⟨hslot, hstudio, -⟩ := (hstep.keeps hfits hs.lock).fits.secured.ended hended
    exact ⟨.within index occurrence, _, r', .within s index occurrence r r' shared' hfound hstep,
      List.getElem?_set_self (List.getElem?_eq_some_iff.mp hfound).1, hended, hslot, hstudio⟩

theorem map_set_of_eq {α β : Type} {f : α → β} {items : List α} {index : Nat} {old new : α}
    (hold : items[index]? = some old) (hsame : f new = f old) : (items.set index new).map f = items.map f := by
  obtain ⟨hlt, rfl⟩ := List.getElem?_eq_some_iff.mp hold
  rw [List.map_set, hsame, ← List.getElem_map f]
  exact List.set_getElem_self (by rwa [List.length_map])

/-- A deadline or a cancellation touches neither the permits nor the tasks. -/
theorem supervisor_frees_nothing {s t : Engine ε} {index : Nat}
    (h : EngineStep s (.within index .deadline) t ∨ EngineStep s (.within index .cancel) t) :
    t.shared = s.shared ∧ t.requests.map Request.task = s.requests.map Request.task := by
  cases h with
  | inl hdeadline =>
    cases hdeadline with
    | within _ _ r r' shared hrequest hstep =>
      cases hstep with
      | deadline hsupervisor => exact ⟨rfl, map_set_of_eq hrequest rfl⟩
  | inr hcancel =>
    cases hcancel with
    | within _ _ r r' shared hrequest hstep =>
      cases hstep with
      | cancel hsupervisor => exact ⟨rfl, map_set_of_eq hrequest rfl⟩

/-- A caller that is cancelled before its work cancels the task. -/
theorem cancel_cancelling {s t : Engine ε} {index : Nat} {r : Request ε} (h : EngineStep s (.within index .cancel) t)
    (hr : s.requests[index]? = some r) (hunstarted : r.started = false) :
    ∃ r', t.requests[index]? = some r' ∧ r'.cancelling = true := by
  cases h with
  | within _ _ found r' shared hrequest hstep =>
    cases hr.symm.trans hrequest
    cases hstep with
    | cancel hsupervisor =>
      refine ⟨_, List.getElem?_set_self (List.getElem?_eq_some_iff.mp hr).1, ?_⟩
      dsimp only
      rw [hunstarted, Bool.not_false, Bool.or_true]

/-- Worker capacity under every interleaving of requests, threads, deadlines and
    cancellations: the threads at work and the Studio requests at the limiter stay within
    their bounds, every permit is free or held by one request, which gives it back once and
    only after its thread has finished, and a request that is cancelled before its work
    leaves none behind. -/
theorem worker_capacity {max_concurrent max_queued studio_max : Nat} {events : List (EngineEvent ε)} {t : Engine ε}
    (h : Run EngineStep (Engine.initial max_concurrent max_queued studio_max) events t) :
    t.executing ≤ max_concurrent ∧ t.studioSharing ≤ studio_max ∧
    t.shared.limiter.semaphore + t.requests.countP holdsSlot = max_concurrent ∧
    t.shared.rest + t.requests.countP holdsStudio = studio_max ∧
    (∀ r ∈ t.requests, r.Secured) ∧
    (∀ event u, EngineStep t event u → (∃ index, ReleasesOnce t u index) ∧ Continues t u) ∧
    (∀ index u, EngineStep t (.within index .deadline) u ∨ EngineStep t (.within index .cancel) u →
      u.shared = t.shared ∧ u.requests.map Request.task = t.requests.map Request.task) ∧
    (∀ index u r, EngineStep t (.within index .cancel) u → t.requests[index]? = some r → r.started = false →
      ∀ later v, Run EngineStep u later v → ∃ r', Withdrawn v index r') := by
  have haccounted := accounted_of_run h
  have hsecured : ∀ r ∈ t.requests, r.Secured := fun r hr => (haccounted.fits r hr).secured
  have hexecuting : t.executing ≤ t.requests.countP holdsSlot :=
    List.countP_mono_left fun r hr hexecutes => ((hsecured r hr).executing hexecutes).1
  have hsharing : t.studioSharing ≤ t.requests.countP holdsStudio := by
    refine List.countP_mono_left fun r hr hshares => ?_
    rw [Bool.and_eq_true] at hshares
    exact (hsecured r hr).sharing hshares.1 hshares.2
  have hsemaphore := haccounted.semaphore
  have hstudio := haccounted.studio
  refine ⟨by omega, by omega, hsemaphore, hstudio, hsecured, ?_, ?_, ?_⟩
  · intro event u hstep
    exact ⟨(haccounted.step hstep).2, hstep.continues⟩
  · intro index u hstep
    exact supervisor_frees_nothing hstep
  · intro index u r hstep hr hunstarted later v hrun
    have hu := (haccounted.step hstep).1
    have hv : Accounted max_concurrent studio_max v :=
      hrun.invariant (Accounted max_concurrent studio_max) (fun _ _ _ hs hnext => (hs.step hnext).1) hu
    obtain ⟨r', hr', hcancelling⟩ := cancel_cancelling hstep hr hunstarted
    obtain ⟨r'', hr'', hfollows⟩ := continues_of_run hrun index r' hr'
    exact ⟨r'', hv.withdrawn hr'' (hfollows.cancelling hcancelling)⟩

/-- A thread outlives its deadline, and a Studio request is cancelled while it queues behind. -/
theorem worker_capacity_deadline :
    ∃ t : Engine Unit,
      Run EngineStep (Engine.initial 1 1 1)
        [.request (.analysis "adapter"), .within 0 .begin, .within 0 .startWorker, .within 0 .supervise,
          .within 0 .deadline, .request .evaluation, .within 1 .begin, .within 1 .cancel,
          .within 0 (.finishWorker (.ok ())), .within 0 (.signal (.answer (.ok ())))] t ∧
      t.executing ≤ 1 ∧ t.studioSharing ≤ 1 := by
  have hrun : Run EngineStep (Engine.initial 1 1 1 : Engine Unit)
      [.request (.analysis "adapter"), .within 0 .begin, .within 0 .startWorker, .within 0 .supervise,
        .within 0 .deadline, .request .evaluation, .within 1 .begin, .within 1 .cancel,
        .within 0 (.finishWorker (.ok ())), .within 0 (.signal (.answer (.ok ())))] _ :=
    .cons (.request _ _) <|
    .cons (.within _ 0 .begin _ _ _ rfl (.begin _ _ rfl rfl rfl)) <|
    .cons (.within _ 0 .startWorker _ _ _ rfl (.startWorker _ rfl rfl)) <|
    .cons (.within _ 0 .supervise _ _ _ rfl (.supervise rfl rfl rfl)) <|
    .cons (.within _ 0 .deadline _ _ _ rfl (.deadline rfl)) <|
    .cons (.request _ _) <|
    .cons (.within _ 1 .begin _ _ _ rfl (.begin _ _ rfl rfl rfl)) <|
    .cons (.within _ 1 .cancel _ _ _ rfl (.cancel (by simp))) <|
    .cons (.within _ 0 (.finishWorker (.ok ())) _ _ _ rfl (.finishWorker _ _ rfl rfl)) <|
    .cons (.within _ 0 (.signal (.answer (.ok ()))) _ _ _ rfl (.signal _ _ _ _ rfl (Or.inl ⟨rfl, rfl⟩) rfl)) <|
    .nil _
  obtain ⟨hexecuting, hsharing, -⟩ := worker_capacity hrun
  exact ⟨_, hrun, hexecuting, hsharing⟩

end pii_engine.workers
