import PiiEngine.Lib.Transitions

namespace coroutines

/-- What may end a wait in place of the object that is waited for. -/
inductive Interrupt where
  | cancelled
  | timeout
  deriving DecidableEq

/-- An object that tasks wait for: whether it can be taken now, what taking it does to the
    shared state, and what a task that does not keep it gives back. -/
structure Object (σ : Type) where
  ready : σ → Bool
  take : σ → σ
  undo : σ → σ

/-- A coroutine over a frame of its own and a state it shares. Nothing else runs between
    two of its waits: for one of the objects `κ`, under a deadline or not, or for an answer
    from outside. -/
inductive Coroutine (φ σ κ ρ ε α : Type) where
  | finish (result : Except ε α)
  | step (f : φ × σ → φ × σ) (rest : φ × σ → Coroutine φ σ κ ρ ε α)
  | wait (object : κ) (timed : Bool) (resume : Except Interrupt Unit → Coroutine φ σ κ ρ ε α)
  | call (resume : ρ → Coroutine φ σ κ ρ ε α)

namespace Coroutine
variable {φ σ κ ρ ε α β : Type}

@[simp] def bind : Coroutine φ σ κ ρ ε α → (α → Coroutine φ σ κ ρ ε β) → Coroutine φ σ κ ρ ε β
  | finish (.ok a), next => next a
  | finish (.error e), _ => finish (.error e)
  | step f rest, next => step f (fun state => (rest state).bind next)
  | wait object timed resume, next => wait object timed (fun outcome => (resume outcome).bind next)
  | call resume, next => call (fun answer => (resume answer).bind next)

/-- Python's `try … except`: the handler sees every error of the body. -/
@[simp] def handle : Coroutine φ σ κ ρ ε α → (ε → Coroutine φ σ κ ρ ε α) → Coroutine φ σ κ ρ ε α
  | finish (.ok a), _ => finish (.ok a)
  | finish (.error e), handler => handler e
  | step f rest, handler => step f (fun state => (rest state).handle handler)
  | wait object timed resume, handler => wait object timed (fun outcome => (resume outcome).handle handler)
  | call resume, handler => call (fun answer => (resume answer).handle handler)

/-- Python's `try … finally`: the cleanup runs however the body ends, and its own error
    takes the place of the body's. -/
@[simp] def ensuring : Coroutine φ σ κ ρ ε α → Coroutine φ σ κ ρ ε Unit → Coroutine φ σ κ ρ ε α
  | finish result, cleanup => cleanup.bind (fun _ => finish result)
  | step f rest, cleanup => step f (fun state => (rest state).ensuring cleanup)
  | wait object timed resume, cleanup => wait object timed (fun outcome => (resume outcome).ensuring cleanup)
  | call resume, cleanup => call (fun answer => (resume answer).ensuring cleanup)

instance : Monad (Coroutine φ σ κ ρ ε) where
  pure a := finish (.ok a)
  bind := bind

instance : MonadExceptOf ε (Coroutine φ σ κ ρ ε) where
  throw e := finish (.error e)
  tryCatch := handle

@[simp] theorem pure_eq (a : α) : (Pure.pure a : Coroutine φ σ κ ρ ε α) = finish (.ok a) := rfl

@[simp] theorem bind_eq (body : Coroutine φ σ κ ρ ε α) (next : α → Coroutine φ σ κ ρ ε β) :
    body >>= next = body.bind next := rfl

@[simp] theorem throw_eq (e : ε) : (throw e : Coroutine φ σ κ ρ ε α) = finish (.error e) := rfl

/-- The frame and the shared state as they are now. -/
def state : Coroutine φ σ κ ρ ε (φ × σ) := step id (fun state => finish (.ok state))

def modifyFrame (f : φ → φ) : Coroutine φ σ κ ρ ε Unit :=
  step (fun state => (f state.1, state.2)) (fun _ => finish (.ok ()))

def modifyShared (f : σ → σ) : Coroutine φ σ κ ρ ε Unit :=
  step (fun state => (state.1, f state.2)) (fun _ => finish (.ok ()))

/-- Wait for an object, with an error of the program for each interrupt. -/
def acquire (error : Interrupt → ε) (object : κ) (timed : Bool) : Coroutine φ σ κ ρ ε Unit :=
  wait object timed (fun outcome => finish (outcome.mapError error))

end Coroutine

/-- Where a task stands between two of its runs. -/
inductive Point (φ σ κ ρ ε α : Type) where
  | ended (result : Except ε α)
  | waiting (object : κ) (timed granted : Bool) (resume : Except Interrupt Unit → Coroutine φ σ κ ρ ε α)
  | calling (resume : ρ → Coroutine φ σ κ ρ ε α)

/-- A task that is not running now. -/
structure Task (φ σ κ ρ ε α : Type) where
  frame : φ
  point : Point φ σ κ ρ ε α

/-- What the event loop does to a task that is not running: give it the object it waits
    for, let it go on with that, interrupt its wait, or answer its call. -/
inductive Signal (ρ : Type) where
  | grant
  | resume
  | interrupt (cause : Interrupt)
  | answer (value : ρ)

section run
variable {φ σ κ ρ ε α : Type} (objects : κ → Object σ)

/-- A coroutine runs until it has to wait. An object that is ready is taken at once. -/
@[simp] def run : Coroutine φ σ κ ρ ε α → φ → σ → Task φ σ κ ρ ε α × σ
  | .finish result, frame, shared => (⟨frame, .ended result⟩, shared)
  | .step f rest, frame, shared => run (rest (f (frame, shared))) (f (frame, shared)).1 (f (frame, shared)).2
  | .wait object timed resume, frame, shared =>
    if (objects object).ready shared then run (resume (.ok ())) frame ((objects object).take shared)
    else (⟨frame, .waiting object timed false resume⟩, shared)
  | .call resume, frame, shared => (⟨frame, .calling resume⟩, shared)

/-- A task that is interrupted after its object was granted gives it back. Only a wait
    under a deadline can time out. -/
def Task.signal (task : Task φ σ κ ρ ε α) (signal : Signal ρ) (shared : σ) :
    Option (Task φ σ κ ρ ε α × σ) :=
  match task.point, signal with
  | .waiting object timed false resume, .grant =>
    if (objects object).ready shared then
      some (⟨task.frame, .waiting object timed true resume⟩, (objects object).take shared)
    else none
  | .waiting _ _ true resume, .resume => some (run objects (resume (.ok ())) task.frame shared)
  | .waiting object timed granted resume, .interrupt cause =>
    if cause = .timeout ∧ timed = false then none
    else some (run objects (resume (.error cause)) task.frame (if granted then (objects object).undo shared
      else shared))
  | .calling resume, .answer value => some (run objects (resume value) task.frame shared)
  | _, _ => none

section ensuring
variable {objects} {body : Coroutine φ σ κ ρ ε α} {cleanup : Coroutine φ σ κ ρ ε Unit} {frame frame' : φ}
  {shared shared' : σ}

/-- A body that ends goes on with the cleanup. -/
theorem run_ensuring_ended {result : Except ε α}
    (h : run objects body frame shared = (⟨frame', .ended result⟩, shared')) :
    run objects (body.ensuring cleanup) frame shared =
      run objects (cleanup.bind fun _ => .finish result) frame' shared' := by
  induction body generalizing frame shared with
  | finish other =>
    cases h
    rfl
  | step f rest ih => exact ih _ h
  | call resume ih => cases h
  | wait object timed resume ih =>
    rw [run] at h
    split at h
    case isTrue hready =>
      rw [Coroutine.ensuring, run, if_pos hready]
      exact ih _ h
    case isFalse => cases h

/-- A body that calls keeps its cleanup for later. -/
theorem run_ensuring_calling {resume : ρ → Coroutine φ σ κ ρ ε α}
    (h : run objects body frame shared = (⟨frame', .calling resume⟩, shared')) :
    run objects (body.ensuring cleanup) frame shared =
      (⟨frame', .calling fun value => (resume value).ensuring cleanup⟩, shared') := by
  induction body generalizing frame shared with
  | finish other => cases h
  | step f rest ih => exact ih _ h
  | call other ih =>
    cases h
    rfl
  | wait object timed other ih =>
    rw [run] at h
    split at h
    case isTrue hready =>
      rw [Coroutine.ensuring, run, if_pos hready]
      exact ih _ h
    case isFalse => cases h

/-- A body that waits keeps its cleanup for later. -/
theorem run_ensuring_waiting {object : κ} {timed granted : Bool}
    {resume : Except Interrupt Unit → Coroutine φ σ κ ρ ε α}
    (h : run objects body frame shared = (⟨frame', .waiting object timed granted resume⟩, shared')) :
    run objects (body.ensuring cleanup) frame shared =
      (⟨frame', .waiting object timed granted fun outcome => (resume outcome).ensuring cleanup⟩, shared') := by
  induction body generalizing frame shared with
  | finish other => cases h
  | step f rest ih => exact ih _ h
  | call other ih => cases h
  | wait other deadline rest ih =>
    rw [run] at h
    split at h
    case isTrue hready =>
      rw [Coroutine.ensuring, run, if_pos hready]
      exact ih _ h
    case isFalse hbusy =>
      cases h
      rw [Coroutine.ensuring, run, if_neg hbusy]

end ensuring

section signal
variable {objects} {frame : φ} {shared shared' : σ} {next : Task φ σ κ ρ ε α} {signal : Signal ρ}

theorem signal_ended {result : Except ε α} :
    (⟨frame, .ended result⟩ : Task φ σ κ ρ ε α).signal objects signal shared = none := by
  cases signal <;> rfl

theorem signal_interrupt {object : κ} {timed granted : Bool} {resume : Except Interrupt Unit → Coroutine φ σ κ ρ ε α}
    (cause : Interrupt) :
    (⟨frame, .waiting object timed granted resume⟩ : Task φ σ κ ρ ε α).signal objects (.interrupt cause) shared =
      if cause = .timeout ∧ timed = false then none
      else some (run objects (resume (.error cause)) frame
        (if granted then (objects object).undo shared else shared)) := by
  cases granted with
  | false => rfl
  | true => rfl

/-- What can happen to a task that waits. -/
theorem signal_waiting {object : κ} {timed granted : Bool} {resume : Except Interrupt Unit → Coroutine φ σ κ ρ ε α}
    (h : (⟨frame, .waiting object timed granted resume⟩ : Task φ σ κ ρ ε α).signal objects signal shared =
      some (next, shared')) :
    (signal = .grant ∧ granted = false ∧ (objects object).ready shared = true ∧
        next = ⟨frame, .waiting object timed true resume⟩ ∧ shared' = (objects object).take shared) ∨
      (signal = .resume ∧ granted = true ∧ run objects (resume (.ok ())) frame shared = (next, shared')) ∨
      ∃ cause, signal = .interrupt cause ∧
        run objects (resume (.error cause)) frame (if granted then (objects object).undo shared else shared) =
          (next, shared') := by
  cases signal with
  | answer value => cases granted <;> cases h
  | resume =>
    cases granted with
    | false => cases h
    | true => exact Or.inr (Or.inl ⟨rfl, rfl, Option.some.inj h⟩)
  | grant =>
    cases granted with
    | true => cases h
    | false =>
      dsimp only [Task.signal] at h
      split at h
      case isTrue hready =>
        cases h
        exact Or.inl ⟨rfl, rfl, hready, rfl, rfl⟩
      case isFalse => cases h
  | interrupt cause =>
    rw [signal_interrupt] at h
    split at h
    case isTrue => cases h
    case isFalse => exact Or.inr (Or.inr ⟨cause, rfl, Option.some.inj h⟩)

/-- What can happen to a task that calls. -/
theorem signal_calling {resume : ρ → Coroutine φ σ κ ρ ε α}
    (h : (⟨frame, .calling resume⟩ : Task φ σ κ ρ ε α).signal objects signal shared = some (next, shared')) :
    ∃ value, signal = .answer value ∧ run objects (resume value) frame shared = (next, shared') := by
  cases signal with
  | grant => cases h
  | resume => cases h
  | interrupt cause => cases h
  | answer value => exact ⟨value, rfl, Option.some.inj h⟩

end signal

end run

namespace Point
variable {φ σ κ ρ ε α : Type} [DecidableEq κ]

def waitsFor (object : κ) : Point φ σ κ ρ ε α → Bool
  | .waiting other _ _ _ => other = object
  | _ => false

/-- The object was granted and the task has not gone on yet. -/
def granted (object : κ) : Point φ σ κ ρ ε α → Bool
  | .waiting other _ granted _ => other = object && granted
  | _ => false

omit [DecidableEq κ] in
def calls : Point φ σ κ ρ ε α → Bool
  | .calling _ => true
  | _ => false

omit [DecidableEq κ] in
def isEnded : Point φ σ κ ρ ε α → Bool
  | .ended _ => true
  | _ => false

end Point

section loop
variable {φ σ κ ρ ε α : Type} (objects : κ → Object σ)

/-- The tasks of an event loop and the state they share. -/
structure Loop (φ σ κ ρ ε α : Type) where
  shared : σ
  tasks : List (Task φ σ κ ρ ε α)

inductive Event (φ σ κ ρ ε α : Type) where
  | start (program : Coroutine φ σ κ ρ ε α) (frame : φ)
  | signal (index : Nat) (signal : Signal ρ)

/-- The steps of a loop that may start the given programs. -/
inductive Step (Starts : Coroutine φ σ κ ρ ε α → φ → Prop) :
    Loop φ σ κ ρ ε α → Event φ σ κ ρ ε α → Loop φ σ κ ρ ε α → Prop
  | start (s : Loop φ σ κ ρ ε α) (program : Coroutine φ σ κ ρ ε α) (frame : φ) (hstarts : Starts program frame) :
      Step Starts s (.start program frame)
        ⟨(run objects program frame s.shared).2, s.tasks ++ [(run objects program frame s.shared).1]⟩
  | signal (s : Loop φ σ κ ρ ε α) (index : Nat) (signal : Signal ρ) (task next : Task φ σ κ ρ ε α) (shared : σ)
      (htask : s.tasks[index]? = some task) (hsignal : task.signal objects signal s.shared = some (next, shared)) :
      Step Starts s (.signal index signal) ⟨shared, s.tasks.set index next⟩

end loop

/-- What one item adds to a count. -/
def weight {α : Type} (p : α → Bool) (item : α) : Nat := if p item then 1 else 0

section weight
variable {α : Type} {p : α → Bool} {items : List α}

theorem weight_le_one (item : α) : weight p item ≤ 1 := by
  rw [weight]
  split
  case isTrue => exact Nat.le_refl 1
  case isFalse => exact Nat.zero_le 1

theorem countP_append_weight (new : α) : (items ++ [new]).countP p = items.countP p + weight p new := by
  rw [List.countP_append, List.countP_singleton]
  rfl

/-- Replacing one entry of a list changes a count by that entry. -/
theorem countP_set_weight {index : Nat} {old : α} (new : α) (h : items[index]? = some old) :
    (items.set index new).countP p + weight p old = items.countP p + weight p new := by
  obtain ⟨hlt, rfl⟩ := List.getElem?_eq_some_iff.mp h
  have hle : weight p items[index] ≤ items.countP p := by
    rw [weight]
    split
    case isTrue hold => exact List.countP_pos_iff.mpr ⟨_, List.getElem_mem hlt, hold⟩
    case isFalse => exact Nat.zero_le _
  rw [List.countP_set hlt]
  dsimp only [weight] at hle ⊢
  omega

end weight

end coroutines
