import Mathlib.Tactic.Common

namespace crashes

/-- A program over a store, as its reads of the store and the operations it performs on it.
    An operation may raise. -/
inductive Program (σ ω ε α : Type) where
  | finish (result : Except ε α)
  | read (rest : σ → Program σ ω ε α)
  | perform (operation : ω) (rest : Except ε Unit → Program σ ω ε α)

/-- What operations do to a store: the states they pass on their way, and how they end. -/
structure Effects (σ ω ε : Type) where
  passes : ω → σ → σ → Prop
  ends : ω → σ → Except ε Unit → σ → Prop

namespace Program
variable {σ ω ε α β : Type}

@[simp] def bind : Program σ ω ε α → (α → Program σ ω ε β) → Program σ ω ε β
  | finish (.ok a), next => next a
  | finish (.error e), _ => finish (.error e)
  | read rest, next => read (fun s => (rest s).bind next)
  | perform operation rest, next => perform operation (fun outcome => (rest outcome).bind next)

/-- Python's `try … finally`. -/
@[simp] def ensuring : Program σ ω ε α → Program σ ω ε Unit → Program σ ω ε α
  | finish result, cleanup => cleanup.bind (fun _ => finish result)
  | read rest, cleanup => read (fun s => (rest s).ensuring cleanup)
  | perform operation rest, cleanup => perform operation (fun outcome => (rest outcome).ensuring cleanup)

instance : Monad (Program σ ω ε) where
  pure a := finish (.ok a)
  bind := bind

@[simp] theorem pure_eq (a : α) : (Pure.pure a : Program σ ω ε α) = finish (.ok a) := rfl

@[simp] theorem bind_eq (program : Program σ ω ε α) (next : α → Program σ ω ε β) :
    program >>= next = program.bind next := rfl

/-- The store as it is now. -/
def store : Program σ ω ε σ := read (fun s => finish (.ok s))

def run (operation : ω) : Program σ ω ε Unit := perform operation finish

/-- A computation that does not touch the store. -/
def lift (result : Except ε α) : Program σ ω ε α := finish result

variable (effects : Effects σ ω ε)

/-- A state of the store in which a program may be stopped. -/
def Moment : Program σ ω ε α → σ → σ → Prop
  | finish _, s, t => t = s
  | read rest, s, t => Moment (rest s) s t
  | perform operation rest, s, t =>
    effects.passes operation s t ∨ ∃ outcome u, effects.ends operation s outcome u ∧ Moment (rest outcome) u t

/-- How a program that is not stopped ends. -/
def Ends : Program σ ω ε α → σ → Except ε α → σ → Prop
  | finish result, s, outcome, t => outcome = result ∧ t = s
  | read rest, s, outcome, t => Ends (rest s) s outcome t
  | perform operation rest, s, outcome, t =>
    ∃ result u, effects.ends operation s result u ∧ Ends (rest result) u outcome t

variable {effects} in
/-- A moment of a body is one of the whole, if its cleanup passes the state that it starts in. -/
theorem Moment.ensuring {s t : σ} {program : Program σ ω ε α} {cleanup : ω} (hstill : ∀ u, effects.passes cleanup u u)
    (h : Moment effects program s t) : Moment effects (program.ensuring (run cleanup)) s t := by
  induction program generalizing s with
  | finish result =>
    rw [show t = s from h]
    exact .inl (hstill s)
  | read rest ih => exact ih s h
  | perform operation rest ih =>
    cases h with
    | inl hpasses => exact .inl hpasses
    | inr hends =>
      obtain ⟨outcome, u, hu, hrest⟩ := hends
      exact .inr ⟨outcome, u, hu, ih outcome hrest⟩

/-- Every moment of the program meets one condition, and its end another one. -/
def Meets (always : σ → Prop) : Program σ ω ε α → (Except ε α → σ → Prop) → σ → Prop
  | finish result, post, s => always s ∧ post result s
  | read rest, post, s => Meets always (rest s) post s
  | perform operation rest, post, s =>
    (∀ t, effects.passes operation s t → always t) ∧
      ∀ outcome t, effects.ends operation s outcome t → Meets always (rest outcome) post t

variable {effects} {always : σ → Prop} {s t : σ}

theorem Meets.moment {program : Program σ ω ε α} {post : Except ε α → σ → Prop}
    (h : Meets effects always program post s) (ht : Moment effects program s t) : always t := by
  induction program generalizing s with
  | finish result =>
    cases ht
    exact h.1
  | read rest ih => exact ih s h ht
  | perform operation rest ih =>
    cases ht with
    | inl hpasses => exact h.1 t hpasses
    | inr hends =>
      obtain ⟨outcome, u, hu, hrest⟩ := hends
      exact ih outcome (h.2 outcome u hu) hrest

theorem Meets.ends {program : Program σ ω ε α} {post : Except ε α → σ → Prop} {outcome : Except ε α}
    (h : Meets effects always program post s) (ht : Ends effects program s outcome t) : post outcome t := by
  induction program generalizing s with
  | finish result =>
    obtain ⟨rfl, rfl⟩ := ht
    exact h.2
  | read rest ih => exact ih s h ht
  | perform operation rest ih =>
    obtain ⟨result, u, hu, hrest⟩ := ht
    exact ih result (h.2 result u hu) hrest

theorem Meets.mono {program : Program σ ω ε α} {post post' : Except ε α → σ → Prop}
    (h : Meets effects always program post s) (hpost : ∀ outcome t, post outcome t → post' outcome t) :
    Meets effects always program post' s := by
  induction program generalizing s with
  | finish result => exact ⟨h.1, hpost result s h.2⟩
  | read rest ih => exact ih s h
  | perform operation rest ih => exact ⟨h.1, fun outcome t ht => ih outcome (h.2 outcome t ht)⟩

/-- The end of a program is one of its moments. -/
theorem Meets.at_end {program : Program σ ω ε α} {post : Except ε α → σ → Prop}
    (h : Meets effects always program post s) :
    Meets effects always program (fun outcome t => always t ∧ post outcome t) s := by
  induction program generalizing s with
  | finish result => exact ⟨h.1, h⟩
  | read rest ih => exact ih s h
  | perform operation rest ih => exact ⟨h.1, fun outcome t ht => ih outcome (h.2 outcome t ht)⟩

theorem Meets.store {post : Except ε σ → σ → Prop} (halways : always s) (hpost : post (.ok s) s) :
    Meets effects always (Program.store : Program σ ω ε σ) post s := ⟨halways, hpost⟩

theorem Meets.lift {result : Except ε α} {post : Except ε α → σ → Prop} (halways : always s) (hpost : post result s) :
    Meets effects always (Program.lift result : Program σ ω ε α) post s := ⟨halways, hpost⟩

theorem Meets.run {operation : ω} {post : Except ε Unit → σ → Prop}
    (hpasses : ∀ t, effects.passes operation s t → always t)
    (hends : ∀ outcome t, effects.ends operation s outcome t → always t ∧ post outcome t) :
    Meets effects always (Program.run operation) post s := ⟨hpasses, hends⟩

/-- A sequence: an error of the first program is the whole one's. -/
theorem Meets.bind {program : Program σ ω ε α} {next : α → Program σ ω ε β} {post : Except ε β → σ → Prop}
    (h : Meets effects always program
      (fun outcome t => match outcome with
        | .ok a => Meets effects always (next a) post t
        | .error e => post (.error e) t) s) :
    Meets effects always (program.bind next) post s := by
  induction program generalizing s with
  | finish result =>
    cases result with
    | ok a => exact h.2
    | error e => exact h
  | read rest ih => exact ih s h
  | perform operation rest ih => exact ⟨h.1, fun outcome t ht => ih outcome (h.2 outcome t ht)⟩

theorem Meets.map {program : Program σ ω ε α} {f : α → β} {post : Except ε β → σ → Prop}
    (h : Meets effects always program (fun outcome t => post (outcome.map f) t) s) :
    Meets effects always (f <$> program) post s := by
  refine Meets.bind (h.at_end.mono ?_)
  intro outcome t ht
  cases outcome with
  | ok a => exact ht
  | error e => exact ht.2

/-- A cleanup runs from wherever the body ended. -/
theorem Meets.ensuring {program : Program σ ω ε α} {cleanup : Program σ ω ε Unit} {post : Except ε α → σ → Prop}
    (h : Meets effects always program
      (fun outcome t => Meets effects always cleanup
        (fun cleaned u => match cleaned with
          | .ok _ => post outcome u
          | .error e => post (.error e) u) t) s) :
    Meets effects always (program.ensuring cleanup) post s := by
  induction program generalizing s with
  | finish result =>
    refine Meets.bind (h.2.at_end.mono ?_)
    intro cleaned u hu
    cases cleaned with
    | ok _ => exact hu
    | error e => exact hu.2
  | read rest ih => exact ih s h
  | perform operation rest ih => exact ⟨h.1, fun outcome t ht => ih outcome (h.2 outcome t ht)⟩

end Program

end crashes
