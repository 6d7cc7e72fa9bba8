import Mathlib.Tactic.Common

namespace programs

/-- A program over a state that returns or raises, and leaves a state either way. -/
structure Program (σ ε α : Type) where
  run : σ → Except ε α × σ

namespace Program
variable {σ ε α β : Type}

def bind (body : Program σ ε α) (next : α → Program σ ε β) : Program σ ε β where
  run s :=
    match body.run s with
    | (.ok a, t) => (next a).run t
    | (.error e, t) => (.error e, t)

instance : Monad (Program σ ε) where
  pure a := ⟨fun s => (.ok a, s)⟩
  bind := bind

def raise (e : ε) : Program σ ε α := ⟨fun s => (.error e, s)⟩

/-- The outcome of a computation that does not touch the state. -/
def lift (outcome : Except ε α) : Program σ ε α := ⟨fun s => (outcome, s)⟩

def state : Program σ ε σ := ⟨fun s => (.ok s, s)⟩

def modify (f : σ → σ) : Program σ ε Unit := ⟨fun s => (.ok (), f s)⟩

/-- Python's `try … except`: the handler sees every error of the body. -/
def handle (body : Program σ ε α) (handler : ε → Program σ ε α) : Program σ ε α where
  run s :=
    match body.run s with
    | (.ok a, t) => (.ok a, t)
    | (.error e, t) => (handler e).run t

/-- Python's `try … finally`: the cleanup runs however the body ends, and its own error
    takes the place of the body's. -/
def ensuring (body : Program σ ε α) (cleanup : Program σ ε Unit) : Program σ ε α where
  run s :=
    match cleanup.run (body.run s).2 with
    | (.ok (), t) => ((body.run s).1, t)
    | (.error e, t) => (.error e, t)

theorem run_bind_ok {body : Program σ ε α} {next : α → Program σ ε β} {s t : σ} {a : α} (h : body.run s = (.ok a, t)) :
    (body >>= next).run s = (next a).run t := by
  change (bind body next).run s = (next a).run t
  dsimp only [bind]
  rw [h]

theorem run_ensuring_ok {body : Program σ ε α} {cleanup : Program σ ε Unit} {s t : σ}
    (h : cleanup.run (body.run s).2 = (.ok (), t)) : (body.ensuring cleanup).run s = ((body.run s).1, t) := by
  dsimp only [ensuring]
  rw [h]

/-- Whether it returns or raises, a program leaves a state related to the one it started in. -/
def Relates (R : σ → σ → Prop) (body : Program σ ε α) : Prop := ∀ s, R s (body.run s).2

namespace Relates
variable {R : σ → σ → Prop} {body : Program σ ε α} {next : α → Program σ ε β}

theorem pure (hrefl : ∀ s, R s s) (a : α) : Relates R (Pure.pure a : Program σ ε α) := hrefl

theorem raise (hrefl : ∀ s, R s s) (e : ε) : Relates R (Program.raise e : Program σ ε α) := hrefl

theorem lift (hrefl : ∀ s, R s s) (outcome : Except ε α) : Relates R (Program.lift outcome : Program σ ε α) := hrefl

theorem bind (htrans : ∀ s t u, R s t → R t u → R s u) (hbody : Relates R body) (hnext : ∀ a, Relates R (next a)) :
    Relates R (body >>= next) := by
  intro s
  have hfirst := hbody s
  change R s ((Program.bind body next).run s).2
  dsimp only [Program.bind]
  split
  · next a t heq =>
    rw [heq] at hfirst
    exact htrans _ _ _ hfirst (hnext a t)
  · next e t heq =>
    rw [heq] at hfirst
    exact hfirst

theorem handle {handler : ε → Program σ ε α} (htrans : ∀ s t u, R s t → R t u → R s u) (hbody : Relates R body)
    (hhandler : ∀ e, Relates R (handler e)) : Relates R (body.handle handler) := by
  intro s
  have hfirst := hbody s
  dsimp only [Program.handle]
  split
  · next a t heq =>
    rw [heq] at hfirst
    exact hfirst
  · next e t heq =>
    rw [heq] at hfirst
    exact htrans _ _ _ hfirst (hhandler e t)

end Relates

end Program

end programs
