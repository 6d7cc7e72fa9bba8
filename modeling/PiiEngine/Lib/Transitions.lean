import Mathlib.Tactic.Common

namespace transitions
variable {σ ℓ : Type}

/-- The finite runs of a labelled step relation, with the labels they pass. -/
inductive Run (step : σ → ℓ → σ → Prop) : σ → List ℓ → σ → Prop
  | nil (s : σ) : Run step s [] s
  | cons {s t u : σ} {label : ℓ} {labels : List ℓ} (hstep : step s label t) (hrest : Run step t labels u) :
      Run step s (label :: labels) u

namespace Run
variable {step : σ → ℓ → σ → Prop} {s t u : σ} {labels more : List ℓ}

theorem append (h : Run step s labels t) (h' : Run step t more u) : Run step s (labels ++ more) u := by
  induction h with
  | nil _ => exact h'
  | cons hstep _ ih => exact .cons hstep (ih h')

/-- Every state of a run satisfies what the first one does and every step preserves. -/
theorem invariant (Inv : σ → Prop) (hpreserved : ∀ s label t, Inv s → step s label t → Inv t)
    (h : Run step s labels t) (hstart : Inv s) : Inv t := by
  induction h with
  | nil _ => exact hstart
  | cons hstep _ ih => exact ih (hpreserved _ _ _ hstart hstep)

/-- A run over two stretches of labels passes a state between them. -/
theorem split (h : Run step s (labels ++ more) u) : ∃ t, Run step s labels t ∧ Run step t more u := by
  induction labels generalizing s with
  | nil => exact ⟨s, .nil s, h⟩
  | cons label labels ih =>
    cases h with
    | cons hstep hrest =>
      obtain ⟨t, hlabels, hmore⟩ := ih hrest
      exact ⟨t, .cons hstep hlabels, hmore⟩

/-- An invariant that only some labels preserve holds along a run over those. -/
theorem invariant_over (P : ℓ → Prop) (Inv : σ → Prop)
    (hpreserved : ∀ s label t, P label → Inv s → step s label t → Inv t)
    (h : Run step s labels t) (hlabels : ∀ label ∈ labels, P label) (hstart : Inv s) : Inv t := by
  induction h with
  | nil _ => exact hstart
  | cons hstep _ ih =>
    rw [List.forall_mem_cons] at hlabels
    exact ih hlabels.2 (hpreserved _ _ _ hlabels.1 hstart hstep)

/-- A run over labels of one kind is a run of what its steps do under an invariant. -/
theorem strengthen {stronger : σ → ℓ → σ → Prop} (P : ℓ → Prop) (Inv : σ → Prop)
    (hstep : ∀ s label t, P label → Inv s → step s label t → stronger s label t ∧ Inv t)
    (h : Run step s labels t) (hlabels : ∀ label ∈ labels, P label) (hstart : Inv s) : Run stronger s labels t := by
  induction h with
  | nil s => exact .nil s
  | cons hfirst _ ih =>
    rw [List.forall_mem_cons] at hlabels
    obtain ⟨hstronger, hnext⟩ := hstep _ _ _ hlabels.1 hstart hfirst
    exact .cons hstronger (ih hlabels.2 hnext)

/-- Every state of a run satisfies what every step preserves of the labels passed so far. -/
theorem history_invariant (Inv : List ℓ → σ → Prop)
    (hpreserved : ∀ done s label t, Inv done s → step s label t → Inv (done ++ [label]) t) {done : List ℓ}
    (h : Run step s labels t) (hstart : Inv done s) : Inv (done ++ labels) t := by
  induction h generalizing done with
  | nil _ => rwa [List.append_nil]
  | cons hstep _ ih =>
    have hnext := ih (hpreserved _ _ _ _ hstart hstep)
    rwa [List.append_assoc] at hnext

/-- A relation that every step respects, and that composes, relates the ends of a run. -/
theorem related (R : σ → σ → Prop) (hrefl : ∀ s, R s s) (htrans : ∀ s t u, R s t → R t u → R s u)
    (hstep : ∀ s label t, step s label t → R s t) (h : Run step s labels t) : R s t := by
  induction h with
  | nil s => exact hrefl s
  | cons hfirst _ ih => exact htrans _ _ _ (hstep _ _ _ hfirst) ih

end Run

end transitions
