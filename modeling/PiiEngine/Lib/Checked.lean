import Mathlib.Data.List.Forall2
import Mathlib.Tactic.Common

namespace checked
variable {ε α β σ : Type}

/-- A sequence of two computations succeeds when both do. -/
theorem bind_eq_ok {x : Except ε α} {f : α → Except ε β} {b : β} :
    (x >>= f) = .ok b ↔ ∃ a, x = .ok a ∧ f a = .ok b := by
  cases x with
  | error e => simp [bind, Except.bind]
  | ok a => simp [bind, Except.bind]

theorem bind_eq_error {x : Except ε α} {f : α → Except ε β} {e : ε} :
    (x >>= f) = .error e ↔ x = .error e ∨ ∃ a, x = .ok a ∧ f a = .error e := by
  cases x with
  | error e' => simp [bind, Except.bind]
  | ok a => simp [bind, Except.bind]

/-- Raise an error when a condition holds. -/
def raiseIf (p : Prop) [Decidable p] (e : ε) : Except ε Unit := if p then .error e else .ok ()

@[simp] theorem raiseIf_eq_ok {p : Prop} [Decidable p] {e : ε} : raiseIf p e = .ok () ↔ ¬ p := by
  by_cases hp : p <;> simp [raiseIf, hp]

@[simp] theorem raiseIf_eq_error {p : Prop} [Decidable p] {e e' : ε} :
    raiseIf p e = .error e' ↔ p ∧ e = e' := by
  by_cases hp : p <;> simp [raiseIf, hp]

theorem raiseIf_bind_eq_ok {p : Prop} [Decidable p] {e : ε} {f : Unit → Except ε β} {b : β} :
    (raiseIf p e >>= f) = .ok b ↔ ¬ p ∧ f () = .ok b := by
  rw [bind_eq_ok]
  constructor
  · rintro ⟨⟨⟩, hcheck, hrest⟩
    exact ⟨raiseIf_eq_ok.mp hcheck, hrest⟩
  · rintro ⟨hcheck, hrest⟩
    exact ⟨(), raiseIf_eq_ok.mpr hcheck, hrest⟩

theorem raiseIf_bind_eq_error {p : Prop} [Decidable p] {e e' : ε} {f : Unit → Except ε β} :
    (raiseIf p e >>= f) = .error e' ↔ (p ∧ e = e') ∨ (¬ p ∧ f () = .error e') := by
  by_cases hp : p <;> simp [raiseIf, hp, bind, Except.bind]

theorem map_eq_ok {x : Except ε α} {f : α → β} {b : β} :
    x.map f = .ok b ↔ ∃ a, x = .ok a ∧ f a = b := by
  cases x with
  | error e => simp [Except.map]
  | ok a => simp [Except.map]

/-- An invariant over the items handled so far holds after the whole loop. The step may
    use where its item stands in the list. -/
theorem foldlM_split_invariant {f : σ → α → Except ε σ} (Inv : List α → σ → Prop)
    {items done : List α} {s t : σ}
    (hstep : ∀ before item after s s', done ++ items = before ++ item :: after → Inv before s →
      f s item = .ok s' → Inv (before ++ [item]) s')
    (hstart : Inv done s) (hrun : items.foldlM f s = .ok t) : Inv (done ++ items) t := by
  induction items generalizing done s with
  | nil =>
    simp only [List.foldlM_nil, pure, Except.pure, Except.ok.injEq] at hrun
    simpa [hrun] using hstart
  | cons item items ih =>
    rw [List.foldlM_cons, bind_eq_ok] at hrun
    obtain ⟨s', hs', hrun⟩ := hrun
    have hnext := hstep done item items s s' rfl hstart hs'
    simpa using ih (by simpa using hstep) hnext hrun

theorem foldlM_invariant {f : σ → α → Except ε σ} (Inv : List α → σ → Prop)
    (hstep : ∀ done item s s', Inv done s → f s item = .ok s' → Inv (done ++ [item]) s')
    {items done : List α} {s t : σ} (hstart : Inv done s) (hrun : items.foldlM f s = .ok t) :
    Inv (done ++ items) t :=
  foldlM_split_invariant Inv (fun before item _ s s' _ => hstep before item s s') hstart hrun

/-- What every step keeps holds after the loop. -/
theorem foldlM_keeps {f : σ → α → Except ε σ} {p : σ → Prop}
    (hstep : ∀ item s s', p s → f s item = .ok s' → p s') {items : List α} {s t : σ} (hstart : p s)
    (hrun : items.foldlM f s = .ok t) : p t := by
  induction items generalizing s with
  | nil =>
    cases hrun
    exact hstart
  | cons item items ih =>
    rw [List.foldlM_cons, bind_eq_ok] at hrun
    obtain ⟨s', hs', hrun⟩ := hrun
    exact ih (hstep item s s' hstart hs') hrun

/-- A loop whose steps all succeed under the invariant succeeds. -/
theorem foldlM_split_total {f : σ → α → Except ε σ} (Inv : List α → σ → Prop)
    {items done : List α} {s : σ} (hstart : Inv done s)
    (hstep : ∀ before item after s, done ++ items = before ++ item :: after → Inv before s →
      ∃ s', f s item = .ok s' ∧ Inv (before ++ [item]) s') :
    ∃ t, items.foldlM f s = .ok t ∧ Inv (done ++ items) t := by
  induction items generalizing done s with
  | nil => exact ⟨s, rfl, by simpa using hstart⟩
  | cons item items ih =>
    obtain ⟨s', hs', hinv⟩ := hstep done item items s rfl hstart
    obtain ⟨t, ht, hfinal⟩ := ih hinv (by simpa using hstep)
    refine ⟨t, ?_, by simpa using hfinal⟩
    rw [List.foldlM_cons, bind_eq_ok]
    exact ⟨s', hs', ht⟩

theorem foldlM_total {f : σ → α → Except ε σ} (Inv : List α → σ → Prop)
    {items : List α} {s : σ} (hstart : Inv [] s)
    (hstep : ∀ done item s, item ∈ items → Inv done s →
      ∃ s', f s item = .ok s' ∧ Inv (done ++ [item]) s') :
    ∃ t, items.foldlM f s = .ok t ∧ Inv items t := by
  refine foldlM_split_total Inv hstart ?_
  intro before item after s hsplit
  rw [List.nil_append] at hsplit
  exact hstep before item s (by rw [hsplit]; simp)

theorem foldlM_total_of_step {f : σ → α → Except ε σ} {items : List α}
    (hstep : ∀ item ∈ items, ∀ s, ∃ s', f s item = .ok s') (s : σ) : ∃ t, items.foldlM f s = .ok t := by
  induction items generalizing s with
  | nil => exact ⟨s, rfl⟩
  | cons item items ih =>
    obtain ⟨s', hs'⟩ := hstep item (by simp) s
    obtain ⟨t, ht⟩ := ih (fun other hother => hstep other (by simp [hother])) s'
    exact ⟨t, by rw [List.foldlM_cons, bind_eq_ok]; exact ⟨s', hs', ht⟩⟩

/-- A loop whose steps can fail in one way fails once an item always makes its step fail. -/
theorem foldlM_eq_error {f : σ → α → Except ε σ} {items : List α} {e : ε}
    (hstep : ∀ item ∈ items, ∀ s, (∃ s', f s item = .ok s') ∨ f s item = .error e)
    (hfail : ∃ item ∈ items, ∀ s, f s item = .error e) (s : σ) : items.foldlM f s = .error e := by
  induction items generalizing s with
  | nil =>
    obtain ⟨item, hitem, -⟩ := hfail
    simp at hitem
  | cons item items ih =>
    rw [List.foldlM_cons, bind_eq_error]
    rcases hstep item (by simp) s with ⟨s', hs'⟩ | hitem
    · refine Or.inr ⟨s', hs', ih (fun other hother => hstep other (by simp [hother])) ?_ s'⟩
      obtain ⟨failing, hfailing, herror⟩ := hfail
      cases List.mem_cons.mp hfailing with
      | inl heq =>
        rw [← heq, herror] at hs'
        cases hs'
      | inr hmem => exact ⟨failing, hmem, herror⟩
    · exact Or.inl hitem

/-- Loops whose steps agree on every item agree. -/
theorem foldlM_congr {f g : σ → α → Except ε σ} {items : List α}
    (hstep : ∀ item ∈ items, ∀ s, f s item = g s item) (s : σ) : items.foldlM f s = items.foldlM g s := by
  induction items generalizing s with
  | nil => rfl
  | cons item items ih =>
    rw [List.foldlM_cons, List.foldlM_cons, hstep item (by simp) s]
    congr 1
    funext s'
    exact ih (fun other hother => hstep other (by simp [hother])) s'

/-- A loop whose steps fail in one way succeeds when every item passes its check, and is
    then a loop without failures. -/
theorem foldlM_eq_ite {f : σ → α → Except ε σ} {g : σ → α → σ} {p : α → Prop} [DecidablePred p] {e : ε}
    (hstep : ∀ item s, f s item = if p item then .ok (g s item) else .error e) (items : List α) (s : σ) :
    items.foldlM f s = if ∀ item ∈ items, p item then .ok (items.foldl g s) else .error e := by
  induction items generalizing s with
  | nil => simp [pure, Except.pure]
  | cons item items ih =>
    rw [List.foldlM_cons, hstep, List.foldl_cons]
    simp only [List.forall_mem_cons]
    by_cases hitem : p item
    · simp only [hitem, if_true, true_and, bind, Except.bind]
      exact ih _
    · simp [hitem, bind, Except.bind]

theorem map_bind {x : Except ε α} {f : α → Except ε β} {g : β → σ} :
    (x >>= f).map g = x >>= fun a => (f a).map g := by
  cases x <;> rfl

/-- Sequences whose continuations have equal images have equal images. -/
theorem map_bind_congr {x : Except ε α} {f f' : α → Except ε β} {g : β → σ}
    (h : ∀ a, x = .ok a → (f a).map g = (f' a).map g) : (x >>= f).map g = (x >>= f').map g := by
  cases x with
  | error e => rfl
  | ok a => exact h a rfl

/-- A loop over images of states runs through the images of the states. -/
theorem foldlM_map_state {τ : Type} {f : σ → α → Except ε σ} {g : τ → α → Except ε τ} {image : σ → τ}
    {items : List α} (hstep : ∀ item ∈ items, ∀ s, g (image s) item = (f s item).map image) (s : σ) :
    items.foldlM g (image s) = (items.foldlM f s).map image := by
  induction items generalizing s with
  | nil => rfl
  | cons item items ih =>
    rw [List.foldlM_cons, List.foldlM_cons, hstep item (by simp) s, map_bind]
    cases f s item with
    | error e => rfl
    | ok s' => exact ih (fun other hother => hstep other (by simp [hother])) s'

theorem foldl_invariant {f : σ → α → σ} (Inv : List α → σ → Prop)
    (hstep : ∀ done item s, Inv done s → Inv (done ++ [item]) (f s item))
    {items done : List α} {s : σ} (hstart : Inv done s) : Inv (done ++ items) (items.foldl f s) := by
  induction items generalizing done s with
  | nil => simpa using hstart
  | cons item items ih => simpa using ih (hstep done item s hstart)

/-- A check over a list passes when it passes on every item. -/
theorem forM_eq_ok {f : α → Except ε Unit} {items : List α} :
    forM items f = .ok () ↔ ∀ item ∈ items, f item = .ok () := by
  induction items with
  | nil => simp [pure, Except.pure]
  | cons item items ih =>
    rw [List.forM_cons, bind_eq_ok, ih, List.forall_mem_cons]
    constructor
    · rintro ⟨⟨⟩, hitem, hrest⟩
      exact ⟨hitem, hrest⟩
    · rintro ⟨hitem, hrest⟩
      exact ⟨(), hitem, hrest⟩

/-- A failing check names an item it fails on. -/
theorem forM_eq_error {f : α → Except ε Unit} {items : List α} {e : ε}
    (h : forM items f = .error e) : ∃ item ∈ items, f item = .error e := by
  induction items with
  | nil => simp [pure, Except.pure] at h
  | cons item items ih =>
    rw [List.forM_cons, bind_eq_error] at h
    rcases h with h | ⟨_, -, h⟩
    · exact ⟨item, by simp, h⟩
    · obtain ⟨other, hother, hfail⟩ := ih h
      exact ⟨other, by simp [hother], hfail⟩

/-- A list of computations succeeds when each of them does. -/
theorem mapM_eq_ok {f : α → Except ε β} {items : List α} {results : List β} :
    items.mapM f = .ok results ↔ List.Forall₂ (fun item result => f item = .ok result) items results := by
  induction items generalizing results with
  | nil => simp [pure, Except.pure, eq_comm]
  | cons item items ih =>
    rw [List.mapM_cons, bind_eq_ok, List.forall₂_cons_left_iff]
    constructor
    · rintro ⟨result, hresult, hrest⟩
      obtain ⟨rest, hrest, hpure⟩ := bind_eq_ok.mp hrest
      exact ⟨result, rest, hresult, ih.mp hrest, (Except.ok.inj hpure).symm⟩
    · rintro ⟨result, rest, hresult, hrest, rfl⟩
      exact ⟨result, hresult, bind_eq_ok.mpr ⟨rest, ih.mpr hrest, rfl⟩⟩

theorem mapM_total {f : α → Except ε β} {items : List α} (h : ∀ item ∈ items, ∃ result, f item = .ok result) :
    ∃ results, items.mapM f = .ok results := by
  induction items with
  | nil => exact ⟨[], rfl⟩
  | cons item items ih =>
    obtain ⟨result, hresult⟩ := h item (by simp)
    obtain ⟨rest, hrest⟩ := ih fun other hother => h other (by simp [hother])
    exact ⟨result :: rest, mapM_eq_ok.mpr (.cons hresult (mapM_eq_ok.mp hrest))⟩

theorem mapM_congr {f g : α → Except ε β} {items : List α} (h : ∀ item ∈ items, f item = g item) :
    items.mapM f = items.mapM g := by
  induction items with
  | nil => rfl
  | cons item items ih =>
    rw [List.mapM_cons, List.mapM_cons, h item (by simp), ih fun other hother => h other (by simp [hother])]

/-- A value that a validator accepts. -/
structure Accepted (validate : α → Except ε Unit) where
  val : α
  accepted : validate val = .ok ()

def accept (validate : α → Except ε Unit) (a : α) : Except ε (Accepted validate) :=
  match h : validate a with
  | .ok () => .ok ⟨a, h⟩
  | .error e => .error e

theorem accept_total {validate : α → Except ε Unit} {a : α} (h : validate a = .ok ()) :
    accept validate a = .ok ⟨a, h⟩ := by
  unfold accept
  split
  · rfl
  · next e he =>
    rw [h] at he
    cases he

end checked
