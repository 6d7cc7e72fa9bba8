import Mathlib.Data.List.Chain
import Mathlib.Data.List.Nodup
import Mathlib.Data.List.Range
import Mathlib.Tactic.Common

namespace windows
variable {α : Type}

/-- `range(0, stop, step)` -/
def range (stop step : Nat) : List Nat := (List.range ((stop + step - 1) / step)).map (· * step)

theorem mem_range_iff {stop step i : Nat} (hstep : 0 < step) : i ∈ range stop step ↔ i < stop ∧ step ∣ i := by
  have hcount : ∀ k, k < (stop + step - 1) / step ↔ k * step < stop := by
    intro k
    rw [Nat.lt_iff_add_one_le, Nat.le_div_iff_mul_le hstep, Nat.succ_mul]
    omega
  simp only [range, List.mem_map, List.mem_range, hcount]
  constructor
  · rintro ⟨k, hk, rfl⟩
    exact ⟨hk, Nat.dvd_mul_left step k⟩
  · rintro ⟨hlt, k, rfl⟩
    rw [Nat.mul_comm] at hlt
    exact ⟨k, hlt, Nat.mul_comm k step⟩

theorem range_pairwise (stop : Nat) {step : Nat} (hstep : 0 < step) : (range stop step).Pairwise (· < ·) := by
  rw [range, List.pairwise_map]
  exact List.pairwise_lt_range.imp fun hlt => Nat.mul_lt_mul_of_pos_right hlt hstep

/-- Neighbours of a range differ by its step. -/
theorem range_isChain (stop step : Nat) : (range stop step).IsChain fun i j => j = i + step := by
  rw [range, List.isChain_map, List.isChain_range]
  intro k _
  rw [Nat.succ_mul]

theorem head?_range {stop step : Nat} (hstep : 0 < step) (hstop : 0 < stop) : (range stop step).head? = some 0 := by
  have hcount : 0 < (stop + step - 1) / step := Nat.div_pos (by omega) hstep
  rw [range, List.head?_map, List.head?_range, if_neg (by omega)]
  simp

/-- A loop over items that stops after the first one to satisfy a condition. -/
def takeUntil (p : α → Bool) : List α → List α
  | [] => []
  | item :: items => item :: if p item then [] else takeUntil p items

section takeUntil
variable {p : α → Bool} {items : List α}

theorem takeUntil_sublist (p : α → Bool) (items : List α) : (takeUntil p items).Sublist items := by
  induction items with
  | nil => exact .slnil
  | cons item items ih =>
    rw [takeUntil]
    split
    · exact (List.nil_sublist items).cons_cons item
    · exact ih.cons_cons item

theorem head?_takeUntil (p : α → Bool) (items : List α) : (takeUntil p items).head? = items.head? := by
  cases items <;> rfl

theorem isChain_takeUntil {R : α → α → Prop} (h : items.IsChain R) : (takeUntil p items).IsChain R := by
  induction items with
  | nil => exact .nil
  | cons item items ih =>
    rw [List.isChain_cons] at h
    rw [takeUntil]
    split
    · exact .singleton item
    · rw [List.isChain_cons, head?_takeUntil]
      exact ⟨h.1, ih h.2⟩

/-- An item is visited unless an earlier one stops the loop. -/
theorem mem_takeUntil_or {R : α → α → Prop} (hsorted : items.Pairwise R) {item : α} (hitem : item ∈ items) :
    item ∈ takeUntil p items ∨ ∃ last ∈ takeUntil p items, p last = true ∧ R last item := by
  induction items with
  | nil => cases hitem
  | cons first rest ih =>
    obtain ⟨hfirst, hrest⟩ := List.pairwise_cons.mp hsorted
    rw [takeUntil]
    cases List.mem_cons.mp hitem with
    | inl heq => exact Or.inl (by simp [heq])
    | inr hmem =>
      by_cases hp : p first = true
      · exact Or.inr ⟨first, by simp, hp, hfirst item hmem⟩
      · rw [if_neg hp]
        cases ih hrest hmem with
        | inl hvisited => exact Or.inl (List.mem_cons_of_mem _ hvisited)
        | inr hstopped =>
          obtain ⟨last, hlast, hstop⟩ := hstopped
          exact Or.inr ⟨last, List.mem_cons_of_mem _ hlast, hstop⟩

/-- The last item visited stops the loop or is the last one of all. -/
theorem getLast?_takeUntil {last : α} (h : last ∈ (takeUntil p items).getLast?) :
    p last = true ∨ last ∈ items.getLast? := by
  induction items with
  | nil => cases h
  | cons first rest ih =>
    rw [takeUntil] at h
    split at h
    · next hp =>
      rw [List.getLast?_singleton, Option.mem_some_iff] at h
      exact Or.inl (h ▸ hp)
    · cases rest with
      | nil => exact Or.inr (by simpa [takeUntil] using h)
      | cons second rest =>
        rw [takeUntil, List.getLast?_cons_cons] at h
        rw [List.getLast?_cons_cons]
        exact ih (by rw [takeUntil]; exact h)

end takeUntil

theorem getLast?_range {stop step last : Nat} (hstep : 0 < step) (h : last ∈ (range stop step).getLast?) :
    stop ≤ last + step := by
  by_contra hlt
  have hmem : last + step ∈ range stop step := by
    obtain ⟨-, hdvd⟩ := (mem_range_iff hstep).mp (List.mem_of_getLast? h)
    exact (mem_range_iff hstep).mpr ⟨by omega, Nat.dvd_add hdvd (Nat.dvd_refl step)⟩
  obtain ⟨before, hbefore⟩ := List.getLast?_eq_some_iff.mp h
  have hsorted := range_pairwise stop hstep
  rw [hbefore, List.pairwise_append] at hsorted
  rw [hbefore, List.mem_append] at hmem
  cases hmem with
  | inl hmem =>
    have := hsorted.2.2 _ hmem last (by simp)
    omega
  | inr hmem =>
    rw [List.mem_singleton] at hmem
    omega

/-- Stretches without gaps cover everything from the first start to the last stop. -/
theorem exists_cover {start stop : α → Nat} {items : List α} (hne : items ≠ [])
    (hchain : items.IsChain fun a b => start b ≤ stop a) {x : Nat}
    (hhead : ∀ a ∈ items.head?, start a ≤ x) (hlast : ∀ a ∈ items.getLast?, x < stop a) :
    ∃ a ∈ items, start a ≤ x ∧ x < stop a := by
  induction items with
  | nil => exact absurd rfl hne
  | cons first rest ih =>
    have hstart := hhead first rfl
    by_cases hstop : x < stop first
    · exact ⟨first, by simp, hstart, hstop⟩
    · cases rest with
      | nil => exact absurd (hlast first rfl) hstop
      | cons second rest =>
        rw [List.isChain_cons_cons] at hchain
        obtain ⟨a, ha, hcover⟩ := ih (by simp) hchain.2
          (by
            intro a ha
            rw [List.head?_cons, Option.mem_some_iff] at ha
            have hgap := hchain.1
            rw [← ha]
            omega)
          (by rwa [List.getLast?_cons_cons] at hlast)
        exact ⟨a, List.mem_cons_of_mem _ ha, hcover⟩

/-- Each position lies in exactly one of the consecutive stretches of a range. -/
theorem countP_range {stop step x : Nat} (hstep : 0 < step) (hx : x < stop) :
    (range stop step).countP (fun i => i ≤ x ∧ x < min stop (i + step)) = 1 := by
  have hfloor : x / step * step ≤ x := Nat.div_mul_le_self x step
  have hnext : x < x / step * step + step := by
    have hmod := Nat.mod_lt x hstep
    have hdiv := Nat.div_add_mod' x step
    omega
  have hiff : ∀ i ∈ range stop step,
      decide (i ≤ x ∧ x < min stop (i + step)) = true ↔ (i == x / step * step) = true := by
    intro i hi
    obtain ⟨-, k, rfl⟩ := (mem_range_iff hstep).mp hi
    rw [decide_eq_true_eq, beq_iff_eq, Nat.lt_min, Nat.mul_comm step k]
    constructor
    · rintro ⟨hle, -, hlt⟩
      have hk : k ≤ x / step := (Nat.le_div_iff_mul_le hstep).mpr hle
      have hk' : x / step < k + 1 := (Nat.div_lt_iff_lt_mul hstep).mpr (by rw [Nat.succ_mul]; exact hlt)
      rw [show k = x / step by omega]
    · intro heq
      omega
  rw [List.countP_congr hiff, ← List.count_eq_countP]
  refine List.count_eq_one_of_mem ((range_pairwise stop hstep).imp fun hlt => ne_of_lt hlt) ?_
  exact (mem_range_iff hstep).mpr ⟨by omega, Nat.dvd_mul_left step (x / step)⟩

/-- Items that exactly one window owns are found exactly once. -/
theorem flatMap_filter_perm {β : Type} {owners : List β} {owns : β → α → Bool} {items : List α}
    (h : ∀ a ∈ items, owners.countP (owns · a) = 1) :
    (owners.flatMap fun owner => items.filter (owns owner)).Perm items := by
  classical
  rw [List.perm_iff_count]
  intro a
  rw [List.count_flatMap]
  by_cases ha : a ∈ items
  · have hterm : ∀ owner ∈ owners, (List.count a ∘ fun owner => items.filter (owns owner)) owner =
        if owns owner a then items.count a else 0 := by
      intro owner _
      rw [Function.comp_apply]
      split
      · next howns => exact List.count_filter howns
      · next howns => exact List.count_eq_zero.mpr fun hmem => howns (List.mem_filter.mp hmem).2
    have hsum : ∀ others : List β, (others.map fun owner => if owns owner a then items.count a else 0).sum =
        others.countP (owns · a) * items.count a := by
      intro others
      induction others with
      | nil => simp
      | cons owner others ih =>
        rw [List.map_cons, List.sum_cons, ih, List.countP_cons, Nat.add_mul]
        by_cases howns : owns owner a = true <;> simp [howns, Nat.add_comm]
    rw [List.map_congr_left hterm, hsum, h a ha, Nat.one_mul]
  · have hzero : ∀ owner ∈ owners, (List.count a ∘ fun owner => items.filter (owns owner)) owner = 0 :=
      fun owner _ => List.count_eq_zero.mpr fun hmem => ha (List.mem_filter.mp hmem).1
    rw [List.map_congr_left hzero, List.count_eq_zero.mpr ha]
    simp

end windows
