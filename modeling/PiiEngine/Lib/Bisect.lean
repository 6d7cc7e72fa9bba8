import Mathlib.Data.List.TakeWhile
import Mathlib.Tactic.Common

namespace bisect
variable {α : Type} (before : α → Bool)

/-- The loop of a binary search for the first position whose item does not come before. -/
def loop (items : List α) (lo hi : Nat) : Nat :=
  if lo < hi then
    let mid := (lo + hi) / 2
    if items[mid]?.any before then loop items (mid + 1) hi else loop items lo mid
  else lo
termination_by hi - lo

/-- `bisect_left(items, x)`, where the predicate compares an item with `x`. -/
def left (items : List α) : Nat := loop before items 0 items.length

variable {before} {items : List α}

/-- The items that come before stand in front of all others. -/
def Sorted (before : α → Bool) (items : List α) : Prop := items.Pairwise fun x y => before y = true → before x = true

theorem Sorted.any_of_le (h : Sorted before items) {i j : Nat} (hle : i ≤ j) (hj : items[j]?.any before = true) :
    items[i]?.any before = true := by
  obtain ⟨y, hy, hbefore⟩ := (Option.any_eq_true _ _).mp hj
  obtain ⟨hlength, rfl⟩ := List.getElem?_eq_some_iff.mp hy
  have hi : i < items.length := by omega
  rw [List.getElem?_eq_getElem hi, Option.any_some]
  cases Nat.lt_or_eq_of_le hle with
  | inl hlt => exact List.pairwise_iff_getElem.mp h i j hi hlength hlt hbefore
  | inr heq =>
    subst heq
    exact hbefore

/-- The search narrows to the position where the predicate changes. -/
theorem loop_spec (h : Sorted before items) {lo hi : Nat} (hlo : ∀ i < lo, items[i]?.any before = true)
    (hhi : ∀ i, hi ≤ i → items[i]?.any before = false) (hle : lo ≤ hi) (i : Nat) :
    i < loop before items lo hi ↔ items[i]?.any before = true := by
  induction lo, hi using loop.induct before items with
  | case1 lo hi hlt mid hmid ih =>
    have hbelow : items[(lo + hi) / 2]?.any before = true := hmid
    rw [loop, if_pos hlt, if_pos hbelow]
    refine ih ?_ hhi (by omega)
    intro j hj
    exact h.any_of_le (Nat.le_of_lt_succ hj) hmid
  | case2 lo hi hlt mid hmid ih =>
    have habove : ¬ items[(lo + hi) / 2]?.any before = true := hmid
    rw [loop, if_pos hlt, if_neg habove]
    refine ih hlo ?_ (by omega)
    intro j hj
    rw [← Bool.not_eq_true]
    exact fun hany => hmid (h.any_of_le hj hany)
  | case3 lo hi hlt =>
    rw [loop, if_neg hlt]
    constructor
    · exact hlo i
    · intro hany
      by_contra hge
      rw [hhi i (by omega)] at hany
      cases hany

theorem lt_length_takeWhile_iff (h : Sorted before items) (i : Nat) :
    i < (items.takeWhile before).length ↔ items[i]?.any before = true := by
  induction items generalizing i with
  | nil => simp
  | cons item items ih =>
    cases hbefore : before item with
    | true =>
      rw [List.takeWhile_cons_of_pos hbefore, List.length_cons]
      cases i with
      | zero => simp [hbefore]
      | succ i =>
        rw [Nat.add_lt_add_iff_right, ih (List.pairwise_cons.mp h).2, List.getElem?_cons_succ]
    | false =>
      rw [List.takeWhile_cons_of_neg (by simp [hbefore])]
      refine iff_of_false (Nat.not_lt_zero i) fun hany => ?_
      have hfirst := h.any_of_le (Nat.zero_le i) hany
      rw [List.getElem?_cons_zero, Option.any_some, hbefore] at hfirst
      cases hfirst

/-- The search counts the items that come before. -/
theorem left_eq (h : Sorted before items) : left before items = (items.takeWhile before).length := by
  have hend : ∀ i, items.length ≤ i → items[i]?.any before = false := by
    intro i hi
    rw [List.getElem?_eq_none hi]
    rfl
  apply eq_of_forall_lt_iff
  intro i
  rw [left, loop_spec h (by simp) hend (Nat.zero_le _), lt_length_takeWhile_iff h]

/-- In a sorted list the items that come before are exactly those in front. -/
theorem takeWhile_eq_filter (h : Sorted before items) : items.takeWhile before = items.filter before := by
  induction items with
  | nil => rfl
  | cons item items ih =>
    obtain ⟨hitem, hrest⟩ := List.pairwise_cons.mp h
    cases hbefore : before item with
    | true => rw [List.takeWhile_cons_of_pos hbefore, List.filter_cons_of_pos hbefore, ih hrest]
    | false =>
      have hnone : items.filter before = [] := List.filter_eq_nil_iff.mpr fun other hother hafter => by
        rw [hitem other hother hafter] at hbefore
        cases hbefore
      rw [List.takeWhile_cons_of_neg (by simp [hbefore]), List.filter_cons_of_neg (by simp [hbefore]), hnone]

end bisect
