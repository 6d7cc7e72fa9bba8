import Mathlib.Data.List.TakeWhile
import Mathlib.Tactic.Common

namespace runs
variable {α : Type} (opens : Option α → α → Bool) (continues : α → α → Bool)

/-- The runs of a list: each item that opens one after its predecessor, with the longest
    stretch behind it that continues it. -/
def split (previous : Option α) : List α → List (α × List α)
  | [] => []
  | item :: items =>
    if opens previous item then (item, items.takeWhile (continues item)) :: split (some item) items
    else split (some item) items

variable {opens continues}

theorem split_cons_of_opens {previous : Option α} {item : α} (h : opens previous item = true) (items : List α) :
    split opens continues previous (item :: items) =
      (item, items.takeWhile (continues item)) :: split opens continues (some item) items :=
  if_pos h

theorem split_cons_of_not_opens {previous : Option α} {item : α} (h : opens previous item = false)
    (items : List α) :
    split opens continues previous (item :: items) = split opens continues (some item) items :=
  if_neg (by simp [h])

/-- Every item that opens a run adds one. -/
theorem length_split_append (previous : Option α) (items : List α) (item : α) :
    (split opens continues previous (items ++ [item])).length =
      (split opens continues previous items).length +
        if opens (items.getLast?.or previous) item then 1 else 0 := by
  induction items generalizing previous with
  | nil =>
    rw [List.nil_append, List.getLast?_nil, Option.none_or]
    by_cases h : opens previous item <;> simp [split, h]
  | cons first rest ih =>
    have hlast : (first :: rest).getLast?.or previous = rest.getLast?.or (some first) := by
      rw [List.getLast?_cons, Option.some_or]
      cases rest.getLast? <;> rfl
    rw [List.cons_append, hlast]
    by_cases h : opens previous first = true
    · rw [split_cons_of_opens h, split_cons_of_opens h, List.length_cons, List.length_cons, ih]
      omega
    · rw [Bool.not_eq_true] at h
      rw [split_cons_of_not_opens h, split_cons_of_not_opens h, ih]

/-- Runs open at items of the list, in its order. -/
theorem map_fst_split_sublist (previous : Option α) (items : List α) :
    ((split opens continues previous items).map Prod.fst).Sublist items := by
  induction items generalizing previous with
  | nil => exact .slnil
  | cons item items ih =>
    cases h : opens previous item with
    | true =>
      rw [split_cons_of_opens h, List.map_cons]
      exact (ih _).cons_cons item
    | false =>
      rw [split_cons_of_not_opens h]
      exact (ih _).cons item

end runs
