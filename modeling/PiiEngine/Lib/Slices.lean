import Mathlib.Data.List.Basic
import Mathlib.Tactic.Common

namespace slices
variable {α : Type}

/-- A slice bound counts from the end when negative and is clamped to the length. -/
def bound (length : Nat) (i : Int) : Nat := if i < 0 then (i + length).toNat else min i.toNat length

/-- `items[start:stop]` -/
def slice (items : List α) (start stop : Int) : List α :=
  (items.take (bound items.length stop)).drop (bound items.length start)

/-- `items[:stop]` -/
def sliceTo (items : List α) (stop : Int) : List α := items.take (bound items.length stop)

/-- `items[start:]` -/
def sliceFrom (items : List α) (start : Int) : List α := items.drop (bound items.length start)

theorem bound_of_le {length : Nat} {i : Int} (hnonneg : 0 ≤ i) (hle : i ≤ length) :
    bound length i = i.toNat := by
  rw [bound, if_neg (by omega)]
  omega

theorem slice_eq {items : List α} {start stop : Int} (hstart : 0 ≤ start) (hle : start ≤ stop)
    (hstop : stop ≤ items.length) :
    slice items start stop = (items.take stop.toNat).drop start.toNat := by
  rw [slice, bound_of_le (by omega) hstop, bound_of_le hstart (by omega)]

theorem sliceTo_eq {items : List α} {stop : Int} (hnonneg : 0 ≤ stop) (hstop : stop ≤ items.length) :
    sliceTo items stop = items.take stop.toNat := by
  rw [sliceTo, bound_of_le hnonneg hstop]

theorem sliceFrom_eq {items : List α} {start : Int} (hnonneg : 0 ≤ start) (hstart : start ≤ items.length) :
    sliceFrom items start = items.drop start.toNat := by
  rw [sliceFrom, bound_of_le hnonneg hstart]

/-- One replacement of a stretch of a list. -/
structure Edit (α : Type) where
  start : Nat
  stop : Nat
  replacement : List α
  deriving DecidableEq

/-- Replace every edited stretch at once. Offsets always refer to the original list, and
    what lies between the edits is copied in order. -/
def substitute (items : List α) (offset : Nat) : List (Edit α) → List α
  | [] => items.drop offset
  | edit :: edits =>
    (items.take edit.start).drop offset ++ edit.replacement ++ substitute items edit.stop edits

/-- The edits follow each other inside the list. -/
inductive Ordered (length : Nat) : Nat → List (Edit α) → Prop where
  | nil {offset} : offset ≤ length → Ordered length offset []
  | cons {offset edit edits} : offset ≤ edit.start → edit.start ≤ edit.stop →
      Ordered length edit.stop edits → Ordered length offset (edit :: edits)

theorem Ordered.le_length {length offset : Nat} {edits : List (Edit α)}
    (h : Ordered length offset edits) : offset ≤ length := by
  induction h with
  | nil hle => exact hle
  | cons hstart hstop _ ih => omega

theorem Ordered.of_cons {length offset : Nat} {edit : Edit α} {edits : List (Edit α)}
    (h : Ordered length offset (edit :: edits)) :
    offset ≤ edit.start ∧ edit.start ≤ edit.stop ∧ Ordered length edit.stop edits := by
  cases h with
  | cons hstart hstop hrest => exact ⟨hstart, hstop, hrest⟩

theorem Ordered.le_start {length offset : Nat} {edit : Edit α} {edits : List (Edit α)}
    (h : Ordered length offset edits) (hedit : edit ∈ edits) : offset ≤ edit.start := by
  induction h with
  | nil => cases hedit
  | cons hstart hstop _ ih =>
    cases List.mem_cons.mp hedit with
    | inl hfirst =>
      subst hfirst
      exact hstart
    | inr hlater =>
      have := ih hlater
      omega

theorem Ordered.mono {length offset before : Nat} {edits : List (Edit α)}
    (h : Ordered length offset edits) (hle : before ≤ offset) : Ordered length before edits := by
  cases h with
  | nil hlength => exact .nil (Nat.le_trans hle hlength)
  | cons hstart hstop hrest => exact .cons (Nat.le_trans hle hstart) hstop hrest

/-- Everything before the first edit is copied. -/
theorem substitute_eq_append {items : List α} {offset later : Nat} {edits : List (Edit α)}
    (h : Ordered items.length later edits) (hle : offset ≤ later) :
    substitute items offset edits = (items.take later).drop offset ++ substitute items later edits := by
  have hsplit : ∀ bound, later ≤ bound →
      (items.take bound).drop offset = (items.take later).drop offset ++ (items.take bound).drop later := by
    intro bound hbound
    have htake : items.take bound = items.take later ++ (items.take bound).drop later := by
      conv_lhs => rw [← List.take_append_drop later (items.take bound)]
      rw [List.take_take, Nat.min_eq_left hbound]
    have hlength : offset ≤ (items.take later).length := by
      rw [List.length_take]
      exact Nat.le_min.mpr ⟨hle, Nat.le_trans hle h.le_length⟩
    conv_lhs => rw [htake, List.drop_append_of_le_length hlength]
  cases h with
  | nil hlength =>
    have h := hsplit items.length hlength
    rwa [List.take_length] at h
  | cons hstart hstop hrest =>
    rw [substitute, substitute, hsplit _ hstart]
    simp only [List.append_assoc]

/-- One more edit in front of the others replaces its stretch and leaves the rest alone. -/
theorem substitute_cons {items : List α} (edit : Edit α) {edits : List (Edit α)}
    (h : Ordered items.length edit.stop edits) (hle : edit.start ≤ edit.stop) :
    (substitute items 0 edits).take edit.start ++ edit.replacement ++
        (substitute items 0 edits).drop edit.stop = substitute items 0 (edit :: edits) := by
  have hlength : (items.take edit.stop).length = edit.stop := by
    rw [List.length_take]
    exact Nat.min_eq_left h.le_length
  rw [substitute_eq_append h (Nat.zero_le _), List.drop_zero,
    List.take_append_of_le_length (by omega), List.take_take, Nat.min_eq_left hle, List.drop_left' hlength,
    substitute, List.drop_zero]

/-- The stretch in front of the edits still holds the original items. -/
theorem take_drop_substitute {items : List α} {start stop : Nat} {edits : List (Edit α)}
    (h : Ordered items.length stop edits) :
    ((substitute items 0 edits).take stop).drop start = (items.take stop).drop start := by
  have hlength : (items.take stop).length = stop := by
    rw [List.length_take]
    exact Nat.min_eq_left h.le_length
  rw [substitute_eq_append h (Nat.zero_le _), List.drop_zero, List.take_left' hlength]

theorem le_length_substitute {items : List α} {offset : Nat} {edits : List (Edit α)}
    (h : Ordered items.length offset edits) : offset ≤ (substitute items 0 edits).length := by
  rw [substitute_eq_append h (Nat.zero_le _), List.length_append, List.drop_zero, List.length_take]
  have := h.le_length
  omega

/-- The items in front of an edit are copied. -/
theorem getElem?_substitute_left {items : List α} {edit : Edit α} {edits : List (Edit α)} {offset i : Nat}
    (h : Ordered items.length offset (edit :: edits)) (hoffset : offset ≤ i) (hbefore : i < edit.start) :
    (substitute items offset (edit :: edits))[i - offset]? = items[i]? := by
  obtain ⟨-, hstop, hrest⟩ := h.of_cons
  have hlength : ((items.take edit.start).drop offset).length = edit.start - offset := by
    rw [List.length_drop, List.length_take]
    have := hrest.le_length
    omega
  rw [substitute, List.append_assoc, List.getElem?_append_left (by omega), List.getElem?_drop, List.getElem?_take,
    if_pos (by omega)]
  congr 1
  omega

/-- An edit writes its replacement over its stretch. -/
theorem getElem?_substitute_inside {items : List α} {edit : Edit α} {edits : List (Edit α)} {offset i : Nat}
    (h : Ordered items.length offset (edit :: edits)) (hwidth : edit.replacement.length = edit.stop - edit.start)
    (hstart : edit.start ≤ i) (hi : i < edit.stop) :
    (substitute items offset (edit :: edits))[i - offset]? = edit.replacement[i - edit.start]? := by
  obtain ⟨hoffset, hstop, hrest⟩ := h.of_cons
  have hlength : ((items.take edit.start).drop offset).length = edit.start - offset := by
    rw [List.length_drop, List.length_take]
    have := hrest.le_length
    omega
  rw [substitute, List.append_assoc, List.getElem?_append_right (by omega), hlength,
    List.getElem?_append_left (by omega)]
  congr 1
  omega

/-- Behind an edit that keeps the length stands what the other edits leave. -/
theorem getElem?_substitute_right {items : List α} {edit : Edit α} {edits : List (Edit α)} {offset i : Nat}
    (h : Ordered items.length offset (edit :: edits)) (hwidth : edit.replacement.length = edit.stop - edit.start)
    (hi : edit.stop ≤ i) :
    (substitute items offset (edit :: edits))[i - offset]? = (substitute items edit.stop edits)[i - edit.stop]? := by
  obtain ⟨hoffset, hstop, hrest⟩ := h.of_cons
  have hlength : ((items.take edit.start).drop offset).length = edit.start - offset := by
    rw [List.length_drop, List.length_take]
    have := hrest.le_length
    omega
  rw [substitute, List.append_assoc, List.getElem?_append_right (by omega), hlength,
    List.getElem?_append_right (by omega)]
  congr 1
  omega

section widths
variable {items : List α} {offset : Nat} {edits : List (Edit α)}

/-- Under edits that keep the length every other item stays in its place. -/
theorem getElem?_substitute_outside (h : Ordered items.length offset edits)
    (hwidth : ∀ edit ∈ edits, edit.replacement.length = edit.stop - edit.start) {i : Nat} (hi : offset ≤ i)
    (houtside : ∀ edit ∈ edits, ¬ (edit.start ≤ i ∧ i < edit.stop)) :
    (substitute items offset edits)[i - offset]? = items[i]? := by
  induction h with
  | nil =>
    rw [substitute, List.getElem?_drop]
    congr 1
    omega
  | @cons offset edit edits hoffset hstop hrest ih =>
    rw [List.forall_mem_cons] at hwidth houtside
    have hordered : Ordered items.length offset (edit :: edits) := .cons hoffset hstop hrest
    by_cases hbefore : i < edit.start
    · exact getElem?_substitute_left hordered hi hbefore
    · rw [getElem?_substitute_right hordered hwidth.1 (by omega)]
      exact ih hwidth.2 (by omega) houtside.2

/-- Under edits that keep the length each replacement stands over its own stretch. -/
theorem getElem?_substitute_mem (h : Ordered items.length offset edits)
    (hwidth : ∀ edit ∈ edits, edit.replacement.length = edit.stop - edit.start) {edit : Edit α} (hedit : edit ∈ edits)
    {i : Nat} (hstart : edit.start ≤ i) (hi : i < edit.stop) :
    (substitute items offset edits)[i - offset]? = edit.replacement[i - edit.start]? := by
  induction h with
  | nil => cases hedit
  | @cons offset first edits hoffset hstop hrest ih =>
    rw [List.forall_mem_cons] at hwidth
    have hordered : Ordered items.length offset (first :: edits) := .cons hoffset hstop hrest
    cases List.mem_cons.mp hedit with
    | inl hfirst =>
      subst hfirst
      exact getElem?_substitute_inside hordered hwidth.1 hstart hi
    | inr hlater =>
      have hbehind := hrest.le_start hlater
      rw [getElem?_substitute_right hordered hwidth.1 (by omega)]
      exact ih hwidth.2 hlater

theorem length_substitute_cons {edit : Edit α} (h : Ordered items.length offset (edit :: edits)) :
    (substitute items offset (edit :: edits)).length =
      edit.start - offset + edit.replacement.length + (substitute items edit.stop edits).length := by
  have hrest := h.of_cons.2.2.le_length
  have hstop := h.of_cons.2.1
  rw [substitute, List.length_append, List.length_append, List.length_drop, List.length_take]
  omega

/-- Edits that write no more than they replace shorten the list. -/
theorem length_substitute_le (h : Ordered items.length offset edits)
    (hwidth : ∀ edit ∈ edits, edit.replacement.length ≤ edit.stop - edit.start) :
    (substitute items offset edits).length ≤ items.length - offset := by
  induction h with
  | nil => exact Nat.le_of_eq List.length_drop
  | @cons offset edit edits hoffset hstop hrest ih =>
    rw [List.forall_mem_cons] at hwidth
    have hlater := ih hwidth.2
    have hlength := hrest.le_length
    rw [length_substitute_cons (.cons hoffset hstop hrest)]
    omega

/-- Such edits keep the length exactly when each of them does. -/
theorem length_substitute_eq_iff (h : Ordered items.length offset edits)
    (hwidth : ∀ edit ∈ edits, edit.replacement.length ≤ edit.stop - edit.start) :
    (substitute items offset edits).length = items.length - offset ↔
      ∀ edit ∈ edits, edit.replacement.length = edit.stop - edit.start := by
  induction h with
  | nil =>
    rw [substitute, List.length_drop]
    simp
  | @cons offset edit edits hoffset hstop hrest ih =>
    rw [List.forall_mem_cons] at hwidth
    have hlater := length_substitute_le hrest hwidth.2
    have hlength := hrest.le_length
    rw [length_substitute_cons (.cons hoffset hstop hrest), List.forall_mem_cons, ← ih hwidth.2]
    omega

end widths

end slices
