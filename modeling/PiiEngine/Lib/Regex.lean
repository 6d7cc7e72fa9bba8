import Mathlib.Data.List.Basic
import Mathlib.Tactic.Common

namespace regex

/-- Patterns with named groups and greedy repetition of one character class. -/
inductive Pattern where
  | empty
  | char (allowed : Char → Bool)
  | many (allowed : Char → Bool)
  | seq (first second : Pattern)
  | alt (first second : Pattern)
  | group (name : String) (body : Pattern)

/-- One way to match at the start of a text: the characters taken, the groups on the way
    and the text that is left. -/
structure Hit where
  taken : List Char
  groups : List (String × List Char)
  rest : List Char
  deriving DecidableEq

/-- The ways to take characters of a class, longest first. -/
def splits (allowed : Char → Bool) : List Char → List (List Char × List Char)
  | [] => [([], [])]
  | c :: text =>
    if allowed c then (splits allowed text).map (fun split => (c :: split.1, split.2)) ++ [([], c :: text)]
    else [([], c :: text)]

/-- All ways to match at the start of a text, in the order in which backtracking tries them. -/
def Pattern.run : Pattern → List Char → List Hit
  | .empty, text => [⟨[], [], text⟩]
  | .char _, [] => []
  | .char allowed, c :: text => if allowed c then [⟨[c], [], text⟩] else []
  | .many allowed, text => (splits allowed text).map fun split => ⟨split.1, [], split.2⟩
  | .seq first second, text => (first.run text).flatMap fun h =>
      (second.run h.rest).map fun h' => ⟨h.taken ++ h'.taken, h.groups ++ h'.groups, h'.rest⟩
  | .alt first second, text => first.run text ++ second.run text
  | .group name body, text => (body.run text).map fun h => { h with groups := (name, h.taken) :: h.groups }

/-- The language of a pattern, with the groups of each derivation. -/
inductive Pattern.Matches : Pattern → List Char → List (String × List Char) → Prop where
  | empty : Matches .empty [] []
  | char {allowed c} : allowed c = true → Matches (.char allowed) [c] []
  | many {allowed word} : (∀ c ∈ word, allowed c = true) → Matches (.many allowed) word []
  | seq {first second word word' groups groups'} : Matches first word groups → Matches second word' groups' →
      Matches (.seq first second) (word ++ word') (groups ++ groups')
  | left {first second word groups} : Matches first word groups → Matches (.alt first second) word groups
  | right {first second word groups} : Matches second word groups → Matches (.alt first second) word groups
  | group {name body word groups} : Matches body word groups →
      Matches (.group name body) word ((name, word) :: groups)

theorem matches_seq {first second : Pattern} {word : List Char} {groups : List (String × List Char)} :
    (Pattern.seq first second).Matches word groups ↔ ∃ front groups₁ back groups₂,
      first.Matches front groups₁ ∧ second.Matches back groups₂ ∧
        word = front ++ back ∧ groups = groups₁ ++ groups₂ := by
  constructor
  · intro h
    cases h with
    | seq hfirst hsecond => exact ⟨_, _, _, _, hfirst, hsecond, rfl, rfl⟩
  · rintro ⟨front, groups₁, back, groups₂, hfirst, hsecond, rfl, rfl⟩
    exact .seq hfirst hsecond

theorem matches_alt {first second : Pattern} {word : List Char} {groups : List (String × List Char)} :
    (Pattern.alt first second).Matches word groups ↔ first.Matches word groups ∨ second.Matches word groups := by
  constructor
  · intro h
    cases h with
    | left h => exact Or.inl h
    | right h => exact Or.inr h
  · rintro (h | h)
    · exact .left h
    · exact .right h

theorem matches_group {name : String} {body : Pattern} {word : List Char} {groups : List (String × List Char)} :
    (Pattern.group name body).Matches word groups ↔
      ∃ inner, body.Matches word inner ∧ groups = (name, word) :: inner := by
  constructor
  · intro h
    cases h with
    | group h => exact ⟨_, h, rfl⟩
  · rintro ⟨inner, h, rfl⟩
    exact .group h

theorem mem_splits {allowed : Char → Bool} {text word rest : List Char} :
    (word, rest) ∈ splits allowed text ↔ text = word ++ rest ∧ ∀ c ∈ word, allowed c = true := by
  induction text generalizing word with
  | nil =>
    simp only [splits, List.mem_singleton, Prod.mk.injEq]
    constructor
    · rintro ⟨rfl, rfl⟩
      simp
    · rintro ⟨h, -⟩
      exact List.append_eq_nil_iff.mp h.symm
  | cons c text ih =>
    have hempty : ((word, rest) = ([], c :: text)) ↔ word = [] ∧ c :: text = word ++ rest := by
      rw [Prod.mk.injEq]
      constructor
      · rintro ⟨rfl, rfl⟩
        exact ⟨rfl, rfl⟩
      · rintro ⟨rfl, h⟩
        exact ⟨rfl, h.symm⟩
    unfold splits
    split
    · next hallowed =>
      rw [List.mem_append, List.mem_singleton, hempty, List.mem_map]
      constructor
      · rintro (⟨⟨word', rest'⟩, hmem, heq⟩ | ⟨rfl, h⟩)
        · rw [Prod.mk.injEq] at heq
          obtain ⟨rfl, rfl⟩ := heq
          obtain ⟨htext, hword⟩ := ih.mp hmem
          refine ⟨by rw [htext, List.cons_append], ?_⟩
          rw [List.forall_mem_cons]
          exact ⟨hallowed, hword⟩
        · exact ⟨h, by simp⟩
      · rintro ⟨htext, hword⟩
        cases word with
        | nil => exact Or.inr ⟨rfl, htext⟩
        | cons first word =>
          rw [List.cons_append, List.cons.injEq] at htext
          obtain ⟨rfl, htext⟩ := htext
          rw [List.forall_mem_cons] at hword
          exact Or.inl ⟨(word, rest), ih.mpr ⟨htext, hword.2⟩, rfl⟩
    · next hallowed =>
      rw [List.mem_singleton, hempty]
      constructor
      · rintro ⟨rfl, h⟩
        exact ⟨h, by simp⟩
      · rintro ⟨htext, hword⟩
        cases word with
        | nil => exact ⟨rfl, htext⟩
        | cons first word =>
          rw [List.cons_append, List.cons.injEq] at htext
          exact absurd (htext.1 ▸ hword first (by simp)) hallowed

/-- Backtracking finds exactly the derivations over a front part of the text. -/
theorem Pattern.mem_run {p : Pattern} {text : List Char} {h : Hit} :
    h ∈ p.run text ↔ text = h.taken ++ h.rest ∧ p.Matches h.taken h.groups := by
  induction p generalizing text h with
  | empty =>
    obtain ⟨taken, groups, rest⟩ := h
    simp only [run, List.mem_singleton, Hit.mk.injEq]
    constructor
    · rintro ⟨rfl, rfl, rfl⟩
      exact ⟨rfl, .empty⟩
    · rintro ⟨htext, hmatch⟩
      cases hmatch
      exact ⟨rfl, rfl, htext.symm⟩
  | char allowed =>
    obtain ⟨taken, groups, rest⟩ := h
    cases text with
    | nil =>
      simp only [run, List.not_mem_nil, false_iff]
      rintro ⟨htext, hmatch⟩
      cases hmatch
      simp at htext
    | cons c text =>
      simp only [run]
      constructor
      · intro hmem
        split at hmem
        · next hallowed =>
          rw [List.mem_singleton, Hit.mk.injEq] at hmem
          obtain ⟨rfl, rfl, rfl⟩ := hmem
          exact ⟨rfl, .char hallowed⟩
        · simp at hmem
      · rintro ⟨htext, hmatch⟩
        cases hmatch with
        | char hallowed =>
          rw [List.singleton_append, List.cons.injEq] at htext
          obtain ⟨rfl, rfl⟩ := htext
          rw [if_pos hallowed, List.mem_singleton]
  | many allowed =>
    obtain ⟨taken, groups, rest⟩ := h
    simp only [run, List.mem_map, Hit.mk.injEq, Prod.exists]
    constructor
    · rintro ⟨word, rest', hmem, rfl, rfl, rfl⟩
      obtain ⟨htext, hword⟩ := mem_splits.mp hmem
      exact ⟨htext, .many hword⟩
    · rintro ⟨htext, hmatch⟩
      cases hmatch with
      | many hword => exact ⟨taken, rest, mem_splits.mpr ⟨htext, hword⟩, rfl, rfl, rfl⟩
  | seq first second ihfirst ihsecond =>
    obtain ⟨taken, groups, rest⟩ := h
    simp only [run, List.mem_flatMap, List.mem_map, Hit.mk.injEq]
    constructor
    · rintro ⟨h₁, hfirst, h₂, hsecond, rfl, rfl, rfl⟩
      obtain ⟨htext, hmatch⟩ := ihfirst.mp hfirst
      obtain ⟨hrest, hmatch'⟩ := ihsecond.mp hsecond
      exact ⟨by rw [htext, hrest, List.append_assoc], .seq hmatch hmatch'⟩
    · rintro ⟨htext, hmatch⟩
      cases hmatch with
      | @seq _ _ word word' groups groups' hmatch hmatch' =>
        refine ⟨⟨word, groups, word' ++ rest⟩, ihfirst.mpr ⟨?_, hmatch⟩, ⟨word', groups', rest⟩,
          ihsecond.mpr ⟨rfl, hmatch'⟩, rfl, rfl, rfl⟩
        rw [htext, List.append_assoc]
  | alt first second ihfirst ihsecond =>
    simp only [run, List.mem_append]
    rw [ihfirst, ihsecond, ← and_or_left, matches_alt]
  | group name body ih =>
    obtain ⟨taken, groups, rest⟩ := h
    simp only [run, List.mem_map, Hit.mk.injEq]
    constructor
    · rintro ⟨h, hmem, rfl, rfl, rfl⟩
      obtain ⟨htext, hmatch⟩ := ih.mp hmem
      exact ⟨htext, .group hmatch⟩
    · rintro ⟨htext, hmatch⟩
      cases hmatch with
      | @group _ _ _ groups hmatch => exact ⟨⟨taken, groups, rest⟩, ih.mpr ⟨htext, hmatch⟩, rfl, rfl, rfl⟩

/-- A fixed word. -/
def literal : List Char → Pattern
  | [] => .empty
  | c :: word => .seq (.char (· == c)) (literal word)

/-- A fixed number of characters of a class. -/
def times (allowed : Char → Bool) : Nat → Pattern
  | 0 => .empty
  | n + 1 => .seq (.char allowed) (times allowed n)

theorem matches_literal {word taken : List Char} {groups : List (String × List Char)} :
    (literal word).Matches taken groups ↔ taken = word ∧ groups = [] := by
  induction word generalizing taken groups with
  | nil =>
    constructor
    · intro h
      cases h
      exact ⟨rfl, rfl⟩
    · rintro ⟨rfl, rfl⟩
      exact .empty
  | cons c word ih =>
    constructor
    · intro h
      cases h with
      | seq hchar hrest =>
        cases hchar with
        | char hc =>
          obtain ⟨rfl, rfl⟩ := ih.mp hrest
          rw [beq_iff_eq] at hc
          exact ⟨by rw [hc]; rfl, rfl⟩
    · rintro ⟨rfl, rfl⟩
      exact .seq (.char (by simp)) (ih.mpr ⟨rfl, rfl⟩)

theorem matches_times {allowed : Char → Bool} {n : Nat} {taken : List Char} {groups : List (String × List Char)} :
    (times allowed n).Matches taken groups ↔
      taken.length = n ∧ (∀ c ∈ taken, allowed c = true) ∧ groups = [] := by
  induction n generalizing taken groups with
  | zero =>
    constructor
    · intro h
      cases h
      simp
    · rintro ⟨hlength, -, rfl⟩
      rw [List.length_eq_zero_iff.mp hlength]
      exact .empty
  | succ n ih =>
    constructor
    · intro h
      cases h with
      | seq hchar hrest =>
        cases hchar with
        | char hc =>
          obtain ⟨hlength, hall, rfl⟩ := ih.mp hrest
          refine ⟨by simp [hlength], ?_, rfl⟩
          rw [List.singleton_append, List.forall_mem_cons]
          exact ⟨hc, hall⟩
    · rintro ⟨hlength, hall, rfl⟩
      cases taken with
      | nil => simp at hlength
      | cons c taken =>
        rw [List.forall_mem_cons] at hall
        exact .seq (.char hall.1) (ih.mpr ⟨by simpa using hlength, hall.2, rfl⟩)

/-- A text cut into its successive matches and the characters between them. -/
inductive Piece where
  | copy (c : Char)
  | hit (h : Hit)
  deriving DecidableEq

/-- The pieces of a text, leftmost match first, for a pattern that never matches the empty
    text. The count says how many characters a match has already taken. -/
def Pattern.scan (p : Pattern) : Nat → List Char → List Piece
  | _, [] => []
  | taken + 1, _ :: text => p.scan taken text
  | 0, c :: text =>
    match (p.run (c :: text)).head? with
    | some h => .hit h :: p.scan (h.taken.length - 1) text
    | none => .copy c :: p.scan 0 text

theorem Pattern.scan_eq_drop (p : Pattern) (taken : Nat) (text : List Char) :
    p.scan taken text = p.scan 0 (text.drop taken) := by
  induction text generalizing taken with
  | nil => cases taken <;> rfl
  | cons c text ih =>
    cases taken with
    | zero => rfl
    | succ taken => rw [scan, ih, List.drop_succ_cons]

/-- Nothing matches here: the character is copied. -/
theorem Pattern.scan_copy {p : Pattern} {c : Char} {text : List Char} (h : p.run (c :: text) = []) :
    p.scan 0 (c :: text) = .copy c :: p.scan 0 text := by
  rw [scan, h]
  rfl

/-- The first match is taken, and scanning goes on behind it. -/
theorem Pattern.scan_hit {p : Pattern} {text : List Char} {h : Hit} {others : List Hit}
    (hrun : p.run text = h :: others) (hne : h.taken ≠ []) :
    p.scan 0 text = .hit h :: p.scan 0 h.rest := by
  have htext : text = h.taken ++ h.rest := (Pattern.mem_run.mp (hrun ▸ List.mem_cons_self)).1
  cases htaken : h.taken with
  | nil => exact absurd htaken hne
  | cons c word =>
    rw [htaken, List.cons_append] at htext
    rw [htext, scan, ← htext, hrun]
    simp only [List.head?_cons]
    rw [scan_eq_drop, htaken, List.length_cons, Nat.add_sub_cancel, List.drop_left]

end regex
