import PiiEngine.Controllers.Simulation
import PiiEngine.Policy.Substitution

open checked collections regex slices
open pii_engine.config pii_engine.policy pii_engine.planner

namespace pii_engine.controllers

/-- Sixteen lowercase hexadecimal digits. -/
def HexWord (word : Text) : Prop := word.length = 16 ∧ ∀ c ∈ word, isHexDigit c = true

/-- A text in the language of the placeholder expression, for one entity type. -/
def IsPlaceholder (placeholder kind entity : Text) : Prop :=
  (kind = "REV".toList ∨ kind = "ENCRYPTED".toList) ∧ isEntityWord entity = true ∧
    ∃ nonce digest, HexWord nonce ∧ HexWord digest ∧
      placeholder = ['<'] ++ (kind ++ (['_'] ++ (entity ++ (['_'] ++ (nonce ++ (['_'] ++ (digest ++ ['>'])))))))

theorem matches_entity {word : Text} {groups : List (String × Text)} :
    entity_word.Matches word groups ↔
      isEntityWord word = true ∧ groups = [] := by
  constructor
  · intro h
    cases h with
    | seq hfirst hrest =>
      cases hfirst with
      | char hupper =>
        cases hrest with
        | many hall =>
          refine ⟨?_, rfl⟩
          rw [List.singleton_append, isEntityWord, Bool.and_eq_true, List.all_eq_true]
          exact ⟨hupper, hall⟩
  · rintro ⟨hword, rfl⟩
    cases word with
    | nil => simp [isEntityWord] at hword
    | cons first rest =>
      rw [isEntityWord, Bool.and_eq_true, List.all_eq_true] at hword
      exact .seq (.char hword.1) (.many hword.2)

theorem matches_hexWord {word : Text} {groups : List (String × Text)} :
    (times isHexDigit 16).Matches word groups ↔ HexWord word ∧ groups = [] := by
  rw [matches_times, HexWord, and_assoc]

theorem matches_placeholder {word : Text} {groups : List (String × Text)} :
    REVERSIBLE_PLACEHOLDER.Matches word groups ↔
      ∃ kind entity, IsPlaceholder word kind entity ∧ groups = [("prefix", kind), ("entity", entity)] := by
  simp only [REVERSIBLE_PLACEHOLDER, matches_seq, matches_group, matches_alt, matches_literal, matches_entity,
    matches_hexWord]
  constructor
  · rintro ⟨_, _, _, _, ⟨rfl, rfl⟩, ⟨kind, _, _, _, ⟨_, hkind, rfl⟩, ⟨_, _, _, _, ⟨rfl, rfl⟩,
      ⟨entity, _, _, _, ⟨_, ⟨hentity, rfl⟩, rfl⟩, ⟨_, _, _, _, ⟨rfl, rfl⟩,
        ⟨nonce, _, _, _, ⟨hnonce, rfl⟩, ⟨_, _, _, _, ⟨rfl, rfl⟩,
          ⟨digest, _, _, _, ⟨hdigest, rfl⟩, ⟨rfl, rfl⟩, rfl, rfl⟩, rfl, rfl⟩, rfl, rfl⟩, rfl, rfl⟩, rfl, rfl⟩,
        rfl, rfl⟩, rfl, rfl⟩, rfl, rfl⟩
    have hinner : (kind = "REV".toList ∨ kind = "ENCRYPTED".toList) := hkind.imp And.left And.left
    refine ⟨kind, entity, ⟨hinner, hentity, nonce, digest, hnonce, hdigest, rfl⟩, ?_⟩
    rcases hkind with ⟨-, rfl⟩ | ⟨-, rfl⟩ <;> rfl
  · rintro ⟨kind, entity, ⟨hkind, hentity, nonce, digest, hnonce, hdigest, rfl⟩, rfl⟩
    exact ⟨_, _, _, _, ⟨rfl, rfl⟩, ⟨kind, _, _, _, ⟨[], hkind.imp (⟨·, rfl⟩) (⟨·, rfl⟩), rfl⟩,
      ⟨_, _, _, _, ⟨rfl, rfl⟩, ⟨entity, _, _, _, ⟨_, ⟨hentity, rfl⟩, rfl⟩, ⟨_, _, _, _, ⟨rfl, rfl⟩,
        ⟨nonce, _, _, _, ⟨hnonce, rfl⟩, ⟨_, _, _, _, ⟨rfl, rfl⟩,
          ⟨digest, _, _, _, ⟨hdigest, rfl⟩, ⟨rfl, rfl⟩, rfl, rfl⟩, rfl, rfl⟩, rfl, rfl⟩, rfl, rfl⟩, rfl, rfl⟩,
        rfl, rfl⟩, rfl, rfl⟩, rfl, rfl⟩

theorem entity_chars {entity : Text} (h : isEntityWord entity = true) : ∀ c ∈ entity, isEntityChar c = true := by
  cases entity with
  | nil => simp
  | cons first rest =>
    rw [isEntityWord, Bool.and_eq_true, List.all_eq_true] at h
    rw [List.forall_mem_cons]
    exact ⟨by rw [isEntityChar, h.1]; rfl, h.2⟩

/-- A character outside a class is none of the characters of the class. -/
private theorem not_mem_of_all {allowed : Char → Bool} {word : Text} {c : Char}
    (hall : ∀ x ∈ word, allowed x = true) (hc : allowed c = false) : c ∉ word := by
  intro hmem
  rw [hall c hmem] at hc
  cases hc

/-- A placeholder holds its brackets at its two ends only. -/
theorem IsPlaceholder.brackets {placeholder kind entity : Text} (h : IsPlaceholder placeholder kind entity) :
    ∃ inner, placeholder = '<' :: (inner ++ ['>']) ∧ '<' ∉ inner ∧ '>' ∉ inner := by
  obtain ⟨hkind, hentity, nonce, digest, hnonce, hdigest, rfl⟩ := h
  have hchars := entity_chars hentity
  have hkind_open : '<' ∉ kind ∧ '>' ∉ kind := by
    rcases hkind with rfl | rfl <;> decide
  refine ⟨kind ++ (['_'] ++ (entity ++ (['_'] ++ (nonce ++ (['_'] ++ digest))))), by simp, ?_, ?_⟩
  · simp only [List.mem_append, List.mem_singleton, not_or]
    exact ⟨hkind_open.1, by decide, not_mem_of_all hchars (by decide), by decide,
      not_mem_of_all hnonce.2 (by decide), by decide, not_mem_of_all hdigest.2 (by decide)⟩
  · simp only [List.mem_append, List.mem_singleton, not_or]
    exact ⟨hkind_open.2, by decide, not_mem_of_all hchars (by decide), by decide,
      not_mem_of_all hnonce.2 (by decide), by decide, not_mem_of_all hdigest.2 (by decide)⟩

/-- At most one placeholder starts a text, and it names one entity type. -/
theorem IsPlaceholder.unique {first second kind kind' entity entity' rest rest' : Text}
    (h : IsPlaceholder first kind entity) (h' : IsPlaceholder second kind' entity')
    (htext : first ++ rest = second ++ rest') : first = second ∧ kind = kind' ∧ entity = entity' ∧ rest = rest' := by
  obtain ⟨inner, hfirst, -, hclose⟩ := h.brackets
  obtain ⟨inner', hsecond, -, hclose'⟩ := h'.brackets
  rw [hfirst, hsecond] at htext
  simp only [List.cons_append, List.append_assoc, List.nil_append, List.cons.injEq, true_and] at htext
  obtain ⟨rfl, rfl⟩ := append_cons_inj hclose hclose' htext
  have hsame : first = second := hfirst.trans hsecond.symm
  obtain ⟨hkind, -, nonce, digest, hnonce, hdigest, heq⟩ := h
  obtain ⟨hkind', -, nonce', digest', hnonce', hdigest', heq'⟩ := h'
  rw [hsame, heq'] at heq
  simp only [List.singleton_append, List.cons.injEq, true_and] at heq
  have hbar : '_' ∉ kind ∧ '_' ∉ kind' := by
    rcases hkind with rfl | rfl <;> rcases hkind' with rfl | rfl <;> decide
  obtain ⟨hkinds, hrest⟩ := append_cons_inj hbar.2 hbar.1 heq
  have hlength : ('_' :: (nonce' ++ '_' :: (digest' ++ ['>']))).length =
      ('_' :: (nonce ++ '_' :: (digest ++ ['>']))).length := by
    simp [hnonce.1, hnonce'.1, hdigest.1, hdigest'.1]
  exact ⟨hsame, hkinds.symm, (List.append_inj' hrest hlength).1.symm, rfl⟩

/-- The expression matches a placeholder at the start of a text, whole and first. -/
theorem run_placeholder {placeholder kind entity : Text} (h : IsPlaceholder placeholder kind entity) (rest : Text) :
    ∃ others, REVERSIBLE_PLACEHOLDER.run (placeholder ++ rest) =
      ⟨placeholder, [("prefix", kind), ("entity", entity)], rest⟩ :: others := by
  have hmem : ⟨placeholder, [("prefix", kind), ("entity", entity)], rest⟩ ∈
      REVERSIBLE_PLACEHOLDER.run (placeholder ++ rest) :=
    Pattern.mem_run.mpr ⟨rfl, matches_placeholder.mpr ⟨kind, entity, h, rfl⟩⟩
  cases hrun : REVERSIBLE_PLACEHOLDER.run (placeholder ++ rest) with
  | nil =>
    rw [hrun] at hmem
    simp at hmem
  | cons first others =>
    obtain ⟨htext, hmatch⟩ := Pattern.mem_run.mp (hrun ▸ List.mem_cons_self)
    obtain ⟨kind', entity', hplaceholder, hgroups⟩ := matches_placeholder.mp hmatch
    obtain ⟨htaken, rfl, rfl, hrest⟩ := h.unique hplaceholder htext
    refine ⟨others, ?_⟩
    obtain ⟨taken, groups, rest'⟩ := first
    simp only at htaken hgroups hrest
    rw [htaken, hgroups, hrest]

/-- A text assembled from original characters and inserted placeholders. -/
structure Insertion where
  placeholder : Text
  original : Text
  entity : String

abbrev Part := Char ⊕ Insertion

def rendered (parts : List Part) : Text := parts.flatMap fun part =>
  match part with
  | .inl c => [c]
  | .inr insertion => insertion.placeholder

def originals (parts : List Part) : Text := parts.flatMap fun part =>
  match part with
  | .inl c => [c]
  | .inr insertion => insertion.original

def entities (parts : List Part) : List String := parts.filterMap fun part =>
  match part with
  | .inl _ => none
  | .inr insertion => some insertion.entity

def plain (text : Text) : List Part := text.map .inl

@[simp] theorem rendered_append (parts others : List Part) :
    rendered (parts ++ others) = rendered parts ++ rendered others := List.flatMap_append

@[simp] theorem originals_append (parts others : List Part) :
    originals (parts ++ others) = originals parts ++ originals others := List.flatMap_append

@[simp] theorem entities_append (parts others : List Part) :
    entities (parts ++ others) = entities parts ++ entities others := List.filterMap_append

@[simp] theorem rendered_plain (text : Text) : rendered (plain text) = text := by
  induction text with
  | nil => rfl
  | cons c text ih => exact congrArg (c :: ·) ih

@[simp] theorem originals_plain (text : Text) : originals (plain text) = text := by
  induction text with
  | nil => rfl
  | cons c text ih => exact congrArg (c :: ·) ih

@[simp] theorem entities_plain (text : Text) : entities (plain text) = [] := by
  induction text with
  | nil => rfl
  | cons c text ih => exact ih

/-- The insertions of a text are placeholders that the reversal map knows, and no
    placeholder of the map stands among its original characters. -/
structure Restorable (reversal : OrderedDict Text Text) (parts : List Part) : Prop where
  insertions : ∀ insertion, Sum.inr insertion ∈ parts →
    (∃ kind, IsPlaceholder insertion.placeholder kind insertion.entity.toList) ∧
      reversal.get? insertion.placeholder = some insertion.original
  foreign : ∀ word, plain word <:+: parts → word ≠ [] → reversal.get? word = none

theorem Restorable.suffix {reversal : OrderedDict Text Text} (front : List Part) {parts : List Part}
    (h : Restorable reversal (front ++ parts)) : Restorable reversal parts := by
  constructor
  · intro insertion hmem
    exact h.insertions insertion (List.mem_append_right front hmem)
  · intro word hword hne
    exact h.foreign word (hword.trans (List.suffix_append front parts).isInfix) hne

/-- Characters that no insertion starts with are original characters. -/
theorem plain_of_rendered {reversal : OrderedDict Text Text} {parts : List Part}
    (h : Restorable reversal parts) {word rest : Text} (hword : '<' ∉ word)
    (htext : rendered parts = word ++ rest) :
    ∃ parts', parts = plain word ++ parts' ∧ rendered parts' = rest := by
  induction word generalizing parts with
  | nil => exact ⟨parts, rfl, htext⟩
  | cons c word ih =>
    rw [List.mem_cons, not_or] at hword
    cases parts with
    | nil => simp [rendered] at htext
    | cons part parts =>
      have htail : Restorable reversal parts := Restorable.suffix [part] h
      cases part with
      | inl c' =>
        obtain ⟨hhead, hrest⟩ := List.cons.inj htext
        obtain ⟨parts', hparts, hrendered⟩ := ih htail hword.2 hrest
        exact ⟨parts', by rw [hhead, hparts]; rfl, hrendered⟩
      | inr insertion =>
        obtain ⟨⟨kind, hplaceholder⟩, -⟩ := h.insertions insertion (by simp)
        obtain ⟨inner, hbrackets, -, -⟩ := hplaceholder.brackets
        change insertion.placeholder ++ rendered parts = _ at htext
        rw [hbrackets, List.cons_append, List.cons_append] at htext
        exact absurd (List.cons.inj htext).1 hword.1

/-- Scanning puts the originals back and counts every insertion once. A match that starts
    at an original character ends before the next insertion, so the map does not know it. -/
theorem scan_rendered {reversal : OrderedDict Text Text} (parts : List Part) (h : Restorable reversal parts) :
    (REVERSIBLE_PLACEHOLDER.scan 0 (rendered parts)).flatMap (restored_text reversal) = originals parts ∧
      (REVERSIBLE_PLACEHOLDER.scan 0 (rendered parts)).filterMap (restored_entity reversal) = entities parts := by
  match parts, h with
  | [], _ => exact ⟨rfl, rfl⟩
  | .inr insertion :: parts, h =>
    obtain ⟨⟨kind, hplaceholder⟩, hreversal⟩ := h.insertions insertion (by simp)
    obtain ⟨others, hrun⟩ := run_placeholder hplaceholder (rendered parts)
    have hne : insertion.placeholder ≠ [] := by
      obtain ⟨inner, hbrackets, -, -⟩ := hplaceholder.brackets
      rw [hbrackets]
      exact List.cons_ne_nil _ _
    obtain ⟨htext, hentities⟩ := scan_rendered parts (Restorable.suffix [.inr insertion] h)
    change (REVERSIBLE_PLACEHOLDER.scan 0 (insertion.placeholder ++ rendered parts)).flatMap _ =
        insertion.original ++ originals parts ∧
      (REVERSIBLE_PLACEHOLDER.scan 0 (insertion.placeholder ++ rendered parts)).filterMap _ =
        insertion.entity :: entities parts
    rw [Pattern.scan_hit hrun hne, List.flatMap_cons, htext]
    refine ⟨?_, ?_⟩
    · rw [restored_text, OrderedDict.getD, hreversal, Option.getD_some]
    · have hentity : restored_entity reversal
          (.hit ⟨insertion.placeholder, [("prefix", kind), ("entity", insertion.entity.toList)], rendered parts⟩) =
            some insertion.entity := by
        rw [restored_entity, hreversal]
        simp [List.lookup_cons]
      rw [List.filterMap_cons_some hentity, hentities]
  | .inl c :: parts, h =>
    change (REVERSIBLE_PLACEHOLDER.scan 0 (c :: rendered parts)).flatMap _ = c :: originals parts ∧
      (REVERSIBLE_PLACEHOLDER.scan 0 (c :: rendered parts)).filterMap _ = entities parts
    cases hrun : REVERSIBLE_PLACEHOLDER.run (c :: rendered parts) with
    | nil =>
      obtain ⟨htext, hentities⟩ := scan_rendered parts (Restorable.suffix [.inl c] h)
      rw [Pattern.scan_copy hrun, List.flatMap_cons, htext]
      exact ⟨rfl, hentities⟩
    | cons hit others =>
      obtain ⟨hsplit, hmatch⟩ := Pattern.mem_run.mp (hrun ▸ List.mem_cons_self)
      obtain ⟨kind, entity, hplaceholder, -⟩ := matches_placeholder.mp hmatch
      obtain ⟨inner, hbrackets, hopen, -⟩ := hplaceholder.brackets
      have hne : hit.taken ≠ [] := by
        rw [hbrackets]
        exact List.cons_ne_nil _ _
      rw [hbrackets, List.cons_append] at hsplit
      obtain ⟨hhead, htail⟩ := List.cons.inj hsplit
      have hinner : '<' ∉ inner ++ ['>'] := by simp [hopen]
      obtain ⟨parts', hparts, hrendered⟩ := plain_of_rendered (Restorable.suffix [.inl c] h) hinner htail
      have htaken : Sum.inl c :: parts = plain hit.taken ++ parts' := by
        rw [hbrackets, hhead, hparts]
        rfl
      have hforeign : reversal.get? hit.taken = none := by
        refine h.foreign hit.taken ?_ hne
        rw [htaken]
        exact (List.prefix_append _ _).isInfix
      have hlength : parts'.length ≤ parts.length := by
        rw [hparts, List.length_append]
        omega
      obtain ⟨htext, hentities⟩ := scan_rendered parts' (Restorable.suffix (plain hit.taken) (htaken ▸ h))
      have horiginals : c :: originals parts = hit.taken ++ originals parts' := by
        have hall := congrArg originals htaken
        rw [originals_append, originals_plain] at hall
        exact hall
      have hcounts : entities parts = entities parts' := by
        have hall := congrArg entities htaken
        rw [entities_append, entities_plain] at hall
        exact hall
      rw [Pattern.scan_hit hrun hne, ← hrendered, List.flatMap_cons, htext, horiginals, hcounts]
      refine ⟨?_, ?_⟩
      · rw [restored_text, OrderedDict.getD, hforeign, Option.getD_none]
      · have hnone : restored_entity reversal (.hit hit) = none := by
          rw [restored_entity, hforeign]
          rfl
        rw [List.filterMap_cons_none hnone, hentities]
termination_by parts.length

theorem restore_rendered {reversal : OrderedDict Text Text} {parts : List Part} (h : Restorable reversal parts) :
    restore reversal (rendered parts) = (originals parts, .countAll (entities parts)) := by
  obtain ⟨htext, hentities⟩ := scan_rendered parts h
  rw [restore, htext, hentities]

end pii_engine.controllers
