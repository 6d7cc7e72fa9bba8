import PiiEngine.Lib.Prefixes
import PiiEngine.Requests.Addresses

open checked collections prefixes

namespace pii_engine.request_segments

/-- What may be written over a string. -/
inductive Fill where
  | null
  | text (replacement : String)
  deriving DecidableEq

def Fill.value : Fill → JsonValue
  | .null => .null
  | .text replacement => .string replacement

/-- New values for the strings at some paths. -/
abbrev Writes := List PathPart → Option Fill

namespace Writes

/-- One write. -/
def single (path : List PathPart) (fill : Fill) : Writes := fun p => if p = path then some fill else none

/-- Later writes after earlier ones. A null is no string and keeps its value. -/
def after (later earlier : Writes) : Writes :=
  fun p => if earlier p = some .null then some .null else (later p).or (earlier p)

/-- Only texts are written. -/
def OnlyTexts (writes : Writes) : Prop := ∀ path, writes path ≠ some .null

end Writes

mutual

/-- A document with new values for its strings at some paths. -/
def overwrite (writes : Writes) (path : List PathPart) : JsonValue → JsonValue
  | .string text => ((writes path).map Fill.value).getD (.string text)
  | .list items => .list (overwrite_items writes path 0 items)
  | .dict entries => .dict (overwrite_entries writes path entries)
  | value => value

def overwrite_items (writes : Writes) (path : List PathPart) (index : Nat) : List JsonValue → List JsonValue
  | [] => []
  | item :: items => overwrite writes (path ++ [.index index]) item :: overwrite_items writes path (index + 1) items

def overwrite_entries (writes : Writes) (path : List PathPart) : List (String × JsonValue) → List (String × JsonValue)
  | [] => []
  | (key, item) :: entries => (key, overwrite writes (path ++ [.key key]) item) :: overwrite_entries writes path entries

end

section overwrite
variable {writes : Writes} {path : List PathPart}

theorem overwrite_items_eq (index : Nat) (items : List JsonValue) : overwrite_items writes path index items =
    items.mapIdx fun offset item => overwrite writes (path ++ [.index (index + offset)]) item := by
  induction items generalizing index with
  | nil => rfl
  | cons item items ih =>
    rw [overwrite_items, ih, List.mapIdx_cons]
    refine congrArg₂ List.cons rfl (List.ext_getElem? fun offset => ?_)
    rw [List.getElem?_mapIdx, List.getElem?_mapIdx, Nat.add_assoc, Nat.add_comm 1]

theorem overwrite_list (items : List JsonValue) : overwrite writes path (.list items) =
    .list (items.mapIdx fun index item => overwrite writes (path ++ [.index index]) item) := by
  rw [overwrite, overwrite_items_eq]
  simp

theorem overwrite_entries_eq (entries : List (String × JsonValue)) : overwrite_entries writes path entries =
    entries.map fun entry => (entry.1, overwrite writes (path ++ [.key entry.1]) entry.2) := by
  induction entries with
  | nil => rfl
  | cons entry entries ih => rw [overwrite_entries, ih, List.map_cons]

theorem keys_overwrite_entries (entries : List (String × JsonValue)) :
    (overwrite_entries writes path entries).map Prod.fst = entries.map Prod.fst := by
  rw [overwrite_entries_eq, List.map_map]
  rfl

theorem lookup_overwrite_entries (entries : List (String × JsonValue)) (key : String) :
    (overwrite_entries writes path entries).lookup key =
      (entries.lookup key).map (overwrite writes (path ++ [.key key])) := by
  induction entries with
  | nil => rfl
  | cons entry entries ih =>
    obtain ⟨other, item⟩ := entry
    rw [overwrite_entries, List.lookup_cons, List.lookup_cons]
    by_cases h : key = other
    · rw [h, beq_self_eq_true]
      rfl
    · rw [beq_eq_false_iff_ne.mpr h]
      exact ih

/-- A string that is written over has no parts, as before. -/
theorem overwrite_string_cases (writes : Writes) (path : List PathPart) (text : String) :
    overwrite writes path (.string text) = .null ∨ ∃ text', overwrite writes path (.string text) = .string text' := by
  rw [overwrite]
  cases writes path with
  | none => exact Or.inr ⟨text, rfl⟩
  | some fill =>
    cases fill with
    | null => exact Or.inl rfl
    | text text' => exact Or.inr ⟨text', rfl⟩

/-- A string over which nothing is written stays. -/
theorem overwrite_string (h : writes path = none) (text : String) :
    overwrite writes path (.string text) = .string text := by
  rw [overwrite, h]
  rfl

/-- A text that is written over stays a text. -/
theorem overwrite_text (htexts : writes.OnlyTexts) (path : List PathPart) (text : String) :
    ∃ text', overwrite writes path (.string text) = .string text' := by
  rw [overwrite]
  cases hwrite : writes path with
  | none => exact ⟨text, rfl⟩
  | some fill =>
    cases fill with
    | null => exact absurd hwrite (htexts path)
    | text text' => exact ⟨text', rfl⟩

theorem get?_overwrite (value : JsonValue) (key : String) :
    (overwrite writes path value).get? key = (value.get? key).map (overwrite writes (path ++ [.key key])) := by
  cases value with
  | dict entries => exact lookup_overwrite_entries entries key
  | string text =>
    obtain h | ⟨text', h⟩ := overwrite_string_cases writes path text
    · rw [h]
      rfl
    · rw [h]
      rfl
  | _ => rfl

theorem itemsOf_overwrite (value : Option JsonValue) : JsonValue.itemsOf (value.map (overwrite writes path)) =
    (JsonValue.itemsOf value).mapIdx fun index item => overwrite writes (path ++ [.index index]) item := by
  cases value with
  | none => rfl
  | some value =>
    cases value with
    | list items =>
      rw [Option.map_some, overwrite_list]
      rfl
    | string text =>
      obtain h | ⟨text', h⟩ := overwrite_string_cases writes path text
      · rw [Option.map_some, h]
        rfl
      · rw [Option.map_some, h]
        rfl
    | _ => rfl

mutual

/-- A document in which nothing is written stays as it is. -/
theorem overwrite_of_none (path : List PathPart) (h : ∀ rest, writes (path ++ rest) = none) (value : JsonValue) :
    overwrite writes path value = value := by
  cases value with
  | string text =>
    have hpath := h []
    rw [List.append_nil] at hpath
    rw [overwrite, hpath]
    rfl
  | list items => rw [overwrite, overwrite_items_of_none path h 0 items]
  | dict entries => rw [overwrite, overwrite_entries_of_none path h entries]
  | _ => rfl

theorem overwrite_items_of_none (path : List PathPart) (h : ∀ rest, writes (path ++ rest) = none) (index : Nat)
    (items : List JsonValue) : overwrite_items writes path index items = items := by
  cases items with
  | nil => rfl
  | cons item items =>
    have hitem : ∀ rest, writes (path ++ [.index index] ++ rest) = none := by
      intro rest
      rw [List.append_assoc]
      exact h _
    rw [overwrite_items, overwrite_of_none _ hitem item, overwrite_items_of_none path h (index + 1) items]

theorem overwrite_entries_of_none (path : List PathPart) (h : ∀ rest, writes (path ++ rest) = none)
    (entries : List (String × JsonValue)) : overwrite_entries writes path entries = entries := by
  cases entries with
  | nil => rfl
  | cons entry entries =>
    obtain ⟨key, item⟩ := entry
    have hitem : ∀ rest, writes (path ++ [.key key] ++ rest) = none := by
      intro rest
      rw [List.append_assoc]
      exact h _
    rw [overwrite_entries, overwrite_of_none _ hitem item, overwrite_entries_of_none path h entries]

end

mutual

/-- Writing twice writes once. -/
theorem overwrite_overwrite (later earlier : Writes) (path : List PathPart) (value : JsonValue) :
    overwrite later path (overwrite earlier path value) = overwrite (later.after earlier) path value := by
  cases value with
  | string text =>
    rw [overwrite, overwrite, Writes.after]
    cases earlier path with
    | none =>
      rw [Option.map_none, Option.getD_none, overwrite, if_neg (by simp), Option.or_none]
    | some fill =>
      cases fill with
      | null =>
        rw [if_pos rfl]
        rfl
      | text text' =>
        rw [if_neg (by simp), Option.map_some, Option.getD_some, Fill.value, overwrite]
        cases later path <;> rfl
  | list items => rw [overwrite, overwrite, overwrite, overwrite_items_overwrite_items later earlier path 0 items]
  | dict entries => rw [overwrite, overwrite, overwrite, overwrite_entries_overwrite_entries later earlier path entries]
  | _ => rfl

theorem overwrite_items_overwrite_items (later earlier : Writes) (path : List PathPart) (index : Nat)
    (items : List JsonValue) : overwrite_items later path index (overwrite_items earlier path index items) =
      overwrite_items (later.after earlier) path index items := by
  cases items with
  | nil => rfl
  | cons item items =>
    rw [overwrite_items, overwrite_items, overwrite_items, overwrite_overwrite later earlier _ item,
      overwrite_items_overwrite_items later earlier path (index + 1) items]

theorem overwrite_entries_overwrite_entries (later earlier : Writes) (path : List PathPart)
    (entries : List (String × JsonValue)) : overwrite_entries later path (overwrite_entries earlier path entries) =
      overwrite_entries (later.after earlier) path entries := by
  cases entries with
  | nil => rfl
  | cons entry entries =>
    obtain ⟨key, item⟩ := entry
    rw [overwrite_entries, overwrite_entries, overwrite_entries, overwrite_overwrite later earlier _ item,
      overwrite_entries_overwrite_entries later earlier path entries]

end

end overwrite

end pii_engine.request_segments
