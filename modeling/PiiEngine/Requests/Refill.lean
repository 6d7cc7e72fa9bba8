import PiiEngine.Requests.Nesting
import PiiEngine.Requests.Overwrite

open checked json_text

namespace pii_engine.request_segments

/-- A leaf with the text that is written over it. -/
def Leaf.refill (writes : Writes) (leaf : Leaf) : Leaf :=
  match writes leaf.path with
  | some (.text text) => { leaf with text := text.toList }
  | _ => leaf

section refill
variable {writes : Writes}

theorem refill_of_none {leaf : Leaf} (h : writes leaf.path = none) : leaf.refill writes = leaf := by
  rw [Leaf.refill, h]

/-- A text that is written over is the text of its leaf. -/
theorem refill_text (htexts : writes.OnlyTexts) (path : List PathPart) (text : String) :
    ∃ text', overwrite writes path (.string text) = .string text' ∧
      Leaf.refill writes ⟨path, text.toList⟩ = ⟨path, text'.toList⟩ := by
  rw [overwrite, Leaf.refill]
  cases hwrite : writes path with
  | none => exact ⟨text, rfl, rfl⟩
  | some fill =>
    cases fill with
    | null => exact absurd hwrite (htexts path)
    | text text' => exact ⟨text', rfl, rfl⟩

mutual

/-- The strings of a document that is written over are those of the document, written over. -/
theorem strings_overwrite (htexts : writes.OnlyTexts) (path : List PathPart) (value : JsonValue) :
    strings path (overwrite writes path value) = (strings path value).map (Leaf.refill writes) := by
  cases value with
  | string text =>
    obtain ⟨text', hwritten, hleaf⟩ := refill_text htexts path text
    rw [hwritten, strings, strings, List.map_singleton, hleaf]
  | list items =>
    rw [overwrite, strings, strings]
    exact item_strings_overwrite htexts path 0 items
  | dict entries =>
    rw [overwrite, strings, strings]
    exact entry_strings_overwrite htexts path entries
  | _ => rfl

theorem item_strings_overwrite (htexts : writes.OnlyTexts) (path : List PathPart) (index : Nat)
    (items : List JsonValue) :
    item_strings path index (overwrite_items writes path index items) =
      (item_strings path index items).map (Leaf.refill writes) := by
  cases items with
  | nil => rfl
  | cons item items =>
    rw [overwrite_items, item_strings, item_strings, List.map_append, strings_overwrite htexts _ item,
      item_strings_overwrite htexts path (index + 1) items]

theorem entry_strings_overwrite (htexts : writes.OnlyTexts) (path : List PathPart)
    (entries : List (String × JsonValue)) :
    entry_strings path (overwrite_entries writes path entries) =
      (entry_strings path entries).map (Leaf.refill writes) := by
  cases entries with
  | nil => rfl
  | cons entry entries =>
    obtain ⟨key, item⟩ := entry
    rw [overwrite_entries, entry_strings, entry_strings, List.map_append, strings_overwrite htexts _ item,
      entry_strings_overwrite htexts path entries]

end

mutual

theorem nesting_overwrite (path : List PathPart) (value : JsonValue) :
    nesting (overwrite writes path value) = nesting value := by
  cases value with
  | string text =>
    obtain hnull | ⟨text', htext⟩ := overwrite_string_cases writes path text
    · rw [hnull]
      rfl
    · rw [htext]
      rfl
  | list items => rw [overwrite, nesting, nesting, nesting_items_overwrite path 0 items]
  | dict entries => rw [overwrite, nesting, nesting, nesting_entries_overwrite path entries]
  | _ => rfl

theorem nesting_items_overwrite (path : List PathPart) (index : Nat) (items : List JsonValue) :
    nesting_items (overwrite_items writes path index items) = nesting_items items := by
  cases items with
  | nil => rfl
  | cons item items =>
    rw [overwrite_items, nesting_items, nesting_items, nesting_overwrite _ item,
      nesting_items_overwrite path (index + 1) items]

theorem nesting_entries_overwrite (path : List PathPart) (entries : List (String × JsonValue)) :
    nesting_entries (overwrite_entries writes path entries) = nesting_entries entries := by
  cases entries with
  | nil => rfl
  | cons entry entries =>
    obtain ⟨key, item⟩ := entry
    rw [overwrite_entries, nesting_entries, nesting_entries, nesting_overwrite _ item,
      nesting_entries_overwrite path entries]

end

mutual

theorem height_overwrite (path : List PathPart) (value : JsonValue) :
    height (overwrite writes path value) = height value := by
  cases value with
  | string text =>
    obtain hnull | ⟨text', htext⟩ := overwrite_string_cases writes path text
    · rw [hnull]
      rfl
    · rw [htext]
      rfl
  | list items => rw [overwrite, height, height, height_items_overwrite path 0 items]
  | dict entries => rw [overwrite, height, height, height_entries_overwrite path entries]
  | _ => rfl

theorem height_items_overwrite (path : List PathPart) (index : Nat) (items : List JsonValue) :
    height_items (overwrite_items writes path index items) = height_items items := by
  cases items with
  | nil => rfl
  | cons item items =>
    rw [overwrite_items, height_items, height_items, height_overwrite _ item,
      height_items_overwrite path (index + 1) items]

theorem height_entries_overwrite (path : List PathPart) (entries : List (String × JsonValue)) :
    height_entries (overwrite_entries writes path entries) = height_entries entries := by
  cases entries with
  | nil => rfl
  | cons entry entries =>
    obtain ⟨key, item⟩ := entry
    rw [overwrite_entries, height_entries, height_entries, height_overwrite _ item,
      height_entries_overwrite path entries]

end

/-- The leaves that are read, each with the text that is written over it. -/
def refilled (writes : Writes) (leaves : Except AnalysisError (List Leaf)) : Except AnalysisError (List Leaf) :=
  leaves.map (List.map (Leaf.refill writes))

/-- Two parts one after the other. -/
theorem refilled_both {read read' read_more read_more' : Except AnalysisError (List Leaf)}
    (h : read' = refilled writes read) (hmore : read_more' = refilled writes read_more) :
    (do
      let first ← read'
      let rest ← read_more'
      pure (first ++ rest)) =
    refilled writes (do
      let first ← read
      let rest ← read_more
      pure (first ++ rest)) := by
  rw [h, hmore]
  cases read with
  | error e => rfl
  | ok first =>
    cases read_more with
    | error e => rfl
    | ok rest =>
      change Except.ok (first.map (Leaf.refill writes) ++ rest.map (Leaf.refill writes)) =
        .ok ((first ++ rest).map (Leaf.refill writes))
      rw [List.map_append]

theorem json_leaves_overwrite {max_depth depth : Nat} (htexts : writes.OnlyTexts) (path : List PathPart)
    (value : JsonValue) : json_leaves max_depth path depth (overwrite writes path value) =
      refilled writes (json_leaves max_depth path depth value) := by
  by_cases hdepth : depth ≤ max_depth + 1
  · rw [json_leaves_eq path hdepth, json_leaves_eq path hdepth, height_overwrite, strings_overwrite htexts]
    split
    · rfl
    · rfl
  · have hdeep : max_depth < depth := by omega
    rw [json_leaves_of_lt hdeep, json_leaves_of_lt hdeep]
    rfl

mutual

/-- The prose of a schema that is written over is that of the schema, written over. -/
theorem schema_overwrite {max_depth depth : Nat} (htexts : writes.OnlyTexts) (path : List PathPart)
    (value : JsonValue) :
    schema max_depth path depth (overwrite writes path value) =
      refilled writes (schema max_depth path depth value) := by
  cases value with
  | dict entries =>
    rw [overwrite, schema, schema, schema_keywords_overwrite htexts path entries]
    cases check_depth depth max_depth with
    | error e => rfl
    | ok _ => rfl
  | string text =>
    obtain ⟨text', hwritten⟩ := overwrite_text htexts path text
    rw [hwritten]
    unfold schema
    cases check_depth depth max_depth with
    | error e => rfl
    | ok _ => rfl
  | list items =>
    rw [overwrite]
    unfold schema
    cases check_depth depth max_depth with
    | error e => rfl
    | ok _ => rfl
  | _ =>
    unfold schema overwrite
    cases check_depth depth max_depth with
    | error e => rfl
    | ok _ => rfl

theorem schema_keywords_overwrite {max_depth depth : Nat} (htexts : writes.OnlyTexts) (path : List PathPart)
    (entries : List (String × JsonValue)) :
    schema_keywords max_depth path depth (overwrite_entries writes path entries) =
      refilled writes (schema_keywords max_depth path depth entries) := by
  cases entries with
  | nil => rfl
  | cons entry entries =>
    obtain ⟨key, item⟩ := entry
    have hrest : schema_keywords max_depth path depth (overwrite_entries writes path entries) =
        refilled writes (schema_keywords max_depth path depth entries) := schema_keywords_overwrite htexts path entries
    rw [overwrite_entries]
    unfold schema_keywords
    dsimp only
    -- the keyword decides how its value is read
    split
    · exact refilled_both (json_leaves_overwrite htexts _ item) hrest
    · split
      · exact refilled_both (schema_overwrite htexts _ item) hrest
      · split
        · cases item with
          | dict schemas =>
            rw [overwrite]
            exact refilled_both (named_schemas_overwrite htexts _ schemas) hrest
          | string text =>
            obtain ⟨text', hwritten⟩ := overwrite_text htexts (path ++ [.key key]) text
            rw [hwritten]
            exact refilled_both rfl hrest
          | list items =>
            rw [overwrite]
            exact refilled_both rfl hrest
          | _ => exact refilled_both rfl hrest
        · split
          · cases item with
            | list schemas =>
              rw [overwrite]
              exact refilled_both (listed_schemas_overwrite htexts _ 0 schemas) hrest
            | string text =>
              obtain ⟨text', hwritten⟩ := overwrite_text htexts (path ++ [.key key]) text
              rw [hwritten]
              exact refilled_both rfl hrest
            | dict entries =>
              rw [overwrite]
              exact refilled_both rfl hrest
            | _ => exact refilled_both rfl hrest
          · exact refilled_both rfl hrest

theorem named_schemas_overwrite {max_depth depth : Nat} (htexts : writes.OnlyTexts) (path : List PathPart)
    (entries : List (String × JsonValue)) : named_schemas max_depth path depth (overwrite_entries writes path entries) =
      refilled writes (named_schemas max_depth path depth entries) := by
  cases entries with
  | nil => rfl
  | cons entry entries =>
    obtain ⟨name, item⟩ := entry
    rw [overwrite_entries, named_schemas, named_schemas]
    exact refilled_both (schema_overwrite htexts _ item) (named_schemas_overwrite htexts path entries)

theorem listed_schemas_overwrite {max_depth depth : Nat} (htexts : writes.OnlyTexts) (path : List PathPart)
    (index : Nat)
    (items : List JsonValue) : listed_schemas max_depth path depth index (overwrite_items writes path index items) =
      refilled writes (listed_schemas max_depth path depth index items) := by
  cases items with
  | nil => rfl
  | cons item items =>
    rw [overwrite_items, listed_schemas, listed_schemas]
    exact refilled_both (schema_overwrite htexts _ item) (listed_schemas_overwrite htexts path (index + 1) items)

end

end refill

end pii_engine.request_segments
