import PiiEngine.Errors
import PiiEngine.Lib.Checked
import PiiEngine.Lib.Json
import PiiEngine.Text

open checked

namespace JsonValue

/-- `value.get(key)` of an object. -/
def get? (value : JsonValue) (key : String) : Option JsonValue :=
  match value with
  | .dict entries => entries.lookup key
  | _ => none

/-- The items of a list, none where there is no list. -/
def itemsOf : Option JsonValue → List JsonValue
  | some (.list items) => items
  | _ => []

end JsonValue

namespace pii_engine.request_segments

inductive PathPart where
  | key (name : String)
  | index (n : Nat)
  deriving DecidableEq

/-- One inspected text and the way to it. -/
structure Leaf where
  path : List PathPart
  text : Text
  deriving DecidableEq

def depth_exceeded {measured maximum : Nat} (h : maximum < measured) : AnalysisError :=
  .request_too_large "request nesting exceeds the configured limit" (some {
    component := .request_segments, stage := .inspection, reason := .depth, measured, maximum, unit := .levels
    exact := false, exceeded := h, unit_eq := rfl })

def check_depth (depth max_depth : Nat) : Except AnalysisError Unit :=
  if h : max_depth < depth then .error (depth_exceeded h) else .ok ()

mutual

/-- The strings of a JSON value. -/
def json_leaves (max_depth : Nat) (path : List PathPart) (depth : Nat) : JsonValue → Except AnalysisError (List Leaf)
  | .string text => do
    check_depth depth max_depth
    pure [⟨path, text.toList⟩]
  | .list items => do
    check_depth depth max_depth
    json_items max_depth path (depth + 1) 0 items
  | .dict entries => do
    check_depth depth max_depth
    json_entries max_depth path (depth + 1) entries
  | _ => do
    check_depth depth max_depth
    pure []

def json_items (max_depth : Nat) (path : List PathPart) (depth index : Nat) :
    List JsonValue → Except AnalysisError (List Leaf)
  | [] => pure []
  | item :: items => do
    let first ← json_leaves max_depth (path ++ [.index index]) depth item
    let rest ← json_items max_depth path depth (index + 1) items
    pure (first ++ rest)

def json_entries (max_depth : Nat) (path : List PathPart) (depth : Nat) :
    List (String × JsonValue) → Except AnalysisError (List Leaf)
  | [] => pure []
  | (key, item) :: entries => do
    let first ← json_leaves max_depth (path ++ [.key key]) depth item
    let rest ← json_entries max_depth path depth entries
    pure (first ++ rest)

end

/-- The keywords whose values are inspected as JSON. -/
def PROSE_KEYWORDS : List String := ["description", "title", "default", "examples"]

/-- The keywords that hold one schema. -/
def SCHEMA_KEYWORDS : List String := [
  "schema", "json_schema", "items", "additionalProperties", "contains", "not", "if", "then", "else",
  "propertyNames", "unevaluatedItems", "unevaluatedProperties", "contentSchema"]

/-- The keywords that hold schemas by name. -/
def NAMED_KEYWORDS : List String := ["properties", "$defs", "definitions", "patternProperties", "dependentSchemas"]

/-- The keywords that hold a list of schemas. -/
def LIST_KEYWORDS : List String := ["allOf", "anyOf", "oneOf", "prefixItems"]

mutual

/-- The prose of a JSON schema. -/
def schema (max_depth : Nat) (path : List PathPart) (depth : Nat) : JsonValue → Except AnalysisError (List Leaf)
  | .dict entries => do
    check_depth depth max_depth
    schema_keywords max_depth path (depth + 1) entries
  | _ => do
    check_depth depth max_depth
    pure []

def schema_keywords (max_depth : Nat) (path : List PathPart) (depth : Nat) :
    List (String × JsonValue) → Except AnalysisError (List Leaf)
  | [] => pure []
  | (key, item) :: entries => do
    let child := path ++ [.key key]
    let first ←
      if key ∈ PROSE_KEYWORDS then json_leaves max_depth child depth item
      else if key ∈ SCHEMA_KEYWORDS then schema max_depth child depth item
      else if key ∈ NAMED_KEYWORDS then
        match item with
        | .dict schemas => named_schemas max_depth child depth schemas
        | _ => pure []
      else if key ∈ LIST_KEYWORDS then
        match item with
        | .list schemas => listed_schemas max_depth child depth 0 schemas
        | _ => pure []
      else pure []
    let rest ← schema_keywords max_depth path depth entries
    pure (first ++ rest)

def named_schemas (max_depth : Nat) (path : List PathPart) (depth : Nat) :
    List (String × JsonValue) → Except AnalysisError (List Leaf)
  | [] => pure []
  | (name, item) :: entries => do
    let first ← schema max_depth (path ++ [.key name]) depth item
    let rest ← named_schemas max_depth path depth entries
    pure (first ++ rest)

def listed_schemas (max_depth : Nat) (path : List PathPart) (depth index : Nat) :
    List JsonValue → Except AnalysisError (List Leaf)
  | [] => pure []
  | item :: items => do
    let first ← schema max_depth (path ++ [.index index]) depth item
    let rest ← listed_schemas max_depth path depth (index + 1) items
    pure (first ++ rest)

end

end pii_engine.request_segments
