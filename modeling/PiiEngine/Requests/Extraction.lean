import PiiEngine.Contracts.Segments
import PiiEngine.Requests.Leaves

open checked

namespace JsonValue

/-- `bool(value)`, where an absent value is false. -/
def truthy : Option JsonValue → Bool
  | none | some .null => false
  | some (.bool value) => value
  | some (.int value) => value ≠ 0
  | some (.float value) => value ≠ some 0
  | some (.string value) => value ≠ ""
  | some (.list items) => !items.isEmpty
  | some (.dict entries) => !entries.isEmpty

end JsonValue

namespace pii_engine.request_segments

/-- `json.loads` with the hooks that reject duplicate keys and numbers that are not finite.
    A rejected text has no value. -/
abbrev Loads := Text → Option JsonValue

/-- Where a scan over an encoded document stands. -/
structure Nesting where
  depth : Nat := 0
  quoted : Bool := false
  escaped : Bool := false

/-- Bound nesting before the JSON decoder, ignoring escaped string contents. -/
def check_encoded_depth (max_depth : Nat) (s : Nesting) : Text → Except AnalysisError Unit
  | [] => pure ()
  | c :: rest =>
    if s.quoted then
      if s.escaped then check_encoded_depth max_depth { s with escaped := false } rest
      else if c = '\\' then check_encoded_depth max_depth { s with escaped := true } rest
      else if c = '"' then check_encoded_depth max_depth { s with quoted := false } rest
      else check_encoded_depth max_depth s rest
    else if c = '"' then check_encoded_depth max_depth { s with quoted := true } rest
    else if c = '[' ∨ c = '\x7b' then do
      check_depth (s.depth + 1) max_depth
      check_encoded_depth max_depth { s with depth := s.depth + 1 } rest
    else if c = ']' ∨ c = '\x7d' then check_encoded_depth max_depth { s with depth := s.depth - 1 } rest
    else check_encoded_depth max_depth s rest

def invalid_extraction : AnalysisError := .invalid_request "request text extraction failed"

/-- Call arguments: a JSON value, or a text that encodes one. -/
def arguments (loads : Loads) (max_depth : Nat) (path : List PathPart) (value : JsonValue) :
    Except AnalysisError (List Leaf) := do
  match value with
  | .string encoded =>
    check_encoded_depth max_depth {} encoded.toList
    match loads encoded.toList with
    | some value => json_leaves max_depth path 0 value
    | none => throw invalid_extraction
  | value => json_leaves max_depth path 0 value

/-- Call arguments, where they are given. -/
def given_arguments (loads : Loads) (max_depth : Nat) (path : List PathPart) (function : JsonValue) :
    Except AnalysisError (List Leaf) :=
  match function.get? "arguments" with
  | some value => arguments loads max_depth (path ++ [.key "arguments"]) value
  | none => pure []

/-- A text field. -/
def text_leaf (value : Option JsonValue) (path : List PathPart) : List Leaf :=
  match value with
  | some (.string text) => [⟨path, text.toList⟩]
  | _ => []

def isTextPart (part : JsonValue) : Bool :=
  match part.get? "type" with
  | some (.string type) => type ∈ ["text", "input_text", "output_text"]
  | _ => false

/-- The texts of a message content. -/
def content_leaves (value : Option JsonValue) (path : List PathPart) : List Leaf :=
  match value with
  | some (.string text) => [⟨path, text.toList⟩]
  | some (.list parts) => parts.zipIdx.flatMap fun (part, index) =>
      if isTextPart part then text_leaf (part.get? "text") (path ++ [.index index, .key "text"]) else []
  | _ => []

/-- Whether a message content has a part that is no text. -/
def has_attachment (value : Option JsonValue) : Bool := (JsonValue.itemsOf value).any fun part => !isTextPart part

/-- The leaves of every item of a list, in order. -/
def collect (items : List JsonValue) (f : Nat → JsonValue → Except AnalysisError (List Leaf)) :
    Except AnalysisError (List Leaf) := do
  let leaves ← items.zipIdx.mapM fun (item, index) => f index item
  pure leaves.flatten

/-- The schema of an optional field. An absent one has no leaves. -/
def optional_schema (max_depth : Nat) (path : List PathPart) (value : Option JsonValue) :
    Except AnalysisError (List Leaf) :=
  match value with
  | some value => schema max_depth path 0 value
  | none => pure []

/-- The description and the parameters of a function. -/
def definition (max_depth : Nat) (path : List PathPart) (value : JsonValue) : Except AnalysisError (List Leaf) := do
  let parameters ← optional_schema max_depth (path ++ [.key "parameters"]) (value.get? "parameters")
  pure (text_leaf (value.get? "description") (path ++ [.key "description"]) ++ parameters)

/-- Editable history text. A signature protects its accompanying text too. -/
def chat_reasoning_text (message : JsonValue) (path : List PathPart) : List Leaf :=
  let unsigned := if JsonValue.truthy (message.get? "reasoning_signature") then []
    else ["reasoning", "reasoning_content"].flatMap fun key => text_leaf (message.get? key) (path ++ [.key key])
  let blocks := [("reasoning_details", ["text", "summary"]), ("thinking_blocks", ["thinking"])].flatMap
    fun (field, text_fields) => (JsonValue.itemsOf (message.get? field)).zipIdx.flatMap fun (block, index) =>
      if JsonValue.truthy (block.get? "signature") then []
      else text_fields.flatMap fun key =>
        text_leaf (block.get? key) (path ++ [.key field, .index index, .key key])
  unsigned ++ blocks

def chat_message (loads : Loads) (max_depth index : Nat) (message : JsonValue) :
    Except AnalysisError (List Leaf) := do
  let path : List PathPart := [.key "messages", .index index]
  let calls ← collect (JsonValue.itemsOf (message.get? "tool_calls")) fun call_index call =>
    match call.get? "function" with
    | some function =>
      given_arguments loads max_depth (path ++ [.key "tool_calls", .index call_index, .key "function"]) function
    | none => pure []
  let deprecated ← match message.get? "function_call" with
    | some function => given_arguments loads max_depth (path ++ [.key "function_call"]) function
    | none => pure []
  pure (content_leaves (message.get? "content") (path ++ [.key "content"]) ++
    text_leaf (message.get? "refusal") (path ++ [.key "refusal"]) ++ chat_reasoning_text message path ++ calls ++
    deprecated)

def chat_leaves (loads : Loads) (max_depth : Nat) (data : JsonValue) : Except AnalysisError (List Leaf) := do
  let messages ← collect (JsonValue.itemsOf (data.get? "messages")) (chat_message loads max_depth)
  let tools ← collect (JsonValue.itemsOf (data.get? "tools")) fun index tool =>
    match tool.get? "function" with
    | some function => definition max_depth [.key "tools", .index index, .key "function"] function
    | none => pure []
  let functions ← collect (JsonValue.itemsOf (data.get? "functions")) fun index function =>
    definition max_depth [.key "functions", .index index] function
  let format ← optional_schema max_depth [.key "response_format"] (data.get? "response_format")
  pure (messages ++ tools ++ functions ++ format)

/-- One item of a Responses input. An item without a type is a message. -/
def response_item (loads : Loads) (max_depth index : Nat) (item : JsonValue) : Except AnalysisError (List Leaf) :=
  let path : List PathPart := [.key "input", .index index]
  match item.get? "type" with
  | none | some (.string "message") => pure (content_leaves (item.get? "content") (path ++ [.key "content"]))
  | some (.string "function_call") => given_arguments loads max_depth path item
  | some (.string "function_call_output") =>
    match item.get? "output" with
    | some output => json_leaves max_depth (path ++ [.key "output"]) 0 output
    | none => pure []
  | some (.string "reasoning") =>
    pure (["summary", "content"].flatMap fun field =>
      (JsonValue.itemsOf (item.get? field)).zipIdx.flatMap fun (part, part_index) =>
        text_leaf (part.get? "text") (path ++ [.key field, .index part_index, .key "text"]))
  | _ => pure []

def responses_leaves (loads : Loads) (max_depth : Nat) (data : JsonValue) : Except AnalysisError (List Leaf) := do
  let items ← collect (JsonValue.itemsOf (data.get? "input")) (response_item loads max_depth)
  let tools ← collect (JsonValue.itemsOf (data.get? "tools")) fun index tool =>
    definition max_depth [.key "tools", .index index] tool
  let format ← optional_schema max_depth [.key "text", .key "format"]
    ((data.get? "text").bind fun config => config.get? "format")
  pure (text_leaf (data.get? "instructions") [.key "instructions"] ++ text_leaf (data.get? "input") [.key "input"] ++
    items ++ tools ++ format)

/-- The values an object or a list holds. -/
def children : JsonValue → List JsonValue
  | .list items => items
  | .dict entries => entries.map Prod.snd
  | _ => []

def isContainer : JsonValue → Bool
  | .list _ | .dict _ => true
  | _ => false

def nodes_exceeded {measured maximum : Nat} (message : String) (component : LimitComponent) (exact : Bool)
    (h : maximum < measured) : AnalysisError :=
  .request_too_large message (some {
    component, stage := .inspection, reason := .nodes, measured, maximum, unit := .items, exact, exceeded := h
    unit_eq := rfl })

/-- The walk over immutable metadata: the nodes counted so far and those still to visit, the
    next one first. It stops at 4097 nodes. -/
def metadata_walk (max_depth : Nat) : (fuel nodes : Nat) → List (JsonValue × Nat) → Except AnalysisError Unit
  | 0, _, _ => pure ()
  | _, _, [] => pure ()
  | fuel + 1, nodes, (current, depth) :: pending => do
    check_depth depth max_depth
    if h : 4096 < nodes + 1 then
      throw (nodes_exceeded "request nesting exceeds the configured limit" .request_segments false h)
    else metadata_walk max_depth fuel (nodes + 1) (((children current).map (·, depth + 1)).reverse ++ pending)

/-- Bound immutable metadata without treating its strings as inspection text. -/
def validate_mcp_metadata (max_depth : Nat) (value : JsonValue) : Except AnalysisError Unit :=
  metadata_walk max_depth 4097 0 [(value, 0)]

def mcp_leaves (max_depth : Nat) (data : JsonValue) : Except AnalysisError (List Leaf) := do
  let params := (data.get? "params").getD .null
  validate_mcp_metadata max_depth ((params.get? "_meta").getD .null)
  json_leaves max_depth [.key "params", .key "arguments"] 0 ((params.get? "arguments").getD .null)

end pii_engine.request_segments
