import PiiEngine.Requests.Legacy
import PiiEngine.Requests.Overwrite

open checked collections prefixes

namespace pii_engine.request_segments

/-- How the texts of a part of a request are read. -/
inductive Reader where
  | text
  | json
  | schema
  | arguments
  deriving DecidableEq

/-- A part of a request whose texts are inspected. -/
structure Region where
  reader : Reader
  path : List PathPart
  value : JsonValue

namespace Region

def read (loads : Loads) (max_depth : Nat) (region : Region) : Except AnalysisError (List Leaf) :=
  match region.reader with
  | .text => pure (text_leaf (some region.value) region.path)
  | .json => json_leaves max_depth region.path 0 region.value
  | .schema => schema max_depth region.path 0 region.value
  | .arguments => arguments loads max_depth region.path region.value

/-- The leaves of some regions, in order. -/
def read_all (loads : Loads) (max_depth : Nat) (regions : List Region) : Except AnalysisError (List Leaf) := do
  let leaves ← regions.mapM (read loads max_depth)
  pure leaves.flatten

end Region

/-- The region of a field, where it is given. -/
def field_region (reader : Reader) (path : List PathPart) (value : Option JsonValue) : List Region :=
  match value with
  | some value => [⟨reader, path, value⟩]
  | none => []

/-- The region of a text field, where it is a text. -/
def text_region (path : List PathPart) (value : Option JsonValue) : List Region :=
  match value with
  | some (.string text) => [⟨.text, path, .string text⟩]
  | _ => []

/-- The regions of every item of a list, in order. -/
def item_regions (value : Option JsonValue) (f : Nat → JsonValue → List Region) : List Region :=
  (JsonValue.itemsOf value).zipIdx.flatMap fun (item, index) => f index item

def content_regions (value : Option JsonValue) (path : List PathPart) : List Region :=
  text_region path value ++ item_regions value fun index part =>
    if isTextPart part then text_region (path ++ [.index index, .key "text"]) (part.get? "text") else []

def definition_regions (path : List PathPart) (value : JsonValue) : List Region :=
  text_region (path ++ [.key "description"]) (value.get? "description") ++
    field_region .schema (path ++ [.key "parameters"]) (value.get? "parameters")

def given_arguments_regions (path : List PathPart) (function : JsonValue) : List Region :=
  field_region .arguments (path ++ [.key "arguments"]) (function.get? "arguments")

/-- A signature protects the text that it accompanies. -/
def unsigned_regions (value : JsonValue) (key : String) (regions : List Region) : List Region :=
  if JsonValue.truthy (value.get? key) then [] else regions

def block_regions (message : JsonValue) (path : List PathPart) (field : String) (text_fields : List String) :
    List Region :=
  item_regions (message.get? field) fun index block =>
    unsigned_regions block "signature" (text_fields.flatMap fun key =>
    text_region (path ++ [.key field, .index index, .key key]) (block.get? key))

def reasoning_regions (message : JsonValue) (path : List PathPart) : List Region :=
  unsigned_regions message "reasoning_signature" (["reasoning", "reasoning_content"].flatMap fun key =>
      text_region (path ++ [.key key]) (message.get? key)) ++
    [("reasoning_details", ["text", "summary"]), ("thinking_blocks", ["thinking"])].flatMap fun (field, text_fields) =>
      block_regions message path field text_fields

def message_regions (index : Nat) (message : JsonValue) : List Region :=
  let path : List PathPart := [.key "messages", .index index]
  content_regions (message.get? "content") (path ++ [.key "content"]) ++
    text_region (path ++ [.key "refusal"]) (message.get? "refusal") ++ reasoning_regions message path ++
    item_regions (message.get? "tool_calls") (fun call_index call =>
      match call.get? "function" with
      | some function =>
        given_arguments_regions (path ++ [.key "tool_calls", .index call_index, .key "function"]) function
      | none => []) ++
    (match message.get? "function_call" with
    | some function => given_arguments_regions (path ++ [.key "function_call"]) function
    | none => [])

def chat_regions (data : JsonValue) : List Region :=
  item_regions (data.get? "messages") message_regions ++
    item_regions (data.get? "tools") (fun index tool =>
      match tool.get? "function" with
      | some function => definition_regions [.key "tools", .index index, .key "function"] function
      | none => []) ++
    item_regions (data.get? "functions")
      (fun index function => definition_regions [.key "functions", .index index] function) ++
    field_region .schema [.key "response_format"] (data.get? "response_format")

def input_regions (index : Nat) (item : JsonValue) : List Region :=
  let path : List PathPart := [.key "input", .index index]
  match item.get? "type" with
  | none | some (.string "message") => content_regions (item.get? "content") (path ++ [.key "content"])
  | some (.string "function_call") => given_arguments_regions path item
  | some (.string "function_call_output") => field_region .json (path ++ [.key "output"]) (item.get? "output")
  | some (.string "reasoning") =>
    ["summary", "content"].flatMap fun field => item_regions (item.get? field) fun part_index part =>
      text_region (path ++ [.key field, .index part_index, .key "text"]) (part.get? "text")
  | _ => []

def responses_regions (data : JsonValue) : List Region :=
  text_region [.key "instructions"] (data.get? "instructions") ++
    text_region [.key "input"] (data.get? "input") ++ item_regions (data.get? "input") input_regions ++
    item_regions (data.get? "tools") (fun index tool => definition_regions [.key "tools", .index index] tool) ++
    field_region .schema [.key "text", .key "format"] ((data.get? "text").bind fun config => config.get? "format")

def mcp_regions (data : JsonValue) : List Region :=
  field_region .json [.key "params", .key "arguments"] ((data.get? "params").bind fun params => params.get? "arguments")

section read
variable {loads : Loads} {max_depth : Nat} {regions more : List Region} {path : List PathPart}

open Region

@[simp] theorem read_all_nil : read_all loads max_depth [] = .ok [] := rfl

theorem read_all_append : read_all loads max_depth (regions ++ more) = (do
    let first ← read_all loads max_depth regions
    let rest ← read_all loads max_depth more
    pure (first ++ rest)) := by
  rw [read_all, read_all, read_all, List.mapM_append]
  cases regions.mapM (read loads max_depth) with
  | error e => rfl
  | ok first =>
    cases more.mapM (read loads max_depth) with
    | error e => rfl
    | ok rest =>
      change Except.ok (first ++ rest).flatten = .ok (first.flatten ++ rest.flatten)
      rw [List.flatten_append]

theorem read_all_singleton (region : Region) : read_all loads max_depth [region] = read loads max_depth region := by
  rw [read_all, List.mapM_cons, List.mapM_nil]
  cases read loads max_depth region with
  | error e => rfl
  | ok leaves =>
    change Except.ok [leaves].flatten = .ok leaves
    rw [List.flatten_singleton]

theorem read_all_text (value : Option JsonValue) :
    read_all loads max_depth (text_region path value) = .ok (text_leaf value path) := by
  cases value with
  | none => rfl
  | some value =>
    cases value with
    | string text => exact read_all_singleton _
    | _ => rfl

theorem read_all_schema (value : Option JsonValue) :
    read_all loads max_depth (field_region .schema path value) = optional_schema max_depth path value := by
  cases value with
  | none => rfl
  | some value => exact read_all_singleton _

/-- Regions that are read without failure one after the other. -/
theorem read_all_flatMap_ok {α : Type} {items : List α} {f : α → List Region} {g : α → List Leaf}
    (h : ∀ item ∈ items, read_all loads max_depth (f item) = .ok (g item)) :
    read_all loads max_depth (items.flatMap f) = .ok (items.flatMap g) := by
  induction items with
  | nil => rfl
  | cons item items ih =>
    rw [List.forall_mem_cons] at h
    rw [List.flatMap_cons, read_all_append, h.1, ih h.2]
    rfl

theorem read_all_flatMap {α : Type} (items : List α) (f : α → List Region) :
    read_all loads max_depth (items.flatMap f) = (do
      let leaves ← items.mapM fun item => read_all loads max_depth (f item)
      pure leaves.flatten) := by
  induction items with
  | nil => rfl
  | cons item items ih =>
    rw [List.flatMap_cons, read_all_append, ih, List.mapM_cons]
    cases read_all loads max_depth (f item) with
    | error e => rfl
    | ok first => cases items.mapM fun item => read_all loads max_depth (f item) <;> rfl

theorem read_all_items (value : Option JsonValue) (f : Nat → JsonValue → List Region) :
    read_all loads max_depth (item_regions value f) =
      collect (JsonValue.itemsOf value) fun index item => read_all loads max_depth (f index item) := by
  rw [item_regions, read_all_flatMap]
  rfl

theorem read_all_items_ok (value : Option JsonValue) {f : Nat → JsonValue → List Region}
    {g : Nat → JsonValue → List Leaf} (h : ∀ index item, read_all loads max_depth (f index item) = .ok (g index item)) :
    read_all loads max_depth (item_regions value f) =
      .ok ((JsonValue.itemsOf value).zipIdx.flatMap fun (item, index) => g index item) :=
  read_all_flatMap_ok fun entry _ => h entry.2 entry.1

theorem read_all_content (value : Option JsonValue) :
    read_all loads max_depth (content_regions value path) = .ok (content_leaves value path) := by
  have hpart : ∀ index part, read_all loads max_depth
      (if isTextPart part then text_region (path ++ [.index index, .key "text"]) (part.get? "text") else []) =
      .ok (if isTextPart part then text_leaf (part.get? "text") (path ++ [.index index, .key "text"]) else []) := by
    intro index part
    split
    case isTrue => exact read_all_text _
    case isFalse => rfl
  have hparts := read_all_items_ok value hpart
  rw [content_regions, read_all_append, read_all_text, hparts]
  cases value with
  | none => rfl
  | some value => cases value <;> rfl

theorem read_all_definition (value : JsonValue) :
    read_all loads max_depth (definition_regions path value) = definition max_depth path value := by
  rw [definition_regions, read_all_append, read_all_text, read_all_schema]
  rfl

theorem read_all_given_arguments (function : JsonValue) :
    read_all loads max_depth (given_arguments_regions path function) =
      given_arguments loads max_depth path function := by
  rw [given_arguments_regions, given_arguments]
  cases function.get? "arguments" with
  | none => rfl
  | some value => exact read_all_singleton _

theorem read_all_unsigned (value : JsonValue) (key : String) {leaves : List Leaf}
    (h : read_all loads max_depth regions = .ok leaves) :
    read_all loads max_depth (unsigned_regions value key regions) =
      .ok (if JsonValue.truthy (value.get? key) then [] else leaves) := by
  rw [unsigned_regions]
  split
  case isTrue => rfl
  case isFalse => exact h

theorem read_all_reasoning (message : JsonValue) :
    read_all loads max_depth (reasoning_regions message path) = .ok (chat_reasoning_text message path) := by
  rw [reasoning_regions, read_all_append,
    read_all_unsigned message "reasoning_signature" (read_all_flatMap_ok fun key _ => read_all_text _),
    read_all_flatMap_ok fun entry _ => read_all_items_ok (message.get? entry.1) fun index block =>
      read_all_unsigned block "signature" (read_all_flatMap_ok fun key _ => read_all_text (block.get? key))]
  rfl

/-- The arguments of an optional function. -/
theorem read_all_function (function : Option JsonValue) :
    read_all loads max_depth (match function with
      | some function => given_arguments_regions path function
      | none => []) =
    match function with
      | some function => given_arguments loads max_depth path function
      | none => pure [] := by
  cases function with
  | none => rfl
  | some function => exact read_all_given_arguments function

/-- The leaves of a message are those of its regions. -/
theorem read_all_message (index : Nat) (message : JsonValue) :
    read_all loads max_depth (message_regions index message) = chat_message loads max_depth index message := by
  rw [message_regions, chat_message, read_all_append, read_all_append, read_all_append, read_all_append,
    read_all_content, read_all_text, read_all_reasoning, read_all_items]
  simp only [read_all_function]
  cases collect (JsonValue.itemsOf (message.get? "tool_calls")) _ with
  | error e => rfl
  | ok calls =>
    cases message.get? "function_call" with
    | none => rfl
    | some function => rfl

/-- The leaves of a Chat request are those of its regions. -/
theorem read_all_chat (data : JsonValue) :
    read_all loads max_depth (chat_regions data) = chat_leaves loads max_depth data := by
  rw [chat_regions, chat_leaves, read_all_append, read_all_append, read_all_append, read_all_items, read_all_items,
    read_all_items, read_all_schema]
  simp only [read_all_message, read_all_definition, bind_assoc, pure_bind]
  refine bind_congr fun messages => congrArg₂ (· >>= ·) (congrArg (collect _) ?_) rfl
  funext index tool
  cases tool.get? "function" with
  | none => rfl
  | some function => exact read_all_definition function

theorem read_all_input (index : Nat) (item : JsonValue) :
    read_all loads max_depth (input_regions index item) = response_item loads max_depth index item := by
  unfold input_regions
  dsimp only
  split
  case h_1 htype =>
    rw [response_item, htype]
    exact read_all_content _
  case h_2 htype =>
    rw [response_item, htype]
    exact read_all_content _
  case h_3 htype =>
    rw [response_item, htype]
    exact read_all_given_arguments item
  case h_4 htype =>
    rw [response_item, htype]
    cases item.get? "output" with
    | none => rfl
    | some output => exact read_all_singleton _
  case h_5 htype =>
    rw [response_item, htype]
    exact read_all_flatMap_ok fun field _ => read_all_items_ok (item.get? field) fun part_index part => read_all_text _
  case h_6 hnone hmessage hcall houtput hreasoning =>
    unfold response_item
    dsimp only
    split
    case h_1 htype => exact absurd htype hnone
    case h_2 htype => exact absurd htype hmessage
    case h_3 htype => exact absurd htype hcall
    case h_4 htype => exact absurd htype houtput
    case h_5 htype => exact absurd htype hreasoning
    case h_6 => rfl

/-- The leaves of a Responses request are those of its regions. -/
theorem read_all_responses (data : JsonValue) :
    read_all loads max_depth (responses_regions data) = responses_leaves loads max_depth data := by
  rw [responses_regions, responses_leaves, read_all_append, read_all_append, read_all_append, read_all_append,
    read_all_items, read_all_items, read_all_schema, read_all_text, read_all_text]
  simp only [read_all_input, read_all_definition, bind_assoc, pure_bind]
  rfl

theorem read_all_mcp (data : JsonValue) : read_all loads max_depth (mcp_regions data) =
    json_leaves max_depth [.key "params", .key "arguments"] 0
      ((((data.get? "params").getD .null).get? "arguments").getD .null) := by
  have hnull : json_leaves max_depth [.key "params", .key "arguments"] 0 .null = .ok [] := by
    unfold json_leaves check_depth
    rw [dif_neg (Nat.not_lt_zero max_depth)]
    rfl
  rw [mcp_regions]
  cases data.get? "params" with
  | none => exact hnull.symm
  | some params =>
    rw [Option.bind_some, Option.getD_some]
    cases params.get? "arguments" with
    | none => exact hnull.symm
    | some value => exact read_all_singleton _

end read

end pii_engine.request_segments
