import PiiEngine.Requests.Legacy

open checked

namespace pii_engine.request_segments

/-- A field of a model: left out, null or given a value. -/
inductive FieldState (α : Type) where
  | omitted
  | null
  | given (value : α)

namespace FieldState
variable {α : Type} {key other : String} {encode : α → JsonValue} {decode : JsonValue → Option α}

def value? : FieldState α → Option α
  | .given value => some value
  | _ => none

def isOmitted : FieldState α → Bool
  | .omitted => true
  | _ => false

/-- The dumped value of a field that is set. -/
def encoded (encode : α → JsonValue) : FieldState α → Option JsonValue
  | .omitted => none
  | .null => some .null
  | .given value => some (encode value)

def map {β : Type} (f : α → β) : FieldState α → FieldState β
  | .omitted => .omitted
  | .null => .null
  | .given value => .given (f value)

/-- `model_dump(by_alias=True, exclude_unset=True)` of one field. -/
def dump (key : String) (encode : α → JsonValue) (field : FieldState α) : List (String × JsonValue) :=
  (field.encoded encode).toList.map (key, ·)

/-- The field that a document's value stands for. -/
def validate (decode : JsonValue → Option α) : Option JsonValue → Option (FieldState α)
  | none => some .omitted
  | some .null => some .null
  | some value => (decode value).map .given

theorem validate_encoded {field : FieldState α} (hdecode : ∀ value, decode (encode value) = some value)
    (hnull : ∀ value, encode value ≠ .null) : validate decode (field.encoded encode) = some field := by
  cases field with
  | omitted => rfl
  | null => rfl
  | given value =>
    rw [encoded, validate, hdecode, Option.map_some]
    exact hnull value

theorem value?_map {β : Type} (f : β → α) (field : FieldState β) : (field.map f).value? = field.value?.map f := by
  cases field <;> rfl

theorem isOmitted_map {β : Type} (f : β → α) (field : FieldState β) : (field.map f).isOmitted = field.isOmitted := by
  cases field <;> rfl

theorem mem_dump {field : FieldState α} {entry : String × JsonValue} (h : entry ∈ field.dump key encode) :
    entry.1 = key := by
  obtain ⟨_, -, rfl⟩ := List.mem_map.mp h
  rfl

theorem lookup_dump (field : FieldState α) (rest : List (String × JsonValue)) :
    (field.dump key encode ++ rest).lookup other =
      if other = key then (field.encoded encode).or (rest.lookup key) else rest.lookup other := by
  rw [dump]
  cases field.encoded encode with
  | none =>
    by_cases h : other = key
    · rw [if_pos h, h]
      rfl
    · rw [if_neg h]
      rfl
  | some value =>
    by_cases h : other = key
    · simp [h]
    · change ((key, value) :: rest).lookup other = _
      rw [if_neg h, List.lookup_cons, beq_eq_false_iff_ne.mpr h]

end FieldState

/-- The checks that a model has from its parent class: the fields of a Responses request other
    than its tools, and the parameter schema of a function. -/
structure SharedChecks where
  fields : List (String × JsonValue) → Bool
  parameters : List (String × JsonValue) → Bool

variable {shared : SharedChecks}

/-- The pattern `^[A-Za-z0-9_.:-]+$` with its bounds. -/
def isFunctionName (name : String) : Bool :=
  (1 ≤ name.length && name.length ≤ 256) &&
    name.toList.all fun c => c.isAlphanum || c ∈ ['_', '.', ':', '-']

/-- The fields of a function definition, with the `strict` control that both endpoints admit. -/
structure EngineToolFunction (shared : SharedChecks) where
  name : String
  description : FieldState String
  parameters : FieldState (List (String × JsonValue))
  strict : FieldState Bool
  name_ok : isFunctionName name = true
  description_ok : ∀ text ∈ description.value?, text.length ≤ 20000
  parameters_ok : ∀ entries ∈ parameters.value?, shared.parameters entries = true

namespace EngineToolFunction

def FIELDS : List String := ["name", "description", "parameters", "strict"]

def model_dump (function : EngineToolFunction shared) : List (String × JsonValue) :=
  ("name", .string function.name) :: (function.description.dump "description" .string ++
    (function.parameters.dump "parameters" .dict ++ function.strict.dump "strict" .bool))

def asString : JsonValue → Option String
  | .string text => some text
  | _ => none

def asDict : JsonValue → Option (List (String × JsonValue))
  | .dict entries => some entries
  | _ => none

def asBool : JsonValue → Option Bool
  | .bool value => some value
  | _ => none

/-- Validate the entries of a function definition. -/
def model_validate (shared : SharedChecks) (entries : List (String × JsonValue)) :
    Option (EngineToolFunction shared) := do
  let name ← (entries.lookup "name").bind asString
  let description ← FieldState.validate asString (entries.lookup "description")
  let parameters ← FieldState.validate asDict (entries.lookup "parameters")
  let strict ← FieldState.validate asBool (entries.lookup "strict")
  if h : (∀ entry ∈ entries, entry.1 ∈ FIELDS) ∧ isFunctionName name = true ∧
      (∀ text ∈ description.value?, text.length ≤ 20000) ∧
      ∀ entries ∈ parameters.value?, shared.parameters entries = true then
    some ⟨name, description, parameters, strict, h.2.1, h.2.2.1, h.2.2.2⟩
  else none

theorem mem_model_dump {function : EngineToolFunction shared} {entry : String × JsonValue}
    (h : entry ∈ function.model_dump) : entry.1 ∈ FIELDS := by
  rw [model_dump, List.mem_cons, List.mem_append, List.mem_append] at h
  obtain rfl | h | h | h := h
  · exact List.mem_cons_self
  · rw [FieldState.mem_dump h]
    decide
  · rw [FieldState.mem_dump h]
    decide
  · rw [FieldState.mem_dump h]
    decide

theorem lookup_model_dump (function : EngineToolFunction shared) :
    function.model_dump.lookup "name" = some (.string function.name) ∧
      function.model_dump.lookup "description" = function.description.encoded .string ∧
      function.model_dump.lookup "parameters" = function.parameters.encoded .dict ∧
      function.model_dump.lookup "strict" = function.strict.encoded .bool := by
  have hstrict : ∀ key, (function.strict.dump "strict" .bool).lookup key =
      if key = "strict" then function.strict.encoded .bool else none := by
    intro key
    rw [← List.append_nil (function.strict.dump "strict" .bool), FieldState.lookup_dump, List.lookup_nil,
      List.lookup_nil, Option.or_none]
  have htail : ∀ key, key ≠ "name" → function.model_dump.lookup key =
      (function.description.dump "description" .string ++
        (function.parameters.dump "parameters" .dict ++ function.strict.dump "strict" .bool)).lookup key := by
    intro key hkey
    rw [model_dump, List.lookup_cons, beq_eq_false_iff_ne.mpr hkey]
  refine ⟨rfl, ?_, ?_, ?_⟩
  · rw [htail _ (by decide), FieldState.lookup_dump, if_pos rfl, FieldState.lookup_dump, if_neg (by decide), hstrict,
      if_neg (by decide), Option.or_none]
  · rw [htail _ (by decide), FieldState.lookup_dump, if_neg (by decide), FieldState.lookup_dump, if_pos rfl, hstrict,
      if_neg (by decide), Option.or_none]
  · rw [htail _ (by decide), FieldState.lookup_dump, if_neg (by decide), FieldState.lookup_dump, if_neg (by decide),
      hstrict, if_pos rfl]

theorem model_validate_dump (function : EngineToolFunction shared) :
    model_validate shared function.model_dump = some function := by
  obtain ⟨hname, hdescription, hparameters, hstrict⟩ := lookup_model_dump function
  rw [model_validate, hname, hdescription, hparameters, hstrict]
  rw [FieldState.validate_encoded (fun _ => rfl : ∀ text, asString (.string text) = some text) (fun _ h => by cases h),
    FieldState.validate_encoded (fun _ => rfl : ∀ entries, asDict (.dict entries) = some entries)
      (fun _ h => by cases h),
    FieldState.validate_encoded (fun _ => rfl : ∀ b, asBool (.bool b) = some b) (fun _ h => by cases h)]
  exact dif_pos ⟨fun entry hentry => mem_model_dump hentry, function.name_ok, function.description_ok,
    function.parameters_ok⟩

theorem lookup_model_dump_eq_none {function : EngineToolFunction shared} {key : String} (h : key ∉ FIELDS) :
    function.model_dump.lookup key = none := by
  rw [List.lookup_eq_none_iff]
  intro entry hentry
  rw [bne_iff_ne]
  rintro rfl
  exact h (mem_model_dump hentry)

theorem filter_model_dump (function : EngineToolFunction shared) :
    function.model_dump.filter (·.1 ≠ "type") = function.model_dump := by
  rw [List.filter_eq_self]
  intro entry hentry
  have hkey := mem_model_dump hentry
  rw [decide_eq_true_eq]
  rintro heq
  rw [heq] at hkey
  exact absurd hkey (by decide)

end EngineToolFunction

/-- A flat function tool of the Responses endpoint. -/
structure EngineResponseToolDefinition (shared : SharedChecks) where
  function : EngineToolFunction shared

namespace EngineResponseToolDefinition

def model_dump (tool : EngineResponseToolDefinition shared) : JsonValue :=
  .dict (("type", .string "function") :: tool.function.model_dump)

def model_validate (shared : SharedChecks) : JsonValue → Option (EngineResponseToolDefinition shared)
  | .dict entries =>
    match entries.lookup "type" with
    | some (.string "function") =>
      (EngineToolFunction.model_validate shared (entries.filter (·.1 ≠ "type"))).map fun function => ⟨function⟩
    | _ => none
  | _ => none

theorem model_validate_dump (tool : EngineResponseToolDefinition shared) :
    model_validate shared tool.model_dump = some tool := by
  have hfilter : (("type", JsonValue.string "function") :: tool.function.model_dump).filter (·.1 ≠ "type") =
      tool.function.model_dump := by
    rw [List.filter_cons_of_neg (by decide), EngineToolFunction.filter_model_dump]
  change (EngineToolFunction.model_validate shared (List.filter _ _)).map _ = _
  rw [hfilter, EngineToolFunction.model_validate_dump]
  rfl

end EngineResponseToolDefinition

/-- A tool that carries its function in an envelope. -/
structure EngineToolDefinition (shared : SharedChecks) where
  function : EngineToolFunction shared

namespace EngineToolDefinition

def model_dump (tool : EngineToolDefinition shared) : JsonValue :=
  .dict [("type", .string "function"), ("function", .dict tool.function.model_dump)]

def model_validate (shared : SharedChecks) : JsonValue → Option (EngineToolDefinition shared)
  | .dict entries =>
    match entries.lookup "type", entries.lookup "function" with
    | some (.string "function"), some (.dict function) =>
      if ∀ entry ∈ entries, entry.1 ∈ ["type", "function"] then
        (EngineToolFunction.model_validate shared function).map fun function => ⟨function⟩
      else none
    | _, _ => none
  | _ => none

theorem model_validate_dump (tool : EngineToolDefinition shared) :
    model_validate shared tool.model_dump = some tool := by
  change (if ∀ entry ∈ [("type", JsonValue.string "function"), ("function", .dict tool.function.model_dump)],
    entry.1 ∈ ["type", "function"] then (EngineToolFunction.model_validate shared tool.function.model_dump).map _
    else none) = _
  rw [if_pos (by simp), EngineToolFunction.model_validate_dump]
  rfl

end EngineToolDefinition

/-- A tool that the legacy boundary admits. -/
inductive LegacyTool (shared : SharedChecks) where
  | flat (tool : EngineResponseToolDefinition shared)
  | nested (tool : EngineToolDefinition shared)

namespace LegacyTool

def model_dump : LegacyTool shared → JsonValue
  | .flat tool => tool.model_dump
  | .nested tool => tool.model_dump

/-- A document is validated as the first kind of tool that it fits. -/
def model_validate (shared : SharedChecks) (value : JsonValue) : Option (LegacyTool shared) :=
  ((EngineResponseToolDefinition.model_validate shared value).map .flat).or
    ((EngineToolDefinition.model_validate shared value).map .nested)

def function : LegacyTool shared → EngineToolFunction shared
  | .flat tool => tool.function
  | .nested tool => tool.function

def is_nested : LegacyTool shared → Bool
  | .nested _ => true
  | .flat _ => false

/-- A function without a name is no flat tool. -/
theorem flat_nested (tool : EngineToolDefinition shared) :
    EngineResponseToolDefinition.model_validate shared tool.model_dump = none := rfl

theorem model_validate_dump (tool : LegacyTool shared) : model_validate shared tool.model_dump = some tool := by
  cases tool with
  | flat tool =>
    rw [model_dump, model_validate, EngineResponseToolDefinition.model_validate_dump]
    rfl
  | nested tool =>
    rw [model_dump, model_validate, flat_nested, EngineToolDefinition.model_validate_dump]
    rfl

end LegacyTool

def replace_entry (g : List JsonValue → List JsonValue) (entry : String × JsonValue) : String × JsonValue :=
  if entry.1 = "tools" then
    match entry.2 with
    | .list tools => (entry.1, .list (g tools))
    | _ => entry
  else entry

/-- Replace the tools in a dumped request. -/
def replace_tools (g : List JsonValue → List JsonValue) : JsonValue → JsonValue
  | .dict entries => .dict (entries.map (replace_entry g))
  | data => data

/-- A Responses request: its tools among the other fields that are set, in the order in which
    they are dumped. -/
@[ext]
structure ResponsesBody (shared : SharedChecks) (τ : Type) where
  front : List (String × JsonValue)
  tools : FieldState (List τ)
  back : List (String × JsonValue)
  fields_ok : shared.fields (front ++ back) = true
  keys_ok : ∀ entry ∈ front ++ back, entry.1 ≠ "tools"
  tools_ok : ∀ items ∈ tools.value?, items.length ≤ 128
  back_ok : tools.isOmitted = true → back = []

namespace ResponsesBody
variable {τ : Type} {dump_tool : τ → JsonValue} {validate_tool : JsonValue → Option τ}

def model_dump (dump_tool : τ → JsonValue) (body : ResponsesBody shared τ) : JsonValue :=
  .dict (body.front ++ (body.tools.dump "tools" (fun items => .list (items.map dump_tool)) ++ body.back))

/-- Validate the entries around the tools. -/
def ofParts (shared : SharedChecks) (front : List (String × JsonValue)) (tools : FieldState (List τ))
    (back : List (String × JsonValue)) : Option (ResponsesBody shared τ) :=
  if h : shared.fields (front ++ back) = true ∧ (∀ entry ∈ front ++ back, entry.1 ≠ "tools") ∧
      (∀ items ∈ tools.value?, items.length ≤ 128) ∧ (tools.isOmitted = true → back = []) then
    some ⟨front, tools, back, h.1, h.2.1, h.2.2.1, h.2.2.2⟩
  else none

def asTools (validate_tool : JsonValue → Option τ) : JsonValue → Option (List τ)
  | .list items => items.mapM validate_tool
  | _ => none

def model_validate (shared : SharedChecks) (validate_tool : JsonValue → Option τ) :
    JsonValue → Option (ResponsesBody shared τ)
  | .dict entries => do
    let rest := entries.dropWhile (·.1 ≠ "tools")
    let tools ← FieldState.validate (asTools validate_tool) (rest.head?.map Prod.snd)
    ofParts shared (entries.takeWhile (·.1 ≠ "tools")) tools rest.tail
  | _ => none

theorem mapM_validate {items : List τ} (htool : ∀ tool, validate_tool (dump_tool tool) = some tool) :
    (items.map dump_tool).mapM validate_tool = some items := by
  induction items with
  | nil => rfl
  | cons tool items ih =>
    rw [List.map_cons, List.mapM_cons, htool, ih]
    rfl

/-- A request is read back from its dump. -/
theorem model_validate_dump (body : ResponsesBody shared τ)
    (htool : ∀ tool, validate_tool (dump_tool tool) = some tool) :
    model_validate shared validate_tool (body.model_dump dump_tool) = some body := by
  have hparts : ofParts shared body.front body.tools body.back = some body :=
    dif_pos ⟨body.fields_ok, body.keys_ok, body.tools_ok, body.back_ok⟩
  have hfront : ∀ entry ∈ body.front, decide (entry.1 ≠ "tools") = true := fun entry hentry =>
    decide_eq_true (body.keys_ok entry (List.mem_append_left _ hentry))
  have hdecode : ∀ items, asTools validate_tool (.list (items.map dump_tool)) = some items := fun items =>
    mapM_validate htool
  have htools : FieldState.validate _ (body.tools.encoded _) = some body.tools :=
    FieldState.validate_encoded hdecode fun _ h => by cases h
  rw [model_dump, model_validate, List.takeWhile_append_of_pos hfront, List.dropWhile_append_of_pos hfront]
  rw [FieldState.dump]
  cases hencoded : body.tools.encoded fun items => .list (items.map dump_tool) with
  | none =>
    rw [hencoded] at htools
    have homitted : body.tools.isOmitted = true := by
      cases htools' : body.tools with
      | omitted => rfl
      | null =>
        rw [htools'] at hencoded
        cases hencoded
      | given items =>
        rw [htools'] at hencoded
        cases hencoded
    rw [body.back_ok homitted] at hparts ⊢
    change (do let tools ← FieldState.validate _ none; ofParts shared (body.front ++ []) tools []) = _
    rw [htools, List.append_nil]
    exact hparts
  | some value =>
    rw [hencoded] at htools
    change (do let tools ← FieldState.validate _ (some value); ofParts shared (body.front ++ []) tools body.back) = _
    rw [htools, List.append_nil]
    exact hparts

/-- The tools of a request stand under their key. -/
theorem get?_tools (body : ResponsesBody shared τ) :
    (body.model_dump dump_tool).get? "tools" = body.tools.encoded fun items => .list (items.map dump_tool) := by
  have hnone : ∀ entries : List (String × JsonValue), (∀ entry ∈ entries, entry ∈ body.front ++ body.back) →
      entries.lookup "tools" = none := by
    intro entries hentries
    rw [List.lookup_eq_none_iff]
    intro entry hentry
    rw [bne_iff_ne]
    exact (body.keys_ok entry (hentries entry hentry)).symm
  rw [model_dump, JsonValue.get?, List.lookup_append, hnone body.front fun _ h => List.mem_append_left _ h,
    Option.none_or,
    FieldState.lookup_dump, if_pos rfl, hnone body.back fun _ h => List.mem_append_right _ h, Option.or_none]

/-- The tools of a request, none where they are omitted or null. -/
def items (body : ResponsesBody shared τ) : List τ := body.tools.value?.getD []

theorem itemsOf_tools (body : ResponsesBody shared τ) :
    JsonValue.itemsOf ((body.model_dump dump_tool).get? "tools") = body.items.map dump_tool := by
  rw [get?_tools, items]
  cases body.tools <;> rfl

/-- Put other tools into a request. -/
def withTools {υ : Type} (body : ResponsesBody shared τ) (f : List τ → List υ)
    (hlength : ∀ items, (f items).length = items.length) : ResponsesBody shared υ where
  front := body.front
  tools := body.tools.map f
  back := body.back
  fields_ok := body.fields_ok
  keys_ok := body.keys_ok
  tools_ok := by
    intro items hitems
    rw [FieldState.value?_map] at hitems
    obtain ⟨given, hgiven, rfl⟩ := Option.map_eq_some_iff.mp hitems
    rw [hlength]
    exact body.tools_ok given hgiven
  back_ok := by
    rw [FieldState.isOmitted_map]
    exact body.back_ok

theorem items_withTools {υ : Type} (body : ResponsesBody shared τ) (f : List τ → List υ)
    (hlength : ∀ items, (f items).length = items.length) : (body.withTools f hlength).items = f body.items := by
  have hnil : f [] = [] := List.length_eq_zero_iff.mp (hlength [])
  rw [items, withTools, FieldState.value?_map, items]
  cases body.tools.value? with
  | none => exact hnil.symm
  | some items => rfl

/-- A change of the tools shows in the dump in the value of their key alone. -/
theorem model_dump_withTools {υ : Type} {dump_other : υ → JsonValue} (body : ResponsesBody shared τ)
    (f : List τ → List υ) (hlength : ∀ items, (f items).length = items.length) (g : List JsonValue → List JsonValue)
    (hf : ∀ items, (f items).map dump_other = g (items.map dump_tool)) :
    (body.withTools f hlength).model_dump dump_other = replace_tools g (body.model_dump dump_tool) := by
  have hkept : ∀ entries : List (String × JsonValue), (∀ entry ∈ entries, entry ∈ body.front ++ body.back) →
      entries.map (replace_entry g) = entries := by
    intro entries hentries
    refine (List.map_congr_left fun entry hentry => ?_).trans (List.map_id entries)
    exact if_neg (body.keys_ok entry (hentries entry hentry))
  have htools : (body.tools.map f).dump "tools" (fun items => .list (items.map dump_other)) =
      (body.tools.dump "tools" fun items => .list (items.map dump_tool)).map (replace_entry g) := by
    cases body.tools with
    | omitted => rfl
    | null => rfl
    | given items =>
      change [("tools", JsonValue.list ((f items).map dump_other))] = [("tools", .list (g (items.map dump_tool)))]
      rw [hf]
  rw [model_dump, model_dump, replace_tools, List.map_append, List.map_append,
    hkept body.front fun _ h => List.mem_append_left _ h, hkept body.back fun _ h => List.mem_append_right _ h,
    ← htools]
  rfl

end ResponsesBody

/-- A canonical Responses request, whose tools are flat. -/
abbrev EngineResponsesRequest (shared : SharedChecks) := ResponsesBody shared (EngineResponseToolDefinition shared)

/-- A Responses request of the legacy boundary. -/
abbrev OpenAIResponsesRequest (shared : SharedChecks) := ResponsesBody shared (LegacyTool shared)

namespace EngineResponsesRequest

def dumped (request : EngineResponsesRequest shared) : JsonValue :=
  ResponsesBody.model_dump EngineResponseToolDefinition.model_dump request

def validated (shared : SharedChecks) (data : JsonValue) : Option (EngineResponsesRequest shared) :=
  ResponsesBody.model_validate shared (EngineResponseToolDefinition.model_validate shared) data

theorem validated_dumped (request : EngineResponsesRequest shared) : validated shared request.dumped = some request :=
  ResponsesBody.model_validate_dump request EngineResponseToolDefinition.model_validate_dump

/-- A canonical request with envelopes around some of its tools. -/
def enveloped (nested_tools : List Nat) (request : EngineResponsesRequest shared) : OpenAIResponsesRequest shared :=
  request.withTools (List.mapIdx fun index tool =>
    if index ∈ nested_tools then .nested ⟨tool.function⟩ else .flat tool) fun _ => List.length_mapIdx

end EngineResponsesRequest

namespace OpenAIResponsesRequest

def dumped (request : OpenAIResponsesRequest shared) : JsonValue :=
  ResponsesBody.model_dump LegacyTool.model_dump request

def validated (shared : SharedChecks) (data : JsonValue) : Option (OpenAIResponsesRequest shared) :=
  ResponsesBody.model_validate shared (LegacyTool.model_validate shared) data

theorem validated_dumped (request : OpenAIResponsesRequest shared) : validated shared request.dumped = some request :=
  ResponsesBody.model_validate_dump request LegacyTool.model_validate_dump

/-- The canonical form of a request. -/
def flattened (request : OpenAIResponsesRequest shared) : EngineResponsesRequest shared :=
  request.withTools (List.map fun tool => ⟨tool.function⟩) fun _ => List.length_map _

/-- The positions of the tools that carry an envelope. -/
def nested_tools (request : OpenAIResponsesRequest shared) : List Nat :=
  request.items.zipIdx.filterMap fun (tool, index) => if tool.is_nested then some index else none

end OpenAIResponsesRequest

/-- Put the envelope back around a flat tool. -/
def nest_tool (tool : JsonValue) : JsonValue :=
  match tool with
  | .dict entries =>
    .dict [("type", (tool.get? "type").getD .null), ("function", .dict (entries.filter (·.1 ≠ "type")))]
  | _ => tool

/-- Restore each original tool envelope. -/
def restore_envelopes (nested_tools : List Nat) : JsonValue → JsonValue :=
  replace_tools (List.mapIdx fun index tool => if index ∈ nested_tools then nest_tool tool else tool)

/-- Rebuild transformed text before restoring each original tool envelope. How the canonical
    request is rebuilt from its segments is given. -/
def rebuild (canonical : List (String × Text) → Except AnalysisError (EngineResponsesRequest shared))
    (nested_tools : List Nat) (segments : List (String × Text)) :
    Except AnalysisError (OpenAIResponsesRequest shared) := do
  let request ← canonical segments
  let data := request.dumped
  raiseIf (∃ index ∈ nested_tools, (JsonValue.itemsOf (data.get? "tools")).length ≤ index) (.runtime_error "IndexError")
  (OpenAIResponsesRequest.validated shared (restore_envelopes nested_tools data)).elim
    (.error (.validation_error "OpenAIResponsesRequest" "invalid field")) .ok

section envelopes

theorem get?_function_flat (tool : EngineResponseToolDefinition shared) : tool.model_dump.get? "function" = none := by
  have hkey : ("function" == "type") = false := by decide
  have hfields : "function" ∉ EngineToolFunction.FIELDS := by decide
  rw [EngineResponseToolDefinition.model_dump, JsonValue.get?, List.lookup_cons, hkey]
  exact EngineToolFunction.lookup_model_dump_eq_none hfields

theorem flat_tool_dump (tool : LegacyTool shared) :
    flat_tool tool.model_dump = EngineResponseToolDefinition.model_dump ⟨tool.function⟩ := by
  cases tool with
  | nested tool => rfl
  | flat tool =>
    rw [LegacyTool.model_dump, flat_tool, get?_function_flat]
    rfl

theorem isNestedTool_dump (tool : LegacyTool shared) : isNestedTool tool.model_dump = tool.is_nested := by
  cases tool with
  | nested tool => rfl
  | flat tool =>
    rw [LegacyTool.model_dump, isNestedTool, get?_function_flat]
    rfl

theorem nest_tool_dump (tool : EngineResponseToolDefinition shared) :
    nest_tool tool.model_dump = EngineToolDefinition.model_dump ⟨tool.function⟩ := by
  change JsonValue.dict [_, ("function",
    .dict (List.filter _ (("type", .string "function") :: tool.function.model_dump)))] = _
  rw [List.filter_cons_of_neg (by decide), EngineToolFunction.filter_model_dump]
  rfl

theorem canonical_responses_eq (data : JsonValue) :
    canonical_responses data = replace_tools (List.map flat_tool) data := by
  cases data with
  | dict entries =>
    refine congrArg JsonValue.dict (List.map_congr_left fun entry _ => ?_)
    obtain ⟨key, value⟩ := entry
    cases value <;> rfl
  | _ => rfl

/-- Extraction works on the canonical form of a request. -/
theorem canonical_responses_dumped (request : OpenAIResponsesRequest shared) :
    canonical_responses request.dumped = request.flattened.dumped := by
  have hflat : ∀ items : List (LegacyTool shared),
      (items.map fun tool => ⟨tool.function⟩).map EngineResponseToolDefinition.model_dump =
        (items.map LegacyTool.model_dump).map flat_tool := by
    intro items
    rw [List.map_map, List.map_map]
    exact List.map_congr_left fun tool _ => (flat_tool_dump tool).symm
  rw [canonical_responses_eq, OpenAIResponsesRequest.flattened, EngineResponsesRequest.dumped,
    ResponsesBody.model_dump_withTools _ _ _ _ hflat]
  rfl

theorem restore_envelopes_dumped (nested_tools : List Nat) (request : EngineResponsesRequest shared) :
    restore_envelopes nested_tools request.dumped = (request.enveloped nested_tools).dumped := by
  have henveloped : ∀ items : List (EngineResponseToolDefinition shared),
      (items.mapIdx fun index tool => if index ∈ nested_tools then .nested ⟨tool.function⟩ else .flat tool).map
          LegacyTool.model_dump =
        (items.map EngineResponseToolDefinition.model_dump).mapIdx fun index tool =>
          if index ∈ nested_tools then nest_tool tool else tool := by
    intro items
    apply List.ext_getElem?
    intro index
    simp only [List.getElem?_map, List.getElem?_mapIdx, Option.map_map]
    refine congrArg (fun f => Option.map f items[index]?) (funext fun tool => ?_)
    dsimp only [Function.comp_apply]
    split
    · exact (nest_tool_dump tool).symm
    · rfl
  rw [restore_envelopes, EngineResponsesRequest.enveloped, OpenAIResponsesRequest.dumped,
    ResponsesBody.model_dump_withTools _ _ _ _ henveloped]
  rfl

theorem mem_nested_tools {request : OpenAIResponsesRequest shared} {index : Nat} :
    index ∈ request.nested_tools ↔ ∃ tool, request.items[index]? = some tool ∧ tool.is_nested = true := by
  rw [OpenAIResponsesRequest.nested_tools, List.mem_filterMap]
  constructor
  · rintro ⟨⟨tool, other⟩, hentry, hnested⟩
    dsimp only at hnested
    split at hnested
    case isTrue h =>
      cases hnested
      exact ⟨tool, List.mem_zipIdx_iff_getElem?.mp hentry, h⟩
    case isFalse => cases hnested
  · rintro ⟨tool, htool, hnested⟩
    exact ⟨(tool, index), List.mem_zipIdx_iff_getElem?.mpr htool, if_pos hnested⟩

theorem enveloped_flattened (request : OpenAIResponsesRequest shared) :
    request.flattened.enveloped request.nested_tools = request := by
  refine ResponsesBody.ext rfl ?_ rfl
  change (request.tools.map _).map _ = request.tools
  cases htools : request.tools with
  | omitted => rfl
  | null => rfl
  | given items =>
    have hitems : request.items = items := by
      rw [ResponsesBody.items, htools]
      rfl
    refine congrArg FieldState.given (List.ext_getElem? fun index => ?_)
    rw [List.getElem?_mapIdx, List.getElem?_map, Option.map_map]
    cases htool : items[index]? with
    | none => rfl
    | some tool =>
      have hnested : index ∈ request.nested_tools ↔ tool.is_nested = true := by
        rw [mem_nested_tools, hitems, htool]
        simp
      refine congrArg some ?_
      dsimp only [Function.comp_apply]
      cases tool with
      | flat tool => exact if_neg fun h => by cases hnested.mp h
      | nested tool => exact if_pos (hnested.mpr rfl)

theorem nested_tools_dumped (request : OpenAIResponsesRequest shared) :
    ((JsonValue.itemsOf (request.dumped.get? "tools")).zipIdx.filterMap fun (tool, index) =>
      if isNestedTool tool then some index else none) = request.nested_tools := by
  rw [OpenAIResponsesRequest.dumped, ResponsesBody.itemsOf_tools, OpenAIResponsesRequest.nested_tools, List.zipIdx_map,
    List.filterMap_map]
  refine List.filterMap_congr fun entry _ => ?_
  simp only [Function.comp_apply, Prod.map_fst, Prod.map_snd, isNestedTool_dump, id_eq]

end envelopes

end pii_engine.request_segments
