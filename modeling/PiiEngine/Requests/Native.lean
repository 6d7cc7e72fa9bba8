import PiiEngine.Requests.Reread

open checked collections prefixes

namespace pii_engine.request_segments

/-- The type of a native block. -/
def block_type (block : JsonValue) : Option String :=
  match block.get? "type" with
  | some (.string type) => some type
  | _ => none

/-- The text of a tool result, or its text blocks. -/
def anthropic_texts (value : Option JsonValue) (path : List PathPart) : List Region :=
  text_region path value ++ item_regions value fun index block =>
    if block_type block = some "text" then text_region (path ++ [.index index] ++ [.key "text"]) (block.get? "text")
      else []

/-- A native block: a text, a tool call with its input, or a tool result. -/
def anthropic_block (path : List PathPart) (block : JsonValue) : List Region :=
  match block_type block with
  | some "text" => text_region (path ++ [.key "text"]) (block.get? "text")
  | some "tool_use" => field_region .json (path ++ [.key "input"]) (block.get? "input")
  | _ => anthropic_texts (block.get? "content") (path ++ [.key "content"])

def anthropic_content (value : Option JsonValue) (path : List PathPart) : List Region :=
  text_region path value ++ item_regions value fun index block => anthropic_block (path ++ [.index index]) block

def anthropic_tool (path : List PathPart) (tool : JsonValue) : List Region :=
  text_region (path ++ [.key "description"]) (tool.get? "description") ++
    field_region .schema (path ++ [.key "input_schema"]) (tool.get? "input_schema")

def anthropic_regions (data : JsonValue) : List Region :=
  anthropic_content (data.get? "system") [.key "system"] ++
    item_regions (data.get? "messages") (fun index message =>
      anthropic_content (message.get? "content") ([.key "messages", .index index] ++ [.key "content"])) ++
    item_regions (data.get? "tools") fun index tool => anthropic_tool [.key "tools", .index index] tool

/-- The regions of an object, none where there is no object. -/
def object_regions (value : Option JsonValue) (f : JsonValue → List Region) : List Region := value.elim [] f

/-- A native part: a text, or the payload of a function call or response. -/
def google_part (path : List PathPart) (part : JsonValue) : List Region :=
  text_region (path ++ [.key "text"]) (part.get? "text") ++
    [("functionCall", "args"), ("functionResponse", "response")].flatMap fun (field, payload) =>
      object_regions (part.get? field) fun value =>
        field_region .json (path ++ [.key field] ++ [.key payload]) (value.get? payload)

def google_content (path : List PathPart) (content : JsonValue) : List Region :=
  item_regions (content.get? "parts") fun index part => google_part (path ++ [.key "parts"] ++ [.index index]) part

def google_function (path : List PathPart) (function : JsonValue) : List Region :=
  definition_regions path function ++ field_region .schema (path ++ [.key "response"]) (function.get? "response")

def google_regions (data : JsonValue) : List Region :=
  item_regions (data.get? "contents") (fun index content => google_content [.key "contents", .index index] content) ++
    object_regions (data.get? "systemInstruction") (google_content [.key "systemInstruction"]) ++
    item_regions (data.get? "tools")
      (fun index tools => item_regions (tools.get? "functionDeclarations") fun fi function =>
      google_function ([.key "tools", .index index] ++ [.key "functionDeclarations"] ++ [.index fi]) function) ++
    object_regions (data.get? "generationConfig") fun config =>
      ["responseSchema", "responseJsonSchema"].flatMap fun field =>
      field_region .schema ([.key "generationConfig"] ++ [.key field]) (config.get? field)

namespace Placed
variable {value item : JsonValue} {path : List PathPart} {parts : PathPart → Prop} {regions : List Region}
  {key : String}

/-- The regions of a text or of the blocks of a list. -/
theorem text_or_items {f : Nat → JsonValue → List Region}
    (h : ∀ index item, ∃ parts, Placed item (path ++ [.key key] ++ [.index index]) parts (f index item)) :
    Placed value path (· = .key key)
      (text_region (path ++ [.key key]) (value.get? key) ++ item_regions (value.get? key) f) := by
  cases hvalue : value.get? key with
  | none => exact nil
  | some item =>
    cases item with
    | string text => exact single (reaches_get? hvalue)
    | list blocks => exact (items h).step (reaches_get? hvalue)
    | _ => exact nil

theorem anthropic_texts : Placed value path (· = .key key) (anthropic_texts (value.get? key) (path ++ [.key key])) := by
  refine text_or_items fun index block => ⟨(· = .key "text"), ?_⟩
  split
  · exact text
  · exact nil

theorem anthropic_block : ∃ parts, Placed value path parts (anthropic_block path value) := by
  unfold request_segments.anthropic_block
  split
  · exact ⟨_, text⟩
  · exact ⟨_, field .json⟩
  · exact ⟨_, anthropic_texts⟩

theorem anthropic_content :
    Placed value path (· = .key key) (anthropic_content (value.get? key) (path ++ [.key key])) :=
  text_or_items fun _ _ => anthropic_block

/-- The regions of an Anthropic request stand apart. -/
theorem anthropic (data : JsonValue) :
    Placed data [] (KeyIn ["system", "messages", "tools"]) (anthropic_regions data) := by
  have hsystem :
      Placed data [] (· = .key "system") (request_segments.anthropic_content (data.get? "system") [.key "system"]) :=
    anthropic_content
  have hmessages : Placed data [] (· = .key "messages") (item_regions (data.get? "messages") fun index message =>
      request_segments.anthropic_content (message.get? "content")
        ([.key "messages", .index index] ++ [.key "content"])) :=
    items_below fun _ _ => ⟨_, anthropic_content⟩
  have htools : Placed data [] (· = .key "tools") (item_regions (data.get? "tools") fun index tool =>
      anthropic_tool [.key "tools", .index index] tool) :=
    items_below fun _ _ => ⟨_, text.at_key.append_keys (field .schema).at_key (by decide)⟩
  exact (hsystem.at_key.append_keys hmessages.at_key (by decide)).append_keys htools.at_key (by decide)

theorem object {f : JsonValue → List Region} (h : ∀ item, ∃ parts, Placed item (path ++ [.key key]) parts (f item)) :
    Placed value path (· = .key key) (object_regions (value.get? key) f) := by
  cases hvalue : value.get? key with
  | none => exact nil
  | some item =>
    obtain ⟨parts, hplaced⟩ := h item
    exact hplaced.step (reaches_get? hvalue)

theorem google_part :
    Placed value path (KeyIn ["text", "functionCall", "functionResponse"]) (google_part path value) := by
  refine text.at_key.append_keys ?_ (by decide)
  rw [List.flatMap_cons, List.flatMap_singleton]
  have hobject (field payload : String) :
      Placed value path (· = .key field) (object_regions (value.get? field) fun item =>
      field_region .json (path ++ [.key field] ++ [.key payload]) (item.get? payload)) :=
    object fun item => ⟨_, Placed.field .json⟩
  exact (hobject "functionCall" "args").at_key.append_keys (hobject "functionResponse" "response").at_key (by decide)

theorem google_content : Placed value path (· = .key "parts") (google_content path value) :=
  items_below fun _ _ => ⟨_, google_part⟩

/-- The regions of a Google request stand apart. -/
theorem google (data : JsonValue) :
    Placed data [] (KeyIn ["contents", "systemInstruction", "tools", "generationConfig"]) (google_regions data) := by
  have hcontents : Placed data [] (· = .key "contents") (item_regions (data.get? "contents") fun index content =>
      request_segments.google_content [.key "contents", .index index] content) :=
    items_below fun _ _ => ⟨_, google_content⟩
  have hsystem : Placed data [] (· = .key "systemInstruction")
      (object_regions (data.get? "systemInstruction") (request_segments.google_content [.key "systemInstruction"])) :=
    object fun _ => ⟨_, google_content⟩
  have htools : Placed data [] (· = .key "tools") (item_regions (data.get? "tools") fun index tools =>
      item_regions (tools.get? "functionDeclarations") fun fi function =>
        google_function ([.key "tools", .index index] ++ [.key "functionDeclarations"] ++ [.index fi]) function) :=
    items_below fun _ _ => ⟨_, items_below fun _ _ =>
      ⟨_, definition.append_keys (field .schema).at_key (by decide)⟩⟩
  have hconfig :
      Placed data [] (· = .key "generationConfig") (object_regions (data.get? "generationConfig") fun config =>
      ["responseSchema", "responseJsonSchema"].flatMap fun field =>
        field_region .schema ([.key "generationConfig"] ++ [.key field]) (config.get? field)) :=
    object fun _ => ⟨_, keys (by decide) fun _ _ => field .schema⟩
  exact ((hcontents.at_key.append_keys hsystem.at_key (by decide)).append_keys htools.at_key (by decide)).append_keys
    hconfig.at_key (by decide)

end Placed

section shapes
variable {value : Option JsonValue} {path : List PathPart} {region : Region}

theorem mem_anthropic_texts (h : region ∈ anthropic_texts value path) : region.reader = .text ∧
    (region.path = path ∨ ∃ index, region.path = path ++ [.index index] ++ [.key "text"]) := by
  cases List.mem_append.mp h with
  | inl htext =>
    obtain ⟨hreader, hpath⟩ := mem_text_region htext
    exact ⟨hreader, Or.inl hpath⟩
  | inr hblock =>
    obtain ⟨index, block, hblock⟩ := mem_item_regions hblock
    split at hblock
    · obtain ⟨hreader, hpath⟩ := mem_text_region hblock
      exact ⟨hreader, Or.inr ⟨index, hpath⟩⟩
    · cases hblock

/-- The texts of an Anthropic content, and the inputs of its tool calls. -/
theorem mem_anthropic_content (h : region ∈ anthropic_content value path) :
    (region.reader = .text ∧ (region.path = path ∨ ∃ index, region.path = path ++ [.index index] ++ [.key "text"] ∨
      region.path = path ++ [.index index] ++ [.key "content"] ∨
      ∃ part, region.path = path ++ [.index index] ++ [.key "content"] ++ [.index part] ++ [.key "text"])) ∨
    ∃ index, region.path = path ++ [.index index] ++ [.key "input"] := by
  cases List.mem_append.mp h with
  | inl htext =>
    obtain ⟨hreader, hpath⟩ := mem_text_region htext
    exact Or.inl ⟨hreader, Or.inl hpath⟩
  | inr hblock =>
    obtain ⟨index, block, hblock⟩ := mem_item_regions hblock
    unfold anthropic_block at hblock
    split at hblock
    · obtain ⟨hreader, hpath⟩ := mem_text_region hblock
      exact Or.inl ⟨hreader, Or.inr ⟨index, Or.inl hpath⟩⟩
    · exact Or.inr ⟨index, (mem_field_region hblock).2⟩
    · obtain ⟨hreader, hpath | ⟨part, hpath⟩⟩ := mem_anthropic_texts hblock
      · exact Or.inl ⟨hreader, Or.inr ⟨index, Or.inr (Or.inl hpath)⟩⟩
      · exact Or.inl ⟨hreader, Or.inr ⟨index, Or.inr (Or.inr ⟨part, hpath⟩)⟩⟩

theorem uncontrolled_anthropic {data : JsonValue} (h : region ∈ anthropic_regions data) : region.Uncontrolled := by
  simp only [anthropic_regions, List.mem_append, or_assoc] at h
  obtain hsystem | hmessage | htool := h
  · obtain ⟨hreader, hpath | ⟨index, hpath | hpath | ⟨part, hpath⟩⟩⟩ | ⟨index, hpath⟩ := mem_anthropic_content hsystem
    · exact .text hreader (by rw [hpath]; rfl)
    · exact .text hreader (by rw [hpath]; rfl)
    · exact .text hreader (by rw [hpath]; rfl)
    · exact .text hreader (by rw [hpath]; rfl)
    · exact .below fun rest => by rw [hpath]; simp [is_control]
  · obtain ⟨index, message, hmessage⟩ := mem_item_regions hmessage
    obtain ⟨hreader, hpath | ⟨block, hpath | hpath | ⟨part, hpath⟩⟩⟩ | ⟨block, hpath⟩ := mem_anthropic_content hmessage
    · exact .text hreader (by rw [hpath]; rfl)
    · exact .text hreader (by rw [hpath]; rfl)
    · exact .text hreader (by rw [hpath]; rfl)
    · exact .text hreader (by rw [hpath]; rfl)
    · exact .below fun rest => by rw [hpath]; simp [is_control]
  · obtain ⟨index, tool, htool⟩ := mem_item_regions htool
    cases List.mem_append.mp htool with
    | inl htext =>
      obtain ⟨hreader, hpath⟩ := mem_text_region htext
      exact .text hreader (by rw [hpath]; rfl)
    | inr hschema =>
      obtain ⟨-, hpath⟩ := mem_field_region hschema
      exact .below fun rest => by rw [hpath]; rfl

theorem uncontrolled_google {data : JsonValue} (h : region ∈ google_regions data) : region.Uncontrolled := by
  have hkey : ∃ key ∈ ["contents", "systemInstruction", "tools", "generationConfig"],
      ∃ rest, region.path = .key key :: rest := by
    obtain ⟨part, rest, ⟨key, hkey, rfl⟩, hpath, -⟩ := (Placed.google data).stands region h
    exact ⟨key, hkey, rest, hpath⟩
  obtain ⟨key, hkey, rest, hpath⟩ := hkey
  simp only [List.mem_cons, List.not_mem_nil, or_false] at hkey
  refine .below fun more => ?_
  rw [hpath]
  obtain rfl | rfl | rfl | rfl := hkey <;> simp [is_control]

end shapes

section overwritten
variable {writes : Writes} {path : List PathPart} {value : Option JsonValue}

theorem block_type_overwrite {block : JsonValue} (hnone : writes (path ++ [.key "type"]) = none) :
    block_type (overwrite writes path block) = block_type block := by
  unfold block_type
  rw [get?_overwrite]
  cases block.get? "type" with
  | none => rfl
  | some kind =>
    cases kind with
    | string text =>
      rw [Option.map_some, overwrite, hnone]
      rfl
    | list items => rw [Option.map_some, overwrite_list]
    | dict entries => rw [Option.map_some, overwrite]
    | _ => rfl

theorem anthropic_texts_overwrite (hspares : Spares writes)
    (hcontrol : ∀ index, writes (path ++ [.index index] ++ [.key "type"]) = none) :
    anthropic_texts (value.map (overwrite writes path)) path =
      (anthropic_texts value path).map (Region.overwritten writes) := by
  rw [anthropic_texts, anthropic_texts, List.map_append, text_region_overwrite hspares]
  refine congrArg (_ ++ ·) (item_regions_overwrite fun index block => ?_)
  rw [block_type_overwrite (hcontrol index), get?_overwrite]
  split
  · exact text_region_overwrite hspares
  · rfl

theorem anthropic_block_overwrite (hspares : Spares writes) (block : JsonValue)
    (htype : writes (path ++ [.key "type"]) = none)
    (hcontrol : ∀ index, writes (path ++ [.key "content"] ++ [.index index] ++ [.key "type"]) = none) :
    anthropic_block path (overwrite writes path block) =
      (anthropic_block path block).map (Region.overwritten writes) := by
  unfold anthropic_block
  rw [block_type_overwrite htype]
  simp only [get?_overwrite]
  split
  · exact text_region_overwrite hspares
  · exact field_region_overwrite .json
  · exact anthropic_texts_overwrite hspares hcontrol

theorem anthropic_content_overwrite (hspares : Spares writes)
    (htype : ∀ index, writes (path ++ [.index index] ++ [.key "type"]) = none)
    (hcontrol : ∀ index part, writes (path ++ [.index index] ++ [.key "content"] ++ [.index part] ++ [.key "type"]) =
      none) :
    anthropic_content (value.map (overwrite writes path)) path =
      (anthropic_content value path).map (Region.overwritten writes) := by
  rw [anthropic_content, anthropic_content, List.map_append, text_region_overwrite hspares]
  exact congrArg (_ ++ ·) (item_regions_overwrite fun index block =>
    anthropic_block_overwrite hspares block (htype index) (hcontrol index))

theorem anthropic_tool_overwrite (hspares : Spares writes) (tool : JsonValue) :
    anthropic_tool path (overwrite writes path tool) = (anthropic_tool path tool).map (Region.overwritten writes) := by
  rw [anthropic_tool, anthropic_tool, get?_overwrite, get?_overwrite, List.map_append, text_region_overwrite hspares,
    field_region_overwrite]

/-- The regions of an Anthropic request stay where they are when its texts are written over. -/
theorem anthropic_regions_overwrite (hspares : Spares writes) (data : JsonValue) :
    anthropic_regions (overwrite writes [] data) = (anthropic_regions data).map (Region.overwritten writes) := by
  simp only [anthropic_regions, List.map_append, get?_overwrite, List.nil_append]
  rw [anthropic_content_overwrite hspares (fun index => hspares.controls _ rfl) fun index part => ?_]
  · refine congrArg₂ _ (congrArg _ (item_regions_overwrite fun index message => ?_))
      (item_regions_overwrite fun index tool => ?_)
    · rw [get?_overwrite]
      exact anthropic_content_overwrite hspares (fun index => hspares.controls _ rfl)
        fun index part => hspares.controls _ rfl
    · exact anthropic_tool_overwrite hspares tool
  · exact hspares.controls _ rfl

theorem object_regions_overwrite {f : JsonValue → List Region}
    (h : ∀ item, f (overwrite writes path item) = (f item).map (Region.overwritten writes)) :
    object_regions (value.map (overwrite writes path)) f =
      (object_regions value f).map (Region.overwritten writes) := by
  cases value with
  | none => rfl
  | some item => exact h item

theorem google_content_overwrite (hspares : Spares writes) (content : JsonValue) :
    google_content path (overwrite writes path content) =
      (google_content path content).map (Region.overwritten writes) := by
  rw [google_content, google_content, get?_overwrite]
  refine item_regions_overwrite fun index part => ?_
  rw [google_part, google_part, List.map_append, get?_overwrite, text_region_overwrite hspares]
  refine congrArg (_ ++ ·) (flatMap_overwrite fun entry => ?_)
  dsimp only
  rw [get?_overwrite]
  refine object_regions_overwrite fun item => ?_
  rw [get?_overwrite]
  exact field_region_overwrite .json

theorem google_function_overwrite (hspares : Spares writes) (function : JsonValue) :
    google_function path (overwrite writes path function) =
      (google_function path function).map (Region.overwritten writes) := by
  rw [google_function, google_function, List.map_append, get?_overwrite, field_region_overwrite,
    definition_regions_overwrite hspares]

/-- The regions of a Google request stay where they are when its texts are written over. -/
theorem google_regions_overwrite (hspares : Spares writes) (data : JsonValue) :
    google_regions (overwrite writes [] data) = (google_regions data).map (Region.overwritten writes) := by
  simp only [google_regions, List.map_append, get?_overwrite, List.nil_append]
  refine congrArg₂ _ (congrArg₂ _ (congrArg₂ _ ?_ ?_) ?_) ?_
  · exact item_regions_overwrite fun index content => google_content_overwrite hspares content
  · exact object_regions_overwrite fun content => google_content_overwrite hspares content
  · refine item_regions_overwrite fun index tools => ?_
    rw [get?_overwrite]
    refine item_regions_overwrite fun fi function => ?_
    exact google_function_overwrite hspares function
  · refine object_regions_overwrite fun config => flatMap_overwrite fun field => ?_
    rw [get?_overwrite]
    exact field_region_overwrite .schema

end overwritten

end pii_engine.request_segments
