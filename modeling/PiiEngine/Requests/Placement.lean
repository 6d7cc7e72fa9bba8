import PiiEngine.Requests.Regions

open checked collections prefixes

namespace pii_engine.request_segments

/-- Some regions stand apart in a value at a path, each below one of some parts. -/
structure Placed (value : JsonValue) (path : List PathPart) (parts : PathPart → Prop) (regions : List Region) :
    Prop where
  stands : ∀ region ∈ regions, ∃ part rest, parts part ∧ region.path = path ++ part :: rest ∧
    Reaches value (part :: rest) region.value
  apart : Antichain (regions.map Region.path)

/-- A part of a path that is one of some keys. -/
def KeyIn (keys : List String) (part : PathPart) : Prop := ∃ key ∈ keys, part = .key key

theorem Reaches.trans {value middle target : JsonValue} {path rest : List PathPart} (h : Reaches value path middle)
    (h' : Reaches middle rest target) : Reaches value (path ++ rest) target := by
  induction h with
  | here value => exact h'
  | key hitem _ ih => exact .key hitem (ih h')
  | index hitem _ ih => exact .index hitem (ih h')

namespace Placed
variable {value item : JsonValue} {path : List PathPart} {parts parts' : PathPart → Prop} {regions more : List Region}
  {key : String}

theorem nil : Placed value path parts [] := by
  refine ⟨fun region hregion => ?_, Antichain.nil⟩
  cases hregion

theorem mono (h : Placed value path parts regions) (hparts : ∀ part, parts part → parts' part) :
    Placed value path parts' regions := by
  refine ⟨fun region hregion => ?_, h.apart⟩
  obtain ⟨part, rest, hpart, hpath, hreaches⟩ := h.stands region hregion
  exact ⟨part, rest, hparts part hpart, hpath, hreaches⟩

/-- Regions below different parts stand apart. -/
theorem append (h : Placed value path parts regions) (h' : Placed value path parts' more)
    (hdisjoint : ∀ part, parts part → ¬ parts' part) :
    Placed value path (fun part => parts part ∨ parts' part) (regions ++ more) := by
  constructor
  · intro region hregion
    cases List.mem_append.mp hregion with
    | inl hfirst =>
      obtain ⟨part, rest, hpart, hrest⟩ := h.stands region hfirst
      exact ⟨part, rest, Or.inl hpart, hrest⟩
    | inr hmore =>
      obtain ⟨part, rest, hpart, hrest⟩ := h'.stands region hmore
      exact ⟨part, rest, Or.inr hpart, hrest⟩
  · rw [List.map_append]
    refine List.pairwise_append.mpr ⟨h.apart, h'.apart, ?_⟩
    intro p hp q hq
    obtain ⟨region, hregion, rfl⟩ := List.mem_map.mp hp
    obtain ⟨other, hother, rfl⟩ := List.mem_map.mp hq
    obtain ⟨part, rest, hpart, hpath, -⟩ := h.stands region hregion
    obtain ⟨part', rest', hpart', hpath', -⟩ := h'.stands other hother
    have hne : part ≠ part' := by
      rintro rfl
      exact hdisjoint part hpart hpart'
    refine apart_of_ne path hne ?_ ?_
    · rw [hpath]
      exact append_singleton_prefix path part rest
    · rw [hpath']
      exact append_singleton_prefix path part' rest'

/-- Regions of a part of a value stand below that part. -/
theorem step {part : PathPart} (hitem : Reaches value [part] item) (h : Placed item (path ++ [part]) parts regions) :
    Placed value path (· = part) regions := by
  refine ⟨fun region hregion => ?_, h.apart⟩
  obtain ⟨next, rest, -, hpath, hreaches⟩ := h.stands region hregion
  refine ⟨part, next :: rest, rfl, ?_, hitem.trans hreaches⟩
  rw [hpath, List.append_assoc]
  rfl

/-- One region at a part. -/
theorem single {part : PathPart} {reader : Reader} (hitem : Reaches value [part] item) :
    Placed value path (· = part) [⟨reader, path ++ [part], item⟩] := by
  refine ⟨fun region hregion => ?_, Antichain.singleton _⟩
  rw [List.mem_singleton] at hregion
  rw [hregion]
  exact ⟨part, [], rfl, rfl, hitem⟩

theorem field (reader : Reader) :
    Placed value path (· = .key key) (field_region reader (path ++ [.key key]) (value.get? key)) := by
  cases hvalue : value.get? key with
  | none => exact nil
  | some item => exact single (reaches_get? hvalue)

theorem text : Placed value path (· = .key key) (text_region (path ++ [.key key]) (value.get? key)) := by
  cases hvalue : value.get? key with
  | none => exact nil
  | some item =>
    cases item with
    | string text => exact single (reaches_get? hvalue)
    | _ => exact nil

/-- The regions of the items of a list stand below their positions. -/
theorem items {f : Nat → JsonValue → List Region} {list : JsonValue}
    (h : ∀ index item, ∃ parts, Placed item (path ++ [.index index]) parts (f index item)) :
    Placed list path (fun part => ∃ index, part = .index index) (item_regions (some list) f) := by
  cases list with
  | list items =>
    change Placed (.list items) path _ (items.zipIdx.flatMap fun entry => f entry.2 entry.1)
    have hone : ∀ entry ∈ items.zipIdx, Placed (.list items) path (· = .index entry.2) (f entry.2 entry.1) := by
      intro entry hentry
      obtain ⟨parts, hplaced⟩ := h entry.2 entry.1
      exact hplaced.step (.index (List.mem_zipIdx_iff_getElem?.mp hentry) (.here entry.1))
    constructor
    · intro region hregion
      obtain ⟨entry, hentry, hregion⟩ := List.mem_flatMap.mp hregion
      obtain ⟨part, rest, hpart, hrest⟩ := (hone entry hentry).stands region hregion
      exact ⟨part, rest, ⟨entry.2, hpart⟩, hrest⟩
    · rw [List.map_flatMap]
      refine antichain_flatMap path (fun entry => PathPart.index entry.2) ?_ ?_ ?_
      · have hindices : (items.zipIdx.map fun entry => PathPart.index entry.2) =
            (items.zipIdx.map Prod.snd).map .index := by
          rw [List.map_map]
          rfl
        rw [hindices, List.zipIdx_map_snd]
        exact List.Nodup.map (fun _ _ heq => PathPart.index.inj heq) List.nodup_range'
      · intro entry hentry p hp
        obtain ⟨region, hregion, rfl⟩ := List.mem_map.mp hp
        obtain ⟨part, rest, rfl, hpath, -⟩ := (hone entry hentry).stands region hregion
        rw [hpath]
        exact append_singleton_prefix path _ rest
      · intro entry hentry
        exact (hone entry hentry).apart
  | _ => exact nil

theorem items_below {f : Nat → JsonValue → List Region}
    (h : ∀ index item, ∃ parts, Placed item (path ++ [.key key] ++ [.index index]) parts (f index item)) :
    Placed value path (· = .key key) (item_regions (value.get? key) f) := by
  cases hvalue : value.get? key with
  | none => exact nil
  | some list => exact (items h).step (reaches_get? hvalue)

/-- Regions below different keys stand apart. -/
theorem append_keys {keys keys' : List String} (h : Placed value path (KeyIn keys) regions)
    (h' : Placed value path (KeyIn keys') more) (hdisjoint : ∀ key ∈ keys, key ∉ keys') :
    Placed value path (KeyIn (keys ++ keys')) (regions ++ more) := by
  refine (h.append h' ?_).mono ?_
  · rintro part ⟨key, hkey, rfl⟩ ⟨other, hother, heq⟩
    exact hdisjoint key hkey (PathPart.key.inj heq ▸ hother)
  · rintro part (⟨key, hkey, rfl⟩ | ⟨key, hkey, rfl⟩)
    · exact ⟨key, List.mem_append_left _ hkey, rfl⟩
    · exact ⟨key, List.mem_append_right _ hkey, rfl⟩

theorem at_key (h : Placed value path (· = .key key) regions) : Placed value path (KeyIn [key]) regions :=
  h.mono fun _ hpart => ⟨key, List.mem_singleton_self key, hpart⟩

/-- The regions of some keys stand apart when the keys differ. -/
theorem keys {keys : List String} {f : String → List Region} (hnodup : keys.Nodup)
    (h : ∀ key ∈ keys, Placed value path (· = .key key) (f key)) : Placed value path (KeyIn keys) (keys.flatMap f) := by
  induction keys with
  | nil => exact nil
  | cons key keys ih =>
    rw [List.nodup_cons] at hnodup
    rw [List.forall_mem_cons] at h
    refine h.1.at_key.append_keys (ih hnodup.2 h.2) fun other hother => ?_
    rw [List.mem_singleton.mp hother]
    exact hnodup.1

theorem unsigned (h : Placed value path parts regions) (signed : JsonValue) (field : String) :
    Placed value path parts (unsigned_regions signed field regions) := by
  unfold unsigned_regions
  split
  case isTrue => exact nil
  case isFalse => exact h

/-- The regions of a message content: a text, or the texts of its parts. -/
theorem content : Placed value path (· = .key key) (content_regions (value.get? key) (path ++ [.key key])) := by
  cases hvalue : value.get? key with
  | none => exact nil
  | some item =>
    cases item with
    | string text => exact single (reaches_get? hvalue)
    | list parts =>
      refine step (reaches_get? hvalue) (items (f := fun index part =>
        if isTextPart part then text_region (path ++ [.key key] ++ [.index index, .key "text"]) (part.get? "text")
          else [])
        fun index part => ⟨(· = .key "text"), ?_⟩)
      split
      case isTrue =>
        have hpath : path ++ [.key key] ++ [.index index, .key "text"] =
            path ++ [.key key] ++ [.index index] ++ [.key "text"] := by simp
        rw [hpath]
        exact text
      case isFalse => exact nil
    | _ => exact nil

theorem definition : Placed value path (KeyIn ["description", "parameters"]) (definition_regions path value) :=
  text.at_key.append_keys (field .schema).at_key (by decide)

theorem given_arguments : Placed value path (· = .key "arguments") (given_arguments_regions path value) :=
  field .arguments

/-- The arguments of a function that is itself a field. -/
theorem function_arguments : Placed value path (· = .key key) (match value.get? key with
    | some function => given_arguments_regions (path ++ [.key key]) function
    | none => []) := by
  cases hvalue : value.get? key with
  | none => exact nil
  | some function => exact given_arguments.step (reaches_get? hvalue)

theorem blocks {text_fields : List String} (hnodup : text_fields.Nodup) :
    Placed value path (· = .key key) (block_regions value path key text_fields) := by
  refine items_below fun index block => ⟨KeyIn text_fields, unsigned (keys hnodup fun field _ => ?_) block "signature"⟩
  have hpath : path ++ [.key key, .index index, .key field] =
      path ++ [.key key] ++ [.index index] ++ [.key field] := by simp
  rw [hpath]
  exact text

theorem reasoning : Placed value path (KeyIn ["reasoning", "reasoning_content", "reasoning_details", "thinking_blocks"])
    (reasoning_regions value path) := by
  have hunsigned : Placed value path (KeyIn ["reasoning", "reasoning_content"])
      (unsigned_regions value "reasoning_signature" (["reasoning", "reasoning_content"].flatMap fun key =>
        text_region (path ++ [.key key]) (value.get? key))) :=
    unsigned (keys (by decide) fun key _ => text) value "reasoning_signature"
  have hblocks : Placed value path (KeyIn ["reasoning_details", "thinking_blocks"])
      (block_regions value path "reasoning_details" ["text", "summary"] ++
        block_regions value path "thinking_blocks" ["thinking"]) :=
    (blocks (by decide)).at_key.append_keys (blocks (by decide)).at_key (by decide)
  have hboth := hunsigned.append_keys hblocks (by decide)
  rw [reasoning_regions, @List.flatMap_cons _ _ ("reasoning_details", ["text", "summary"]), List.flatMap_singleton]
  exact hboth

theorem message (index : Nat) : Placed value [.key "messages", .index index]
    (KeyIn ["content", "refusal", "reasoning", "reasoning_content", "reasoning_details", "thinking_blocks",
      "tool_calls", "function_call"]) (message_regions index value) := by
  have hcalls : Placed value [.key "messages", .index index] (· = .key "tool_calls")
      (item_regions (value.get? "tool_calls") fun call_index call =>
        match call.get? "function" with
        | some function => given_arguments_regions ([.key "messages", .index index] ++
            [.key "tool_calls", .index call_index, .key "function"]) function
        | none => []) :=
    items_below fun call_index call => ⟨_, function_arguments⟩
  exact (((content.at_key.append_keys text.at_key (by decide)).append_keys reasoning (by decide)).append_keys
    hcalls.at_key (by decide)).append_keys function_arguments.at_key (by decide)

/-- The regions of a Chat request stand apart. -/
theorem chat (data : JsonValue) :
    Placed data [] (KeyIn ["messages", "tools", "functions", "response_format"]) (chat_regions data) := by
  have hmessages : Placed data [] (· = .key "messages") (item_regions (data.get? "messages") message_regions) :=
    items_below fun index item => ⟨_, message index⟩
  have htools : Placed data [] (· = .key "tools") (item_regions (data.get? "tools") fun index tool =>
      match tool.get? "function" with
      | some function => definition_regions [.key "tools", .index index, .key "function"] function
      | none => []) := by
    refine items_below fun index tool => ⟨(· = .key "function"), ?_⟩
    cases hfunction : tool.get? "function" with
    | none => exact nil
    | some function => exact definition.step (reaches_get? hfunction)
  have hfunctions : Placed data [] (· = .key "functions") (item_regions (data.get? "functions") fun index function =>
      definition_regions [.key "functions", .index index] function) :=
    items_below fun index function => ⟨_, definition⟩
  exact ((hmessages.at_key.append_keys htools.at_key (by decide)).append_keys hfunctions.at_key (by decide)).append_keys
    (field .schema).at_key (by decide)

theorem input (index : Nat) : ∃ parts, Placed value [.key "input", .index index] parts (input_regions index value) := by
  unfold input_regions
  dsimp only
  split
  · exact ⟨_, content⟩
  · exact ⟨_, content⟩
  · exact ⟨_, given_arguments⟩
  · exact ⟨_, field .json⟩
  · refine ⟨_, keys (by decide) fun field _ => items_below fun part_index part => ⟨(· = .key "text"), ?_⟩⟩
    exact text
  · exact ⟨fun _ => False, nil⟩

/-- The regions of a Responses request stand apart: its input is a text or a list. -/
theorem responses (data : JsonValue) :
    Placed data [] (KeyIn ["instructions", "input", "tools", "text"]) (responses_regions data) := by
  have hinput : Placed data [] (· = .key "input")
      (text_region [.key "input"] (data.get? "input") ++ item_regions (data.get? "input") input_regions) := by
    cases hvalue : data.get? "input" with
    | none => exact nil
    | some value =>
      cases value with
      | string text => exact single (reaches_get? hvalue)
      | list items => exact (Placed.items fun index item => input index).step (reaches_get? hvalue)
      | _ => exact nil
  have htools : Placed data [] (· = .key "tools") (item_regions (data.get? "tools") fun index tool =>
      definition_regions [.key "tools", .index index] tool) :=
    items_below fun index tool => ⟨_, definition⟩
  have hformat : Placed data [] (· = .key "text") (field_region .schema [.key "text", .key "format"]
      ((data.get? "text").bind fun config => config.get? "format")) := by
    cases hconfig : data.get? "text" with
    | none => exact nil
    | some config =>
      have hfield : Placed config ([] ++ [.key "text"]) (· = .key "format")
          (field_region .schema ([] ++ [.key "text"] ++ [.key "format"]) (config.get? "format")) := field .schema
      exact hfield.step (reaches_get? hconfig)
  rw [responses_regions, List.append_assoc (text_region _ _) (text_region _ _)]
  exact ((text.at_key.append_keys hinput.at_key (by decide)).append_keys htools.at_key (by decide)).append_keys
    hformat.at_key (by decide)

theorem mcp (data : JsonValue) : Placed data [] (· = .key "params") (mcp_regions data) := by
  unfold mcp_regions
  cases hparams : data.get? "params" with
  | none => exact nil
  | some params =>
    have hfield : Placed params ([] ++ [.key "params"]) (· = .key "arguments")
        (field_region .json ([] ++ [.key "params"] ++ [.key "arguments"]) (params.get? "arguments")) := field .json
    exact hfield.step (reaches_get? hparams)

end Placed

/-- The fields that decide how the texts beside them are read. -/
def is_control : List PathPart → Bool
  | [.key "messages", .index _, .key "content", .index _, .key "type"] => true
  | [.key "messages", .index _, .key "content", .index _, .key "content", .index _, .key "type"] => true
  | [.key "messages", .index _, .key "reasoning_signature"] => true
  | [.key "messages", .index _, .key _, .index _, .key "signature"] => true
  | [.key "system", .index _, .key "type"] => true
  | [.key "system", .index _, .key "content", .index _, .key "type"] => true
  | [.key "input", .index _, .key "type"] => true
  | [.key "input", .index _, .key "content", .index _, .key "type"] => true
  | .key "params" :: .key "_meta" :: _ => true
  | _ => false

/-- No text of a region is a control. -/
inductive Region.Uncontrolled (region : Region) : Prop
  | text (hreader : region.reader = .text) (hcontrol : is_control region.path = false)
  | below (hcontrol : ∀ rest, is_control (region.path ++ rest) = false)

section shapes
variable {value : Option JsonValue} {path : List PathPart} {region : Region} {reader : Reader}

theorem mem_text_region (h : region ∈ text_region path value) : region.reader = .text ∧ region.path = path := by
  unfold text_region at h
  split at h
  · rw [List.mem_singleton] at h
    rw [h]
    exact ⟨rfl, rfl⟩
  · cases h

theorem mem_field_region (h : region ∈ field_region reader path value) :
    region.reader = reader ∧ region.path = path := by
  unfold field_region at h
  split at h
  · rw [List.mem_singleton] at h
    rw [h]
    exact ⟨rfl, rfl⟩
  · cases h

theorem mem_item_regions {f : Nat → JsonValue → List Region} (h : region ∈ item_regions value f) :
    ∃ index item, region ∈ f index item := by
  obtain ⟨entry, -, h⟩ := List.mem_flatMap.mp h
  exact ⟨entry.2, entry.1, h⟩

theorem mem_unsigned_regions {signed : JsonValue} {key : String} {regions : List Region}
    (h : region ∈ unsigned_regions signed key regions) : region ∈ regions := by
  unfold unsigned_regions at h
  split at h
  · cases h
  · exact h

theorem mem_content_regions (h : region ∈ content_regions value path) : region.reader = .text ∧
    (region.path = path ∨ ∃ index, region.path = path ++ [.index index, .key "text"]) := by
  cases List.mem_append.mp h with
  | inl htext =>
    obtain ⟨hreader, hpath⟩ := mem_text_region htext
    exact ⟨hreader, Or.inl hpath⟩
  | inr hpart =>
    obtain ⟨index, part, hpart⟩ := mem_item_regions hpart
    split at hpart
    · obtain ⟨hreader, hpath⟩ := mem_text_region hpart
      exact ⟨hreader, Or.inr ⟨index, hpath⟩⟩
    · cases hpart

theorem mem_definition_regions {function : JsonValue} (h : region ∈ definition_regions path function) :
    region.reader = .text ∧ region.path = path ++ [.key "description"] ∨
      region.reader = .schema ∧ region.path = path ++ [.key "parameters"] := by
  cases List.mem_append.mp h with
  | inl htext => exact Or.inl (mem_text_region htext)
  | inr hschema => exact Or.inr (mem_field_region hschema)

theorem mem_reasoning_regions {message : JsonValue} (h : region ∈ reasoning_regions message path) :
    region.reader = .text ∧ ((∃ key ∈ ["reasoning", "reasoning_content"], region.path = path ++ [.key key]) ∨
      ∃ field ∈ ["reasoning_details", "thinking_blocks"], ∃ index, ∃ key ∈ ["text", "summary", "thinking"],
        region.path = path ++ [.key field, .index index, .key key]) := by
  cases List.mem_append.mp h with
  | inl hunsigned =>
    obtain ⟨key, hkey, htext⟩ := List.mem_flatMap.mp (mem_unsigned_regions hunsigned)
    obtain ⟨hreader, hpath⟩ := mem_text_region htext
    exact ⟨hreader, Or.inl ⟨key, hkey, hpath⟩⟩
  | inr hblocks =>
    obtain ⟨entry, hentry, hblock⟩ := List.mem_flatMap.mp hblocks
    obtain ⟨index, block, hblock⟩ := mem_item_regions hblock
    obtain ⟨key, hkey, htext⟩ := List.mem_flatMap.mp (mem_unsigned_regions hblock)
    obtain ⟨hreader, hpath⟩ := mem_text_region htext
    refine ⟨hreader, Or.inr ⟨entry.1, ?_, index, key, ?_, hpath⟩⟩
    · rw [List.mem_pair] at hentry
      obtain rfl | rfl := hentry <;> simp
    · rw [List.mem_pair] at hentry
      obtain rfl | rfl := hentry
      · exact List.mem_append_left ["thinking"] hkey
      · exact List.mem_append_right ["text", "summary"] hkey

theorem mem_given_arguments {function : JsonValue} (h : region ∈ given_arguments_regions path function) :
    region.reader = .arguments ∧ region.path = path ++ [.key "arguments"] := mem_field_region h

theorem mem_function_arguments {function : Option JsonValue} (h : region ∈ (match function with
    | some function => given_arguments_regions path function
    | none => [])) : region.reader = .arguments ∧ region.path = path ++ [.key "arguments"] := by
  split at h
  · exact mem_given_arguments h
  · cases h

theorem uncontrolled_message {index : Nat} {message : JsonValue} (h : region ∈ message_regions index message) :
    region.Uncontrolled := by
  simp only [message_regions, List.mem_append, or_assoc] at h
  obtain hcontent | hrefusal | hreasoning | hcalls | hcall := h
  · obtain ⟨hreader, hpath | ⟨part, hpath⟩⟩ := mem_content_regions hcontent
    · exact .text hreader (by rw [hpath]; rfl)
    · exact .text hreader (by rw [hpath]; rfl)
  · obtain ⟨hreader, hpath⟩ := mem_text_region hrefusal
    exact .text hreader (by rw [hpath]; rfl)
  · obtain ⟨hreader, ⟨key, hkey, hpath⟩ | ⟨field, hfield, part, key, hkey, hpath⟩⟩ := mem_reasoning_regions hreasoning
    · rw [List.mem_pair] at hkey
      obtain rfl | rfl := hkey <;>
        exact .text hreader (by rw [hpath]; rfl)
    · simp only [List.mem_cons, List.not_mem_nil, or_false] at hfield hkey
      obtain rfl | rfl := hfield <;> obtain rfl | rfl | rfl := hkey <;>
        exact .text hreader (by rw [hpath]; rfl)
  · obtain ⟨call_index, call, hcall⟩ := mem_item_regions hcalls
    obtain ⟨-, hpath⟩ := mem_function_arguments hcall
    exact .below fun rest => by rw [hpath]; rfl
  · obtain ⟨-, hpath⟩ := mem_function_arguments hcall
    exact .below fun rest => by rw [hpath]; rfl

theorem uncontrolled_chat {data : JsonValue} (h : region ∈ chat_regions data) : region.Uncontrolled := by
  simp only [chat_regions, List.mem_append, or_assoc] at h
  obtain hmessage | htool | hfunction | hformat := h
  · obtain ⟨index, message, hmessage⟩ := mem_item_regions hmessage
    exact uncontrolled_message hmessage
  · obtain ⟨index, tool, htool⟩ := mem_item_regions htool
    split at htool
    · obtain ⟨hreader, hpath⟩ | ⟨-, hpath⟩ := mem_definition_regions htool
      · exact .text hreader (by rw [hpath]; rfl)
      · exact .below fun rest => by rw [hpath]; rfl
    · cases htool
  · obtain ⟨index, function, hfunction⟩ := mem_item_regions hfunction
    obtain ⟨hreader, hpath⟩ | ⟨-, hpath⟩ := mem_definition_regions hfunction
    · exact .text hreader (by rw [hpath]; rfl)
    · exact .below fun rest => by rw [hpath]; rfl
  · obtain ⟨-, hpath⟩ := mem_field_region hformat
    exact .below fun rest => by rw [hpath]; rfl

theorem uncontrolled_input {index : Nat} {item : JsonValue} (h : region ∈ input_regions index item) :
    region.Uncontrolled := by
  unfold input_regions at h
  dsimp only at h
  split at h
  case h_3 =>
    obtain ⟨-, hpath⟩ := mem_given_arguments h
    exact .below fun rest => by rw [hpath]; rfl
  case h_4 =>
    obtain ⟨-, hpath⟩ := mem_field_region h
    exact .below fun rest => by rw [hpath]; rfl
  case h_5 =>
    obtain ⟨field, hfield, h⟩ := List.mem_flatMap.mp h
    obtain ⟨part_index, part, h⟩ := mem_item_regions h
    obtain ⟨hreader, hpath⟩ := mem_text_region h
    rw [List.mem_pair] at hfield
    obtain rfl | rfl := hfield <;> exact .text hreader (by rw [hpath]; rfl)
  case h_6 => cases h
  all_goals
    obtain ⟨hreader, hpath | ⟨part, hpath⟩⟩ := mem_content_regions h
    · exact .text hreader (by rw [hpath]; rfl)
    · exact .text hreader (by rw [hpath]; rfl)

theorem uncontrolled_responses {data : JsonValue} (h : region ∈ responses_regions data) : region.Uncontrolled := by
  simp only [responses_regions, List.mem_append, or_assoc] at h
  obtain hinstructions | hinput | hitem | htool | hformat := h
  · obtain ⟨hreader, hpath⟩ := mem_text_region hinstructions
    exact .text hreader (by rw [hpath]; rfl)
  · obtain ⟨hreader, hpath⟩ := mem_text_region hinput
    exact .text hreader (by rw [hpath]; rfl)
  · obtain ⟨index, item, hitem⟩ := mem_item_regions hitem
    exact uncontrolled_input hitem
  · obtain ⟨index, tool, htool⟩ := mem_item_regions htool
    obtain ⟨hreader, hpath⟩ | ⟨-, hpath⟩ := mem_definition_regions htool
    · exact .text hreader (by rw [hpath]; rfl)
    · exact .below fun rest => by rw [hpath]; rfl
  · obtain ⟨-, hpath⟩ := mem_field_region hformat
    exact .below fun rest => by rw [hpath]; rfl

theorem uncontrolled_mcp {data : JsonValue} (h : region ∈ mcp_regions data) : region.Uncontrolled := by
  obtain ⟨-, hpath⟩ := mem_field_region h
  exact .below fun rest => by rw [hpath]; rfl

end shapes

end pii_engine.request_segments
