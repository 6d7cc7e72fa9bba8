import PiiEngine.Requests.Boundary

open checked collections prefixes

namespace pii_engine.request_segments

/-- The longest text that a request model admits at a path. -/
def max_length : ProtocolKind → List PathPart → Option Nat
  | .chat, [.key "tools", .index _, .key "function", .key "description"] => some 20000
  | .chat, [.key "functions", .index _, .key "description"] => some 20000
  | .chat, [.key "response_format", .key "json_schema", .key "description"] => some 4000
  | .responses, [.key "tools", .index _, .key "description"] => some 20000
  | .responses, [.key "text", .key "format", .key "description"] => some 4000
  | _, _ => none

/-- Whether every text of a request keeps to the bound of its field. -/
def lengths_ok (kind : ProtocolKind) (data : JsonValue) : Bool :=
  (strings [] data).all fun leaf => (max_length kind leaf.path).all fun maximum => leaf.text.length ≤ maximum

def isAssistant (message : JsonValue) : Bool :=
  match message.get? "role" with
  | some (.string "assistant") => true
  | _ => false

/-- `value is not None` -/
def isGiven : Option JsonValue → Bool
  | none | some .null => false
  | some _ => true

/-- The calls and the immutable reasoning of a message. -/
def FIXED_CONTENT : List String :=
  ["tool_calls", "function_call", "reasoning_signature", "reasoning_details", "thinking_blocks"]

/-- The texts of a message beside its content. -/
def TEXT_CONTENT : List String := ["refusal", "reasoning", "reasoning_content"]

/-- A text field that is set to a text. -/
def has_text : Option JsonValue → Bool
  | some (.string text) => text ≠ ""
  | _ => false

/-- Whether a message depends on its texts for having any content. -/
def needs_text (message : JsonValue) : Bool :=
  isAssistant message && !isGiven (message.get? "content") &&
    !FIXED_CONTENT.any fun key => JsonValue.truthy (message.get? key)

/-- Assistant messages require content or tool calls. -/
def content_ok (message : JsonValue) : Bool :=
  !needs_text message || TEXT_CONTENT.any fun key => has_text (message.get? key)

/-- The checks of the request models that read texts. -/
def texts_ok (kind : ProtocolKind) (data : JsonValue) : Bool :=
  lengths_ok kind data && (kind ≠ .chat || (JsonValue.itemsOf (data.get? "messages")).all content_ok)

/-- The checks of the request models: others and those of the texts. -/
def BoundaryChecks.with_texts (others : BoundaryChecks) : BoundaryChecks where
  fields entries := others.fields entries && texts_ok .responses (.dict entries)
  parameters := others.parameters
  valid kind data := others.valid kind data && texts_ok kind.protocol_kind data

/-- The fields of a Responses request other than its tools. -/
def other_fields : JsonValue → List (String × JsonValue)
  | .dict entries => entries.filter (·.1 ≠ "tools")
  | _ => []

/-- Checks that read none of the texts that are extracted. -/
structure TextBlind (loads : Loads) (max_depth : Nat) (others : BoundaryChecks) : Prop where
  valid : ∀ {kind : CanonicalKind} {data rebuilt : JsonValue} {extraction : CanonicalExtraction},
    extract_request loads max_depth kind.protocol_kind data = .ok extraction →
    DiffersOnlyAt (extraction.leaves.map fun leaf => leaf.path) data rebuilt →
    others.valid kind rebuilt = others.valid kind data
  fields : ∀ {data rebuilt : JsonValue} {extraction : CanonicalExtraction},
    extract_request loads max_depth .responses data = .ok extraction →
    DiffersOnlyAt (extraction.leaves.map fun leaf => leaf.path) data rebuilt →
    others.fields (other_fields rebuilt) = others.fields (other_fields data)
  parameters : ∀ {writes : Writes}, writes.OnlyTexts → ∀ path entries,
    others.parameters (overwrite_entries writes path entries) = others.parameters entries

/-- The new texts of a request fit its models: none is too long for its field, and a message that
    depends on its texts keeps one that is not empty. -/
structure TextsFit (kind : ProtocolKind) (data : JsonValue) (leaves : List Leaf) (texts : List Text) : Prop where
  lengths : ∀ entry ∈ leaves.zip texts, ∀ maximum ∈ max_length kind entry.1.path, entry.2.length ≤ maximum
  contents : kind = .chat → ∀ entry ∈ (JsonValue.itemsOf (data.get? "messages")).zipIdx, needs_text entry.1 = true →
    ∃ key ∈ TEXT_CONTENT, ∃ text ∈ leaves.zip texts,
      text.1.path = [.key "messages", .index entry.2, .key key] ∧ text.2 ≠ []

section shapes
variable {region : Region} {root path : List PathPart} {data : JsonValue}

/-- The way to a text of a message. -/
theorem message_region_path {index : Nat} {message : JsonValue} (h : region ∈ message_regions index message) :
    ∃ key rest, region.path = [.key "messages", .index index, .key key] ++ rest ∧
      (key ∈ "content" :: TEXT_CONTENT ∨ rest ≠ []) ∧ (region.reader = .arguments → .key "arguments" ∈ rest) := by
  simp only [message_regions, List.mem_append, or_assoc] at h
  obtain hcontent | hrefusal | hreasoning | hcalls | hcall := h
  · obtain ⟨hreader, hpath | ⟨part, hpath⟩⟩ := mem_content_regions hcontent
    · exact ⟨"content", [], hpath, Or.inl (by decide), fun h => absurd (hreader.symm.trans h) (by decide)⟩
    · exact ⟨"content", _, hpath, Or.inl (by decide), fun h => absurd (hreader.symm.trans h) (by decide)⟩
  · obtain ⟨hreader, hpath⟩ := mem_text_region hrefusal
    exact ⟨"refusal", [], hpath, Or.inl (by decide), fun h => absurd (hreader.symm.trans h) (by decide)⟩
  · obtain ⟨hreader, ⟨key, hkey, hpath⟩ | ⟨field, -, part, key, -, hpath⟩⟩ := mem_reasoning_regions hreasoning
    · refine ⟨key, [], hpath, Or.inl ?_, fun h => absurd (hreader.symm.trans h) (by decide)⟩
      exact List.mem_cons_of_mem _ (List.mem_cons_of_mem _ hkey)
    · exact ⟨field, [.index part, .key key], hpath, Or.inr (by simp),
        fun h => absurd (hreader.symm.trans h) (by decide)⟩
  · obtain ⟨call_index, call, hcall⟩ := mem_item_regions hcalls
    obtain ⟨-, hpath⟩ := mem_function_arguments hcall
    exact ⟨"tool_calls", _, hpath, Or.inr (by simp), fun _ => by simp⟩
  · obtain ⟨-, hpath⟩ := mem_function_arguments hcall
    exact ⟨"function_call", _, hpath, Or.inr (by simp), fun _ => by simp⟩

/-- The ways to the texts of a Chat request: below a message, or elsewhere and not encoded. -/
theorem chat_region_path (h : region ∈ chat_regions data) :
    (∃ index key rest, region.path = [.key "messages", .index index, .key key] ++ rest ∧
      (key ∈ "content" :: TEXT_CONTENT ∨ rest ≠ []) ∧ (region.reader = .arguments → .key "arguments" ∈ rest)) ∨
    (∃ first rest, region.path = .key first :: rest ∧ first ≠ "messages" ∧ region.reader ≠ .arguments) := by
  simp only [chat_regions, List.mem_append, or_assoc] at h
  obtain hmessage | htool | hfunction | hformat := h
  · obtain ⟨index, message, hmessage⟩ := mem_item_regions hmessage
    exact Or.inl ⟨index, message_region_path hmessage⟩
  · obtain ⟨index, tool, htool⟩ := mem_item_regions htool
    split at htool
    · obtain ⟨hreader, hpath⟩ | ⟨hreader, hpath⟩ := mem_definition_regions htool
      · exact Or.inr ⟨"tools", _, hpath, by decide, by rw [hreader]; decide⟩
      · exact Or.inr ⟨"tools", _, hpath, by decide, by rw [hreader]; decide⟩
    · cases htool
  · obtain ⟨index, function, hfunction⟩ := mem_item_regions hfunction
    obtain ⟨hreader, hpath⟩ | ⟨hreader, hpath⟩ := mem_definition_regions hfunction
    · exact Or.inr ⟨"functions", _, hpath, by decide, by rw [hreader]; decide⟩
    · exact Or.inr ⟨"functions", _, hpath, by decide, by rw [hreader]; decide⟩
  · obtain ⟨hreader, hpath⟩ := mem_field_region hformat
    exact Or.inr ⟨"response_format", [], hpath, by decide, by rw [hreader]; decide⟩

theorem input_region_path {index : Nat} {item : JsonValue} (h : region ∈ input_regions index item) :
    ∃ rest, region.path = .key "input" :: rest ∧ (region.reader = .arguments → .key "arguments" ∈ rest) := by
  unfold input_regions at h
  dsimp only at h
  split at h
  case h_3 =>
    obtain ⟨-, hpath⟩ := mem_given_arguments h
    exact ⟨_, hpath, fun _ => by simp⟩
  case h_4 =>
    obtain ⟨hreader, hpath⟩ := mem_field_region h
    exact ⟨_, hpath, fun h => absurd (hreader.symm.trans h) (by decide)⟩
  case h_5 =>
    obtain ⟨field, hfield, h⟩ := List.mem_flatMap.mp h
    obtain ⟨part_index, part, h⟩ := mem_item_regions h
    obtain ⟨hreader, hpath⟩ := mem_text_region h
    exact ⟨_, hpath, fun h => absurd (hreader.symm.trans h) (by decide)⟩
  case h_6 => cases h
  all_goals
    obtain ⟨hreader, hpath | ⟨part, hpath⟩⟩ := mem_content_regions h
    · exact ⟨_, hpath, fun h => absurd (hreader.symm.trans h) (by decide)⟩
    · exact ⟨_, hpath, fun h => absurd (hreader.symm.trans h) (by decide)⟩

/-- The ways to the texts of a Responses request: below a tool and not encoded, or elsewhere. -/
theorem responses_region_path (h : region ∈ responses_regions data) :
    (∃ index key rest, region.path = [.key "tools", .index index, .key key] ++ rest ∧
      key ∈ ["description", "parameters"] ∧ region.reader ≠ .arguments) ∨
    (∃ first rest, region.path = .key first :: rest ∧ first ≠ "tools" ∧
      (region.reader = .arguments → .key "arguments" ∈ rest)) := by
  simp only [responses_regions, List.mem_append, or_assoc] at h
  obtain hinstructions | hinput | hitem | htool | hformat := h
  · obtain ⟨hreader, hpath⟩ := mem_text_region hinstructions
    exact Or.inr ⟨"instructions", [], hpath, by decide, fun h => absurd (hreader.symm.trans h) (by decide)⟩
  · obtain ⟨hreader, hpath⟩ := mem_text_region hinput
    exact Or.inr ⟨"input", [], hpath, by decide, fun h => absurd (hreader.symm.trans h) (by decide)⟩
  · obtain ⟨index, item, hitem⟩ := mem_item_regions hitem
    obtain ⟨rest, hpath, harguments⟩ := input_region_path hitem
    exact Or.inr ⟨"input", rest, hpath, by decide, harguments⟩
  · obtain ⟨index, tool, htool⟩ := mem_item_regions htool
    obtain ⟨hreader, hpath⟩ | ⟨hreader, hpath⟩ := mem_definition_regions htool
    · exact Or.inl ⟨index, "description", [], hpath, by decide, by rw [hreader]; decide⟩
    · exact Or.inl ⟨index, "parameters", [], hpath, by decide, by rw [hreader]; decide⟩
  · obtain ⟨hreader, hpath⟩ := mem_field_region hformat
    exact Or.inr ⟨"text", _, hpath, by decide, fun h => absurd (hreader.symm.trans h) (by decide)⟩

theorem arguments_of_root (h : region.json_root = some root) : root = region.path ∧ region.reader = .arguments := by
  unfold Region.json_root at h
  split at h
  case h_1 hreader _ => exact ⟨(Option.some.inj h).symm, hreader⟩
  case h_2 => cases h

/-- No bounded text is an encoded document, or in one. -/
theorem max_length_arguments {kind : ProtocolKind} (h : .key "arguments" ∈ path) : max_length kind path = none := by
  unfold max_length
  split <;> first | rfl | simp at h

end shapes

section placed
variable {loads : Loads} {max_depth : Nat} {kind : ProtocolKind} {data : JsonValue} {extraction : CanonicalExtraction}
  {leaf : RootedLeaf}

/-- What is extracted stands where its paths say. -/
theorem sound_of_extract (hloads : ∀ text value, loads text = some value → Distinct value) (hdistinct : Distinct data)
    (h : extract_request loads max_depth kind data = .ok extraction) :
    Sound loads max_depth data extraction.leaves := by
  obtain ⟨_, -, h⟩ := bind_eq_ok.mp h
  obtain ⟨groups, hgroups, h⟩ := bind_eq_ok.mp h
  cases h
  obtain ⟨hleaves, hread⟩ := regions_leaves_eq_ok hgroups
  obtain ⟨parts, hplaced⟩ := placed_regions kind data
  exact hleaves ▸ sound_regions hloads hdistinct hplaced hread

theorem region_of_leaf (h : extract_request loads max_depth kind data = .ok extraction)
    (hleaf : leaf ∈ extraction.leaves) :
    ∃ region ∈ regions kind data, leaf.json_root = region.json_root ∧ region.path <+: leaf.path := by
  obtain ⟨_, -, h⟩ := bind_eq_ok.mp h
  obtain ⟨groups, hgroups, h⟩ := bind_eq_ok.mp h
  cases h
  obtain ⟨hleaves, hread⟩ := regions_leaves_eq_ok hgroups
  dsimp only at hleaf
  rw [hleaves] at hleaf
  obtain ⟨region, hregion, hleaf⟩ := List.mem_flatMap.mp hleaf
  obtain ⟨hroot, -, rest, -, hpath, -⟩ := mem_region_leaves (hread region hregion) hleaf
  exact ⟨region, hregion, hroot, rest, hpath.symm⟩

/-- The text of a region that is one is extracted. -/
theorem leaf_of_text_region (h : extract_request loads max_depth kind data = .ok extraction) {path : List PathPart}
    {text : String} (hregion : ⟨.text, path, .string text⟩ ∈ regions kind data) :
    ⟨⟨path, text.toList⟩, none⟩ ∈ extraction.leaves := by
  obtain ⟨_, -, h⟩ := bind_eq_ok.mp h
  obtain ⟨groups, hgroups, h⟩ := bind_eq_ok.mp h
  cases h
  obtain ⟨hleaves, -⟩ := regions_leaves_eq_ok hgroups
  dsimp only
  rw [hleaves]
  exact List.mem_flatMap.mpr ⟨_, hregion, List.mem_singleton_self _⟩

end placed

/-- Writes that put new texts in the places of those that were extracted. -/
structure Retexts (loads : Loads) (max_depth : Nat) (kind : ProtocolKind) (data : JsonValue)
    (extraction : CanonicalExtraction) (texts : List Text) (writes : Writes) : Prop where
  spares : Spares writes
  extracted : extract_request loads max_depth kind (overwrite writes [] data) =
    .ok (extraction.with_texts (overwrite writes [] data) texts)
  placed : ∀ path, writes path ≠ none → (∃ leaf ∈ extraction.leaves, leaf.json_root = none ∧ leaf.path = path) ∨
    ∃ leaf ∈ extraction.leaves, leaf.json_root = some path

/-- The bounds are those of all texts that stand in the request. -/
theorem StringAt.lengths_ok_iff {kind : ProtocolKind} {data : JsonValue} : lengths_ok kind data = true ↔
    ∀ path text, StringAt data path text → ∀ maximum ∈ max_length kind path, text.length ≤ maximum := by
  rw [lengths_ok, List.all_eq_true]
  constructor
  · intro hok path text hstands maximum hmaximum
    have hleaf := hok ⟨path, text⟩ (mem_strings.mpr ⟨path, rfl, hstands⟩)
    rw [Option.all_eq_true] at hleaf
    simpa using hleaf maximum hmaximum
  · intro hok leaf hleaf
    obtain ⟨rest, hpath, hstands⟩ := mem_strings.mp hleaf
    rw [List.nil_append] at hpath
    rw [Option.all_eq_true]
    intro maximum hmaximum
    rw [hpath] at hmaximum
    simpa using hok rest leaf.text hstands maximum hmaximum

end pii_engine.request_segments
