import PiiEngine.Requests.TextChecks

open checked collections prefixes

namespace pii_engine.request_segments

section retexts
variable {codec : Codec} {max_depth : Nat} {kind : ProtocolKind} {data : JsonValue} {extraction : CanonicalExtraction}
  {texts : List Text} {writes : Writes}

theorem root_arguments {loads : Loads} {leaf : RootedLeaf} {root : List PathPart}
    (hkind : kind = .chat ∨ kind = .responses) (hextract : extract_request loads max_depth kind data = .ok extraction)
    (hleaf : leaf ∈ extraction.leaves) (hroot : leaf.json_root = some root) : .key "arguments" ∈ root := by
  obtain ⟨region, hregion, hsame, -⟩ := region_of_leaf hextract hleaf
  obtain ⟨rfl, hreader⟩ := arguments_of_root (hsame.symm.trans hroot)
  rcases hkind with rfl | rfl
  · obtain ⟨index, key, rest, hpath, -, harguments⟩ | ⟨first, rest, -, -, hne⟩ := chat_region_path hregion
    · rw [hpath]
      exact List.mem_append_right _ (harguments hreader)
    · exact absurd hreader hne
  · obtain ⟨index, key, rest, -, -, hne⟩ | ⟨first, rest, hpath, -, harguments⟩ := responses_region_path hregion
    · exact absurd hreader hne
    · rw [hpath]
      exact List.mem_cons_of_mem _ (harguments hreader)

/-- A bounded text is not encoded. -/
theorem max_length_root {loads : Loads} {leaf : RootedLeaf} {root path : List PathPart}
    (hextract : extract_request loads max_depth kind data = .ok extraction) (hleaf : leaf ∈ extraction.leaves)
    (hroot : leaf.json_root = some root) (hpath : root <+: path) : max_length kind path = none := by
  cases kind with
  | chat => exact max_length_arguments (hpath.subset (root_arguments (Or.inl rfl) hextract hleaf hroot))
  | responses => exact max_length_arguments (hpath.subset (root_arguments (Or.inr rfl) hextract hleaf hroot))
  | _ => rfl

/-- A field of a message that is written over is one of its texts. -/
theorem Retexts.message {loads : Loads} (hextract : extract_request loads max_depth .chat data = .ok extraction)
    (h : Retexts loads max_depth .chat data extraction texts writes) {index : Nat} {key : String}
    (hkey : key ∉ "content" :: TEXT_CONTENT) : writes [.key "messages", .index index, .key key] = none := by
  by_contra hwritten
  obtain ⟨leaf, hleaf, -, hpath⟩ | ⟨leaf, hleaf, hroot⟩ := h.placed _ hwritten
  · obtain ⟨region, hregion, -, hpre⟩ := region_of_leaf hextract hleaf
    rw [hpath] at hpre
    obtain ⟨i, k, rest, hregion_path, hplace, -⟩ | ⟨first, rest, hregion_path, hfirst, -⟩ := chat_region_path hregion
    · rw [hregion_path] at hpre
      obtain ⟨more, hmore⟩ := hpre
      simp only [List.cons_append, List.nil_append, List.cons.injEq, PathPart.key.injEq, List.append_eq_nil_iff]
        at hmore
      obtain ⟨-, -, rfl, rfl, -⟩ := hmore
      exact hkey (hplace.resolve_right fun hne => hne rfl)
    · rw [hregion_path] at hpre
      exact hfirst (PathPart.key.inj (List.cons_prefix_cons.mp hpre).1)
  · obtain ⟨region, hregion, hsame, -⟩ := region_of_leaf hextract hleaf
    obtain ⟨hregion_root, hreader⟩ := arguments_of_root (hsame.symm.trans hroot)
    obtain ⟨i, k, rest, hregion_path, -, harguments⟩ | ⟨first, rest, -, -, hne⟩ := chat_region_path hregion
    · have hrest := harguments hreader
      rw [hregion_path] at hregion_root
      simp only [List.cons_append, List.nil_append, List.cons.injEq] at hregion_root
      rw [← hregion_root.2.2.2] at hrest
      cases hrest
    · exact hne hreader

/-- A field of a tool that is written over is its description or its parameters. -/
theorem Retexts.tool {loads : Loads} (hextract : extract_request loads max_depth .responses data = .ok extraction)
    (h : Retexts loads max_depth .responses data extraction texts writes) {index : Nat} {key : String}
    (hkey : key ∉ ["description", "parameters"]) : writes [.key "tools", .index index, .key key] = none := by
  by_contra hwritten
  obtain ⟨leaf, hleaf, -, hpath⟩ | ⟨leaf, hleaf, hroot⟩ := h.placed _ hwritten
  · obtain ⟨region, hregion, -, hpre⟩ := region_of_leaf hextract hleaf
    rw [hpath] at hpre
    obtain ⟨i, k, rest, hregion_path, hplace, -⟩ | ⟨first, rest, hregion_path, hfirst, -⟩ :=
      responses_region_path hregion
    · rw [hregion_path] at hpre
      obtain ⟨more, hmore⟩ := hpre
      simp only [List.cons_append, List.nil_append, List.cons.injEq, PathPart.key.injEq] at hmore
      exact hkey (hmore.2.2.1 ▸ hplace)
    · rw [hregion_path] at hpre
      exact hfirst (PathPart.key.inj (List.cons_prefix_cons.mp hpre).1)
  · obtain ⟨region, hregion, hsame, -⟩ := region_of_leaf hextract hleaf
    obtain ⟨hregion_root, hreader⟩ := arguments_of_root (hsame.symm.trans hroot)
    obtain ⟨i, k, rest, -, -, hne⟩ | ⟨first, rest, hregion_path, hfirst, -⟩ := responses_region_path hregion
    · exact hne hreader
    · rw [hregion_path] at hregion_root
      exact hfirst (PathPart.key.inj (List.cons.inj hregion_root).1).symm

/-- A new text stands where the old one did, unless it is in an encoded document. -/
theorem Retexts.stands (hdistinct : Distinct data)
    (h : Retexts codec.loads max_depth kind data extraction texts writes) {entry : RootedLeaf × Text}
    (hentry : entry ∈ extraction.leaves.zip texts) (hroot : entry.1.json_root = none) :
    StringAt (overwrite writes [] data) entry.1.path entry.2 := by
  have hsound := sound_of_extract (fun _ _ hloads => codec.loads_distinct hloads) (hdistinct.overwrite []) h.extracted
  exact (hsound.direct { entry.1 with text := entry.2 } (List.mem_map.mpr ⟨entry, hentry, rfl⟩) hroot).2

/-- A text of the new request is a new text, or one of the old request, or it is an encoded document. -/
theorem Retexts.string (hdistinct : Distinct data) (hlength : extraction.leaves.length = texts.length)
    (h : Retexts codec.loads max_depth kind data extraction texts writes) {path : List PathPart} {text : Text}
    (hstands : StringAt (overwrite writes [] data) path text) :
    StringAt data path text ∨
      (∃ entry ∈ extraction.leaves.zip texts, entry.1.json_root = none ∧ entry.1.path = path ∧ entry.2 = text) ∨
      ∃ leaf ∈ extraction.leaves, leaf.json_root = some path := by
  by_cases hwritten : writes path = none
  · left
    obtain ⟨before, hbefore, hsame⟩ := reaches_of_overwrite hstands
    rw [List.nil_append] at hsame
    cases before with
    | string old =>
      rw [overwrite_string hwritten] at hsame
      rw [StringAt, hsame]
      exact hbefore
    | _ => cases hsame
  · right
    refine (h.placed path hwritten).imp_left ?_
    rintro ⟨leaf, hleaf, hroot, hpath⟩
    obtain ⟨index, hindex⟩ := List.mem_iff_getElem?.mp hleaf
    have hlt : index < texts.length := by
      rw [← hlength]
      exact (List.getElem?_eq_some_iff.mp hindex).1
    have hentry : (leaf, texts[index]) ∈ extraction.leaves.zip texts := by
      refine List.mem_iff_getElem?.mpr ⟨index, ?_⟩
      rw [List.getElem?_zip_eq_some]
      exact ⟨hindex, List.getElem?_eq_getElem hlt⟩
    refine ⟨_, hentry, hroot, hpath, ?_⟩
    have hnew := get_of_reaches (h.stands hdistinct hentry hroot) (hdistinct.overwrite [])
    have hold := get_of_reaches hstands (hdistinct.overwrite [])
    rw [hpath, hold] at hnew
    exact (String.ofList_injective (JsonValue.string.inj (Option.some.inj hnew))).symm

/-- The new request keeps to the bounds of its texts exactly if the new texts do. -/
theorem Retexts.lengths_ok_iff (hdistinct : Distinct data)
    (hextract : extract_request codec.loads max_depth kind data = .ok extraction)
    (hlength : extraction.leaves.length = texts.length)
    (h : Retexts codec.loads max_depth kind data extraction texts writes) (hold : lengths_ok kind data = true) :
    lengths_ok kind (overwrite writes [] data) = true ↔
      ∀ entry ∈ (extraction.leaves.map RootedLeaf.toLeaf).zip texts, ∀ maximum ∈ max_length kind entry.1.path,
        entry.2.length ≤ maximum := by
  rw [StringAt.lengths_ok_iff]
  rw [StringAt.lengths_ok_iff] at hold
  constructor
  · intro hok entry hentry maximum hmaximum
    rw [List.zip_map_left, List.mem_map] at hentry
    obtain ⟨⟨leaf, text⟩, hentry, rfl⟩ := hentry
    refine hok leaf.path text (h.stands hdistinct hentry ?_) maximum hmaximum
    by_contra hroot
    obtain ⟨root, hroot⟩ := Option.ne_none_iff_exists'.mp hroot
    have hleaf := (List.of_mem_zip hentry).1
    have hsound := sound_of_extract (fun _ _ hloads => codec.loads_distinct hloads) hdistinct hextract
    obtain ⟨-, -, -, nested, -, -, -, hpath, -⟩ := hsound.encoded leaf hleaf root hroot
    change maximum ∈ max_length kind leaf.path at hmaximum
    rw [max_length_root hextract hleaf hroot ⟨nested, hpath.symm⟩] at hmaximum
    cases hmaximum
  · intro hfits path text hstands maximum hmaximum
    obtain hsame | ⟨⟨leaf, new⟩, hentry, -, rfl, rfl⟩ | ⟨leaf, hleaf, hroot⟩ := h.string hdistinct hlength hstands
    · exact hold path text hsame maximum hmaximum
    · refine hfits (leaf.toLeaf, new) ?_ maximum hmaximum
      rw [List.zip_map_left]
      exact List.mem_map.mpr ⟨(leaf, new), hentry, rfl⟩
    · rw [max_length_root hextract hleaf hroot (List.prefix_refl _)] at hmaximum
      cases hmaximum

theorem get_key (value : JsonValue) (key : String) (rest : List PathPart) :
    value.get (.key key :: rest) = (value.get? key).bind fun item => item.get rest := by
  cases value <;> rfl

theorem get_index (value : JsonValue) (index : Nat) (rest : List PathPart) :
    value.get (.index index :: rest) = (JsonValue.itemsOf (some value))[index]?.bind fun item => item.get rest := by
  cases value <;> rfl

/-- Whether a message depends on its texts does not depend on them. -/
theorem needs_text_overwrite (htexts : writes.OnlyTexts) {path : List PathPart} {message : JsonValue}
    (hnone : ∀ key ∉ "content" :: TEXT_CONTENT, writes (path ++ [.key key]) = none) :
    needs_text (overwrite writes path message) = needs_text message := by
  have hassistant : isAssistant (overwrite writes path message) = isAssistant message := by
    rw [isAssistant, isAssistant, get?_overwrite]
    cases message.get? "role" with
    | none => rfl
    | some role =>
      cases role with
      | string text => rw [Option.map_some, overwrite_string (hnone "role" (by decide))]
      | _ => rfl
  have hgiven : isGiven ((overwrite writes path message).get? "content") = isGiven (message.get? "content") := by
    rw [get?_overwrite]
    cases message.get? "content" with
    | none => rfl
    | some content =>
      cases content with
      | string text =>
        obtain ⟨text', htext⟩ := overwrite_text htexts (path ++ [.key "content"]) text
        rw [Option.map_some, htext]
        rfl
      | _ => rfl
  have hfixed : FIXED_CONTENT.any (fun key => JsonValue.truthy ((overwrite writes path message).get? key)) =
      FIXED_CONTENT.any fun key => JsonValue.truthy (message.get? key) := by
    rw [Bool.eq_iff_iff, List.any_eq_true, List.any_eq_true]
    refine exists_congr fun key => and_congr_right fun hkey => ?_
    have hfree : ∀ key ∈ FIXED_CONTENT, key ∉ "content" :: TEXT_CONTENT := by decide
    rw [get?_overwrite, truthy_overwrite (hnone key (hfree key hkey))]
  rw [needs_text, needs_text, hassistant, hgiven, hfixed]

theorem text_message_region {index : Nat} {message : JsonValue} {key text : String} (hneeds : needs_text message = true)
    (hkey : key ∈ TEXT_CONTENT) (htext : message.get? key = some (.string text)) :
    ⟨.text, [.key "messages", .index index, .key key], .string text⟩ ∈ message_regions index message := by
  have hsignature : JsonValue.truthy (message.get? "reasoning_signature") = false := by
    rw [needs_text, Bool.and_eq_true, Bool.not_eq_true', List.any_eq_false] at hneeds
    simpa using hneeds.2 "reasoning_signature" (by decide)
  have hregion : ∀ path : List PathPart, ⟨.text, path, .string text⟩ ∈ text_region path (message.get? key) := by
    intro path
    rw [htext]
    exact List.mem_singleton_self _
  simp only [message_regions, List.mem_append, or_assoc]
  rw [TEXT_CONTENT, List.mem_cons] at hkey
  rcases hkey with rfl | hkey
  · exact Or.inr (Or.inl (hregion _))
  · refine Or.inr (Or.inr (Or.inl (List.mem_append_left _ ?_)))
    rw [unsigned_regions, hsignature]
    exact List.mem_flatMap.mpr ⟨key, hkey, hregion _⟩

theorem messages_overwrite (writes : Writes) (data : JsonValue) :
    JsonValue.itemsOf ((overwrite writes [] data).get? "messages") =
      (JsonValue.itemsOf (data.get? "messages")).mapIdx fun index message =>
        overwrite writes [.key "messages", .index index] message := by
  rw [get?_overwrite, itemsOf_overwrite]
  rfl

/-- The texts of a message that depends on them are extracted. -/
theorem leaf_of_message_text {loads : Loads} (hextract : extract_request loads max_depth .chat data = .ok extraction)
    {index : Nat} {message : JsonValue} {key text : String}
    (hmessage : (JsonValue.itemsOf (data.get? "messages"))[index]? = some message) (hneeds : needs_text message = true)
    (hkey : key ∈ TEXT_CONTENT) (hvalue : message.get? key = some (.string text)) :
    ⟨⟨[.key "messages", .index index, .key key], text.toList⟩, none⟩ ∈ extraction.leaves := by
  refine leaf_of_text_region hextract ?_
  refine List.mem_append_left _ (List.mem_append_left _ (List.mem_append_left _ ?_))
  exact List.mem_flatMap.mpr ⟨(_, index), List.mem_zipIdx_iff_getElem?.mpr hmessage,
    text_message_region hneeds hkey hvalue⟩

/-- A text of a message is not encoded. -/
theorem json_root_of_message {leaf : RootedLeaf} {index : Nat} {key : String} (hdistinct : Distinct data)
    (hextract : extract_request codec.loads max_depth .chat data = .ok extraction) (hleaf : leaf ∈ extraction.leaves)
    (hkey : key ∈ TEXT_CONTENT) (hpath : leaf.path = [.key "messages", .index index, .key key]) :
    leaf.json_root = none := by
  by_contra hsome
  obtain ⟨root, hroot⟩ := Option.ne_none_iff_exists'.mp hsome
  have hsound := sound_of_extract (fun _ _ hloads => codec.loads_distinct hloads) hdistinct hextract
  obtain ⟨-, -, -, nested, -, -, -, hnested, -⟩ := hsound.encoded leaf hleaf root hroot
  have harguments : .key "arguments" ∈ [PathPart.key "messages", .index index, .key key] := by
    rw [← hpath, hnested]
    exact List.mem_append_left _ (root_arguments (Or.inl rfl) hextract hleaf hroot)
  simp at harguments
  rw [← harguments] at hkey
  exact absurd hkey (by decide)

/-- A new text of a message is the one that its field holds. -/
theorem Retexts.message_text (hdistinct : Distinct data)
    (hextract : extract_request codec.loads max_depth .chat data = .ok extraction)
    (h : Retexts codec.loads max_depth .chat data extraction texts writes) {index : Nat} {message : JsonValue}
    (hmessage : (JsonValue.itemsOf (data.get? "messages"))[index]? = some message) {entry : RootedLeaf × Text}
    {key : String} (hentry : entry ∈ extraction.leaves.zip texts) (hkey : key ∈ TEXT_CONTENT)
    (hpath : entry.1.path = [.key "messages", .index index, .key key]) :
    (overwrite writes [.key "messages", .index index] message).get? key = some (.string (String.ofList entry.2)) := by
  have hroot := json_root_of_message hdistinct hextract (List.of_mem_zip hentry).1 hkey hpath
  have hstands := get_of_reaches (h.stands hdistinct hentry hroot) (hdistinct.overwrite [])
  rw [hpath, get_key] at hstands
  obtain ⟨messages, hmessages, hstands⟩ := Option.bind_eq_some_iff.mp hstands
  rw [get_index, ← hmessages, messages_overwrite, List.getElem?_mapIdx, hmessage, Option.map_some, Option.bind_some,
    get_key] at hstands
  obtain ⟨value, hvalue, hstands⟩ := Option.bind_eq_some_iff.mp hstands
  rw [JsonValue.get] at hstands
  rw [hvalue, hstands]

/-- The messages of the new request have content exactly if each that depends on its texts keeps one. -/
theorem Retexts.contents_iff (hdistinct : Distinct data)
    (hextract : extract_request codec.loads max_depth .chat data = .ok extraction)
    (h : Retexts codec.loads max_depth .chat data extraction texts writes) :
    (JsonValue.itemsOf ((overwrite writes [] data).get? "messages")).all content_ok = true ↔
      ∀ entry ∈ (JsonValue.itemsOf (data.get? "messages")).zipIdx, needs_text entry.1 = true →
        ∃ key ∈ TEXT_CONTENT, ∃ text ∈ (extraction.leaves.map RootedLeaf.toLeaf).zip texts,
          text.1.path = [.key "messages", .index entry.2, .key key] ∧ text.2 ≠ [] := by
  have hneeds : ∀ index message, needs_text (overwrite writes [.key "messages", .index index] message) =
      needs_text message :=
    fun index message => needs_text_overwrite h.spares.texts fun key hkey => h.message hextract hkey
  rw [List.all_eq_true]
  constructor
  · rintro hok ⟨message, index⟩ hentry hneeded
    have hmessage := List.mem_zipIdx_iff_getElem?.mp hentry
    have hwritten : (JsonValue.itemsOf ((overwrite writes [] data).get? "messages"))[index]? =
        some (overwrite writes [.key "messages", .index index] message) := by
      rw [messages_overwrite, List.getElem?_mapIdx, hmessage]
      rfl
    have hcontent := hok _ (List.mem_of_getElem? hwritten)
    have hneeded' := (hneeds index message).trans hneeded
    rw [content_ok, hneeded', Bool.not_true, Bool.false_or, List.any_eq_true] at hcontent
    obtain ⟨key, hkey, htext⟩ := hcontent
    unfold has_text at htext
    split at htext
    case h_2 => cases htext
    case h_1 text hvalue =>
      have hleaf := leaf_of_message_text h.extracted hwritten hneeded' hkey hvalue
      obtain ⟨⟨leaf, new⟩, hzip, heq⟩ := List.mem_map.mp hleaf
      refine ⟨key, hkey, (leaf.toLeaf, new), ?_, ?_, ?_⟩
      · rw [List.zip_map_left]
        exact List.mem_map.mpr ⟨(leaf, new), hzip, rfl⟩
      · exact congrArg (fun leaf : RootedLeaf => leaf.path) heq
      · have hnew : new = text.toList := congrArg (fun leaf : RootedLeaf => leaf.text) heq
        rw [hnew]
        simpa using htext
  · intro hfits message' hmessage'
    obtain ⟨index, hindex⟩ := List.mem_iff_getElem?.mp hmessage'
    rw [messages_overwrite, List.getElem?_mapIdx] at hindex
    obtain ⟨message, hmessage, rfl⟩ := Option.map_eq_some_iff.mp hindex
    rw [content_ok, hneeds]
    cases hneeded : needs_text message with
    | false => rfl
    | true =>
      obtain ⟨key, hkey, ⟨leaf, new⟩, hzip, hpath, hne⟩ :=
        hfits (message, index) (List.mem_zipIdx_iff_getElem?.mpr hmessage) hneeded
      rw [List.zip_map_left, List.mem_map] at hzip
      obtain ⟨entry, hentry, heq⟩ := hzip
      cases heq
      rw [Bool.not_true, Bool.false_or, List.any_eq_true]
      refine ⟨key, hkey, ?_⟩
      rw [h.message_text hdistinct hextract hmessage hentry hkey hpath, has_text]
      simpa using hne

end retexts

section tools
variable {shared : SharedChecks} {writes : Writes} {path : List PathPart}

theorem overwrite_entries_append (entries more : List (String × JsonValue)) :
    overwrite_entries writes path (entries ++ more) =
      overwrite_entries writes path entries ++ overwrite_entries writes path more := by
  rw [overwrite_entries_eq, overwrite_entries_eq, overwrite_entries_eq, List.map_append]

/-- A field that is written over is dumped as the field with what is written. -/
theorem FieldState.dump_overwrite {α β : Type} {field : FieldState α} {written : FieldState β} {encode : α → JsonValue}
    {encode' : β → JsonValue} {key : String}
    (h : written.encoded encode' = (field.encoded encode).map (overwrite writes (path ++ [.key key]))) :
    overwrite_entries writes path (field.dump key encode) = written.dump key encode' := by
  rw [overwrite_entries_eq, FieldState.dump, FieldState.dump, h]
  cases field.encoded encode <;> rfl

theorem get?_description (tool : EngineResponseToolDefinition shared) :
    tool.model_dump.get? "description" = tool.function.description.encoded .string :=
  tool.function.lookup_model_dump.2.1

/-- A tool whose description is written over is one again if the new description is not too long. -/
theorem exists_overwritten_tool (htexts : writes.OnlyTexts)
    (hnone : ∀ key ∉ ["description", "parameters"], writes (path ++ [.key key]) = none)
    (hparameters : ∀ path entries, shared.parameters (overwrite_entries writes path entries) =
      shared.parameters entries)
    (tool : EngineResponseToolDefinition shared)
    (hlength : ∀ text, (overwrite writes path tool.model_dump).get? "description" = some (.string text) →
      text.length ≤ 20000) :
    ∃ again : EngineResponseToolDefinition shared, again.model_dump = overwrite writes path tool.model_dump := by
  simp only [get?_overwrite, get?_description] at hlength
  obtain ⟨⟨name, description, parameters, strict, hname, hdescription_ok, hparameters_ok⟩⟩ := tool
  obtain ⟨description', hdescription⟩ : ∃ description' : FieldState String, description'.encoded .string =
      (description.encoded .string).map (overwrite writes (path ++ [.key "description"])) := by
    cases description with
    | omitted => exact ⟨.omitted, rfl⟩
    | null => exact ⟨.null, rfl⟩
    | given text =>
      obtain ⟨text', htext⟩ := overwrite_text htexts (path ++ [.key "description"]) text
      exact ⟨.given text', congrArg some htext.symm⟩
  obtain ⟨parameters', hparameters', hwritten⟩ : ∃ parameters' : FieldState (List (String × JsonValue)),
      parameters'.encoded .dict = (parameters.encoded .dict).map (overwrite writes (path ++ [.key "parameters"])) ∧
        ∀ entries ∈ parameters'.value?, shared.parameters entries = true := by
    cases parameters with
    | omitted => exact ⟨.omitted, rfl, fun _ hentries => by cases hentries⟩
    | null => exact ⟨.null, rfl, fun _ hentries => by cases hentries⟩
    | given entries =>
      refine ⟨.given (overwrite_entries writes (path ++ [.key "parameters"]) entries), rfl, ?_⟩
      rintro _ ⟨⟩
      rw [hparameters]
      exact hparameters_ok entries rfl
  have hstrict : strict.encoded .bool = (strict.encoded .bool).map (overwrite writes (path ++ [.key "strict"])) := by
    cases strict <;> rfl
  refine ⟨⟨⟨name, description', parameters', strict, hname, fun text htext => hlength text ?_, hwritten⟩⟩, ?_⟩
  · rw [← hdescription]
    cases description' with
    | given given => exact congrArg (fun text => some (JsonValue.string text)) (Option.some.inj htext)
    | _ => cases htext
  · rw [EngineResponseToolDefinition.model_dump, EngineToolFunction.model_dump, EngineResponseToolDefinition.model_dump,
      EngineToolFunction.model_dump, overwrite, overwrite_entries, overwrite_entries,
      overwrite_string (hnone "type" (by decide)), overwrite_string (hnone "name" (by decide)),
      overwrite_entries_append, overwrite_entries_append, FieldState.dump_overwrite hdescription,
      FieldState.dump_overwrite hparameters', FieldState.dump_overwrite hstrict]

/-- A list of items whose dumps are written over, where each is the dump of an item again. -/
theorem exists_map_mapIdx {α β : Type} {dump : α → β} {items : List α} {f : Nat → β → β}
    (h : ∀ index item, items[index]? = some item → ∃ again, dump again = f index (dump item)) :
    ∃ again : List α, again.map dump = (items.map dump).mapIdx f := by
  induction items generalizing f with
  | nil => exact ⟨[], rfl⟩
  | cons item items ih =>
    obtain ⟨first, hfirst⟩ := h 0 item rfl
    obtain ⟨rest, hrest⟩ := ih (f := fun index => f (index + 1)) fun index other hother => h (index + 1) other hother
    refine ⟨first :: rest, ?_⟩
    rw [List.map_cons, List.map_cons, List.mapIdx_cons, hfirst, hrest]

end tools

section responses
variable {others : BoundaryChecks} {codec : Codec} {max_depth : Nat} {extraction : CanonicalExtraction}
  {texts : List Text} {writes : Writes} {request : EngineResponsesRequest others.with_texts.toSharedChecks}

theorem mem_other_fields {key : String} {item : JsonValue} (hkey : key ≠ "tools") {entries : List (String × JsonValue)}
    (hentries : request.dumped = .dict entries) (hitem : (key, item) ∈ entries) :
    (key, item) ∈ request.front ++ request.back := by
  cases hentries
  rw [List.mem_append, List.mem_append] at hitem
  rw [List.mem_append]
  exact hitem.imp_right fun hrest => hrest.resolve_left fun hdump => hkey (FieldState.mem_dump hdump)

theorem fields_lengths_ok (request : EngineResponsesRequest others.with_texts.toSharedChecks) :
    others.fields (request.front ++ request.back) = true ∧
      lengths_ok .responses (.dict (request.front ++ request.back)) = true := by
  have hfields := request.fields_ok
  change (others.fields _ && (lengths_ok .responses _ && true)) = true at hfields
  rw [Bool.and_true, Bool.and_eq_true] at hfields
  exact hfields

theorem max_length_tool {index maximum : Nat} {rest : List PathPart}
    (h : maximum ∈ max_length .responses (.key "tools" :: .index index :: rest)) :
    rest = [.key "description"] ∧ maximum = 20000 := by
  unfold max_length at h
  split at h
  case h_4 heq =>
    cases heq
    cases h
    exact ⟨rfl, rfl⟩
  all_goals simp_all

/-- The description of a tool is the one that it is dumped with. -/
theorem description_of_tool {tool : EngineResponseToolDefinition others.with_texts.toSharedChecks} {text : Text}
    (h : StringAt tool.model_dump [.key "description"] text) : text.length ≤ 20000 := by
  cases h with
  | @key _ _ item _ _ hitem hrest =>
    have hdump : ("description", item) ∈ tool.function.description.dump "description" .string := by
      rw [EngineToolFunction.model_dump, List.mem_cons, List.mem_cons, List.mem_append, List.mem_append] at hitem
      rcases hitem with htype | hname | hdescription | hparameters | hstrict
      · exact absurd (Prod.mk.inj htype).1 (by decide)
      · exact absurd (Prod.mk.inj hname).1 (by decide)
      · exact hdescription
      · exact absurd (show "description" = "parameters" from FieldState.mem_dump hparameters) (by decide)
      · exact absurd (show "description" = "strict" from FieldState.mem_dump hstrict) (by decide)
    obtain ⟨value, hvalue, heq⟩ := List.mem_map.mp hdump
    cases heq
    cases hrest
    cases hdescription : tool.function.description with
    | omitted =>
      rw [hdescription] at hvalue
      cases hvalue
    | null =>
      rw [hdescription] at hvalue
      simp [FieldState.encoded] at hvalue
    | given given =>
      rw [hdescription, FieldState.encoded, Option.mem_toList, Option.some.injEq, JsonValue.string.injEq] at hvalue
      have hlength := tool.function.description_ok given (by rw [hdescription]; rfl)
      rw [hvalue, String.length_ofList] at hlength
      exact hlength

/-- The texts of a validated Responses request keep to their bounds. -/
theorem lengths_ok_dumped (request : EngineResponsesRequest others.with_texts.toSharedChecks) :
    lengths_ok .responses request.dumped = true := by
  obtain ⟨-, hfields⟩ := fields_lengths_ok request
  rw [StringAt.lengths_ok_iff] at hfields ⊢
  intro path text hstands maximum hmaximum
  cases hstands with
  | @key _ key item _ rest hitem hrest =>
    by_cases hkey : key = "tools"
    · subst hkey
      have htools : ("tools", item) ∈ request.tools.dump "tools" fun items =>
          .list (items.map EngineResponseToolDefinition.model_dump) := by
        rw [List.mem_append, List.mem_append] at hitem
        rcases hitem with hfront | hdump | hback
        · exact absurd rfl (request.keys_ok _ (List.mem_append_left _ hfront))
        · exact hdump
        · exact absurd rfl (request.keys_ok _ (List.mem_append_right _ hback))
      obtain ⟨value, hvalue, heq⟩ := List.mem_map.mp htools
      cases heq
      cases hgiven : request.tools with
      | omitted =>
        rw [hgiven] at hvalue
        cases hvalue
      | null =>
        rw [hgiven, FieldState.encoded, Option.mem_toList, Option.some.injEq] at hvalue
        rw [← hvalue] at hrest
        cases hrest
      | given items =>
        rw [hgiven, FieldState.encoded, Option.mem_toList, Option.some.injEq] at hvalue
        rw [← hvalue] at hrest
        cases hrest with
        | @index _ index tool _ rest htool hrest =>
          rw [List.getElem?_map] at htool
          obtain ⟨tool, -, rfl⟩ := Option.map_eq_some_iff.mp htool
          obtain ⟨rfl, rfl⟩ := max_length_tool hmaximum
          exact description_of_tool hrest
    · exact hfields _ text (.key (mem_other_fields hkey rfl hitem) hrest) maximum hmaximum

/-- Writing over a request writes over its tools and its other fields. -/
theorem overwrite_dumped (writes : Writes) (request : EngineResponsesRequest others.with_texts.toSharedChecks) :
    overwrite writes [] request.dumped = .dict (overwrite_entries writes [] request.front ++
      (overwrite_entries writes [] (request.tools.dump "tools" fun items =>
        .list (items.map EngineResponseToolDefinition.model_dump)) ++ overwrite_entries writes [] request.back)) := by
  rw [EngineResponsesRequest.dumped, ResponsesBody.model_dump, overwrite, overwrite_entries_append,
    overwrite_entries_append]

theorem other_fields_overwrite (writes : Writes) (data : JsonValue) :
    other_fields (overwrite writes [] data) = overwrite_entries writes [] (other_fields data) := by
  cases data with
  | dict entries =>
    rw [overwrite, other_fields, other_fields, overwrite_entries_eq, overwrite_entries_eq, List.filter_map]
    rfl
  | string text =>
    obtain h | ⟨text', h⟩ := overwrite_string_cases writes [] text
    · rw [h]
      rfl
    · rw [h]
      rfl
  | _ => rfl

theorem other_fields_dumped (request : EngineResponsesRequest others.with_texts.toSharedChecks) :
    other_fields request.dumped = request.front ++ request.back := by
  have hkept : ∀ entries : List (String × JsonValue), (∀ entry ∈ entries, entry ∈ request.front ++ request.back) →
      entries.filter (·.1 ≠ "tools") = entries := fun entries hentries =>
    List.filter_eq_self.mpr fun entry hentry => decide_eq_true (request.keys_ok entry (hentries entry hentry))
  have htools : (request.tools.dump "tools" fun items =>
      .list (items.map EngineResponseToolDefinition.model_dump)).filter (·.1 ≠ "tools") = [] := by
    rw [List.filter_eq_nil_iff]
    intro entry hentry
    simpa using FieldState.mem_dump hentry
  rw [EngineResponsesRequest.dumped, ResponsesBody.model_dump, other_fields, List.filter_append, List.filter_append,
    htools, List.nil_append, hkept _ fun _ h => List.mem_append_left _ h, hkept _ fun _ h => List.mem_append_right _ h]

/-- The description of a tool that is written over is bounded as its place is. -/
theorem overwritten_description {index : Nat} {tool : EngineResponseToolDefinition others.with_texts.toSharedChecks}
    {items : List (EngineResponseToolDefinition others.with_texts.toSharedChecks)} {text : String}
    (hok : lengths_ok .responses (overwrite writes [] request.dumped) = true) (hgiven : request.tools = .given items)
    (hitem : items[index]? = some tool)
    (htext : (overwrite writes [.key "tools", .index index] tool.model_dump).get? "description" = some (.string text)) :
    text.length ≤ 20000 := by
  have hstands : Reaches request.dumped [.key "tools", .index index] tool.model_dump := by
    have hentry : ("tools", JsonValue.list (items.map EngineResponseToolDefinition.model_dump)) ∈
        request.tools.dump "tools" fun items => .list (items.map EngineResponseToolDefinition.model_dump) := by
      rw [hgiven]
      exact List.mem_singleton_self _
    have hindex : (items.map EngineResponseToolDefinition.model_dump)[index]? = some tool.model_dump := by
      rw [List.getElem?_map, hitem]
      rfl
    exact .key (List.mem_append_right _ (List.mem_append_left _ hentry)) (.index hindex (.here _))
  have hdescription : StringAt (overwrite writes [] request.dumped) [.key "tools", .index index, .key "description"]
      text.toList := by
    rw [StringAt, String.ofList_toList]
    exact (reaches_overwrite writes hstands []).trans (reaches_get? htext)
  have hlength := StringAt.lengths_ok_iff.mp hok _ _ hdescription 20000 rfl
  rwa [String.length_toList] at hlength

/-- The tools that are written over are tools again if their descriptions are not too long. -/
theorem Retexts.exists_tools {loads : Loads} (hblind : TextBlind loads max_depth others)
    (hextract : extract_request loads max_depth .responses request.dumped = .ok extraction)
    (h : Retexts loads max_depth .responses request.dumped extraction texts writes)
    (hok : lengths_ok .responses (overwrite writes [] request.dumped) = true) :
    ∃ tools : FieldState (List (EngineResponseToolDefinition others.with_texts.toSharedChecks)),
      tools.encoded (fun items => .list (items.map EngineResponseToolDefinition.model_dump)) =
        (request.tools.encoded fun items => .list (items.map EngineResponseToolDefinition.model_dump)).map
          (overwrite writes ([] ++ [.key "tools"])) ∧
      (∀ items ∈ tools.value?, items.length ≤ 128) ∧ tools.isOmitted = request.tools.isOmitted := by
  have hparameters : ∀ path entries, others.with_texts.parameters (overwrite_entries writes path entries) =
      others.with_texts.parameters entries := hblind.parameters h.spares.texts
  cases hgiven : request.tools with
  | omitted => exact ⟨.omitted, rfl, (fun _ hitems => by cases hitems), rfl⟩
  | null => exact ⟨.null, rfl, (fun _ hitems => by cases hitems), rfl⟩
  | given items =>
    obtain ⟨again, hagain⟩ := exists_map_mapIdx fun index tool (hitem : items[index]? = some tool) =>
      exists_overwritten_tool h.spares.texts (fun key hkey => h.tool hextract hkey) hparameters tool
        fun _ htext => overwritten_description hok hgiven hitem htext
    refine ⟨.given again, ?_, ?_, rfl⟩
    · rw [FieldState.encoded, FieldState.encoded, Option.map_some, overwrite_list, hagain]
      rfl
    · rintro _ ⟨⟩
      have hcount := congrArg List.length hagain
      rw [List.length_map, List.length_mapIdx, List.length_map] at hcount
      rw [hcount]
      exact request.tools_ok items (by rw [hgiven]; rfl)

/-- The other fields are accepted again if their texts keep to their bounds. -/
theorem overwritten_fields {loads : Loads} (hblind : TextBlind loads max_depth others)
    (hextract : extract_request loads max_depth .responses request.dumped = .ok extraction)
    (hdiffers : DiffersOnlyAt (extraction.leaves.map fun leaf => leaf.path) request.dumped
      (overwrite writes [] request.dumped))
    (hok : lengths_ok .responses (overwrite writes [] request.dumped) = true) :
    others.with_texts.fields (overwrite_entries writes [] request.front ++ overwrite_entries writes [] request.back) =
      true := by
  have hother : other_fields (overwrite writes [] request.dumped) =
      overwrite_entries writes [] request.front ++ overwrite_entries writes [] request.back := by
    rw [other_fields_overwrite, other_fields_dumped, overwrite_entries_append]
  change (others.fields _ && (lengths_ok .responses _ && true)) = true
  rw [Bool.and_true, Bool.and_eq_true, ← hother, hblind.fields hextract hdiffers, other_fields_dumped]
  refine ⟨(fields_lengths_ok request).1, ?_⟩
  rw [StringAt.lengths_ok_iff] at hok ⊢
  intro path text hstands maximum hmaximum
  refine hok path text ?_ maximum hmaximum
  cases hstands with
  | key hitem hrest =>
    rw [hother, List.mem_append] at hitem
    rw [overwrite_dumped]
    refine .key ?_ hrest
    rw [List.mem_append, List.mem_append]
    exact hitem.imp_right Or.inr

theorem overwritten_keys (writes : Writes) (request : EngineResponsesRequest others.with_texts.toSharedChecks) :
    ∀ entry ∈ overwrite_entries writes [] request.front ++ overwrite_entries writes [] request.back,
      entry.1 ≠ "tools" := by
  rw [← overwrite_entries_append, overwrite_entries_eq]
  intro entry hentry
  obtain ⟨old, hold, rfl⟩ := List.mem_map.mp hentry
  exact request.keys_ok old hold

/-- A Responses request with new texts is accepted exactly if they keep to their bounds. -/
theorem Retexts.validated_iff {loads : Loads} (hblind : TextBlind loads max_depth others)
    (hextract : extract_request loads max_depth .responses request.dumped = .ok extraction)
    (hdiffers : DiffersOnlyAt (extraction.leaves.map fun leaf => leaf.path) request.dumped
      (overwrite writes [] request.dumped))
    (h : Retexts loads max_depth .responses request.dumped extraction texts writes) :
    (∃ again, EngineResponsesRequest.validated others.with_texts.toSharedChecks (overwrite writes [] request.dumped) =
      some again) ↔ lengths_ok .responses (overwrite writes [] request.dumped) = true := by
  constructor
  · rintro ⟨again, hagain⟩
    rw [← EngineResponsesRequest.dumped_of_validated (orderedTools_overwrite request.orderedTools_dumped) hagain]
    exact lengths_ok_dumped again
  · intro hok
    obtain ⟨tools, htools, hlength, homitted⟩ := h.exists_tools hblind hextract hok
    let again : EngineResponsesRequest others.with_texts.toSharedChecks := {
      front := overwrite_entries writes [] request.front
      tools
      back := overwrite_entries writes [] request.back
      fields_ok := overwritten_fields hblind hextract hdiffers hok
      keys_ok := overwritten_keys writes request
      tools_ok := hlength
      back_ok := fun hback => by rw [request.back_ok (homitted ▸ hback), overwrite_entries] }
    have hdumped : again.dumped = overwrite writes [] request.dumped := by
      rw [overwrite_dumped, FieldState.dump_overwrite htools]
      rfl
    exact ⟨again, hdumped ▸ EngineResponsesRequest.validated_dumped again⟩

end responses

end pii_engine.request_segments
