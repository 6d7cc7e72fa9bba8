import PiiEngine.Requests.Lens
import PiiEngine.Requests.Revalidation

open checked collections prefixes

namespace pii_engine.request_segments

variable {shared : SharedChecks}

/-- `parse_request` of a Responses request. -/
def parse_responses (shared : SharedChecks) (_ : ProtocolKind) (data : JsonValue) :
    Except AnalysisError (EngineResponsesRequest shared) :=
  (EngineResponsesRequest.validated shared data).elim
    (.error (.validation_error "EngineResponsesRequest" "invalid field")) .ok

/-- The extraction of a Responses request at the legacy boundary: that of its canonical form, and
    the tools whose envelope is nested. -/
structure LegacyResponsesExtraction where
  extracted : CanonicalExtraction
  nested_tools : List Nat

namespace LegacyResponsesExtraction

def segments (legacy : LegacyResponsesExtraction) : List (String × Text) := legacy.extracted.segments

/-- Its texts with their ways, as the legacy boundary shows them. -/
def view (legacy : LegacyResponsesExtraction) : ExtractedRequest where
  request_kind := .responses
  leaves := legacy.extracted.leaves.map RootedLeaf.toLeaf
  attachments_present := legacy.extracted.attachments_present
  nested_tools := legacy.nested_tools

def canonical_rebuild (shared : SharedChecks) (codec : Codec) (legacy : LegacyResponsesExtraction)
    (segments : List (String × Text)) : Except AnalysisError (EngineResponsesRequest shared) :=
  legacy.extracted.rebuild codec.loads codec.dumps (parse_responses shared) segments

/-- Rebuild transformed text before restoring each original tool envelope. -/
def rebuild (shared : SharedChecks) (codec : Codec) (legacy : LegacyResponsesExtraction)
    (segments : List (String × Text)) :
    Except AnalysisError (OpenAIResponsesRequest shared) :=
  request_segments.rebuild (legacy.canonical_rebuild shared codec) legacy.nested_tools segments

/-- The same extraction with other texts, of a request in canonical form. -/
def with_texts (legacy : LegacyResponsesExtraction) (request : JsonValue) (texts : List Text) :
    LegacyResponsesExtraction :=
  { legacy with extracted := legacy.extracted.with_texts request texts }

end LegacyResponsesExtraction

/-- Leaves with other texts. -/
def ExtractedRequest.with_texts (extracted : ExtractedRequest) (texts : List Text) : ExtractedRequest :=
  { extracted with leaves := (extracted.leaves.zip texts).map fun entry => { entry.1 with text := entry.2 } }

/-- `_extract` of a Responses request. -/
def extract_legacy (loads : Loads) (max_depth : Nat) (request : OpenAIResponsesRequest shared) :
    Except AnalysisError LegacyResponsesExtraction := do
  let extracted ← extract_request loads max_depth .responses (canonical_responses request.dumped)
  pure { extracted, nested_tools := request.nested_tools }

section distinct

theorem distinct_dict {entries : List (String × JsonValue)} (hkeys : (entries.map Prod.fst).Nodup)
    (h : ∀ entry ∈ entries, Distinct entry.2) : Distinct (.dict entries) := by
  intro path inner hinner
  cases hinner with
  | here => exact hkeys
  | key hitem hrest => exact h _ hitem _ _ hrest

theorem distinct_list {items : List JsonValue} (h : ∀ item ∈ items, Distinct item) : Distinct (.list items) := by
  intro path inner hinner
  cases hinner with
  | index hitem hrest => exact h _ (List.mem_of_getElem? hitem) _ _ hrest

theorem distinct_string (text : String) : Distinct (.string text) := by
  intro path inner hinner
  cases hinner

/-- A tool without its envelope has distinct keys. -/
theorem distinct_flat_tool {tool : LegacyTool shared} (h : Distinct tool.model_dump) :
    Distinct (EngineResponseToolDefinition.model_dump ⟨tool.function⟩) := by
  cases tool with
  | flat tool => exact h
  | nested tool =>
    have hmem : ("function", JsonValue.dict tool.function.model_dump) ∈
        [("type", JsonValue.string "function"), ("function", .dict tool.function.model_dump)] :=
      List.mem_cons_of_mem _ List.mem_cons_self
    have hfunction : Distinct (.dict tool.function.model_dump) := h.entry hmem
    have hkeys := (tool.function.keys_model_dump.cons_cons "type").nodup (by decide)
    refine distinct_dict hkeys fun entry hentry => ?_
    obtain rfl | hentry := List.mem_cons.mp hentry
    · exact distinct_string "function"
    · exact hfunction.entry hentry

theorem replace_entry_fst (g : List JsonValue → List JsonValue) (entry : String × JsonValue) :
    (replace_entry g entry).1 = entry.1 := by
  rw [replace_entry]
  split
  · cases entry.2 <;> rfl
  · rfl

/-- The canonical form of a request has distinct keys. -/
theorem distinct_flattened {request : OpenAIResponsesRequest shared} (h : Distinct request.dumped) :
    Distinct request.flattened.dumped := by
  rw [← canonical_responses_dumped, canonical_responses_eq]
  refine distinct_dict ?_ fun entry hentry => ?_
  · rw [List.map_map]
    exact (List.map_congr_left fun entry _ => replace_entry_fst _ entry) ▸ h.nodup
  · obtain ⟨⟨key, value⟩, hold, rfl⟩ := List.mem_map.mp hentry
    rw [replace_entry]
    split
    case isFalse => exact h.entry hold
    case isTrue hkey =>
      cases value with
      | list tools =>
        dsimp only at hkey
        subst hkey
        have hlookup := h.lookup hold
        have hitems : JsonValue.itemsOf (request.dumped.get? "tools") = tools :=
          congrArg JsonValue.itemsOf hlookup
        rw [OpenAIResponsesRequest.dumped, ResponsesBody.itemsOf_tools] at hitems
        refine distinct_list fun tool htool => ?_
        obtain ⟨given, hgiven, rfl⟩ := List.mem_map.mp htool
        have hdumped : Distinct given := by
          obtain ⟨index, hindex⟩ := List.mem_iff_getElem?.mp hgiven
          exact (h.entry hold).item hindex
        rw [← hitems] at hgiven
        obtain ⟨item, -, rfl⟩ := List.mem_map.mp hgiven
        rw [flat_tool_dump]
        exact distinct_flat_tool hdumped
      | _ => exact h.entry hold

end distinct

section overwrite
variable {writes : Writes}

theorem orderedTool_overwrite {tool : JsonValue} {path : List PathPart} (h : OrderedTool tool) :
    OrderedTool (overwrite writes path tool) := by
  obtain ⟨entries, rfl, hkeys⟩ := h
  refine ⟨overwrite_entries writes path entries, by rw [overwrite], ?_⟩
  rw [keys_overwrite_entries]
  exact hkeys

/-- Writing over strings keeps the fields of the tools in their order. -/
theorem orderedTools_overwrite {data : JsonValue} (h : OrderedTools data) :
    OrderedTools (overwrite writes [] data) := by
  intro tools htools tool htool
  rw [get?_overwrite] at htools
  obtain ⟨value, hvalue, hwritten⟩ := Option.map_eq_some_iff.mp htools
  cases value with
  | list items =>
    rw [overwrite_list] at hwritten
    cases hwritten
    obtain ⟨index, hindex, rfl⟩ := List.mem_mapIdx.mp htool
    exact orderedTool_overwrite (h items hvalue _ (List.getElem_mem hindex))
  | string text =>
    obtain hnull | ⟨text', htext⟩ := overwrite_string_cases writes ([] ++ [.key "tools"]) text
    · rw [hnull] at hwritten
      cases hwritten
    · rw [htext] at hwritten
      cases hwritten
  | dict entries =>
    rw [overwrite] at hwritten
    cases hwritten
  | _ => cases hwritten

end overwrite

section envelopes
variable {request other : OpenAIResponsesRequest shared}

theorem flattened_enveloped (nested_tools : List Nat) (flat : EngineResponsesRequest shared) :
    (flat.enveloped nested_tools).flattened = flat := by
  refine ResponsesBody.ext rfl ?_ rfl
  change (flat.tools.map _).map _ = flat.tools
  cases flat.tools with
  | omitted => rfl
  | null => rfl
  | given items =>
    refine congrArg FieldState.given (List.ext_getElem? fun index => ?_)
    rw [List.getElem?_map, List.getElem?_mapIdx, Option.map_map]
    refine Eq.trans (congrArg (fun f => Option.map f items[index]?) (funext fun tool => ?_)) Option.map_id_apply
    dsimp only [Function.comp_apply, id_eq]
    split
    · rfl
    · rfl

/-- The nested tools of a request are given by the kinds of its tools. -/
theorem nested_tools_congr (h : request.items.map LegacyTool.is_nested = other.items.map LegacyTool.is_nested) :
    request.nested_tools = other.nested_tools := by
  have hkinds (body : OpenAIResponsesRequest shared) : body.nested_tools =
      (body.items.map LegacyTool.is_nested).zipIdx.filterMap fun entry => if entry.1 then some entry.2 else none := by
    rw [OpenAIResponsesRequest.nested_tools, List.zipIdx_map, List.filterMap_map]
    rfl
  rw [hkinds, hkinds, h]

end envelopes

section paths
variable {legacy : LegacyResponsesExtraction}

theorem segments_view (legacy : LegacyResponsesExtraction) : legacy.view.segments = legacy.segments := by
  rw [ExtractedRequest.segments, LegacyResponsesExtraction.view, List.zipIdx_map, List.map_map]
  rfl

theorem get?_replace_tools {g : List JsonValue → List JsonValue} {key : String} (hkey : key ≠ "tools")
    (data : JsonValue) :
    (replace_tools g data).get? key = data.get? key := by
  cases data with
  | dict entries =>
    change (entries.map (replace_entry g)).lookup key = entries.lookup key
    induction entries with
    | nil => rfl
    | cons entry entries ih =>
      rw [List.map_cons]
      by_cases hentry : key = entry.1
      · have hkept : replace_entry g entry = entry := if_neg fun htools => hkey (hentry.trans htools)
        rw [hkept, List.lookup_cons, List.lookup_cons, ih]
      · have hne := hentry
        rw [← replace_entry_fst g entry] at hne
        rw [List.lookup_cons, List.lookup_cons, beq_eq_false_iff_ne.mpr hentry, beq_eq_false_iff_ne.mpr hne, ih]
  | _ => rfl

theorem extract_request_eq_ok {loads : Loads} {max_depth : Nat} {kind : ProtocolKind} {data : JsonValue}
    {extraction : CanonicalExtraction} (h : extract_request loads max_depth kind data = .ok extraction) :
    extraction.protocol_kind = kind ∧ extraction.request = data ∧
      extraction.attachments_present = attachments_present kind data ∧ extraction.max_depth = max_depth := by
  obtain ⟨-, -, h⟩ := bind_eq_ok.mp h
  obtain ⟨groups, -, h⟩ := bind_eq_ok.mp h
  cases h
  exact ⟨rfl, rfl, rfl, rfl⟩

/-- The extraction is the one that the legacy boundary shows. -/
theorem extract_view (loads : Loads) (max_depth : Nat) (request : OpenAIResponsesRequest shared) :
    (extract_legacy loads max_depth request).map LegacyResponsesExtraction.view =
      extract loads max_depth (.responses request.dumped) := by
  have hattachments : attachments_present .responses (canonical_responses request.dumped) =
      (JsonValue.itemsOf (request.dumped.get? "input")).any fun item =>
        isMessage item && has_attachment (item.get? "content") := by
    rw [attachments_present, canonical_responses_eq, get?_replace_tools (by decide)]
  have hleaves : (extract_request loads max_depth .responses (canonical_responses request.dumped)).map _ = _ :=
    extract_responses (canonical_responses request.dumped)
  rw [extract_legacy, extract, nested_tools_dumped, ← hleaves, ← hattachments]
  cases hextract : extract_request loads max_depth .responses (canonical_responses request.dumped) with
  | error e => rfl
  | ok extraction =>
    obtain ⟨-, -, hpresent, -⟩ := extract_request_eq_ok hextract
    rw [← hpresent]
    rfl

end paths

section round_trip
variable {codec : Codec} {max_depth : Nat} {request : OpenAIResponsesRequest shared}
  {legacy : LegacyResponsesExtraction} {segments : List (String × Text)} {flat : EngineResponsesRequest shared}

theorem extract_legacy_eq_ok {loads : Loads} (h : extract_legacy loads max_depth request = .ok legacy) :
    extract_request loads max_depth .responses request.flattened.dumped = .ok legacy.extracted ∧
      legacy.nested_tools = request.nested_tools := by
  obtain ⟨extraction, hextraction, h⟩ := bind_eq_ok.mp h
  cases h
  rw [canonical_responses_dumped] at hextraction
  exact ⟨hextraction, rfl⟩

theorem parse_responses_eq_ok {kind : ProtocolKind} {data : JsonValue} :
    parse_responses shared kind data = .ok flat ↔ EngineResponsesRequest.validated shared data = some flat := by
  rw [parse_responses]
  cases EngineResponsesRequest.validated shared data with
  | none =>
    constructor
    · intro h
      cases h
    · intro h
      cases h
  | some request => exact ⟨fun h => congrArg some (Except.ok.inj h), fun h => congrArg Except.ok (Option.some.inj h)⟩

theorem ids_of_rebuild {ρ : Type} {loads : Loads} {dumps : Dumps} {rebuilt : ρ} {extraction : CanonicalExtraction}
    {parse_request : ProtocolKind → JsonValue → Except AnalysisError ρ}
    (h : extraction.rebuild loads dumps parse_request segments = .ok rebuilt) :
    segments.map Prod.fst = extraction.segments.map Prod.fst := by
  by_contra hids
  rw [CanonicalExtraction.rebuild, if_pos hids] at h
  cases h

/-- What an accepted rebuild of the canonical form gives. -/
theorem canonical_rebuild_eq_ok (hdistinct : Distinct request.dumped)
    (hextract : extract_legacy codec.loads max_depth request = .ok legacy)
    (h : legacy.canonical_rebuild shared codec segments = .ok flat) :
    extract_request codec.loads max_depth .responses flat.dumped =
      .ok (legacy.extracted.with_texts flat.dumped (segments.map Prod.snd)) ∧
    DiffersOnlyAt (changed_paths legacy.view.leaves segments) request.flattened.dumped flat.dumped := by
  obtain ⟨hextraction, -⟩ := extract_legacy_eq_ok hextract
  obtain ⟨writes, -, hrebuild, hextracted, -, hdiffers, -⟩ :=
    CanonicalExtraction.rebuild_writes codec (distinct_flattened hdistinct) hextraction (ids_of_rebuild h)
  rw [LegacyResponsesExtraction.canonical_rebuild, hrebuild, parse_responses_eq_ok] at h
  have hdumped := EngineResponsesRequest.dumped_of_validated
    (orderedTools_overwrite request.flattened.orderedTools_dumped) h
  rw [hdumped]
  exact ⟨hextracted, hdiffers⟩

/-- The canonical rebuild changes only the text leaves. -/
theorem rebuilds_leaves (hdistinct : Distinct request.dumped)
    (hextract : extract_legacy codec.loads max_depth request = .ok legacy) :
    RebuildsLeaves (legacy.canonical_rebuild shared codec) request.flattened legacy.view := by
  refine ⟨?_, fun segments flat h => (canonical_rebuild_eq_ok hdistinct hextract h).2⟩
  obtain ⟨hextraction, -⟩ := extract_legacy_eq_ok hextract
  obtain ⟨writes, -, hrebuild, -, -, -, hsame, -⟩ :=
    CanonicalExtraction.rebuild_writes codec (distinct_flattened hdistinct) hextraction rfl
  rw [segments_view, LegacyResponsesExtraction.canonical_rebuild, LegacyResponsesExtraction.segments, hrebuild,
    hsame rfl, parse_responses_eq_ok]
  exact EngineResponsesRequest.validated_dumped _

/-- A request in canonical form that is rebuilt has as many tools. -/
theorem length_items_rebuilt (hdistinct : Distinct request.dumped)
    (hextract : extract_legacy codec.loads max_depth request = .ok legacy)
    (h : legacy.canonical_rebuild shared codec segments = .ok flat) : flat.items.length = request.items.length := by
  have hcount := (canonical_rebuild_eq_ok hdistinct hextract h).2.tool_count
  rwa [EngineResponsesRequest.dumped, EngineResponsesRequest.dumped, ResponsesBody.itemsOf_tools,
    ResponsesBody.itemsOf_tools, List.length_map, List.length_map, length_items_flattened] at hcount

/-- The envelopes are put back around the canonical form that is rebuilt. -/
theorem legacy_rebuild_eq (hdistinct : Distinct request.dumped)
    (hextract : extract_legacy codec.loads max_depth request = .ok legacy)
    (h : legacy.canonical_rebuild shared codec segments = .ok flat) :
    legacy.rebuild shared codec segments = .ok (flat.enveloped request.nested_tools) := by
  obtain ⟨-, hnested⟩ := extract_legacy_eq_ok hextract
  rw [LegacyResponsesExtraction.rebuild, hnested]
  refine rebuild_eq_ok h fun index hindex => ?_
  rw [length_items_rebuilt hdistinct hextract h]
  exact nested_tools_lt hindex

theorem nested_tools_rebuilt (hdistinct : Distinct request.dumped)
    (hextract : extract_legacy codec.loads max_depth request = .ok legacy)
    (h : legacy.canonical_rebuild shared codec segments = .ok flat) :
    (flat.enveloped request.nested_tools).nested_tools = request.nested_tools :=
  nested_tools_congr (is_nested_enveloped (length_items_rebuilt hdistinct hextract h))

/-- The diagnostic paths of a request are given by the ways to its leaves. -/
theorem paths_eq (extracted : ExtractedRequest) :
    extracted.paths = (extracted.leaves.map Leaf.path).zipIdx.map fun entry =>
    (ExtractedRequest.segment_id entry.2, extracted.original_path entry.1) := by
  rw [ExtractedRequest.paths, List.zipIdx_map, List.map_map]
  rfl

theorem retexted_toLeaf (leaves : List RootedLeaf) (texts : List Text) : (retexted leaves texts).map RootedLeaf.toLeaf =
    ((leaves.map RootedLeaf.toLeaf).zip texts).map fun entry => { entry.1 with text := entry.2 } := by
  rw [retexted, List.map_map, List.zip_map_left, List.map_map]
  rfl

theorem diagnostic_path_of_texts {extracted : ExtractedRequest} {texts : List Text}
    (hlength : extracted.leaves.length = texts.length) (id : String) :
    (extracted.with_texts texts).diagnostic_path id = extracted.diagnostic_path id := by
  have hleaves : (extracted.with_texts texts).leaves.map Leaf.path = extracted.leaves.map Leaf.path := by
    conv_rhs => rw [← List.map_fst_zip hlength.le]
    rw [ExtractedRequest.with_texts, List.map_map, List.map_map]
    rfl
  rw [ExtractedRequest.diagnostic_path, ExtractedRequest.diagnostic_path, paths_eq, paths_eq, hleaves]
  rfl

/-- The view of a request with other texts has these texts. -/
theorem view_with_texts (legacy : LegacyResponsesExtraction) (data : JsonValue) (texts : List Text) :
    (legacy.with_texts data texts).view = legacy.view.with_texts texts := by
  rw [LegacyResponsesExtraction.view, ExtractedRequest.with_texts, LegacyResponsesExtraction.view]
  dsimp only
  rw [← retexted_toLeaf]
  rfl

theorem diagnostic_path_with_texts {data : JsonValue} {texts : List Text}
    (hlength : legacy.extracted.leaves.length = texts.length) (id : String) :
    (legacy.with_texts data texts).view.diagnostic_path id = legacy.view.diagnostic_path id := by
  rw [view_with_texts]
  refine diagnostic_path_of_texts ?_ id
  rw [LegacyResponsesExtraction.view, List.length_map, hlength]

/-- A rebuild that is accepted comes from one of the canonical form. -/
theorem legacy_rebuild_eq_ok {rebuilt : OpenAIResponsesRequest shared} (hdistinct : Distinct request.dumped)
    (hextract : extract_legacy codec.loads max_depth request = .ok legacy) :
    legacy.rebuild shared codec segments = .ok rebuilt ↔ ∃ flat,
      legacy.canonical_rebuild shared codec segments = .ok flat ∧ rebuilt = flat.enveloped request.nested_tools := by
  constructor
  · intro h
    obtain ⟨flat, hflat, -⟩ := bind_eq_ok.mp h
    rw [legacy_rebuild_eq hdistinct hextract hflat] at h
    exact ⟨flat, hflat, (Except.ok.inj h).symm⟩
  · rintro ⟨flat, hflat, rfl⟩
    exact legacy_rebuild_eq hdistinct hextract hflat

theorem legacy_rebuild_extracted (hdistinct : Distinct request.dumped)
    (hextract : extract_legacy codec.loads max_depth request = .ok legacy) :
    legacy.rebuild shared codec legacy.segments = .ok request := by
  have hsame := (rebuilds_leaves hdistinct hextract).unchanged
  rw [segments_view] at hsame
  rw [legacy_rebuild_eq hdistinct hextract hsame, enveloped_flattened]

theorem ids_of_legacy_rebuild {rebuilt : OpenAIResponsesRequest shared}
    (h : legacy.rebuild shared codec segments = .ok rebuilt) :
    segments.map Prod.fst = legacy.segments.map Prod.fst := by
  obtain ⟨flat, hflat, -⟩ := bind_eq_ok.mp h
  exact ids_of_rebuild hflat

theorem length_of_ids {extraction : CanonicalExtraction}
    (h : segments.map Prod.fst = extraction.segments.map Prod.fst) :
    extraction.leaves.length = (segments.map Prod.snd).length := by
  have hids := congrArg List.length h
  rw [List.length_map, List.length_map, CanonicalExtraction.length_segments] at hids
  rw [List.length_map, hids]

/-- The texts of a request that is rebuilt are those that it was rebuilt from. -/
theorem extract_legacy_rebuilt {rebuilt : OpenAIResponsesRequest shared} (hdistinct : Distinct request.dumped)
    (hextract : extract_legacy codec.loads max_depth request = .ok legacy)
    (h : legacy.rebuild shared codec segments = .ok rebuilt) :
    extract_legacy codec.loads max_depth rebuilt =
      .ok (legacy.with_texts rebuilt.flattened.dumped (segments.map Prod.snd)) := by
  obtain ⟨flat, hflat, rfl⟩ := (legacy_rebuild_eq_ok hdistinct hextract).mp h
  obtain ⟨-, hnested⟩ := extract_legacy_eq_ok hextract
  rw [extract_legacy, canonical_responses_dumped, flattened_enveloped,
    (canonical_rebuild_eq_ok hdistinct hextract hflat).1, nested_tools_rebuilt hdistinct hextract hflat, ← hnested]
  rfl

/-- At the legacy boundary, too, rebuilding a request with other texts gives one from which these
    texts are extracted, each with the diagnostic path of the old one. It is accepted whenever its
    canonical form is, and the old texts give the old request. -/
theorem legacy_rebuild_then_extract (hdistinct : Distinct request.dumped)
    (hextract : extract_legacy codec.loads max_depth request = .ok legacy) :
    RebuildsLeaves (legacy.canonical_rebuild shared codec) request.flattened legacy.view ∧
      legacy.rebuild shared codec legacy.segments = .ok request ∧
      ∀ segments, ((∃ rebuilt, legacy.rebuild shared codec segments = .ok rebuilt) ↔
          ∃ flat, legacy.canonical_rebuild shared codec segments = .ok flat) ∧
        ∀ rebuilt, legacy.rebuild shared codec segments = .ok rebuilt →
          extract_legacy codec.loads max_depth rebuilt =
            .ok (legacy.with_texts rebuilt.flattened.dumped (segments.map Prod.snd)) ∧
          ∀ id, (legacy.with_texts rebuilt.flattened.dumped (segments.map Prod.snd)).view.diagnostic_path id =
            legacy.view.diagnostic_path id := by
  refine ⟨rebuilds_leaves hdistinct hextract, legacy_rebuild_extracted hdistinct hextract,
    fun segments => ⟨⟨?_, ?_⟩, ?_⟩⟩
  · rintro ⟨rebuilt, hrebuilt⟩
    obtain ⟨flat, hflat, -⟩ := (legacy_rebuild_eq_ok hdistinct hextract).mp hrebuilt
    exact ⟨flat, hflat⟩
  · rintro ⟨flat, hflat⟩
    exact ⟨_, legacy_rebuild_eq hdistinct hextract hflat⟩
  · intro rebuilt hrebuilt
    exact ⟨extract_legacy_rebuilt hdistinct hextract hrebuilt,
      diagnostic_path_with_texts (length_of_ids (ids_of_legacy_rebuild hrebuilt))⟩

end round_trip

/-- What is extracted of a request with one nested tool. -/
def described_legacy : LegacyResponsesExtraction where
  extracted := {
    protocol_kind := .responses
    request := (described_request "Ada" (by decide)).flattened.dumped
    leaves := described_extraction.leaves.map fun leaf => ⟨leaf, none⟩
    attachments_present := false
    max_depth := 32 }
  nested_tools := [0]

theorem extract_described :
    extract_legacy name_codec.loads 32 (described_request "Ada" (by decide)) = .ok described_legacy := by
  rw [extract_legacy, canonical_responses_dumped]
  rfl

theorem legacy_rebuild_then_extract_described :
    ∃ rebuilt, described_legacy.rebuild ⟨fun _ => true, fun _ => true⟩ name_codec
        [("s0", "hi".toList), ("s1", "<NAME>".toList)] = .ok rebuilt ∧
      extract_legacy name_codec.loads 32 rebuilt =
        .ok (described_legacy.with_texts rebuilt.flattened.dumped ["hi".toList, "<NAME>".toList]) := by
  have hdistinct : Distinct (described_request "Ada" (by decide)).dumped := distinct_of_keys (by decide +kernel)
  obtain ⟨-, -, hrebuild⟩ := legacy_rebuild_then_extract hdistinct extract_described
  obtain ⟨haccepted, hextracted⟩ := hrebuild [("s0", "hi".toList), ("s1", "<NAME>".toList)]
  have hflat : ∃ flat, described_legacy.canonical_rebuild ⟨fun _ => true, fun _ => true⟩ name_codec
      [("s0", "hi".toList), ("s1", "<NAME>".toList)] = .ok flat := ⟨_, rfl⟩
  obtain ⟨rebuilt, hrebuilt⟩ := haccepted.mpr hflat
  exact ⟨rebuilt, hrebuilt, (hextracted rebuilt hrebuilt).1⟩

end pii_engine.request_segments
