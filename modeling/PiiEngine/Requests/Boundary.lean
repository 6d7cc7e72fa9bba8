import PiiEngine.Requests.LegacyRebuild
import PiiEngine.Requests.Paths

open checked collections prefixes

namespace pii_engine.request_segments

section structure_walk
variable {writes : Writes}

/-- A value with some of its strings written over. -/
def Rewritten (value value' : JsonValue) : Prop :=
  ∃ (writes : Writes) (path : List PathPart), writes.OnlyTexts ∧ value' = overwrite writes path value

theorem isContainer_overwrite (htexts : writes.OnlyTexts) (path : List PathPart) (value : JsonValue) :
    isContainer (overwrite writes path value) = isContainer value := by
  cases value with
  | string text =>
    obtain ⟨text', h⟩ := overwrite_text htexts path text
    rw [h]
    rfl
  | _ => rfl

theorem children_overwrite (htexts : writes.OnlyTexts) (path : List PathPart) (value : JsonValue) :
    List.Forall₂ Rewritten (children value) (children (overwrite writes path value)) := by
  cases value with
  | string text =>
    obtain ⟨text', h⟩ := overwrite_text htexts path text
    rw [h]
    exact .nil
  | list items =>
    rw [overwrite_list, children, children, List.forall₂_iff_get]
    refine ⟨(List.length_mapIdx).symm, fun index hindex hindex' => ?_⟩
    exact ⟨writes, path ++ [.index index], htexts, by simp⟩
  | dict entries =>
    rw [overwrite, overwrite_entries_eq, children, children, List.map_map, List.forall₂_map_left_iff,
      List.forall₂_map_right_iff, List.forall₂_same]
    intro entry _
    exact ⟨writes, path ++ [.key entry.1], htexts, rfl⟩
  | _ => exact .nil

theorem rewritten_isContainer {value value' : JsonValue} (h : Rewritten value value') :
    isContainer value = true ↔ isContainer value' = true := by
  obtain ⟨writes, path, htexts, rfl⟩ := h
  rw [isContainer_overwrite htexts]

/-- The walk over a document does not depend on its texts. -/
theorem structure_walk_rewritten {max_depth fuel nodes containers : Nat} {pending pending' : List (JsonValue × Nat)}
    (h : List.Forall₂ (fun entry entry' => Rewritten entry.1 entry'.1 ∧ entry.2 = entry'.2) pending pending') :
    structure_walk max_depth fuel nodes containers pending' =
      structure_walk max_depth fuel nodes containers pending := by
  induction fuel generalizing nodes containers pending pending' with
  | zero => rfl
  | succ fuel ih =>
    cases h with
    | nil => rfl
    | @cons entry entry' pending pending' hentry hpending =>
      obtain ⟨current, depth⟩ := entry
      obtain ⟨current', depth'⟩ := entry'
      obtain ⟨⟨writes, path, htexts, rfl⟩, rfl⟩ := hentry
      have hchildren := children_overwrite htexts path current
      have hempty : children (overwrite writes path current) = [] ↔ children current = [] := by
        rw [← List.length_eq_zero_iff, ← hchildren.length_eq, List.length_eq_zero_iff]
      rw [structure_walk, structure_walk, isContainer_overwrite htexts]
      by_cases hdepth : max_depth < depth
      · rw [dif_pos hdepth, dif_pos hdepth]
      · rw [dif_neg hdepth, dif_neg hdepth]
        split
        · exact ih hpending
        · split
          · rfl
          · have hfull : (children (overwrite writes path current) ≠ [] ∧ depth = max_depth) ↔
                (children current ≠ [] ∧ depth = max_depth) := and_congr_left' (not_congr hempty)
            by_cases hdeepest : children current ≠ [] ∧ depth = max_depth
            · rw [dif_pos hdeepest, dif_pos (hfull.mpr hdeepest)]
            · rw [dif_neg hdeepest, dif_neg (mt hfull.mp hdeepest), hchildren.length_eq]
              refine ih (List.rel_append (List.rel_reverse ?_) hpending)
              have hcontainers : List.Forall₂ Rewritten ((children current).filter isContainer)
                  ((children (overwrite writes path current)).filter isContainer) :=
                List.rel_filter (fun _ _ h => rewritten_isContainer h) hchildren
              rw [List.forall₂_map_left_iff, List.forall₂_map_right_iff]
              exact hcontainers.imp fun _ _ h => ⟨h, rfl⟩

theorem overwrite_eq_null_iff (htexts : writes.OnlyTexts) (path : List PathPart) (value : JsonValue) :
    overwrite writes path value = .null ↔ value = .null := by
  cases value with
  | string text =>
    obtain ⟨text', h⟩ := overwrite_text htexts path text
    rw [h]
    simp
  | null => exact Iff.of_eq rfl
  | _ => simp [overwrite]

theorem validate_json_structure_some {max_depth : Nat} {max_nodes : Option Nat} {value : JsonValue}
    (h : value ≠ .null) :
    validate_json_structure max_depth max_nodes (some value) = (do
      let nodes ← structure_walk max_depth (MAX_ADMITTED_JSON_NODES + 2) 1 0 [(value, 0)]
      match max_nodes with
      | none => pure ()
      | some maximum =>
        if h : maximum < nodes then
          throw (nodes_exceeded "MCP metadata contains too many JSON nodes" .pii_engine true h)
        else pure ()) := by
  cases value with
  | null => exact absurd rfl h
  | _ => rfl

theorem validate_json_structure_overwrite (htexts : writes.OnlyTexts) (max_depth : Nat) (max_nodes : Option Nat)
    (path : List PathPart) (value : Option JsonValue) :
    validate_json_structure max_depth max_nodes (value.map (overwrite writes path)) =
      validate_json_structure max_depth max_nodes value := by
  cases value with
  | none => rfl
  | some value =>
    rw [Option.map_some]
    by_cases hnull : value = .null
    · rw [hnull]
      rfl
    · have hwalk : structure_walk max_depth (MAX_ADMITTED_JSON_NODES + 2) 1 0 [(overwrite writes path value, 0)] =
          structure_walk max_depth (MAX_ADMITTED_JSON_NODES + 2) 1 0 [(value, 0)] :=
        structure_walk_rewritten (.cons ⟨⟨writes, path, htexts, rfl⟩, rfl⟩ .nil)
      have hwritten : overwrite writes path value ≠ .null := mt (overwrite_eq_null_iff htexts path value).mp hnull
      rw [validate_json_structure_some hnull, validate_json_structure_some hwritten, hwalk]

/-- The structure of a call does not depend on its texts. -/
theorem validate_request_structure_overwrite (hspares : Spares writes) (max_depth : Nat) (data : JsonValue) :
    validate_request_structure max_depth (.mcp (overwrite writes [] data)) =
      validate_request_structure max_depth (.mcp data) := by
  have hmeta :
      ((data.get? "params").map (overwrite writes ([] ++ [.key "params"]))).bind (fun params => params.get? "_meta") =
      (data.get? "params").bind fun params => params.get? "_meta" := by
    cases data.get? "params" with
    | none => rfl
    | some params =>
      rw [Option.map_some, Option.bind_some, Option.bind_some, get?_overwrite]
      cases params.get? "_meta" with
      | none => rfl
      | some value =>
        rw [Option.map_some, overwrite_of_none]
        exact fun rest => hspares.controls _ rfl
  have harguments : ((data.get? "params").map (overwrite writes ([] ++ [.key "params"]))).bind
      (fun params => params.get? "arguments") =
        ((data.get? "params").bind fun params => params.get? "arguments").map
          (overwrite writes ([] ++ [.key "params"] ++ [.key "arguments"])) := by
    cases data.get? "params" with
    | none => rfl
    | some params => rw [Option.map_some, Option.bind_some, Option.bind_some, get?_overwrite]
  rw [validate_request_structure, validate_request_structure, get?_overwrite, hmeta, harguments,
    validate_json_structure_overwrite hspares.texts]

end structure_walk

/-- The endpoints whose requests are canonical at the legacy boundary, too. -/
inductive CanonicalKind where
  | chat
  | mcp

namespace CanonicalKind

def protocol_kind : CanonicalKind → ProtocolKind
  | .chat => .chat
  | .mcp => .mcp

def request_kind : CanonicalKind → SegmentKind
  | .chat => .chat
  | .mcp => .mcp

def model : CanonicalKind → String
  | .chat => "EngineChatRequest"
  | .mcp => "EngineMcpRequest"

def supported : CanonicalKind → JsonValue → SupportedRequest
  | .chat => .chat
  | .mcp => .mcp

end CanonicalKind

/-- The checks of the request models: those of the Responses fields, and whether a document is
    valid for another endpoint. -/
structure BoundaryChecks extends SharedChecks where
  valid : CanonicalKind → JsonValue → Bool

/-- A provider request of the legacy boundary. Only Responses requests differ from their canonical
    form there; the others stand as their validated JSON. -/
inductive ProviderRequest (checks : BoundaryChecks) where
  | canonical (kind : CanonicalKind) (data : JsonValue) (valid : checks.valid kind data = true)
  | responses (request : OpenAIResponsesRequest checks.toSharedChecks)

/-- What is extracted of a provider request, with what rebuilds it. -/
inductive LegacyExtraction where
  | canonical (kind : CanonicalKind) (extraction : CanonicalExtraction)
  | responses (legacy : LegacyResponsesExtraction)

namespace ProviderRequest
variable {checks : BoundaryChecks}

def supported : ProviderRequest checks → SupportedRequest
  | .canonical kind data _ => kind.supported data
  | .responses request => .responses request.dumped

def dumped : ProviderRequest checks → JsonValue
  | .canonical _ data _ => data
  | .responses request => request.dumped

/-- `parse_request` of a canonical request. -/
def parse_request (checks : BoundaryChecks) (kind : CanonicalKind) (_ : ProtocolKind) (data : JsonValue) :
    Except AnalysisError (ProviderRequest checks) :=
  if h : checks.valid kind data = true then .ok (.canonical kind data h)
  else .error (.validation_error kind.model "invalid field")

/-- `_extract` -/
def extract (loads : Loads) (max_depth : Nat) (request : ProviderRequest checks) :
    Except AnalysisError LegacyExtraction := do
  validate_request_structure max_depth request.supported
  match request with
  | .canonical kind data _ => (extract_request loads max_depth kind.protocol_kind data).map (.canonical kind)
  | .responses request => (extract_legacy loads max_depth request).map .responses

end ProviderRequest

namespace LegacyExtraction

/-- The texts with their ways, as they are shown at the boundary. -/
def view : LegacyExtraction → ExtractedRequest
  | .canonical kind extraction => {
    request_kind := kind.request_kind
    leaves := extraction.leaves.map RootedLeaf.toLeaf
    attachments_present := extraction.attachments_present }
  | .responses legacy => legacy.view

def rebuild (checks : BoundaryChecks) (codec : Codec) (extraction : LegacyExtraction)
    (segments : List (String × Text)) :
    Except AnalysisError (ProviderRequest checks) :=
  match extraction with
  | .canonical kind extraction =>
    extraction.rebuild codec.loads codec.dumps (ProviderRequest.parse_request checks kind) segments
  | .responses legacy => (legacy.rebuild checks.toSharedChecks codec segments).map .responses

end LegacyExtraction

section boundary
variable {checks : BoundaryChecks} {codec : Codec} {max_depth : Nat} {request rebuilt : ProviderRequest checks}
  {extraction : LegacyExtraction} {segments : List (String × Text)}

/-- The texts that are shown are those of the boundary's extraction. -/
theorem extract_provider_view (loads : Loads) (max_depth : Nat) (request : ProviderRequest checks) :
    (request.extract loads max_depth).map LegacyExtraction.view = extract loads max_depth request.supported := by
  cases request with
  | canonical kind data valid =>
    cases kind with
    | chat =>
      change ((extract_request loads max_depth .chat data).map _).map LegacyExtraction.view =
        (chat_leaves loads max_depth data >>= fun leaves => _)
      rw [← extract_chat]
      cases hextract : extract_request loads max_depth .chat data with
      | error e => rfl
      | ok extraction =>
        obtain ⟨-, -, hpresent, -⟩ := extract_request_eq_ok hextract
        exact congrArg (fun present =>
          Except.ok (ExtractedRequest.mk .chat (extraction.leaves.map RootedLeaf.toLeaf) present []))
          hpresent
    | mcp =>
      change Except.map LegacyExtraction.view (validate_request_structure max_depth (.mcp data) >>= fun _ =>
          (extract_request loads max_depth .mcp data).map (.canonical .mcp)) =
        (validate_request_structure max_depth (.mcp data) >>= fun _ => mcp_leaves max_depth data >>= fun leaves => _)
      have hleaves : (extract_request loads max_depth .mcp data).map _ = mcp_leaves max_depth data := extract_mcp data
      rw [← hleaves]
      cases validate_request_structure max_depth (.mcp data) with
      | error e => rfl
      | ok _ =>
        cases hextract : extract_request loads max_depth .mcp data with
        | error e => rfl
        | ok extraction =>
          obtain ⟨-, -, hpresent, -⟩ := extract_request_eq_ok hextract
          exact congrArg (fun present =>
            Except.ok (ExtractedRequest.mk .mcp (extraction.leaves.map RootedLeaf.toLeaf) present []))
            hpresent
  | responses inner =>
    rw [ProviderRequest.supported, ← extract_view]
    change Except.map LegacyExtraction.view ((extract_legacy loads max_depth inner).map .responses) = _
    cases extract_legacy loads max_depth inner with
    | error e => rfl
    | ok legacy => rfl

/-- A request that is rebuilt is extracted again, with the texts it was rebuilt from. -/
theorem extract_rebuilt (hdistinct : Distinct request.dumped)
    (hextract : request.extract codec.loads max_depth = .ok extraction)
    (hrebuild : extraction.rebuild checks codec segments = .ok rebuilt) :
    ∃ extraction', rebuilt.extract codec.loads max_depth = .ok extraction' ∧
      extraction'.view = extraction.view.with_texts (segments.map Prod.snd) := by
  cases request with
  | canonical kind data valid =>
    obtain ⟨_, hstructure, hextract⟩ := bind_eq_ok.mp hextract
    obtain ⟨canonical, hcanonical, rfl⟩ := map_eq_ok.mp hextract
    obtain ⟨writes, hspares, hrebuilt, hextracted, -⟩ :=
      CanonicalExtraction.rebuild_writes codec hdistinct hcanonical (ids_of_rebuild hrebuild)
    rw [LegacyExtraction.rebuild, hrebuilt, ProviderRequest.parse_request] at hrebuild
    split at hrebuild
    case isFalse => cases hrebuild
    case isTrue hvalid =>
      cases hrebuild
      refine ⟨_, bind_eq_ok.mpr ⟨(), ?_, map_eq_ok.mpr ⟨_, hextracted, rfl⟩⟩, ?_⟩
      · cases kind with
        | chat => rfl
        | mcp => exact (validate_request_structure_overwrite hspares max_depth data).trans hstructure
      · rw [LegacyExtraction.view, LegacyExtraction.view, ExtractedRequest.with_texts]
        dsimp only
        rw [← retexted_toLeaf]
        rfl
  | responses inner =>
    obtain ⟨_, hstructure, hextract⟩ := bind_eq_ok.mp hextract
    obtain ⟨legacy, hlegacy, rfl⟩ := map_eq_ok.mp hextract
    obtain ⟨rebuilt, hlegacy_rebuild, rfl⟩ := map_eq_ok.mp hrebuild
    have hextracted := extract_legacy_rebuilt hdistinct hlegacy hlegacy_rebuild
    refine ⟨_, bind_eq_ok.mpr ⟨(), rfl, map_eq_ok.mpr ⟨_, hextracted, rfl⟩⟩, ?_⟩
    rw [LegacyExtraction.view, LegacyExtraction.view, view_with_texts]

/-- The segments of a canonical request are shown as they are. -/
theorem canonical_view_segments (kind : CanonicalKind) (canonical : CanonicalExtraction) :
    (LegacyExtraction.canonical kind canonical).view.segments = canonical.segments := by
  rw [ExtractedRequest.segments, LegacyExtraction.view, List.zipIdx_map, List.map_map]
  rfl

/-- With the texts that were extracted the request itself is rebuilt. -/
theorem rebuild_extracted (hdistinct : Distinct request.dumped)
    (hextract : request.extract codec.loads max_depth = .ok extraction) :
    extraction.rebuild checks codec extraction.view.segments = .ok request := by
  cases request with
  | canonical kind data valid =>
    obtain ⟨_, hstructure, hextract⟩ := bind_eq_ok.mp hextract
    obtain ⟨canonical, hcanonical, rfl⟩ := map_eq_ok.mp hextract
    obtain ⟨writes, -, hrebuilt, -, -, -, hsame, -⟩ :=
      CanonicalExtraction.rebuild_writes codec hdistinct hcanonical rfl
    rw [LegacyExtraction.rebuild, canonical_view_segments, hrebuilt, hsame rfl, ProviderRequest.parse_request]
    exact dif_pos valid
  | responses inner =>
    obtain ⟨_, hstructure, hextract⟩ := bind_eq_ok.mp hextract
    obtain ⟨legacy, hlegacy, rfl⟩ := map_eq_ok.mp hextract
    rw [LegacyExtraction.rebuild, LegacyExtraction.view, segments_view, legacy_rebuild_extracted hdistinct hlegacy]
    rfl

end boundary

/-- Translate a provider request of Studio once at the legacy boundary, with what rebuilds it. -/
def provider_segments {checks : BoundaryChecks} (loads : Loads) (max_depth : Nat) (request : ProviderRequest checks) :
    Except AnalysisError (SegmentRequest × LegacyExtraction) := do
  let extraction ← request.extract loads max_depth
  let segments ← extraction.view.segments.mapM text_segment
  if h : (segments.map TextSegment.id).Nodup then
    pure (.ofTexts extraction.view.request_kind .request segments extraction.view.attachments_present h, extraction)
  else throw (.validation_error "SegmentRequest" "segment IDs must be unique")

/-- The rebuild that restores a result. -/
def LegacyExtraction.rebuild_output (checks : BoundaryChecks) (codec : Codec) (extraction : LegacyExtraction)
    (output : List TextSegment) : Except AnalysisError (ProviderRequest checks) :=
  extraction.rebuild checks codec (output.map fun segment => (segment.id, segment.text))

section segments
variable {checks : BoundaryChecks} {codec : Codec} {max_depth : Nat} {request rebuilt : ProviderRequest checks}
  {extraction : LegacyExtraction} {segments : SegmentRequest}

/-- The segments are those of the boundary. -/
theorem provider_segments_view (loads : Loads) (max_depth : Nat) (request : ProviderRequest checks) :
    (provider_segments loads max_depth request).map (fun entry => (entry.1, entry.2.view)) =
      legacy_segments loads max_depth request.supported := by
  rw [legacy_segments, ← extract_provider_view, provider_segments]
  cases request.extract loads max_depth with
  | error e => rfl
  | ok extraction =>
    change Except.map _ (extraction.view.segments.mapM text_segment >>= _) =
      (extraction.view.segments.mapM text_segment >>= _)
    cases extraction.view.segments.mapM text_segment with
    | error e => rfl
    | ok built =>
      by_cases h : (built.map TextSegment.id).Nodup
      · change Except.map _ (dite _ _ _) = dite _ _ _
        rw [dif_pos h, dif_pos h]
        rfl
      · change Except.map _ (dite _ _ _) = dite _ _ _
        rw [dif_neg h, dif_neg h]
        rfl

theorem ids_eq_range (extracted : ExtractedRequest) :
    extracted.segments.map Prod.fst = (List.range' 0 extracted.leaves.length).map ExtractedRequest.segment_id := by
  rw [ExtractedRequest.segments, List.map_map, ← List.zipIdx_map_snd, List.map_map]
  rfl

theorem texts_eq (extracted : ExtractedRequest) : extracted.segments.map Prod.snd = extracted.leaves.map Leaf.text := by
  rw [ExtractedRequest.segments, List.map_map]
  conv_rhs => rw [← List.zipIdx_map_fst 0 extracted.leaves, List.map_map]
  rfl

theorem length_leaves_of_ids {extracted : ExtractedRequest} {entries : List (String × Text)}
    (hids : entries.map Prod.fst = extracted.segments.map Prod.fst) :
    extracted.leaves.length = (entries.map Prod.snd).length := by
  have hcount := congrArg List.length hids
  rw [ids_eq_range, List.length_map, List.length_map, List.length_range'] at hcount
  rw [List.length_map, hcount]

/-- The segments of a request with other texts are the old identities with these texts. -/
theorem segments_with_texts {extracted : ExtractedRequest} {entries : List (String × Text)}
    (hids : entries.map Prod.fst = extracted.segments.map Prod.fst) :
    (extracted.with_texts (entries.map Prod.snd)).segments = entries := by
  have hlength := length_leaves_of_ids hids
  have hleaves : (extracted.with_texts (entries.map Prod.snd)).leaves.length = extracted.leaves.length := by
    rw [ExtractedRequest.with_texts, List.length_map, List.length_zip]
    omega
  have hfst : (extracted.with_texts (entries.map Prod.snd)).segments.map Prod.fst = entries.map Prod.fst := by
    rw [hids, ids_eq_range, ids_eq_range, hleaves]
  have hsnd : (extracted.with_texts (entries.map Prod.snd)).segments.map Prod.snd = entries.map Prod.snd := by
    rw [texts_eq, ExtractedRequest.with_texts, List.map_map]
    exact List.map_snd_zip hlength.ge
  exact (List.zip_of_prod hfst hsnd).trans (List.zip_of_prod rfl rfl).symm

/-- Segments are built of their identities and texts again. -/
theorem text_segments_of_output (output : List TextSegment) :
    (output.map fun segment => (segment.id, segment.text)).mapM text_segment = .ok output := by
  induction output with
  | nil => rfl
  | cons segment output ih =>
    have hsegment : text_segment (segment.id, segment.text) = .ok segment := dif_pos segment.id_ok
    rw [List.map_cons, List.mapM_cons, hsegment, ih]
    rfl

theorem pairs_of_text_segments {entries : List (String × Text)} {built : List TextSegment}
    (h : entries.mapM text_segment = .ok built) : (built.map fun segment => (segment.id, segment.text)) = entries := by
  have hbuilt := mapM_eq_ok.mp h
  clear h
  induction hbuilt with
  | nil => rfl
  | cons hentry _ ih =>
    rw [List.map_cons, ih]
    unfold text_segment at hentry
    split at hentry
    · cases hentry
      rfl
    · cases hentry

theorem provider_segments_eq_ok (h : provider_segments codec.loads max_depth request = .ok (segments, extraction)) :
    request.extract codec.loads max_depth = .ok extraction ∧
      extraction.view.segments.mapM text_segment = .ok segments.segments ∧
      segments.request_kind = extraction.view.request_kind ∧
      segments.attachments_present = extraction.view.attachments_present := by
  obtain ⟨found, hfound, h⟩ := bind_eq_ok.mp h
  obtain ⟨built, hbuilt, h⟩ := bind_eq_ok.mp h
  split at h
  · cases h
    exact ⟨hfound, hbuilt, rfl, rfl⟩
  · cases h

theorem provider_segments_of_extract {built : List TextSegment}
    (hextract : request.extract codec.loads max_depth = .ok extraction)
    (hbuilt : extraction.view.segments.mapM text_segment = .ok built) (hnodup : (built.map TextSegment.id).Nodup) :
    provider_segments codec.loads max_depth request =
      .ok (.ofTexts extraction.view.request_kind .request built extraction.view.attachments_present hnodup,
        extraction) :=
  bind_eq_ok.mpr ⟨_, hextract, bind_eq_ok.mpr ⟨_, hbuilt, dif_pos hnodup⟩⟩

theorem ids_of_provider_rebuild {entries : List (String × Text)}
    (h : extraction.rebuild checks codec entries = .ok rebuilt) :
    entries.map Prod.fst = extraction.view.segments.map Prod.fst := by
  cases extraction with
  | canonical kind canonical =>
    rw [canonical_view_segments]
    exact ids_of_rebuild h
  | responses legacy =>
    obtain ⟨inner, hinner, -⟩ := map_eq_ok.mp h
    rw [LegacyExtraction.view, segments_view]
    exact ids_of_legacy_rebuild hinner

/-- A result is restored to a request from which exactly its segments are extracted again: they
    are what the provider gets to see, at the paths of the old texts. A result that changes no
    text is restored to the request itself. -/
theorem restored_request_segments {result : policy.PolicyResult} {restored : LegacyResult (ProviderRequest checks)}
    (hdistinct : Distinct request.dumped)
    (hsegments : provider_segments codec.loads max_depth request = .ok (segments, extraction))
    (hrestored : restore_legacy_result (extraction.rebuild_output checks codec) result extraction.view = .ok restored)
    (hrebuilt : restored.request = some rebuilt) :
    ∃ output h again, result.segments = some output ∧
      provider_segments codec.loads max_depth rebuilt =
        .ok (.ofTexts segments.request_kind .request output segments.attachments_present h, again) ∧
      (∀ id, again.view.diagnostic_path id = extraction.view.diagnostic_path id) ∧
      (output = segments.segments → rebuilt = request) := by
  obtain ⟨hextract, hbuilt, hkind, hattachments⟩ := provider_segments_eq_ok hsegments
  obtain ⟨request', hrequest', hrest⟩ := bind_eq_ok.mp hrestored
  obtain ⟨reported, -, hrest⟩ := bind_eq_ok.mp hrest
  obtain ⟨logical, -, hrest⟩ := bind_eq_ok.mp hrest
  obtain ⟨regions, -, hrest⟩ := bind_eq_ok.mp hrest
  cases hrest
  cases houtput : result.segments with
  | none =>
    rw [houtput] at hrequest'
    cases hrequest'
    cases hrebuilt
  | some output =>
    have hrebuild : extraction.rebuild_output checks codec output = .ok rebuilt := by
      rw [houtput] at hrequest'
      obtain ⟨built, hbuilt', hsome⟩ := map_eq_ok.mp hrequest'
      rw [hbuilt', Option.some.inj (hsome.trans hrebuilt)]
    have hids := ids_of_provider_rebuild hrebuild
    obtain ⟨again, hagain, hview⟩ := extract_rebuilt hdistinct hextract hrebuild
    have hoccurs : again.view.segments = output.map fun segment => (segment.id, segment.text) := by
      rw [hview, segments_with_texts hids]
    have hnodup : (output.map TextSegment.id).Nodup := by
      have hold := segments.ids_nodup
      rw [text_segments_ids (mapM_eq_ok.mp hbuilt), ← hids, List.map_map] at hold
      exact hold
    have hagain_segments : again.view.segments.mapM text_segment = .ok output := by
      rw [hoccurs, text_segments_of_output]
    have hresult := provider_segments_of_extract hagain hagain_segments hnodup
    refine ⟨output, hnodup, again, rfl, ?_, ?_, ?_⟩
    · rw [hresult, hkind, hattachments, hview]
      rfl
    · intro id
      rw [hview]
      exact diagnostic_path_of_texts (length_leaves_of_ids hids) id
    · rintro rfl
      have hsame := rebuild_extracted hdistinct hextract
      rw [← pairs_of_text_segments hbuilt] at hsame
      exact Except.ok.inj (hrebuild.symm.trans hsame)

end segments

def described_checks : BoundaryChecks where
  fields := fun _ => true
  parameters := fun _ => true
  valid := fun _ _ => true

theorem description_length : "Ada".length ≤ 20000 := by decide

def described_provider : ProviderRequest described_checks := .responses (described_request "Ada" description_length)

theorem extract_described_provider :
    described_provider.extract name_codec.loads 32 = .ok (.responses described_legacy) :=
  bind_eq_ok.mpr ⟨(), rfl, map_eq_ok.mpr ⟨_, extract_described, rfl⟩⟩

theorem input_id : isSegmentId "s0" := by decide

theorem description_id : isSegmentId "s1" := by decide

def described_segments (description : Text) : List TextSegment :=
  [⟨"s0", "hi".toList, input_id⟩, ⟨"s1", description, description_id⟩]

/-- The masked description is what is extracted of the request that is restored. -/
theorem restored_request_segments_described : ∃ (rebuilt : ProviderRequest described_checks) (again : LegacyExtraction),
    ∃ h, provider_segments name_codec.loads 32 rebuilt =
      .ok (.ofTexts .responses .request (described_segments "<NAME>".toList) false h, again) := by
  have hdistinct : Distinct described_provider.dumped := distinct_of_keys (by decide +kernel)
  have hsegments := provider_segments_of_extract extract_described_provider
    (text_segments_of_output (described_segments "Ada".toList)) (by decide)
  obtain ⟨rebuilt, hrebuilt⟩ : ∃ rebuilt, (LegacyExtraction.responses described_legacy).rebuild_output described_checks
      name_codec (described_segments "<NAME>".toList) = .ok rebuilt := ⟨_, rfl⟩
  have hrestored : restore_legacy_result
      ((LegacyExtraction.responses described_legacy).rebuild_output described_checks name_codec)
      { decision := .apply_actions, remote_allowed := true, segments := some (described_segments "<NAME>".toList) }
      (LegacyExtraction.responses described_legacy).view = .ok ⟨some rebuilt, [], [], false⟩ :=
    bind_eq_ok.mpr ⟨some rebuilt, map_eq_ok.mpr ⟨rebuilt, hrebuilt, rfl⟩, rfl⟩
  obtain ⟨output, h, again, houtput, hagain, -⟩ := restored_request_segments hdistinct hsegments hrestored rfl
  cases houtput
  exact ⟨rebuilt, again, h, hagain⟩

end pii_engine.request_segments
