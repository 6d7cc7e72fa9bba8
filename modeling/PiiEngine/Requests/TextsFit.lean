import PiiEngine.Requests.Retexts

open checked collections prefixes

namespace pii_engine.request_segments

def ProviderRequest.protocol_kind {checks : BoundaryChecks} : ProviderRequest checks → ProtocolKind
  | .canonical kind _ _ => kind.protocol_kind
  | .responses _ => .responses

section boundary
variable {others : BoundaryChecks} {codec : Codec} {max_depth : Nat} {segments : List (String × Text)}

theorem exists_retexts {kind : ProtocolKind} {data : JsonValue} {extraction : CanonicalExtraction}
    (hdistinct : Distinct data) (hextract : extract_request codec.loads max_depth kind data = .ok extraction)
    (hids : segments.map Prod.fst = extraction.segments.map Prod.fst) :
    ∃ writes, Retexts codec.loads max_depth kind data extraction (segments.map Prod.snd) writes ∧
      DiffersOnlyAt (extraction.leaves.map fun leaf => leaf.path) data (overwrite writes [] data) ∧
      ∀ {ρ : Type} (parse_request : ProtocolKind → JsonValue → Except AnalysisError ρ),
        extraction.rebuild codec.loads codec.dumps parse_request segments =
          parse_request kind (overwrite writes [] data) := by
  obtain ⟨writes, hspares, hrebuild, hextracted, -, -, -, hplaced⟩ :=
    CanonicalExtraction.rebuild_writes codec hdistinct hextract hids
  refine ⟨writes, ⟨hspares, hextracted, hplaced⟩, ?_, hrebuild⟩
  refine blank_overwrite hspares.texts data [] _ fun rest hwritten => List.any_eq_true.mpr ?_
  have hsound := sound_of_extract (fun _ _ hloads => codec.loads_distinct hloads) hdistinct hextract
  obtain ⟨leaf, hleaf, -, hpath⟩ | ⟨leaf, hleaf, hroot⟩ := hplaced _ hwritten
  · refine ⟨leaf.path, List.mem_map.mpr ⟨leaf, hleaf, rfl⟩, decide_eq_true ?_⟩
    rw [hpath]
    exact List.prefix_refl _
  · obtain ⟨-, -, -, nested, -, -, -, hpath, -⟩ := hsound.encoded leaf hleaf _ hroot
    exact ⟨leaf.path, List.mem_map.mpr ⟨leaf, hleaf, rfl⟩, decide_eq_true ⟨nested, hpath.symm⟩⟩

/-- The texts of a canonical request that is rebuilt are checked again. -/
theorem canonical_rebuild_iff {kind : CanonicalKind} {data : JsonValue} {canonical : CanonicalExtraction}
    (hblind : TextBlind codec.loads max_depth others) (hdistinct : Distinct data)
    (hextract : extract_request codec.loads max_depth kind.protocol_kind data = .ok canonical)
    (hvalid : others.with_texts.valid kind data = true)
    (hids : segments.map Prod.fst = canonical.segments.map Prod.fst) :
    (∃ rebuilt, (LegacyExtraction.canonical kind canonical).rebuild others.with_texts codec segments = .ok rebuilt) ↔
      TextsFit kind.protocol_kind data (canonical.leaves.map RootedLeaf.toLeaf) (segments.map Prod.snd) := by
  obtain ⟨writes, hretexts, hdiffers, hrebuild⟩ := exists_retexts hdistinct hextract hids
  change (others.valid kind data && texts_ok kind.protocol_kind data) = true at hvalid
  rw [Bool.and_eq_true, texts_ok, Bool.and_eq_true] at hvalid
  have hchecks : others.with_texts.valid kind (overwrite writes [] data) =
      texts_ok kind.protocol_kind (overwrite writes [] data) := by
    change (others.valid kind _ && texts_ok kind.protocol_kind _) = _
    rw [hblind.valid hextract hdiffers, hvalid.1, Bool.true_and]
  have haccepted : (∃ rebuilt, (LegacyExtraction.canonical kind canonical).rebuild others.with_texts codec segments =
      .ok rebuilt) ↔ texts_ok kind.protocol_kind (overwrite writes [] data) = true := by
    rw [LegacyExtraction.rebuild, hrebuild, ProviderRequest.parse_request, ← hchecks]
    constructor
    · rintro ⟨rebuilt, hrebuilt⟩
      by_contra hinvalid
      rw [dif_neg hinvalid] at hrebuilt
      cases hrebuilt
    · intro hvalid
      exact ⟨_, dif_pos hvalid⟩
  rw [haccepted, texts_ok, Bool.and_eq_true,
    hretexts.lengths_ok_iff hdistinct hextract (length_of_ids hids) hvalid.2.1]
  cases kind with
  | chat =>
    have hcontents := hretexts.contents_iff hdistinct hextract
    exact ⟨fun h => ⟨h.1, fun _ => hcontents.mp h.2⟩, fun h => ⟨h.lengths, hcontents.mpr (h.contents rfl)⟩⟩
  | mcp => exact ⟨fun h => ⟨h.1, fun hkind => by cases hkind⟩, fun h => ⟨h.lengths, rfl⟩⟩

/-- The texts of a legacy Responses request that is rebuilt are checked again in its canonical form. -/
theorem responses_rebuild_iff {request : OpenAIResponsesRequest others.with_texts.toSharedChecks}
    {legacy : LegacyResponsesExtraction} (hblind : TextBlind codec.loads max_depth others)
    (hdistinct : Distinct request.dumped) (hextract : extract_legacy codec.loads max_depth request = .ok legacy)
    (hids : segments.map Prod.fst = legacy.extracted.segments.map Prod.fst) :
    (∃ rebuilt, (LegacyExtraction.responses legacy).rebuild others.with_texts codec segments = .ok rebuilt) ↔
      TextsFit .responses request.dumped (legacy.extracted.leaves.map RootedLeaf.toLeaf) (segments.map Prod.snd) := by
  obtain ⟨hextraction, -⟩ := extract_legacy_eq_ok hextract
  have hflat := distinct_flattened hdistinct
  obtain ⟨writes, hretexts, hdiffers, hrebuild⟩ := exists_retexts hflat hextraction hids
  have haccepted : (∃ rebuilt, (LegacyExtraction.responses legacy).rebuild others.with_texts codec segments =
      .ok rebuilt) ↔ ∃ flat, legacy.canonical_rebuild others.with_texts.toSharedChecks codec segments = .ok flat := by
    constructor
    · rintro ⟨rebuilt, hrebuilt⟩
      obtain ⟨again, hagain, -⟩ := map_eq_ok.mp hrebuilt
      obtain ⟨flat, hflat, -⟩ := (legacy_rebuild_eq_ok hdistinct hextract).mp hagain
      exact ⟨flat, hflat⟩
    · rintro ⟨flat, hflat⟩
      exact ⟨_, map_eq_ok.mpr ⟨_, legacy_rebuild_eq hdistinct hextract hflat, rfl⟩⟩
  rw [haccepted, LegacyResponsesExtraction.canonical_rebuild, hrebuild]
  simp only [parse_responses_eq_ok]
  rw [hretexts.validated_iff hblind hextraction hdiffers,
    hretexts.lengths_ok_iff hflat hextraction (length_of_ids hids) (lengths_ok_dumped _)]
  exact ⟨fun h => ⟨h, fun hkind => by cases hkind⟩, fun h => h.lengths⟩

/-- A request is rebuilt with new texts exactly if they fit its models. -/
theorem rebuild_accepted_iff {request : ProviderRequest others.with_texts} {extraction : LegacyExtraction}
    (hblind : TextBlind codec.loads max_depth others) (hdistinct : Distinct request.dumped)
    (hextract : request.extract codec.loads max_depth = .ok extraction)
    (hids : segments.map Prod.fst = extraction.view.segments.map Prod.fst) :
    (∃ rebuilt, extraction.rebuild others.with_texts codec segments = .ok rebuilt) ↔
      TextsFit request.protocol_kind request.dumped extraction.view.leaves (segments.map Prod.snd) := by
  cases request with
  | canonical kind data valid =>
    obtain ⟨_, -, hextract⟩ := bind_eq_ok.mp hextract
    obtain ⟨canonical, hcanonical, rfl⟩ := map_eq_ok.mp hextract
    rw [canonical_view_segments] at hids
    exact canonical_rebuild_iff hblind hdistinct hcanonical valid hids
  | responses inner =>
    obtain ⟨_, -, hextract⟩ := bind_eq_ok.mp hextract
    obtain ⟨legacy, hlegacy, rfl⟩ := map_eq_ok.mp hextract
    rw [LegacyExtraction.view, segments_view] at hids
    exact responses_rebuild_iff hblind hdistinct hlegacy hids

/-- Any texts fit a request without bounded texts and without messages that depend on theirs. -/
theorem TextsFit.of_free {kind : ProtocolKind} {data : JsonValue} {leaves : List Leaf}
    (hlengths : ∀ leaf ∈ leaves, max_length kind leaf.path = none)
    (hcontents : ∀ message ∈ JsonValue.itemsOf (data.get? "messages"), needs_text message = false) (texts : List Text) :
    TextsFit kind data leaves texts where
  lengths entry hentry maximum hmaximum := by
    rw [hlengths entry.1 (List.of_mem_zip hentry).1] at hmaximum
    cases hmaximum
  contents _ entry hentry hneeds := by
    rw [hcontents entry.1 (List.fst_mem_of_mem_zipIdx hentry)] at hneeds
    cases hneeds

end boundary

end pii_engine.request_segments
