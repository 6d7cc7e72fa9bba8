import PiiEngine.Policy.Reported
import PiiEngine.Requests.Legacy

open checked collections

namespace pii_engine.request_segments
open policy

variable {loads : Loads} {max_depth : Nat} {request : SupportedRequest} {segments : SegmentRequest}
  {extracted : ExtractedRequest} {result : PolicyResult} {ρ : Type} {path : List PathPart}

theorem bounded_accepted_iff {part : PathPart} : part.bounded.Accepted ↔ part ≠ .key "" := by
  cases part with
  | index n => exact ⟨fun _ => by simp, fun _ => Nat.min_le_right n 10000000⟩
  | key name =>
    have hlength : (String.ofList (name.toList.take 128)).length = min 128 name.length := by
      rw [String.length_ofList, List.length_take, String.length_toList]
    rw [PathPart.bounded, PathPart.Accepted, hlength, ne_eq, PathPart.key.injEq, ← String.length_eq_zero_iff]
    omega

/-- Bounding a path makes it acceptable unless an empty key remains in it. -/
theorem bounded_path_accepted_iff : PathAccepted (bounded_path path) ↔ .key "" ∉ path.take 64 := by
  have hlength : (bounded_path path).length ≤ 64 := by
    rw [bounded_path, List.length_map]
    exact List.length_take_le 64 path
  rw [PathAccepted, and_iff_right hlength, bounded_path, List.forall_mem_map]
  simp only [bounded_accepted_iff]
  constructor
  · intro hparts hmem
    exact hparts _ hmem rfl
  · rintro hempty part hpart rfl
    exact hempty hpart

theorem text_segments_ids {entries : List (String × Text)} {built : List TextSegment}
    (h : List.Forall₂ (fun entry segment => text_segment entry = .ok segment) entries built) :
    built.map TextSegment.id = entries.map Prod.fst := by
  induction h with
  | nil => rfl
  | cons hentry _ ih =>
    rw [List.map_cons, List.map_cons, ih]
    unfold text_segment at hentry
    split at hentry
    · cases hentry
      rfl
    · cases hentry

/-- The segments that are analyzed are those that were extracted. -/
theorem legacy_segments_ids (h : legacy_segments loads max_depth request = .ok (segments, extracted)) :
    segments.segments.map TextSegment.id = extracted.paths.map Prod.fst := by
  unfold legacy_segments at h
  obtain ⟨found, -, h⟩ := bind_eq_ok.mp h
  obtain ⟨built, hbuilt, h⟩ := bind_eq_ok.mp h
  split at h
  · cases h
    have hids : extracted.segments.map Prod.fst = extracted.paths.map Prod.fst := by
      rw [ExtractedRequest.segments, ExtractedRequest.paths, List.map_map, List.map_map]
      rfl
    rw [← hids]
    exact text_segments_ids (mapM_eq_ok.mp hbuilt)
  · cases h

theorem diagnostic_path_of_mem {id : String} (h : id ∈ extracted.paths.map Prod.fst) :
    ∃ path, extracted.diagnostic_path id = some path := by
  cases hlookup : extracted.paths.lookup id with
  | some path => exact ⟨path, hlookup⟩
  | none =>
    rw [List.lookup_eq_none_iff] at hlookup
    obtain ⟨entry, hentry, rfl⟩ := List.mem_map.mp h
    simpa using hlookup entry hentry

theorem located_path_eq_ok {id : String} :
    located_path extracted id = .ok path ↔ extracted.diagnostic_path id = some path := by
  unfold located_path
  cases extracted.diagnostic_path id <;> simp [pure, Except.pure, throw, throwThe, MonadExceptOf.throw]

theorem locate_eq_ok {α : Type} {segment_id : α → String} {item : α} {located : Located α} :
    locate extracted segment_id item = .ok located ↔ ∃ path,
      extracted.diagnostic_path (segment_id item) = some path ∧ located = ⟨item, bounded_path path⟩ := by
  unfold locate
  rw [bind_eq_ok]
  simp only [located_path_eq_ok, pure, Except.pure, Except.ok.injEq]
  exact exists_congr fun path => and_congr_right fun _ => eq_comm

/-- Evidence about extracted segments is located. -/
theorem locate_total {α : Type} (segment_id : α → String) {items : List α}
    (h : ∀ item ∈ items, ∃ path, extracted.diagnostic_path (segment_id item) = some path) :
    ∃ located, items.mapM (locate extracted segment_id) = .ok located := by
  refine mapM_total fun item hitem => ?_
  obtain ⟨path, hpath⟩ := h item hitem
  exact ⟨_, locate_eq_ok.mpr ⟨path, hpath, rfl⟩⟩

/-- Located evidence has acceptable paths exactly when no empty key leads to it. -/
theorem located_accepted_iff {α : Type} {segment_id : α → String} {items : List α} {located : List (Located α)}
    (h : items.mapM (locate extracted segment_id) = .ok located) :
    (∀ item ∈ located, PathAccepted item.path) ↔ ∀ id ∈ items.map segment_id, ∀ path,
      extracted.diagnostic_path id = some path → .key "" ∉ path.take 64 := by
  rw [mapM_eq_ok] at h
  constructor
  · intro haccepted id hid path hpath
    obtain ⟨item, hitem, rfl⟩ := List.mem_map.mp hid
    obtain ⟨found, hfound, hlocated⟩ := exists_right_of_forall₂ h hitem
    obtain ⟨path', hpath', rfl⟩ := locate_eq_ok.mp hlocated
    rw [hpath, Option.some.injEq] at hpath'
    subst hpath'
    exact bounded_path_accepted_iff.mp (haccepted _ hfound)
  · intro hkeys found hfound
    obtain ⟨item, hitem, hlocated⟩ := exists_left_of_forall₂ h hfound
    obtain ⟨path, hpath, rfl⟩ := locate_eq_ok.mp hlocated
    exact bounded_path_accepted_iff.mpr (hkeys _ (List.mem_map_of_mem hitem) path hpath)

theorem evaluation_diagnostics_isOk_iff {restored : LegacyResult ρ} :
    (∃ diagnostics, evaluation_diagnostics restored = .ok diagnostics) ↔
      (∀ item ∈ restored.logical_detections, PathAccepted item.path) ∧
        ∀ item ∈ restored.effective_regions, PathAccepted item.path := by
  unfold evaluation_diagnostics
  constructor
  · rintro ⟨diagnostics, h⟩
    obtain ⟨⟨⟩, hlogical, h⟩ := bind_eq_ok.mp h
    obtain ⟨⟨⟩, hregions, -⟩ := bind_eq_ok.mp h
    simp only [forM_eq_ok, raiseIf_eq_ok, not_not] at hlogical hregions
    exact ⟨hlogical, hregions⟩
  · rintro ⟨hlogical, hregions⟩
    refine ⟨_, bind_eq_ok.mpr ⟨(), ?_, bind_eq_ok.mpr ⟨(), ?_, rfl⟩⟩⟩
    · simpa only [forM_eq_ok, raiseIf_eq_ok, not_not] using hlogical
    · simpa only [forM_eq_ok, raiseIf_eq_ok, not_not] using hregions

/-- Every segment that a result reports has a path, once it is one of those that were extracted. -/
theorem reported_paths (h : PolicyService.Diagnostics.About (extracted.paths.map Prod.fst)
    ⟨result.logical_detections, result.effective_regions, result.diagnostics_truncated⟩) :
    ∀ id ∈ reported_ids result, ∃ path, extracted.diagnostic_path id = some path := by
  intro id hid
  apply diagnostic_path_of_mem
  cases List.mem_append.mp hid with
  | inl hlogical =>
    obtain ⟨detection, hdetection, rfl⟩ := List.mem_map.mp hlogical
    exact h.logical detection hdetection
  | inr hmem =>
    obtain ⟨region, hregion, rfl⟩ := List.mem_map.mp hmem
    exact h.regions region hregion

/-- What a restored result is made of. -/
theorem restore_legacy_result_eq_ok {rebuild : List TextSegment → Except AnalysisError ρ} {restored : LegacyResult ρ}
    (h : restore_legacy_result rebuild result extracted = .ok restored) :
    result.logical_detections.mapM (locate extracted (·.segment_id)) = .ok restored.logical_detections ∧
      result.effective_regions.mapM (locate extracted (·.segment_id)) = .ok restored.effective_regions ∧
      (restored.diagnostics_truncated = true ↔ result.diagnostics_truncated = true ∨
        ∃ id ∈ reported_ids result, ∃ path, extracted.diagnostic_path id = some path ∧ bounded_path path ≠ path) := by
  obtain ⟨rebuilt, -, h⟩ := bind_eq_ok.mp h
  obtain ⟨reported, hreported, h⟩ := bind_eq_ok.mp h
  obtain ⟨logical, hlogical, h⟩ := bind_eq_ok.mp h
  obtain ⟨regions, hregions, h⟩ := bind_eq_ok.mp h
  cases h
  refine ⟨hlogical, hregions, ?_⟩
  simp only [Bool.or_eq_true, List.any_eq_true, decide_eq_true_eq]
  refine or_congr_right ?_
  rw [mapM_eq_ok] at hreported
  constructor
  · rintro ⟨path, hpath, hshortened⟩
    obtain ⟨id, hid, hlocated⟩ := exists_left_of_forall₂ hreported hpath
    exact ⟨id, hid, path, located_path_eq_ok.mp hlocated, hshortened⟩
  · rintro ⟨id, hid, path, hpath, hshortened⟩
    obtain ⟨path', hpath', hlocated⟩ := exists_right_of_forall₂ hreported hid
    rw [located_path_eq_ok, hpath, Option.some.injEq] at hlocated
    exact ⟨path', hpath', hlocated ▸ hshortened⟩

/-- Restoring fails only where the request cannot be rebuilt. -/
theorem restore_legacy_result_eq_error {rebuild : List TextSegment → Except AnalysisError ρ} {e : AnalysisError}
    (hpaths : ∀ id ∈ reported_ids result, ∃ path, extracted.diagnostic_path id = some path)
    (h : restore_legacy_result rebuild result extracted = .error e) :
    ∃ output, result.segments = some output ∧ rebuild output = .error e := by
  obtain ⟨reported, hreported⟩ := mapM_total (f := located_path extracted) fun id hid => by
    obtain ⟨path, hpath⟩ := hpaths id hid
    exact ⟨path, located_path_eq_ok.mpr hpath⟩
  obtain ⟨logical, hlogical⟩ := locate_total LogicalDetectionData.segment_id
    fun item (hitem : item ∈ result.logical_detections) =>
      hpaths _ (List.mem_append_left _ (List.mem_map_of_mem hitem))
  obtain ⟨regions, hregions⟩ := locate_total EffectiveRegionData.segment_id
    fun item (hitem : item ∈ result.effective_regions) =>
      hpaths _ (List.mem_append_right _ (List.mem_map_of_mem hitem))
  unfold restore_legacy_result at h
  rw [hreported, hlogical, hregions] at h
  cases bind_eq_error.mp h with
  | inr hrest =>
    obtain ⟨_, -, hrest⟩ := hrest
    cases hrest
  | inl hrebuild =>
    cases houtput : result.segments with
    | none =>
      rw [houtput] at hrebuild
      cases hrebuild
    | some output =>
      rw [houtput] at hrebuild
      refine ⟨output, rfl, ?_⟩
      cases hrun : rebuild output with
      | error e' =>
        simp only [Option.mapM_some, hrun, Functor.map, Except.map, Except.error.injEq] at hrebuild
        rw [hrebuild]
      | ok value =>
        simp only [Option.mapM_some, hrun, Functor.map, Except.map] at hrebuild
        cases hrebuild

/-- The reported paths of a legacy evaluation fit the contract of Studio, and its response can
    be built, exactly when no reported text lies under an empty object key among the first 64
    parts of its path. A path that was shortened is always flagged, and restoring fails only
    where the request cannot be rebuilt. -/
theorem legacy_paths_accepted_iff (hlegacy : legacy_segments loads max_depth request = .ok (segments, extracted))
    {service : PolicyService} {env : Environment}
    (hresult : service.analyze_segments env segments true none = .ok result)
    (rebuild : List TextSegment → Except AnalysisError ρ) :
    (∀ e, restore_legacy_result rebuild result extracted = .error e →
      ∃ output, result.segments = some output ∧ rebuild output = .error e) ∧
    ∀ restored, restore_legacy_result rebuild result extracted = .ok restored →
      ((∀ item ∈ restored.logical_detections, PathAccepted item.path) ∧
        (∀ item ∈ restored.effective_regions, PathAccepted item.path) ∧
        ((∃ id ∈ reported_ids result, ∃ path, extracted.diagnostic_path id = some path ∧ bounded_path path ≠ path) →
          restored.diagnostics_truncated = true) ∧
        (∃ diagnostics, evaluation_diagnostics restored = .ok diagnostics) ↔
      ∀ id ∈ reported_ids result, ∀ path, extracted.diagnostic_path id = some path → .key "" ∉ path.take 64) := by
  have habout := PolicyService.analyze_segments_about hresult
  rw [legacy_segments_ids hlegacy] at habout
  refine ⟨fun e => restore_legacy_result_eq_error (reported_paths habout), ?_⟩
  intro restored hrestored
  obtain ⟨hlogical, hregions, htruncated⟩ := restore_legacy_result_eq_ok hrestored
  have hflagged : (∃ id ∈ reported_ids result, ∃ path, extracted.diagnostic_path id = some path ∧
      bounded_path path ≠ path) → restored.diagnostics_truncated = true := fun h => htruncated.mpr (Or.inr h)
  rw [evaluation_diagnostics_isOk_iff, located_accepted_iff hlogical, located_accepted_iff hregions, reported_ids,
    List.forall_mem_append]
  constructor
  · rintro ⟨hlogical_keys, hregion_keys, -, -⟩
    exact ⟨hlogical_keys, hregion_keys⟩
  · rintro ⟨hlogical_keys, hregion_keys⟩
    exact ⟨hlogical_keys, hregion_keys, hflagged, hlogical_keys, hregion_keys⟩

/-- A request from its extraction to its restored result, with what it is made of. -/
def studio_evaluation (loads : Loads) (max_depth : Nat) (service : PolicyService) (env : Environment)
    (rebuild : List TextSegment → Except AnalysisError ρ) (request : SupportedRequest) :
    Except AnalysisError (ExtractedRequest × PolicyResult × LegacyResult ρ) := do
  let (segments, extracted) ← legacy_segments loads max_depth request
  let result ← service.analyze_segments env segments true none
  let restored ← restore_legacy_result rebuild result extracted
  pure (extracted, result, restored)

/-- A tool call with one argument, an address. -/
def lookup_call (key : String) : SupportedRequest := .mcp (.dict [
  ("jsonrpc", .string "2.0"), ("id", .int 1), ("method", .string "tools/call"),
  ("params", .dict [("name", .string "lookup"), ("arguments", .dict [(key, .string "a@example.com")])])])

/-- The evaluation of the call where the address is found. -/
def lookup_evaluation (key : String) : Except AnalysisError (ExtractedRequest × PolicyResult × LegacyResult Unit) :=
  studio_evaluation (fun _ => none) 32 PolicyService.test_service
    (PolicyService.test_environment [⟨"EMAIL_ADDRESS", 0, 13, some (9 / 10), "deterministic"⟩]) (fun _ => .ok ())
    (lookup_call key)

/-- A named argument is reported with its path. -/
theorem legacy_paths_accepted_query : ∃ extracted result restored,
    lookup_evaluation "query" = .ok (extracted, result, restored) ∧
      restored.logical_detections.map Located.path = [[.key "params", .key "arguments", .key "query"]] ∧
      ∃ diagnostics, evaluation_diagnostics restored = .ok diagnostics := by
  have hrun : (lookup_evaluation "query").toOption.any (fun (extracted, result, restored) =>
      restored.logical_detections.map Located.path = [[.key "params", .key "arguments", .key "query"]] ∧
        ∀ id ∈ reported_ids result, ∀ path ∈ extracted.diagnostic_path id, .key "" ∉ path.take 64) = true := by
    decide +kernel
  cases hevaluation : lookup_evaluation "query" with
  | error e =>
    rw [hevaluation] at hrun
    cases hrun
  | ok evaluated =>
    obtain ⟨extracted, result, restored⟩ := evaluated
    rw [hevaluation] at hrun
    obtain ⟨hpaths, hkeys⟩ := of_decide_eq_true hrun
    obtain ⟨⟨segments, extracted'⟩, hlegacy, hrest⟩ := bind_eq_ok.mp hevaluation
    obtain ⟨result', hresult, hrest⟩ := bind_eq_ok.mp hrest
    obtain ⟨restored', hrestored, hrest⟩ := bind_eq_ok.mp hrest
    cases hrest
    have haccepted := ((legacy_paths_accepted_iff hlegacy hresult (fun _ => .ok ())).2 restored hrestored).mpr hkeys
    exact ⟨extracted, result, restored, rfl, hpaths, haccepted.2.2.2⟩

/-- An argument under the empty key is reported with a path that the contract rejects, and the
    response of the evaluation cannot be built. -/
theorem legacy_paths_rejected_empty_key : ∃ extracted result restored,
    lookup_evaluation "" = .ok (extracted, result, restored) ∧
      (∃ item ∈ restored.logical_detections, ¬ PathAccepted item.path) ∧
      ∀ diagnostics, evaluation_diagnostics restored ≠ .ok diagnostics := by
  have hrun : (lookup_evaluation "").toOption.any (fun (_, _, restored) =>
      ∃ item ∈ restored.logical_detections, ¬ PathAccepted item.path) = true := by
    decide +kernel
  cases hevaluation : lookup_evaluation "" with
  | error e =>
    rw [hevaluation] at hrun
    cases hrun
  | ok evaluated =>
    obtain ⟨extracted, result, restored⟩ := evaluated
    rw [hevaluation] at hrun
    obtain ⟨item, hitem, hrejected⟩ := of_decide_eq_true hrun
    refine ⟨extracted, result, restored, rfl, ⟨item, hitem, hrejected⟩, fun diagnostics hdiagnostics => ?_⟩
    exact hrejected ((evaluation_diagnostics_isOk_iff.mp ⟨diagnostics, hdiagnostics⟩).1 item hitem)

end pii_engine.request_segments
