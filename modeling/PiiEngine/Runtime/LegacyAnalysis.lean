import PiiEngine.Policy.Reported
import PiiEngine.Policy.Substitution
import PiiEngine.Requests.TextsFit
import PiiEngine.Runtime.Cache

open checked collections
open pii_engine.config pii_engine.policy pii_engine.request_segments

namespace pii_engine.runtime

/-- A call of the legacy boundary with a provider request. -/
structure LegacyCall (checks : BoundaryChecks) where
  caller : Caller
  request : ProviderRequest checks
  session_key : Option Text
  request_scoped : Bool := false
  observation : Observation

namespace LegacyCall
variable {checks : BoundaryChecks}

/-- `legacy_segments` of the request, in the scope of the call. -/
def legacy_segments (call : LegacyCall checks) (loads : Loads) (max_depth : Nat) :
    Except AnalysisError (SegmentRequest × LegacyExtraction) := do
  let (segments, extraction) ← provider_segments loads max_depth call.request
  let scope : Scope := if call.request_scoped ∨ call.caller = .studio then .request else .session
  pure (.ofTexts segments.request_kind scope segments.segments segments.attachments_present segments.ids_nodup,
    extraction)

/-- The call that analyzes the segments. -/
def segment_call (call : LegacyCall checks) (segments : SegmentRequest) : Call where
  caller := call.caller
  request := segments
  session_key := call.session_key
  observation := call.observation

end LegacyCall

namespace EngineRuntime

/-- Adapt legacy transport, then use one bounded segment runtime. The result comes with what it
    restores. -/
def analyze {checks : BoundaryChecks} (runtime : EngineRuntime) (codec : Codec) (call : LegacyCall checks)
    (reachable : Bool) (write : WriteOutcome) (store : Option SessionDecision) :
    Except AnalysisError (PolicyResult × LegacyResult (ProviderRequest checks)) × Option SessionDecision :=
  match call.legacy_segments codec.loads runtime.policy.settings.max_nesting_depth with
  | .error e => (.error e, store)
  | .ok (segments, extraction) =>
    let (analyzed, store) := runtime.analyze_segments (call.segment_call segments) reachable write store
    (analyzed.bind fun result =>
      (restore_legacy_result (extraction.rebuild_output checks codec) result extraction.view).map (result, ·), store)

section answers
variable {runtime : EngineRuntime} {call : Call} {store : Option SessionDecision} {result : PolicyResult}

/-- A result is about the segments of its request. -/
structure AboutSegments (request : SegmentRequest) (result : PolicyResult) : Prop where
  segments : ∀ output ∈ result.segments, output.map TextSegment.id = request.segments.map TextSegment.id
  evidence : PolicyService.Diagnostics.About (request.segments.map TextSegment.id)
    ⟨result.logical_detections, result.effective_regions, result.diagnostics_truncated⟩

theorem run_analysis_about {placeholder_namespace : Option Text}
    (h : runtime.run_analysis call placeholder_namespace = .ok result) : AboutSegments call.request result := by
  obtain ⟨⟨⟩, -, h⟩ := bind_eq_ok.mp h
  obtain ⟨analyzed, hanalyzed, h⟩ := bind_eq_ok.mp h
  have habout : AboutSegments call.request analyzed :=
    ⟨PolicyService.analyze_segments_ids hanalyzed, PolicyService.analyze_segments_about hanalyzed⟩
  rw [← Except.ok.inj h]
  split
  · exact ⟨habout.segments, habout.evidence⟩
  · exact habout

theorem result_from_cache_about (request : SegmentRequest) (stored : SessionDecision) :
    AboutSegments request (result_from_cache request stored) := by
  refine ⟨?_, ⟨by simp [result_from_cache], by simp [result_from_cache]⟩⟩
  intro output houtput
  rw [result_from_cache] at houtput
  split at houtput
  · cases houtput
  · rw [← Option.some.inj houtput]

theorem AboutSegments.cached {request : SegmentRequest} (h : AboutSegments request result)
    (cached : Option SessionDecision) : AboutSegments request (apply_cached_decision result cached) := by
  cases cached with
  | none => exact h
  | some stored =>
    rw [apply_cached_decision_some]
    split
    · exact ⟨h.segments, h.evidence⟩
    · exact h

/-- Whatever answers a call is about the segments of its request. -/
theorem analyze_segments_about {reachable : Bool} {write : WriteOutcome}
    (h : (runtime.analyze_segments call reachable write store).1 = .ok result) :
    AboutSegments call.request result := by
  obtain ⟨ns, cached, record, -, hrespond⟩ := analyze_segments_eq_ok h
  cases respond_eq_ok hrespond with
  | inl hfinal =>
    obtain ⟨stored, -, -, rfl, -⟩ := hfinal
    exact result_from_cache_about call.request stored
  | inr hcurrent =>
    obtain ⟨-, analyzed, hanalysis, rfl, -⟩ := hcurrent
    exact (run_analysis_about hanalysis).cached cached

end answers

section restored
variable {others : BoundaryChecks} {codec : Codec} {max_depth : Nat} {request : ProviderRequest others.with_texts}
  {segments : SegmentRequest} {extraction : LegacyExtraction} {result : PolicyResult}

/-- A result is restored exactly if its texts fit the models of the request. -/
theorem restored_iff (hblind : TextBlind codec.loads max_depth others) (hdistinct : Distinct request.dumped)
    (hsegments : provider_segments codec.loads max_depth request = .ok (segments, extraction))
    (habout : AboutSegments segments result) :
    (∃ restored, restore_legacy_result (extraction.rebuild_output others.with_texts codec) result extraction.view =
      .ok restored) ↔
      ∀ output ∈ result.segments, TextsFit request.protocol_kind request.dumped extraction.view.leaves
        (output.map TextSegment.text) := by
  obtain ⟨hextract, hbuilt, -⟩ := provider_segments_eq_ok hsegments
  have hlegacy : request_segments.legacy_segments codec.loads max_depth request.supported =
      .ok (segments, extraction.view) := by
    rw [← provider_segments_view, hsegments]
    rfl
  have hids : segments.segments.map TextSegment.id = extraction.view.segments.map Prod.fst :=
    text_segments_ids (mapM_eq_ok.mp hbuilt)
  have hrebuilt : ∀ output ∈ result.segments,
      (∃ rebuilt, extraction.rebuild_output others.with_texts codec output = .ok rebuilt) ↔
        TextsFit request.protocol_kind request.dumped extraction.view.leaves (output.map TextSegment.text) := by
    intro output houtput
    have hkept : (output.map fun segment => (segment.id, segment.text)).map Prod.fst =
        extraction.view.segments.map Prod.fst := by
      rw [List.map_map, ← hids, ← habout.segments output houtput]
      rfl
    have haccepted := rebuild_accepted_iff hblind hdistinct hextract hkept
    rw [List.map_map] at haccepted
    exact haccepted
  constructor
  · rintro ⟨restored, hrestored⟩ output houtput
    obtain ⟨rebuilt, hrebuild, -⟩ := bind_eq_ok.mp hrestored
    rw [Option.mem_def.mp houtput] at hrebuild
    obtain ⟨again, hagain, -⟩ := map_eq_ok.mp hrebuild
    exact (hrebuilt output houtput).mp ⟨again, hagain⟩
  · intro hfits
    have hpaths := reported_paths (legacy_segments_ids hlegacy ▸ habout.evidence)
    cases hrestored : restore_legacy_result (extraction.rebuild_output others.with_texts codec) result
        extraction.view with
    | ok restored => exact ⟨restored, rfl⟩
    | error e =>
      obtain ⟨output, houtput, hrefused⟩ := restore_legacy_result_eq_error hpaths hrestored
      obtain ⟨rebuilt, hok⟩ := (hrebuilt output houtput).mpr (hfits output houtput)
      rw [hrefused] at hok
      cases hok

end restored

/-- A legacy request whose segments are analyzed is answered with their decision exactly if the new
    texts fit its models: none is too long for its field, and no assistant message loses the last
    text it depends on. The session ends the same way in both cases. -/
theorem analyze_agrees_iff {others : BoundaryChecks} (runtime : EngineRuntime) (codec : Codec)
    (call : LegacyCall others.with_texts) (reachable : Bool) (write : WriteOutcome) (store : Option SessionDecision)
    (segments : SegmentRequest) (extraction : LegacyExtraction) (result : PolicyResult)
    (hblind : TextBlind codec.loads runtime.policy.settings.max_nesting_depth others)
    (hdistinct : Distinct call.request.dumped)
    (hsegments : call.legacy_segments codec.loads runtime.policy.settings.max_nesting_depth =
      .ok (segments, extraction))
    (hresult : (runtime.analyze_segments (call.segment_call segments) reachable write store).1 = .ok result) :
    ((∃ answer, (runtime.analyze codec call reachable write store).1 = .ok answer ∧
        answer.1.decision = result.decision) ↔
      ∀ output ∈ result.segments, TextsFit call.request.protocol_kind call.request.dumped extraction.view.leaves
        (output.map TextSegment.text)) ∧
    (runtime.analyze codec call reachable write store).2 =
      (runtime.analyze_segments (call.segment_call segments) reachable write store).2 := by
  have hanswer : runtime.analyze codec call reachable write store =
      ((restore_legacy_result (extraction.rebuild_output others.with_texts codec) result extraction.view).map
          (result, ·),
        (runtime.analyze_segments (call.segment_call segments) reachable write store).2) := by
    rw [analyze, hsegments]
    dsimp only
    rw [hresult]
    rfl
  obtain ⟨⟨provided, again⟩, hprovided, hscoped⟩ := bind_eq_ok.mp hsegments
  cases hscoped
  have habout := analyze_segments_about hresult
  rw [hanswer, ← restored_iff hblind hdistinct hprovided ⟨habout.segments, habout.evidence⟩]
  refine ⟨?_, rfl⟩
  constructor
  · rintro ⟨answer, hanswered, -⟩
    obtain ⟨restored, hrestored, -⟩ := map_eq_ok.mp hanswered
    exact ⟨restored, hrestored⟩
  · rintro ⟨restored, hrestored⟩
    exact ⟨_, map_eq_ok.mpr ⟨restored, hrestored, rfl⟩, rfl⟩

/-- The runtime of the unit tests, which removes what its policy does not name. -/
def redacting_runtime : EngineRuntime := default_runtime .redact

/-- A Chat request with one message. -/
def one_message (fields : List (String × JsonValue)) : JsonValue :=
  .dict [("model", .string "test"), ("messages", .list [.dict fields])]

/-- A call of the adapter with such a request, where the analyzer finds a name. -/
def message_call (fields : List (String × JsonValue))
    (valid : described_checks.with_texts.valid .chat (one_message fields) = true) :
    LegacyCall described_checks.with_texts where
  caller := .adapter
  request := .canonical .chat (one_message fields) valid
  session_key := none
  observation := { PolicyService.test_environment [⟨"PERSON", 0, 3, some (9 / 10), "ner"⟩] with }

theorem described_checks_blind (loads : Loads) (max_depth : Nat) : TextBlind loads max_depth described_checks :=
  ⟨fun _ _ => rfl, fun _ _ => rfl, fun _ _ _ => rfl⟩

/-- A user's message. -/
def content_call : LegacyCall described_checks.with_texts :=
  message_call [("role", .string "user"), ("content", .string "Ada")] (by decide +kernel)

/-- A user's message keeps its content, also an empty one. -/
theorem analyze_agrees_iff_content : ∃ segments result answer,
    (redacting_runtime.analyze_segments (content_call.segment_call segments) true .stored none).1 = .ok result ∧
      (redacting_runtime.analyze name_codec content_call true .stored none).1 = .ok answer ∧
      answer.1.decision = result.decision := by
  have hrun : (content_call.legacy_segments name_codec.loads 32).toOption.any (fun (segments, extraction) =>
      (∀ leaf ∈ extraction.view.leaves, max_length .chat leaf.path = none) ∧
        (redacting_runtime.analyze_segments (content_call.segment_call segments) true .stored none).1.toOption.isSome) =
      true := by
    decide +kernel
  cases hsegments : content_call.legacy_segments name_codec.loads 32 with
  | error e =>
    rw [hsegments] at hrun
    cases hrun
  | ok entry =>
    obtain ⟨segments, extraction⟩ := entry
    rw [hsegments] at hrun
    obtain ⟨hunbounded, hanswered⟩ := of_decide_eq_true hrun
    cases hresult : (redacting_runtime.analyze_segments (content_call.segment_call segments) true .stored none).1 with
    | error e =>
      rw [hresult] at hanswered
      cases hanswered
    | ok result =>
      have hdistinct : Distinct content_call.request.dumped := distinct_of_keys (by decide +kernel)
      obtain ⟨answer, hanswer, hdecision⟩ := (analyze_agrees_iff redacting_runtime name_codec content_call true .stored
        none segments extraction result (described_checks_blind _ _) hdistinct hsegments hresult).1.mpr
          fun output _ => .of_free hunbounded (by decide +kernel) _
      exact ⟨segments, result, answer, hresult, hanswer, hdecision⟩

/-- An assistant's message of which only the refusal is a text. -/
def refusal_call : LegacyCall described_checks.with_texts :=
  message_call [("role", .string "assistant"), ("content", .null), ("refusal", .string "Ada")] (by decide +kernel)

/-- The segments of the refusal are analyzed, but the request is not rebuilt without it. -/
theorem analyze_refusal_refused :
    ¬ ∀ (runtime : EngineRuntime) (codec : Codec) (others : BoundaryChecks) (call : LegacyCall others.with_texts)
      (segments : SegmentRequest) (extraction : LegacyExtraction) (result : PolicyResult),
      TextBlind codec.loads runtime.policy.settings.max_nesting_depth others → Distinct call.request.dumped →
      call.legacy_segments codec.loads runtime.policy.settings.max_nesting_depth = .ok (segments, extraction) →
      (runtime.analyze_segments (call.segment_call segments) true .stored none).1 = .ok result →
      ∃ answer, (runtime.analyze codec call true .stored none).1 = .ok answer ∧
        answer.1.decision = result.decision := by
  intro hclaim
  have hrun : (refusal_call.legacy_segments name_codec.loads 32).toOption.any (fun (segments, _) =>
      (redacting_runtime.analyze_segments (refusal_call.segment_call segments) true .stored none).1.toOption.isSome) =
      true := by
    decide +kernel
  have hrefused : (redacting_runtime.analyze name_codec refusal_call true .stored none).1.toOption.isNone = true := by
    decide +kernel
  cases hsegments : refusal_call.legacy_segments name_codec.loads 32 with
  | error e =>
    rw [hsegments] at hrun
    cases hrun
  | ok entry =>
    obtain ⟨segments, extraction⟩ := entry
    rw [hsegments] at hrun
    change Option.isSome _ = true at hrun
    cases hresult : (redacting_runtime.analyze_segments (refusal_call.segment_call segments) true .stored none).1 with
    | error e =>
      rw [hresult] at hrun
      cases hrun
    | ok result =>
      have hdistinct : Distinct refusal_call.request.dumped := distinct_of_keys (by decide +kernel)
      obtain ⟨answer, hanswer, -⟩ := hclaim redacting_runtime name_codec described_checks refusal_call segments
        extraction result (described_checks_blind _ _) hdistinct hsegments hresult
      rw [hanswer] at hrefused
      cases hrefused

end EngineRuntime

end pii_engine.runtime
