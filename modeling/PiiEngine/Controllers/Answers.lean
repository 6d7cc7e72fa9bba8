import PiiEngine.Controllers.Presentation

open checked collections
open pii_engine.config pii_engine.policy

namespace pii_engine.controllers

open pii_engine.policy.PolicyService pii_engine.runtime pii_engine.runtime.EngineRuntime

section runtime
variable {runtime : EngineRuntime} {call : Call} {request : SegmentRequest} {stored : SessionDecision}
  {store : Option SessionDecision} {analyzed result : PolicyResult} {types : List String}

/-- The time of a scan changes nothing else. -/
theorem Presented.timed (h : Presented request result) (duration_ms : Option Nat) :
    Presented request { result with duration_ms } where
  bounded := ⟨h.bounded.overlap_count, h.bounded.no_overlap, h.bounded.applied_actions, h.bounded.route_class,
    h.bounded.safety_rule, h.bounded.request_notices, h.bounded.response_notices, h.bounded.reversal,
    h.bounded.no_reversal⟩
  forwarded := ⟨h.forwarded.segments, h.forwarded.block, h.forwarded.remote, h.forwarded.reroute⟩
  supported := ⟨h.supported.pass, h.supported.apply_actions, h.supported.reroute, h.supported.block⟩
  corresponds := ⟨h.corresponds.no_text, h.corresponds.disabled, h.corresponds.enabled, fun hmcp =>
    ⟨(h.corresponds.mcp hmcp).decision, (h.corresponds.mcp hmcp).route_class, (h.corresponds.mcp hmcp).request_notices,
      (h.corresponds.mcp hmcp).response_notices, (h.corresponds.mcp hmcp).report_rows⟩⟩
  seen := ⟨h.seen.unseen, h.seen.count, h.seen.failed, h.seen.uncached, h.seen.unscanned, h.seen.face,
    h.seen.text_only⟩
  counted := ⟨⟨h.counted.entities.keys, h.counted.entities.types, h.counted.entities.counts⟩, h.counted.entities_le,
    h.counted.sorted, h.counted.within, h.counted.current, h.counted.cached⟩

/-- The nonce of an admitted call is a word of hexadecimal digits. -/
theorem hexWord_of_check {placeholder_namespace : Option Text} (hnonce : HexWord call.observation.request_nonce)
    (h : runtime.check_call call = .ok placeholder_namespace) :
    HexWord (request_namespace call.observation.toEnvironment placeholder_namespace) := by
  obtain ⟨⟨⟩, -, h⟩ := bind_eq_ok.mp h
  obtain ⟨⟨⟩, -, h⟩ := bind_eq_ok.mp h
  obtain ⟨-, h⟩ := raiseIf_bind_eq_ok.mp h
  obtain ⟨key, -, h⟩ := bind_eq_ok.mp h
  rw [← Except.ok.inj h]
  unfold EngineRuntime.placeholder_namespace
  split
  · cases key with
    | none => exact hnonce
    | some key =>
      have hword : HexWord (runtime.conversation_placeholder_namespace key) := by
        constructor
        · rw [conversation_placeholder_namespace, List.length_take, runtime.policy.planner.hmac.length_hexdigest]
          rfl
        · intro c hc
          exact runtime.policy.planner.hmac.isHexDigit_hexdigest _ c (List.mem_of_mem_take hc)
      rw [Option.map_some, request_namespace]
      split
      · exact hnonce
      · exact hword
  · exact hnonce

/-- What a call analyzes is presented, with its time. -/
theorem run_analysis_presented {operate : Nat → String → PIIAction → OperatorArguments → Text → Text}
    (hlocal : runtime.policy.planner.anonymizer.RewritesSpan operate)
    (hnonce : HexWord call.observation.request_nonce)
    (hdefault : runtime.policy_settings.routing.default_target.length ≤ 128)
    (hclass : runtime.policy_settings.classifier.default_class.length ≤ 128)
    (hwithin : runtime.policy.FindsWithin call.observation.toEnvironment (text_leaves call.request) types)
    (hface : "FACE" ∉ types) (htypes : types.length ≤ 63) {placeholder_namespace : Option Text}
    (hchecked : runtime.check_call call = .ok placeholder_namespace)
    (h : runtime.run_analysis call placeholder_namespace = .ok analyzed) :
    Presented call.request analyzed ∧ Timed analyzed ∧ analyzed.analysis_source = .current_request := by
  obtain ⟨⟨⟩, -, h⟩ := bind_eq_ok.mp h
  obtain ⟨result, hresult, h⟩ := bind_eq_ok.mp h
  obtain ⟨hpresented, hcurrent⟩ := analyze_segments_presented hlocal (hexWord_of_check hnonce hchecked) hdefault hclass
    hwithin hface htypes hresult
  have huncached : result.analysis_source ≠ .cached_decision := by
    rw [hcurrent.analysis_source]
    nofun
  rw [← Except.ok.inj h]
  split
  · next hscan =>
    refine ⟨hpresented.timed _, ⟨?_, hscan, fun _ => hcurrent.analysis_source, fun h => absurd h huncached⟩,
      hcurrent.analysis_source⟩
    intro milliseconds hmem
    rw [← Option.some.inj hmem]
    exact min_le_left _ _
  · next hscan =>
    refine ⟨hpresented, ⟨?_, ?_, fun h => absurd h hscan, fun h => absurd h huncached⟩, hcurrent.analysis_source⟩
    · rw [hcurrent.untimed]
      nofun
    · rw [hcurrent.untimed]
      exact Bool.eq_false_iff.mpr hscan

theorem enabled_of_unseen (hvisual : request.visual_findings = none) : request.text_pii_enabled = true := by
  by_contra hdisabled
  exact request.text_disabled_ok (Bool.not_eq_true _ ▸ hdisabled) hvisual

/-- A valid record of a session is presented as it is. -/
theorem result_from_cache_presented (hvisual : request.visual_findings = none)
    (hkind : request.request_kind = .mcp → stored.request_kind = .mcp) :
    Presented request (result_from_cache request stored) ∧ Timed (result_from_cache request stored) := by
  have henabled := enabled_of_unseen hvisual
  have hcached : (result_from_cache request stored).analysis_source ≠ .current_request := nofun
  refine ⟨⟨?_, ?_, ?_, ?_, ?_, ?_⟩, nofun, rfl, nofun, fun _ => rfl⟩
  · refine ⟨stored.fields.overlap_count, fun _ hsource => absurd hsource hcached, List.nodup_singleton _,
      fun route hroute => (stored.fields.route_class route hroute).1, nofun, stored.fields.request_notices,
      stored.fields.response_notices, fun placeholder value hget => ?_, fun _ => rfl⟩
    rw [result_from_cache, OrderedDict.get?_empty] at hget
    cases hget
  · refine ⟨fun hne => ⟨request.segments, if_neg hne, rfl⟩, fun hblock => ⟨if_pos hblock, stored.routing.block hblock,
      rfl⟩, ?_, fun hreroute => ?_⟩
    · change stored.remote_allowed = decide (stored.decision ∉ [.block, .reroute])
      rw [stored.routing.local_only, eq_comm, decide_eq_false_iff_not, not_not, List.mem_pair]
      exact stored.fields.decision
    · obtain ⟨route, hroute⟩ := Option.ne_none_iff_exists'.mp (stored.routing.reroute hreroute)
      refine ⟨route, hroute, ?_⟩
      rintro rfl
      exact absurd (stored.fields.route_class _ hroute).2 (by decide)
  · have hterminal : ∀ decision : Decision, decision = .pass ∨ decision = .apply_actions →
        stored.decision ≠ decision := by
      rintro decision hopen rfl
      cases stored.fields.decision with
      | inl hblock => simp [hblock] at hopen
      | inr hreroute => simp [hreroute] at hopen
    refine ⟨fun hpass => absurd hpass (hterminal _ (Or.inl rfl)),
      fun happly => absurd happly (hterminal _ (Or.inr rfl)), fun hreroute => ?_,
      fun hblock => ⟨stored.rows.untransformed hblock, fun hrows => Or.inr (stored.rows.block hblock hrows)⟩⟩
    have hblock : stored.decision ≠ .block := fun hblock => by
      have hboth := hblock.symm.trans hreroute
      cases hboth
    exact ⟨(stored.rows.reroute hblock).1, Or.inr (stored.rows.reroute hblock).2⟩
  · refine ⟨fun _ _ hsource => absurd hsource hcached, fun hdisabled =>
      absurd (hdisabled.symm.trans henabled) Bool.false_ne_true, fun hsome => absurd hvisual hsome, fun hmcp => ?_⟩
    obtain ⟨hblock, hroute, hnotices, hrows⟩ := stored.routing.mcp (hkind hmcp)
    refine ⟨fun hreroute => ?_, hroute, stored.routing.request_notices, hnotices, hrows⟩
    have hboth := hblock.symm.trans hreroute
    cases hboth
  · have hno_face : "FACE" ∉ stored.entities := fun hmem => stored.counts.no_face ((stored.counts.keys _).mpr hmem)
    refine ⟨fun _ => hno_face, ?_, ?_, fun hsome => absurd hvisual hsome, fun hsome => absurd hvisual hsome,
      fun row hrow hrow_face => ?_, fun hmem => ?_⟩
    · intro visual hsome
      rw [hvisual] at hsome
      cases hsome
    · intro visual hsome
      rw [hvisual] at hsome
      cases hsome
    · exact absurd (hrow_face ▸ (stored.counts.counted row hrow).1) stored.counts.no_face
    · have haction := List.mem_singleton.mp hmem
      rw [terminal_action] at haction
      split at haction <;> cases haction
  · exact ⟨.of_stored stored, stored.fields.entities.1, stored.counts.sorted, fun row hrow =>
      ⟨(stored.counts.keys _).mp (stored.counts.counted row hrow).1, (stored.counts.counted row hrow).2⟩, nofun,
      fun _ => stored.fields.decision⟩

/-- A sticky reroute of a presented result is presented, once its record was accepted. -/
theorem apply_cached_reroute_presented (hvisual : request.visual_findings = none)
    (hkind : request.request_kind = .mcp → stored.request_kind = .mcp) (hreroute : stored.decision = .reroute)
    (h : Presented request analyzed) (htimed : Timed analyzed) (hsource : analyzed.analysis_source = .current_request)
    (hdecision : analyzed.decision ≠ .block) (hle : (apply_cached_reroute analyzed stored).entities.length ≤ 64) :
    Presented request (apply_cached_reroute analyzed stored) ∧ Timed (apply_cached_reroute analyzed stored) := by
  have henabled := enabled_of_unseen hvisual
  have hmodel : request.request_kind ≠ .mcp := by
    intro hmcp
    have hboth := (stored.routing.mcp (hkind hmcp)).1.symm.trans hreroute
    cases hboth
  have hscan : analyzed.scan_performed = true := by
    by_contra hunscanned
    exact hmodel (h.corresponds.no_text hdecision (Bool.not_eq_true _ ▸ hunscanned) hsource hvisual).1
  have hunscanned : (apply_cached_reroute analyzed stored).scan_performed ≠ false := by
    change analyzed.scan_performed ≠ false
    rw [hscan]
    decide
  have hno_face : "FACE" ∉ (apply_cached_reroute analyzed stored).entities := by
    rw [mem_merged_entities]
    rintro (hcurrent | hold)
    · exact h.seen.unseen hvisual hcurrent
    · exact stored.counts.no_face ((stored.counts.keys _).mpr hold)
  have hno_row : ∀ row ∈ analyzed.report_rows, row.entity_type ≠ "FACE" := by
    intro row hrow hrow_face
    exact h.seen.unseen hvisual (hrow_face ▸ (h.counted.within row hrow).1)
  refine ⟨⟨?_, ?_, ?_, ?_, ?_, ?_⟩, htimed.duration, htimed.performed, htimed.current, fun _ => rfl⟩
  · exact ⟨h.bounded.overlap_count, fun hfalse => absurd hfalse hunscanned, UniqueList.sorted_nodup _,
      fun route hroute => (stored.fields.route_class route hroute).1, h.bounded.safety_rule,
      stored.fields.request_notices, stored.fields.response_notices, h.bounded.reversal,
      fun hfalse => absurd hfalse hunscanned⟩
  · refine ⟨fun _ => h.forwarded.segments hdecision, fun hblock => ?_, rfl, fun _ => ?_⟩
    · cases hblock
    obtain ⟨route, hroute⟩ := Option.ne_none_iff_exists'.mp (stored.routing.reroute hreroute)
    refine ⟨route, hroute, ?_⟩
    rintro rfl
    exact absurd (stored.fields.route_class _ hroute).2 (by decide)
  · refine ⟨fun hpass => ?_, fun happly => ?_,
      fun _ => ⟨h.supported.unblocked hdecision, Or.inl ⟨rfl, hsource, hscan, rfl⟩⟩, fun hblock => ?_⟩
    · cases hpass
    · cases happly
    · cases hblock
  · exact ⟨fun _ hfalse => absurd hfalse hunscanned, fun hdisabled =>
      absurd (hdisabled.symm.trans henabled) Bool.false_ne_true, fun hsome => absurd hvisual hsome, fun hmcp =>
      absurd hmcp hmodel⟩
  · refine ⟨fun _ => hno_face, ?_, ?_, fun hsome => absurd hvisual hsome, fun hsome => absurd hvisual hsome,
      fun row hrow hrow_face => absurd hrow_face (hno_row row hrow), fun hmem => ?_⟩
    · intro visual hsome
      rw [hvisual] at hsome
      cases hsome
    · intro visual hsome
      rw [hvisual] at hsome
      cases hsome
    · change .text_only ∈ sortedActions (.ofList (analyzed.applied_actions ++ [.pii .reroute])) at hmem
      rw [sortedActions, UniqueList.mem_sorted, UniqueList.mem_ofList, List.mem_append, List.mem_singleton] at hmem
      cases hmem with
      | inl hold => exact h.seen.text_only hold
      | inr hnew => cases hnew
  · refine ⟨h.counted.entities.merged stored, hle, h.counted.sorted, fun row hrow => ?_, fun huncached => ?_,
      fun _ => Or.inr rfl⟩
    · obtain ⟨hentity, hcount⟩ := h.counted.within row hrow
      refine ⟨(mem_merged_entities _ _ _).mpr (Or.inl hentity), hcount.trans ?_⟩
      rw [merged_count]
      exact le_max_left _ _
    · cases huncached

/-- Outside a session the answer to a call is its analysis. -/
theorem analyzed_of_outside (hcall : ¬ runtime.SessionCall call) {reachable : Bool} {write : WriteOutcome}
    (h : (runtime.analyze_segments call reachable write store).1 = .ok result) :
    ∃ placeholder_namespace, runtime.check_call call = .ok placeholder_namespace ∧
      runtime.run_analysis call placeholder_namespace = .ok result := by
  obtain ⟨ns, cached, record, hreceive, hrespond⟩ := analyze_segments_eq_ok h
  obtain ⟨checked, hchecked, hreceive⟩ := bind_eq_ok.mp hreceive
  obtain ⟨found, hread, hreceive⟩ := bind_eq_ok.mp hreceive
  cases hreceive
  have hnone : cached = none := by
    unfold read_session at hread
    split at hread
    · exact (Except.ok.inj hread).symm
    · next hscope =>
      unfold cached_decision at hread
      rw [if_pos] at hread
      · exact (Except.ok.inj hread).symm
      · by_contra hsession
        rw [not_or, not_not, Bool.not_eq_false] at hsession
        exact hcall ⟨hsession.1, Bool.eq_false_iff.mpr hscope, hsession.2⟩
  subst hnone
  obtain ⟨-, analyzed, hanalysis, rfl, -⟩ := (respond_eq_ok hrespond).resolve_left fun hfinal => by
    obtain ⟨stored, hstored, -⟩ := hfinal
    cases hstored
  exact ⟨ns, hchecked, hanalysis⟩

/-- Inside a session it is a final record of the session, or an analysis under it whose record was
    accepted. -/
theorem presented_of_served {after : Option SessionDecision} (hcall : runtime.SessionCall call)
    (hrun : ∀ placeholder_namespace analyzed, runtime.Analyzed call store placeholder_namespace analyzed →
      Presented call.request analyzed ∧ Timed analyzed ∧ analyzed.analysis_source = .current_request)
    (h : runtime.Served call store (.ok result) after) : Presented call.request result ∧ Timed result := by
  have hvisual := hcall.visual_findings
  have hmcp : ∀ stored : SessionDecision, stored.request_kind = call.request_kind →
      call.request.request_kind = .mcp → stored.request_kind = .mcp := by
    intro stored hkind hmcp
    rw [hkind, Call.request_kind, if_pos hmcp]
  have hunder : ∀ placeholder_namespace analyzed, runtime.Analyzed call store placeholder_namespace analyzed →
      (∀ stored ∈ store, stored.decision = .reroute → analyzed.decision ≠ .block →
        (apply_cached_reroute analyzed stored).entities.length ≤ 64) →
      Presented call.request (apply_cached_decision analyzed store) ∧ Timed (apply_cached_decision analyzed store) := by
    intro ns analyzed hanalyzed hle
    obtain ⟨hpresented, htimed, hsource⟩ := hrun ns analyzed hanalyzed
    cases store with
    | none => exact ⟨hpresented, htimed⟩
    | some stored =>
      rw [apply_cached_decision_some]
      split
      · next hsticky =>
        exact apply_cached_reroute_presented hvisual (hmcp stored (hanalyzed.read stored rfl).1) hsticky.1 hpresented
          htimed hsource hsticky.2 (hle stored rfl hsticky.1 hsticky.2)
      · exact ⟨hpresented, htimed⟩
  cases h with
  | final stored hstored hkind hfinal => exact result_from_cache_presented hvisual (hmcp stored hkind)
  | untainted ns analyzed hanalyzed hdecision =>
    refine hunder ns analyzed hanalyzed fun stored hstored hreroute hblock => ?_
    rw [Option.mem_def.mp hstored, apply_cached_decision_some, if_pos ⟨hreroute, hblock⟩] at hdecision
    rcases hdecision with hpass | happly
    · cases hpass
    · cases happly
  | tainted ns analyzed record hanalyzed hrecord =>
    refine hunder ns analyzed hanalyzed fun stored hstored hreroute hblock => ?_
    obtain ⟨evidence, -, hrecord⟩ := hrecord.evidence
    have hle := record.fields.entities.1
    rw [hrecord, Option.mem_def.mp hstored, apply_cached_decision_some, if_pos ⟨hreroute, hblock⟩] at hle
    exact hle

/-- The response contract accepts whatever the runtime answers: for every request, policy, analyzer
    answer and session, while no text is called a face and at most 63 entity types are found. -/
theorem analyze_segments_accepted (runtime : EngineRuntime) (call : Call) (reachable : Bool) (write : WriteOutcome)
    (store : Option SessionDecision) (types : List String)
    (operate : Nat → String → PIIAction → OperatorArguments → Text → Text) (result : PolicyResult)
    (hlocal : runtime.policy.planner.anonymizer.RewritesSpan operate)
    (hnonce : HexWord call.observation.request_nonce)
    (hdefault : runtime.policy_settings.routing.default_target.length ≤ 128)
    (hclass : runtime.policy_settings.classifier.default_class.length ≤ 128)
    (hwithin : runtime.policy.FindsWithin call.observation.toEnvironment (text_leaves call.request) types)
    (hface : "FACE" ∉ types) (htypes : types.length ≤ 63)
    (h : (runtime.analyze_segments call reachable write store).1 = .ok result) :
    (∃ response, adapter_segment_response runtime.policy.settings result call.request = .ok response) ∧
      (∀ row ∈ result.report_rows, row.unique_transformed_count ≤ row.transformed_count ∧
        row.transformed_count ≤ row.detected_count ∧ (row.action = .pii .block → row.transformed_count = 0)) ∧
      Presented call.request result ∧ Timed result := by
  have hpresented : Presented call.request result ∧ Timed result := by
    by_cases hcall : runtime.SessionCall call
    · have hserved := runtime.analyze_segments_served hcall reachable write store
      rw [h] at hserved
      refine presented_of_served hcall (fun ns analyzed hanalyzed => ?_) hserved
      exact run_analysis_presented hlocal hnonce hdefault hclass hwithin hface htypes hanalyzed.checked
        hanalyzed.analysis
    · obtain ⟨ns, hchecked, hanalysis⟩ := analyzed_of_outside hcall h
      obtain ⟨hpresented, htimed, -⟩ :=
        run_analysis_presented hlocal hnonce hdefault hclass hwithin hface htypes hchecked hanalysis
      exact ⟨hpresented, htimed⟩
  refine ⟨presented_accepted runtime.policy.settings hpresented.1 hpresented.2, fun row _ => ?_, hpresented⟩
  exact ⟨row.counts.unique, row.counts.transformed, fun hblock => row.counts.untouched (Or.inr hblock)⟩

end runtime

private theorem exists_answer {outcome : Except AnalysisError PolicyResult} (h : outcome.toOption.isSome = true) :
    ∃ result, outcome = .ok result := by
  cases outcome with
  | error e => cases h
  | ok result => exact ⟨result, rfl⟩

theorem analyze_segments_accepted_secret : ∃ result response,
    ((session_runtime true).analyze_segments secret_call true .stored (some stored_reroute)).1 = .ok result ∧
      adapter_segment_response (session_runtime true).policy.settings result secret_call.request = .ok response := by
  have hanswered : ((session_runtime true).analyze_segments secret_call true .stored
      (some stored_reroute)).1.toOption.isSome = true := by decide +kernel
  obtain ⟨result, hresult⟩ := exists_answer hanswered
  have hnonce : HexWord secret_call.observation.request_nonce := ⟨rfl, List.all_eq_true.mp (by decide +kernel)⟩
  obtain ⟨⟨response, hresponse⟩, -⟩ := analyze_segments_accepted (session_runtime true) secret_call true .stored
    (some stored_reroute) ["PASSWORD_OR_SECRET"] test_anonymizer.operate result TestAnonymizer_rewritesSpan hnonce
    (by decide) (by decide) (by decide +kernel) (by decide) (by decide) hresult
  exact ⟨result, response, hresult, hresponse⟩

/-- The runtime of the unit tests, with a block for every entity type that its policy does not name. -/
def face_runtime : EngineRuntime := default_runtime .block

/-- A request whose analyzer calls a word a face. -/
def face_call : Call where
  caller := .adapter
  request := .ofTexts .chat .request secret_call.request.segments false secret_call.request.ids_nodup
  session_key := none
  observation := { PolicyService.test_environment [⟨"FACE", 0, 7, some (9 / 10), "rules"⟩] with }

/-- A text that the analyzer calls a face is blocked, and the block is not accepted. -/
theorem analyze_segments_face_refused :
    ¬ ∀ (runtime : EngineRuntime) (call : Call) (types : List String)
      (operate : Nat → String → PIIAction → OperatorArguments → Text → Text) (result : PolicyResult),
      runtime.policy.planner.anonymizer.RewritesSpan operate → HexWord call.observation.request_nonce →
      runtime.policy_settings.routing.default_target.length ≤ 128 →
      runtime.policy_settings.classifier.default_class.length ≤ 128 →
      (∀ leaf ∈ text_leaves call.request, ∀ item ∈ runtime.policy.rawMatches call.observation.toEnvironment leaf,
        item.Valid leaf.text.length) →
      runtime.policy.FindsWithin call.observation.toEnvironment (text_leaves call.request) types →
      (∀ e ∈ types, isEntityType e = true) → types.length ≤ 63 →
      (runtime.analyze_segments call true .stored none).1 = .ok result →
      ∃ response, adapter_segment_response runtime.policy.settings result call.request = .ok response := by
  intro hclaim
  have hrefused : (face_runtime.analyze_segments face_call true .stored none).1.toOption.isSome = true ∧
      ((face_runtime.analyze_segments face_call true .stored none).1.toOption.bind fun result =>
        (adapter_segment_response face_runtime.policy.settings result face_call.request).toOption).isNone = true := by
    decide +kernel
  obtain ⟨result, hresult⟩ := exists_answer hrefused.1
  have hnonce : HexWord face_call.observation.request_nonce := ⟨rfl, List.all_eq_true.mp (by decide +kernel)⟩
  obtain ⟨response, hresponse⟩ := hclaim face_runtime face_call ["FACE"] test_anonymizer.operate result
    TestAnonymizer_rewritesSpan hnonce (by decide) (by decide) (by decide +kernel) (by decide +kernel) (by decide)
    (by decide) hresult
  have hnone := hrefused.2
  rw [hresult] at hnone
  change (adapter_segment_response face_runtime.policy.settings result face_call.request).toOption.isNone = true
    at hnone
  rw [hresponse] at hnone
  cases hnone

end pii_engine.controllers
