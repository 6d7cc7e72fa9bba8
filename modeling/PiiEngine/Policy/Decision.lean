import PiiEngine.Policy.Analysis

open checked collections
open pii_engine.config pii_engine.planner

namespace pii_engine.policy.PolicyService

/-- The decision that the policy configures for an entity type. MCP has no safe route, so
    a reroute counts as a block there. -/
def configured_decision (service : PolicyService) (kind : SegmentKind) (entity_type : String) : Decision :=
  if kind = .mcp ∧ service.entity_action entity_type = .reroute then .block
  else (service.entity_action entity_type).decision

/-- The configured decision of every raw match of a request. -/
def raw_decisions (service : PolicyService) (env : Environment) (request : SegmentRequest) : List Decision :=
  (text_leaves request).flatMap fun leaf => (service.rawMatches env leaf).map fun item =>
    service.configured_decision request.request_kind item.entity_type

/-- The decision of every effective region. -/
def region_decisions (service : PolicyService) (reroute_as_block : Bool) (plans : PreparedLeaves) : List Decision :=
  plans.prepared.flatMap fun entry => entry.2.effective_matches.map fun region =>
    (service.planner.decidingAction reroute_as_block region.entity_type).decision

theorem entity_action_eq (service : PolicyService) (e : String) :
    (service.planner.resolve e).1 = service.entity_action e := by
  have hlookup : service.planner.by_entity.get? e =
      service.policy.pii.entity_policies.find? fun entry => entry.entity_type = e :=
    service.planner.get?_by_entity e
  rw [ActionPlanner.resolve, hlookup, entity_action]
  cases service.policy.pii.entity_policies.find? fun entry => entry.entity_type = e <;> rfl

theorem configured_decision_eq (service : PolicyService) (kind : SegmentKind) (e : String) :
    service.configured_decision kind e = (service.planner.decidingAction (kind = .mcp) e).decision := by
  rw [configured_decision, ActionPlanner.decidingAction_eq, entity_action_eq]
  simp only [decide_eq_true_eq]
  split <;> rfl

variable {service : PolicyService} {env : Environment} {request : SegmentRequest}
  {reroute_as_block : Bool} {leaves : List TextLeaf} {plans : PreparedLeaves}

theorem mem_region_decisions {decision : Decision} :
    decision ∈ service.region_decisions reroute_as_block plans ↔ ∃ entry ∈ plans.prepared,
      ∃ region ∈ entry.2.effective_matches,
        (service.planner.decidingAction reroute_as_block region.entity_type).decision = decision := by
  simp [region_decisions]

/-- Overlap resolution keeps the strictest decision: a region is as strict as every match
    it absorbs, and its type is that of one of them. -/
theorem strictest_regions (h : service.LeavesPrepared env (request.request_kind = .mcp) (text_leaves request) plans) :
    Decision.strictest (service.region_decisions (request.request_kind = .mcp) plans) =
      Decision.strictest (service.raw_decisions env request) := by
  refine Decision.strictest_congr ?_ ?_
  · intro decision hdecision
    obtain ⟨entry, hentry, region, hregion, rfl⟩ := mem_region_decisions.mp hdecision
    obtain ⟨item, hitem, htype⟩ := exists_raw_of_region (h.plans entry hentry) hregion
    refine ⟨_, List.mem_flatMap.mpr ⟨entry.1, h.mem_leaves hentry, List.mem_map_of_mem hitem⟩, ?_⟩
    rw [configured_decision_eq, htype]
  · intro decision hdecision
    obtain ⟨leaf, hleaf, hdecision⟩ := List.mem_flatMap.mp hdecision
    obtain ⟨item, hitem, rfl⟩ := List.mem_map.mp hdecision
    obtain ⟨entry, hentry, rfl⟩ := h.exists_entry hleaf
    obtain ⟨region, hregion, hstrict⟩ := exists_region_of_raw (h.plans entry hentry) hitem
    refine ⟨_, mem_region_decisions.mpr ⟨entry, hentry, region, hregion, rfl⟩, ?_⟩
    rw [configured_decision_eq]
    exact PIIAction.decision_mono hstrict

theorem requestedRoute_ne_empty (planner : ActionPlanner) (e : String) : planner.requestedRoute e ≠ "" :=
  orDefault_ne_empty (isRouteClass_ne_empty planner.policy.routing.default_target_ok)

/-- A request is blocked, rerouted or transformed by the decisions of its regions. -/
theorem blocked_iff (h : service.LeavesPrepared env reroute_as_block leaves plans) :
    (∃ entry ∈ plans.prepared, entry.2.blocked = true) ↔
      .block ∈ service.region_decisions reroute_as_block plans := by
  rw [mem_region_decisions]
  refine exists_congr fun entry => and_congr_right fun hentry => ?_
  rw [(h.plans entry hentry).blocked]
  simp only [PIIAction.decision_eq_block_iff]

theorem route_isSome_iff (h : service.LeavesPrepared env reroute_as_block leaves plans) :
    (service.resolve_route_class plans.reroute_entities plans.route_classes).isSome ↔
      .reroute ∈ service.region_decisions reroute_as_block plans := by
  have hclasses : (service.resolve_route_class plans.reroute_entities plans.route_classes).isSome ↔
      ∃ route, route ∈ plans.route_classes := by
    unfold resolve_route_class
    cases plans.route_classes with
    | nil => simp
    | cons first rest =>
      refine ⟨fun _ => ⟨first, by simp⟩, fun _ => ?_⟩
      simp only
      split <;> rfl
  rw [hclasses, mem_region_decisions]
  simp only [PIIAction.decision_eq_reroute_iff]
  constructor
  · rintro ⟨route, hroute⟩
    obtain ⟨entry, hentry, hroute, -⟩ := (h.route_classes route).mp hroute
    exact ⟨entry, hentry, (h.plans entry hentry).route_isSome.mp (Option.isSome_iff_exists.mpr ⟨route, hroute⟩)⟩
  · rintro ⟨entry, hentry, hreroute⟩
    have hplan := h.plans entry hentry
    obtain ⟨route, hroute⟩ := Option.isSome_iff_exists.mp (hplan.route_isSome.mpr hreroute)
    obtain ⟨region, -, -, hrequested⟩ := hplan.route_requested route hroute
    exact ⟨route, (h.route_classes route).mpr ⟨entry, hentry, hroute, hrequested ▸ requestedRoute_ne_empty _ _⟩⟩

/-- An action that the decision applies is executed. -/
theorem executes_of_apply {e : String}
    (h : (service.planner.decidingAction reroute_as_block e).decision = .apply_actions) :
    service.planner.executes e = true ∧ (service.planner.resolve e).1 ≠ .pass ∧
      (service.planner.resolve e).1 ≠ .reroute := by
  obtain ⟨hne_pass, hne_block, hne_reroute⟩ := PIIAction.decision_eq_apply_iff.mp h
  have hresolve := ActionPlanner.resolve_eq_decidingAction hne_block
  rw [← hresolve] at hne_pass hne_block hne_reroute
  exact ⟨ActionPlanner.executes_iff.mpr ⟨hne_pass, hne_block, fun hr => absurd hr hne_reroute⟩, hne_pass, hne_reroute⟩

/-- Without blocking and rerouting regions the transformed plans apply an action exactly
    when a region asks for one. -/
theorem applies_iff {nonce : Text} {transformed : TransformedLeaves}
    (h : service.LeavesPrepared env reroute_as_block leaves plans)
    (ht : service.LeavesTransformed env nonce plans.prepared transformed)
    (hblock : .block ∉ service.region_decisions reroute_as_block plans)
    (hreroute : .reroute ∉ service.region_decisions reroute_as_block plans) :
    (∃ action ∈ transformed.actions, action ≠ .pass) ↔
      .apply_actions ∈ service.region_decisions reroute_as_block plans := by
  constructor
  · rintro ⟨action, haction, hpass⟩
    obtain ⟨entry, hentry, haction⟩ := (ht.actions action).mp haction
    obtain ⟨before, hbefore, -, htransform⟩ := ht.exists_prepared hentry
    have hplan := h.plans before hbefore
    rw [mem_region_decisions]
    cases ((ActionPlanner.transform_transformed hplan htransform).applied action).mp haction with
    | inl hprepared =>
      obtain ⟨hkind, region, hregion, hdeciding⟩ := (hplan.applied action).mp hprepared
      have hregion_mem : action.decision ∈ service.region_decisions reroute_as_block plans :=
        mem_region_decisions.mpr ⟨before, hbefore, region, hregion, by rw [hdeciding]⟩
      rcases hkind with rfl | rfl | rfl
      · exact absurd rfl hpass
      · exact absurd hregion_mem hblock
      · exact absurd hregion_mem hreroute
    | inr hexecuted =>
      obtain ⟨hne, region, hregion, rfl⟩ := hexecuted
      obtain ⟨hregion, hexecutes⟩ := List.mem_filter.mp hregion
      obtain ⟨-, hne_block, -⟩ := ActionPlanner.executes_iff.mp hexecutes
      refine ⟨before, hbefore, region, hregion, ?_⟩
      rw [ActionPlanner.decidingAction_eq, if_neg (fun hmcp => hne hmcp.2), PIIAction.decision_eq_apply_iff]
      exact ⟨hpass, hne_block, hne⟩
  · intro hmem
    obtain ⟨before, hbefore, region, hregion, hdecision⟩ := mem_region_decisions.mp hmem
    obtain ⟨hexecutes, hne_pass, hne_reroute⟩ := executes_of_apply hdecision
    obtain ⟨entry, hentry, -, htransform⟩ := exists_right_of_forall₂ ht.plans hbefore
    have hplan := h.plans before hbefore
    refine ⟨_, (ht.actions _).mpr ⟨entry, hentry, ?_⟩, hne_pass⟩
    exact ((ActionPlanner.transform_transformed hplan htransform).applied _).mpr
      (Or.inr ⟨hne_reroute, region, List.mem_filter.mpr ⟨hregion, hexecutes⟩, rfl⟩)

/-- The decision of an unblocked text analysis is that of its strictest region. -/
theorem text_decision_eq {nonce : Text} {transformed : TransformedLeaves}
    (h : service.LeavesPrepared env reroute_as_block leaves plans)
    (ht : service.LeavesTransformed env nonce plans.prepared transformed)
    (hblocked : ¬ service.TextBlocked none plans) :
    text_decision (service.text_route none plans) transformed.actions =
      Decision.strictest (service.region_decisions reroute_as_block plans) := by
  have hblock : .block ∉ service.region_decisions reroute_as_block plans :=
    fun hmem => hblocked (Or.inl ((blocked_iff h).mpr hmem))
  have hroute : (service.text_route none plans).isSome ↔
      .reroute ∈ service.region_decisions reroute_as_block plans := route_isSome_iff h
  symm
  by_cases hreroute : .reroute ∈ service.region_decisions reroute_as_block plans
  · rw [text_decision, if_pos (hroute.mpr hreroute)]
    refine Decision.strictest_eq ?_ (Or.inr hreroute)
    intro other hother
    cases other with
    | block => exact absurd hother hblock
    | _ => decide
  · rw [text_decision, if_neg (fun hsome => hreroute (hroute.mp hsome))]
    have happlies := applies_iff h ht hblock hreroute
    split
    · next happly =>
      refine Decision.strictest_eq ?_ (Or.inr (happlies.mp happly))
      intro other hother
      cases other with
      | block => exact absurd hother hblock
      | reroute => exact absurd hother hreroute
      | _ => decide
    · next hnone =>
      refine Decision.strictest_eq ?_ (Or.inl rfl)
      intro other hother
      cases other with
      | block => exact absurd hother hblock
      | reroute => exact absurd hother hreroute
      | apply_actions => exact absurd (happlies.mpr hother) hnone
      | pass => exact le_refl _

theorem text_blocked_iff (h : service.LeavesPrepared env reroute_as_block leaves plans) :
    service.TextBlocked none plans ↔
      Decision.strictest (service.region_decisions reroute_as_block plans) = .block := by
  have hconflict : service.face_route_conflicts none plans.reroute_entities = false := rfl
  rw [TextBlocked, hconflict, blocked_iff h]
  constructor
  · rintro (hmem | hfalse)
    · exact Decision.strictest_eq (fun other _ => Decision.le_block other) (Or.inr hmem)
    · cases hfalse
  · intro hstrictest
    by_contra hnone
    push Not at hnone
    have hle : Decision.strictest (service.region_decisions reroute_as_block plans) ≤ .reroute := by
      refine Decision.strictest_le_iff.mpr ?_
      intro other hother
      cases other with
      | block => exact absurd hother hnone.1
      | _ => decide
    rw [hstrictest] at hle
    exact absurd hle (by decide)

/-- A request that preflight lets through to the analysis of its text. -/
structure PassesPreflight (service : PolicyService) (request : SegmentRequest) : Prop where
  no_attachments : request.attachments_present = false
  within_leaves : (text_leaves request).length ≤ service.settings.max_text_leaves
  within_characters : ((text_leaves request).map (·.text.length)).sum ≤ service.settings.max_text_characters
  visible : text_leaves request = [] → request.request_kind = .mcp
  safe : service.safety_match (text_leaves request) = none

theorem validate_bounds_eq_ok (service : PolicyService) (leaves : List TextLeaf) :
    service.validate_bounds leaves = .ok () ↔ leaves ≠ [] ∧ leaves.length ≤ service.settings.max_text_leaves ∧
      (leaves.map (·.text.length)).sum ≤ service.settings.max_text_characters := by
  rw [validate_bounds, raiseIf_bind_eq_ok, validate_segment_limits]
  refine and_congr_right fun _ => ?_
  split
  · next h => simp [Nat.not_le.mpr h]
  · next h =>
    split
    · next h' => simp [Nat.not_le.mpr h']
    · next h' => simp [Nat.not_lt.mp h, Nat.not_lt.mp h']

theorem PassesPreflight.preflight_eq (h : service.PassesPreflight request) :
    service.preflight request (text_leaves request) =
      .ok (if text_leaves request = [] then some { segments := some [], decision := .pass, remote_allowed := true }
        else none) := by
  unfold preflight
  by_cases hempty : text_leaves request = []
  · rw [if_pos ⟨h.visible hempty, hempty, h.no_attachments⟩, if_pos hempty]
    rfl
  · have hbounds : service.validate_visible_text request (text_leaves request) = .ok () := by
      rw [validate_visible_text, if_pos (Or.inl hempty), validate_bounds_eq_ok]
      exact ⟨hempty, h.within_leaves, h.within_characters⟩
    have hblock : service.preflight_block request (text_leaves request) = none := by
      simp only [preflight_block, h.no_attachments, h.safe]
      rfl
    rw [if_neg (fun hmcp => hempty hmcp.2.1), if_neg hempty, hbounds, hblock]
    rfl

/-- Every raw match names a type that a report can carry. -/
def TypesAdmitted (service : PolicyService) (env : Environment) (leaves : List TextLeaf) : Prop :=
  ∀ leaf ∈ leaves, ∀ item ∈ service.rawMatches env leaf, ReportedType item.entity_type

/-- A request has at most as many detections of a type as it has characters. -/
theorem detectedCount_le (h : service.LeavesPrepared env reroute_as_block leaves plans) (e : String) :
    detectedCount plans.prepared e ≤ (leaves.map (·.text.length)).sum := by
  rw [← h.leaves, List.map_map]
  refine List.sum_le_sum fun entry hentry => ?_
  have hplan := h.plans entry hentry
  rw [hplan.counts]
  exact hplan.resolved.countOf_logical_le (fun a ha => (hplan.valid a ha).1) e

theorem reportableText (h : service.LeavesPrepared env reroute_as_block leaves plans)
    (htypes : service.TypesAdmitted env leaves)
    (hcharacters : (leaves.map (·.text.length)).sum ≤ service.settings.max_text_characters) :
    service.ReportableText plans := by
  constructor
  · intro entry hentry e he
    have hplan := h.plans entry hentry
    obtain ⟨logical, hlogical, rfl⟩ := (hplan.count_keys e).mp he
    obtain ⟨item, hitem, htype⟩ := hplan.resolved.exists_raw_of_logical hlogical
    rw [← htype]
    exact htypes entry.1 (h.mem_leaves hentry) item hitem
  · intro e
    have hcount := detectedCount_le h e
    have hbound := service.settings.max_text_characters_ok.2
    omega

/-- A blocked plan is reported without transformations. -/
theorem untransformed_rows {rows : List PIIReportRow}
    (h : service.LeavesPrepared env reroute_as_block leaves plans)
    (hrows : PolicyService.report_rows plans.prepared = .ok rows) : ∀ row ∈ rows, row.transformed_count = 0 := by
  intro row hrow
  rw [(report_rows_eq_ok h.reportable hrows).transformed row hrow, transformedCount, List.sum_eq_zero_iff]
  intro n hn
  obtain ⟨entry, hentry, rfl⟩ := List.mem_map.mp hn
  rw [(h.plans entry hentry).untransformed.1]
  rfl

/-- The decision of a text analysis is the strictest decision of its raw matches. -/
theorem analyze_text_strictest {include_diagnostics : Bool} {placeholder_namespace : Option Text}
    {result : PolicyResult}
    (h : service.analyze_text env request (text_leaves request) include_diagnostics placeholder_namespace none =
      .ok result) :
    result.decision = Decision.strictest (service.raw_decisions env request) ∧
      (result.remote_allowed = true ↔ result.decision = .pass ∨ result.decision = .apply_actions) ∧
      (result.decision = .block → result.segments = none ∧ result.reversal = .empty ∧ result.route_class = none ∧
        ∀ row ∈ result.report_rows, row.transformed_count = 0) := by
  obtain ⟨plans, hplans, -, hcases⟩ := analyze_text_cases h
  have hprepared := prepare_leaf_plans_prepared hplans
  rw [← strictest_regions hprepared]
  cases hcases with
  | inl hblock =>
    obtain ⟨hblocked, hresult⟩ := hblock
    rw [(text_blocked_iff hprepared).mp hblocked, hresult.decision, hresult.remote_allowed]
    exact ⟨rfl, by decide, fun _ => ⟨hresult.segments, hresult.reversal, hresult.route_class,
      untransformed_rows hprepared hresult.report_rows⟩⟩
  | inr htransform =>
    obtain ⟨hunblocked, segments, transformed, hresult⟩ := htransform
    have htransformed := (transform_plans_transformed hresult.transform hprepared.leaves).1
    have hdecision := hresult.decision.trans (text_decision_eq hprepared htransformed hunblocked)
    have hne : result.decision ≠ .block :=
      fun hblock => hunblocked ((text_blocked_iff hprepared).mpr (hdecision.symm.trans hblock))
    refine ⟨hdecision, ?_, fun hblock => absurd hblock hne⟩
    rw [hresult.remote_allowed, decide_eq_true_eq]
    cases hvalue : result.decision with
    | block => exact absurd hvalue hne
    | _ => decide

/-- The decision is the strictest of those configured for the raw matches: no match that
    loses an overlap weakens it. Only an unblocked request can fail, and then only while
    its text is transformed. -/
theorem analyze_segments_strictest (service : PolicyService) (env : Environment) (request : SegmentRequest)
    (include_diagnostics : Bool) (placeholder_namespace : Option Text)
    (hvisual : request.visual_findings = none) (hpreflight : service.PassesPreflight request)
    (hraw : service.RawMatchesValid env (text_leaves request)) :
    (∀ result, service.analyze_segments env request include_diagnostics placeholder_namespace = .ok result →
      result.decision = Decision.strictest (service.raw_decisions env request) ∧
      (result.remote_allowed = true ↔ result.decision = .pass ∨ result.decision = .apply_actions) ∧
      (result.decision = .block → result.segments = none ∧ result.reversal = .empty ∧ result.route_class = none ∧
        ∀ row ∈ result.report_rows, row.transformed_count = 0)) ∧
    ∀ e, service.analyze_segments env request include_diagnostics placeholder_namespace = .error e →
      service.TypesAdmitted env (text_leaves request) →
      Decision.strictest (service.raw_decisions env request) ≠ .block ∧
      ∃ plans, service.prepare_leaf_plans env (text_leaves request) (request.request_kind = .mcp) = .ok plans ∧
        (service.transform_plans env request plans.prepared (request_namespace env placeholder_namespace) = .error e ∨
          e = .value_error "generated reversal placeholder already existed in request") := by
  have hface : service.face_route request = none := by
    rw [face_route, SegmentRequest.faceCount, hvisual]
    rfl
  have hunfold : service.analyze_segments env request include_diagnostics placeholder_namespace =
      if text_leaves request = [] then .ok { segments := some [], decision := .pass, remote_allowed := true }
      else service.analyze_text env request (text_leaves request) include_diagnostics placeholder_namespace none := by
    have hdecision : service.visual_decision request (text_leaves request) = none := by
      rw [visual_decision, hvisual]
    rw [analyze_segments, hpreflight.preflight_eq, hvisual]
    change (service.settled_or_text env request include_diagnostics placeholder_namespace
      (Option.or _ (service.visual_decision request (text_leaves request))) >>= pure) = _
    rw [bind_pure, hdecision, Option.or_none]
    split
    · rfl
    · rw [settled_or_text, hface]
  rw [hunfold]
  by_cases hempty : text_leaves request = []
  · rw [if_pos hempty]
    have hnone : service.raw_decisions env request = [] := by rw [raw_decisions, hempty]; rfl
    rw [hnone]
    refine ⟨?_, fun e h => by cases h⟩
    intro result h
    rw [← Except.ok.inj h]
    exact ⟨rfl, by decide, fun h => by cases h⟩
  · rw [if_neg hempty]
    refine ⟨fun result h => analyze_text_strictest h, ?_⟩
    intro e h htypes
    obtain ⟨plans, hplans⟩ := prepare_leaf_plans_total hraw (request.request_kind = .mcp)
    have hprepared := prepare_leaf_plans_prepared hplans
    obtain ⟨hunblocked, hreason⟩ :=
      analyze_text_error hplans (reportableText hprepared htypes hpreflight.within_characters) h
    refine ⟨?_, plans, hplans, hreason⟩
    rw [← strictest_regions hprepared]
    exact fun hblock => hunblocked ((text_blocked_iff hprepared).mpr hblock)

def chained_request : SegmentRequest :=
  .ofTexts .chat .request [⟨"s1", "me@ab, DE12 3".toList, by decide⟩] false (by decide)

theorem passesPreflight_chained : test_service.PassesPreflight chained_request :=
  ⟨rfl, by decide, by decide, by decide, by decide +kernel⟩

theorem rawMatchesValid_chained :
    test_service.RawMatchesValid (test_environment chained_matches) (text_leaves chained_request) := by
  intro leaf hleaf
  have hleaf : leaf = ⟨"s1", "me@ab, DE12 3".toList⟩ := by simpa [text_leaves, chained_request, SegmentRequest.ofTexts]
    using hleaf
  subst hleaf
  exact ⟨⟨_, rfl⟩, by decide +kernel⟩

/-- Two mail addresses lose their region to an account number between them: the request
    is rerouted. -/
theorem analyze_segments_strictest_chained :
    ∃ result, test_service.analyze_segments (test_environment chained_matches) chained_request false none =
        .ok result ∧ result.decision = .reroute ∧ result.remote_allowed ≠ true := by
  have hstrictest : Decision.strictest (test_service.raw_decisions (test_environment chained_matches) chained_request) =
      .reroute := by decide +kernel
  have htheorem := analyze_segments_strictest test_service (test_environment chained_matches) chained_request false
    none rfl passesPreflight_chained rawMatchesValid_chained
  have hok : (test_service.analyze_segments (test_environment chained_matches) chained_request false
      none).toOption.isSome = true := by decide +kernel
  cases hresult : test_service.analyze_segments (test_environment chained_matches) chained_request false none with
  | error e =>
    rw [hresult] at hok
    cases hok
  | ok result =>
    obtain ⟨hdecision, hremote, -⟩ := htheorem.1 result hresult
    rw [hstrictest] at hdecision
    refine ⟨result, rfl, hdecision, ?_⟩
    rw [Ne, hremote, hdecision]
    decide

end pii_engine.policy.PolicyService
