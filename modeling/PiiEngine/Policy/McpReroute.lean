import PiiEngine.Policy.Decision

open checked collections
open pii_engine.config pii_engine.planner

namespace pii_engine

/-- The action that stands for a reroute where no route is safe. -/
def PIIAction.blockReroute (action : PIIAction) : PIIAction := if action = .reroute then .block else action

theorem PIIAction.blockReroute_eq_self {action : PIIAction} (h : action ≠ .reroute) : action.blockReroute = action :=
  if_neg h

namespace config

/-- An entity blocked instead of rerouted keeps no route class. -/
def EntityPolicy.blockReroute (entry : EntityPolicy) : EntityPolicy :=
  if entry.action = .reroute then entry.withAction .block else entry

theorem EntityPolicy.blockReroute_action (entry : EntityPolicy) :
    entry.blockReroute.action = entry.action.blockReroute := by
  unfold EntityPolicy.blockReroute PIIAction.blockReroute
  split <;> rfl

theorem EntityPolicy.blockReroute_entity_type (entry : EntityPolicy) :
    entry.blockReroute.entity_type = entry.entity_type := by
  unfold EntityPolicy.blockReroute
  split <;> rfl

theorem EntityPolicy.blockReroute_patterns (entry : EntityPolicy) :
    entry.blockReroute.patterns = entry.patterns := by
  unfold EntityPolicy.blockReroute
  split <;> rfl

theorem EntityPolicy.blockReroute_eq_self {entry : EntityPolicy} (h : entry.action ≠ .reroute) :
    entry.blockReroute = entry :=
  if_neg h

/-- The policy with every entity action and the default action reroute replaced by block. -/
def PolicySettings.blockReroute (policy : PolicySettings) : PolicySettings :=
  { policy with pii := { policy.pii with
      default_action := policy.pii.default_action.blockReroute
      entity_policies := policy.pii.entity_policies.map EntityPolicy.blockReroute
      entity_nodup := by
        rw [List.map_map]
        have htypes : EntityPolicy.entity_type ∘ EntityPolicy.blockReroute = EntityPolicy.entity_type :=
          funext EntityPolicy.blockReroute_entity_type
        rw [htypes]
        exact policy.pii.entity_nodup } }

end config

namespace planner.ActionPlanner

def blockReroute (planner : ActionPlanner) : ActionPlanner :=
  { planner with policy := planner.policy.blockReroute }

variable (planner : ActionPlanner)

theorem resolve_blockReroute (e : String) :
    planner.blockReroute.resolve e =
      ((planner.resolve e).1.blockReroute, (planner.resolve e).2.map EntityPolicy.blockReroute) := by
  have hfind : planner.blockReroute.by_entity.get? e = (planner.by_entity.get? e).map EntityPolicy.blockReroute := by
    rw [get?_by_entity, get?_by_entity]
    change (planner.policy.pii.entity_policies.map EntityPolicy.blockReroute).find? _ = _
    rw [List.find?_map]
    congr 2
    funext entry
    rw [Function.comp_apply, EntityPolicy.blockReroute_entity_type]
  unfold resolve
  rw [hfind]
  cases planner.by_entity.get? e with
  | none => rfl
  | some entry => exact congrArg (·, some entry.blockReroute) entry.blockReroute_action

/-- Both policies resolve an entity alike unless it is rerouted. -/
theorem resolve_blockReroute_eq {e : String} (h : (planner.resolve e).1 ≠ .reroute) :
    planner.blockReroute.resolve e = planner.resolve e := by
  rw [resolve_blockReroute, PIIAction.blockReroute_eq_self h]
  unfold resolve at h ⊢
  cases hentry : planner.by_entity.get? e with
  | none => rfl
  | some entry =>
    rw [hentry] at h
    rw [Option.map_some, EntityPolicy.blockReroute_eq_self h]

theorem decidingAction_blockReroute : planner.blockReroute.decidingAction true = planner.decidingAction true := by
  funext e
  rw [decidingAction_eq, decidingAction_eq, resolve_blockReroute]
  cases (planner.resolve e).1 <;> rfl

theorem summarize_effective_action_blockReroute :
    planner.blockReroute.summarize_effective_action true = planner.summarize_effective_action true := by
  funext plan item
  unfold summarize_effective_action effective_action
  rw [resolve_blockReroute]
  generalize planner.resolve item.entity_type = resolved
  obtain ⟨action, entry⟩ := resolved
  cases action <;> rfl

/-- Preparation never sees whether an entity is rerouted or blocked. -/
theorem prepare_blockReroute (text : Text) (items : List EntityMatch) :
    planner.blockReroute.prepare text items true = planner.prepare text items true := by
  have hresolve : planner.blockReroute.resolve_matches items text.length true =
      planner.resolve_matches items text.length true := by
    unfold resolve_matches
    congr 1
    funext e
    exact congrArg PIIAction.strictness (congrFun planner.decidingAction_blockReroute e)
  have hdetect : planner.blockReroute.summarize_detection true = planner.summarize_detection true := by
    funext plan item
    have haction := congrFun planner.decidingAction_blockReroute item.entity_type
    unfold decidingAction at haction
    unfold summarize_detection
    rw [haction]
  unfold prepare
  rw [hresolve, hdetect, summarize_effective_action_blockReroute]

/-- The raw action only matters where it is executed, and a rerouted region is not. -/
theorem transform_match_blockReroute (nonce : Text) (clock : EntityMatch → Nat) (s : TransformState)
    {item : EntityMatch} (h : (planner.resolve item.entity_type).1 ≠ .reroute) :
    planner.blockReroute.transform_match nonce clock s item = planner.transform_match nonce clock s item := by
  unfold transform_match executes
  rw [planner.resolve_blockReroute_eq h]
  rfl

theorem transform_blockReroute {text : Text} {items : List EntityMatch} {plan : LeafPlan}
    (h : planner.Prepared text items true plan) (nonce : Text) (clock : EntityMatch → Nat) :
    planner.blockReroute.transform plan nonce clock = planner.transform plan nonce clock := by
  unfold transform
  by_cases hblocked : plan.blocked = true
  · rw [hblocked]
    rfl
  · congr 1
    funext _
    congr 1
    refine foldlM_congr ?_ _
    intro region hregion s
    refine planner.transform_match_blockReroute nonce clock s ?_
    intro hreroute
    rw [mem_sortOn] at hregion
    refine hblocked (h.blocked.mpr ⟨region, hregion, ?_⟩)
    rw [decidingAction_eq, if_pos ⟨rfl, hreroute⟩]

end planner.ActionPlanner

namespace policy

/-- The result with reroutes of the configuration shown as blocks in its diagnostics. -/
def LogicalDetectionData.blockReroute (detection : LogicalDetectionData) : LogicalDetectionData :=
  { detection with configured_action := detection.configured_action.blockReroute }

def PolicyResult.blockReroute (result : PolicyResult) : PolicyResult :=
  { result with logical_detections := result.logical_detections.map LogicalDetectionData.blockReroute }

namespace PolicyService

def Diagnostics.blockReroute (details : Diagnostics) : Diagnostics :=
  { details with logical_detections := details.logical_detections.map LogicalDetectionData.blockReroute }

def blockReroute (service : PolicyService) : PolicyService :=
  { service with
    planner := service.planner.blockReroute
    compiled := service.compiled }

variable (service : PolicyService) {env : Environment} {request : SegmentRequest} {leaves : List TextLeaf}
  {plans : PreparedLeaves}

theorem custom_matches_blockReroute (text : Text) :
    service.blockReroute.custom_matches text = service.custom_matches text := by
  unfold custom_matches
  change (service.policy.pii.entity_policies.map EntityPolicy.blockReroute).flatMap _ = _
  rw [List.flatMap_map]
  simp only [EntityPolicy.blockReroute_patterns, EntityPolicy.blockReroute_entity_type]
  rfl

theorem prepare_leaf_plans_blockReroute (env : Environment) (leaves : List TextLeaf) :
    service.blockReroute.prepare_leaf_plans env leaves true = service.prepare_leaf_plans env leaves true := by
  refine foldlM_congr ?_ _
  intro leaf _ acc
  unfold prepare_leaf_plan
  rw [custom_matches_blockReroute]
  congr 1
  funext analyzed
  exact congrArg (· >>= _) (service.planner.prepare_blockReroute leaf.text _)

theorem transform_plans_blockReroute (h : service.LeavesPrepared env true leaves plans) (nonce : Text) :
    service.blockReroute.transform_plans env request plans.prepared nonce =
      service.transform_plans env request plans.prepared nonce := by
  unfold transform_plans
  congr 1
  refine foldlM_congr ?_ _
  intro entry hentry acc
  exact congrArg (· >>= _) (service.planner.transform_blockReroute (h.plans entry hentry) nonce (env.clock entry.1.id))

theorem entity_action_blockReroute (e : String) :
    service.blockReroute.entity_action e = (service.entity_action e).blockReroute := by
  rw [← entity_action_eq, ← entity_action_eq]
  exact congrArg Prod.fst (service.planner.resolve_blockReroute e)

theorem diagnose_logical_blockReroute (leaf : TextLeaf) (plan : LeafPlan) (acc : Diagnostics) (item : EntityMatch) :
    service.blockReroute.diagnose_logical leaf plan (Diagnostics.blockReroute acc) item =
      (service.diagnose_logical leaf plan acc item).map Diagnostics.blockReroute := by
  unfold diagnose_logical
  rw [entity_action_blockReroute]
  cases plan.effective_matches.find? (overlapping · item) with
  | none => rfl
  | some region =>
    have hlength : (Diagnostics.blockReroute acc).logical_detections.length = acc.logical_detections.length :=
      List.length_map _
    simp only [hlength]
    split
    · cases plan.entity_actions.get? region.entity_type with
      | none => rfl
      | some action => simp [Except.map, pure, Except.pure, Diagnostics.blockReroute, LogicalDetectionData.blockReroute]
    · rfl

theorem diagnose_region_blockReroute (leaf : TextLeaf) (plan : LeafPlan) (acc : Diagnostics) (region : EntityMatch) :
    diagnose_region leaf plan (Diagnostics.blockReroute acc) region =
      (diagnose_region leaf plan acc region).map Diagnostics.blockReroute := by
  unfold diagnose_region
  change (if acc.effective_regions.length < _ then _ else _) = _
  simp only
  split
  · cases plan.entity_actions.get? region.entity_type <;> rfl
  · rfl

/-- Diagnostics differ in the configured actions alone. -/
theorem requested_diagnostics_blockReroute (include_diagnostics : Bool) (prepared : List (TextLeaf × LeafPlan)) :
    service.blockReroute.requested_diagnostics include_diagnostics prepared =
      (service.requested_diagnostics include_diagnostics prepared).map Diagnostics.blockReroute := by
  unfold requested_diagnostics
  split
  · have hstart : ({} : Diagnostics) = Diagnostics.blockReroute {} := rfl
    unfold diagnostics
    rw [hstart]
    refine foldlM_map_state ?_ _
    intro entry _ acc
    rw [map_bind, foldlM_map_state fun item _ s => service.diagnose_logical_blockReroute entry.1 entry.2 s item]
    cases entry.2.logical_matches.foldlM (service.diagnose_logical entry.1 entry.2) acc with
    | error e => rfl
    | ok acc => exact foldlM_map_state (fun region _ s => diagnose_region_blockReroute entry.1 entry.2 s region) acc
  · rfl

theorem decidingAction_true_ne_reroute (planner : ActionPlanner) (e : String) :
    planner.decidingAction true e ≠ .reroute := by
  rw [ActionPlanner.decidingAction_eq]
  split
  · decide
  · next hraw => exact fun hreroute => hraw ⟨rfl, hreroute⟩

/-- MCP plans ask for no route. -/
theorem route_classes_mcp (h : service.LeavesPrepared env true leaves plans) : plans.route_classes = [] := by
  rw [List.eq_nil_iff_forall_not_mem]
  intro route hroute
  obtain ⟨entry, hentry, hplan, -⟩ := (h.route_classes route).mp hroute
  obtain ⟨region, -, hreroute, -⟩ := (h.plans entry hentry).route_requested route hplan
  exact decidingAction_true_ne_reroute _ _ hreroute

theorem report_rows_mcp {prepared : List (TextLeaf × LeafPlan)}
    {rows : List PIIReportRow}
    (hreportable : ∀ entry ∈ prepared, Reportable (service.planner.decidingAction true) entry.2)
    (hrows : report_rows prepared = .ok rows) : ∀ row ∈ rows, row.action ≠ .pii .reroute := by
  intro row hrow hreroute
  have haction := (report_rows_eq_ok hreportable hrows).actions row hrow
  rw [hreroute, ReportAction.pii.injEq] at haction
  exact decidingAction_true_ne_reroute _ _ haction.symm

/-- The text of an MCP request is analyzed alike under both policies. -/
theorem analyze_text_blockReroute (hmcp : request.request_kind = .mcp) (include_diagnostics : Bool)
    (placeholder_namespace : Option Text) :
    service.blockReroute.analyze_text env request leaves include_diagnostics placeholder_namespace none =
      (service.analyze_text env request leaves include_diagnostics placeholder_namespace none).map
        PolicyResult.blockReroute := by
  unfold analyze_text
  simp only [hmcp, decide_true, ne_eq, not_true_eq_false, and_false, if_false, if_true]
  rw [prepare_leaf_plans_blockReroute, map_bind]
  cases hplans : service.prepare_leaf_plans env leaves true with
  | error e => rfl
  | ok plans =>
    have hprepared := prepare_leaf_plans_prepared hplans
    change service.blockReroute.requested_diagnostics include_diagnostics plans.prepared >>= _ =
      (service.requested_diagnostics include_diagnostics plans.prepared >>= _).map _
    rw [requested_diagnostics_blockReroute, map_bind]
    cases service.requested_diagnostics include_diagnostics plans.prepared with
    | error e => rfl
    | ok details =>
      dsimp only [Except.map]
      change (if _ then _ else _) = (if _ then _ else _ : Except AnalysisError PolicyResult).map _
      simp only [face_route_conflicts, resolve_route_class, service.route_classes_mcp hprepared, Bool.false_eq_true,
        or_false]
      by_cases hblocked : plans.prepared.any (·.2.blocked) = true
      · rw [if_pos hblocked, if_pos hblocked]
        cases report_rows plans.prepared <;> rfl
      · rw [if_neg hblocked, if_neg hblocked, transform_plans_blockReroute service hprepared, map_bind]
        congr 1
        funext transformed
        rw [map_bind]
        congr 1
        funext _
        cases report_rows transformed.2.prepared <;> rfl

theorem faceCount_mcp (hmcp : request.request_kind = .mcp) :
    request.visual_findings = none ∧ request.faceCount = 0 := by
  have hvisual : request.visual_findings = none := by
    by_contra hsome
    exact (request.visual_ok hsome).1 hmcp
  exact ⟨hvisual, by rw [SegmentRequest.faceCount, hvisual]⟩

theorem face_route_mcp (hmcp : request.request_kind = .mcp) : service.face_route request = none :=
  if_neg fun h => h.1 (faceCount_mcp hmcp).2

/-- What no MCP result carries. -/
structure Unrouted (result : PolicyResult) : Prop where
  decision : result.decision ≠ .reroute
  route_class : result.route_class = none
  request_notices : result.request_notices = []
  response_notices : result.response_notices = []
  report_rows : ∀ row ∈ result.report_rows, row.action ≠ .pii .reroute

theorem analyze_text_unrouted (hmcp : request.request_kind = .mcp) {include_diagnostics : Bool}
    {placeholder_namespace : Option Text} {result : PolicyResult}
    (h : service.analyze_text env request (text_leaves request) include_diagnostics placeholder_namespace none =
      .ok result) : Unrouted result := by
  obtain ⟨plans, hplans, hscanned, hcases⟩ := analyze_text_cases h
  rw [hmcp, decide_eq_true rfl] at hplans
  have hprepared := prepare_leaf_plans_prepared hplans
  cases hcases with
  | inl hblocked =>
    obtain ⟨-, hblocked⟩ := hblocked
    refine ⟨?_, hblocked.route_class, hscanned.request_notices, hblocked.response_notices,
      service.report_rows_mcp hprepared.reportable hblocked.report_rows⟩
    rw [hblocked.decision]
    decide
  | inr hrest =>
    obtain ⟨-, segments, transformed, htext⟩ := hrest
    have hroute : service.text_route none plans = none := by
      rw [text_route, service.route_classes_mcp hprepared]
      rfl
    have htransformed := (transform_plans_transformed htext.transform hprepared.leaves).1
    refine ⟨?_, ?_, hscanned.request_notices, ?_,
      service.report_rows_mcp (htransformed.reportable hprepared) htext.report_rows⟩
    · rw [htext.decision, hroute, text_decision]
      split
      · cases ‹(none : Option String).isSome = true›
      · split <;> decide
    · rw [htext.route_class, hroute, if_neg fun hkind => hkind.2 hmcp]
    · rw [htext.response_notices, if_pos hmcp]

/-- MCP treats a reroute exactly as a block: a policy and the one that blocks instead answer
    alike, errors included, up to the configured actions that the diagnostics repeat, and no
    answer routes. -/
theorem analyze_segments_blockReroute (service : PolicyService) (env : Environment) (request : SegmentRequest)
    (include_diagnostics : Bool) (placeholder_namespace : Option Text) (hmcp : request.request_kind = .mcp) :
    service.blockReroute.analyze_segments env request include_diagnostics placeholder_namespace =
      (service.analyze_segments env request include_diagnostics placeholder_namespace).map
        PolicyResult.blockReroute ∧
    ∀ result, service.analyze_segments env request include_diagnostics placeholder_namespace = .ok result →
      Unrouted result := by
  constructor
  · have hvisual : service.visual_decision request (text_leaves request) = none := by
      rw [visual_decision, (faceCount_mcp hmcp).1]
    have hvisual' : service.blockReroute.visual_decision request (text_leaves request) = none := by
      rw [visual_decision, (faceCount_mcp hmcp).1]
    unfold analyze_segments
    simp only [(faceCount_mcp hmcp).1, hvisual, hvisual', Option.or_none, settled_or_text]
    rw [face_route_mcp service hmcp, face_route_mcp service.blockReroute hmcp, map_bind]
    change service.preflight request (text_leaves request) >>= _ = _
    cases hpreflight : service.preflight request (text_leaves request) with
    | error e => rfl
    | ok settled =>
      cases settled with
      | none =>
        change service.blockReroute.analyze_text _ _ _ _ _ _ >>= _ = (service.analyze_text _ _ _ _ _ _ >>= _).map _
        rw [analyze_text_blockReroute service hmcp]
        cases service.analyze_text env request (text_leaves request) include_diagnostics placeholder_namespace none <;>
          rfl
      | some base =>
        -- a settled answer repeats no configured action
        have hsame : base.blockReroute = base := by
          rcases preflight_eq_some hpreflight with ⟨-, -, -, rfl⟩ | ⟨-, rfl⟩ | ⟨-, safety, -, rfl⟩ <;> rfl
        change .ok base = Except.ok base.blockReroute
        rw [hsame]
  · intro result h
    obtain ⟨base, hbase, happly⟩ := analyze_segments_cases h
    rw [apply_visual_result_eq_ok, (faceCount_mcp hmcp).2] at happly
    obtain ⟨-, rfl⟩ := happly.resolve_right fun hface => hface.1 rfl
    rcases hbase with hpreflight | ⟨-, hvisual | ⟨-, htext⟩⟩
    · rcases preflight_eq_some hpreflight with ⟨-, -, -, rfl⟩ | ⟨-, rfl⟩ | ⟨-, safety, -, rfl⟩
      · exact ⟨by decide, rfl, rfl, rfl, by simp⟩
      · exact ⟨by simp, rfl, rfl, if_pos hmcp, by simp⟩
      · exact ⟨by simp, rfl, rfl, if_pos hmcp, by simp⟩
    · rw [visual_decision, (faceCount_mcp hmcp).1] at hvisual
      cases hvisual
    · rw [face_route_mcp service hmcp] at htext
      exact service.analyze_text_unrouted hmcp htext

/-- A tool call that carries one value of a rerouted type. -/
def iban_call : SegmentRequest :=
  .ofTexts .mcp .request [{ id := "arg", text := "pay NL91ABNA0417164300".toList }] false (by decide)

/-- The rerouted value of the call is blocked under both policies. -/
theorem analyze_segments_blockReroute_iban :
    test_service.blockReroute.analyze_segments
        (test_environment [⟨"IBAN", 4, 22, some (9 / 10), "pattern"⟩]) iban_call true none =
      (test_service.analyze_segments
        (test_environment [⟨"IBAN", 4, 22, some (9 / 10), "pattern"⟩]) iban_call true none).map
        PolicyResult.blockReroute ∧
    ∀ result, test_service.analyze_segments
        (test_environment [⟨"IBAN", 4, 22, some (9 / 10), "pattern"⟩]) iban_call true none = .ok result →
      Unrouted result :=
  analyze_segments_blockReroute test_service (test_environment [⟨"IBAN", 4, 22, some (9 / 10), "pattern"⟩])
    iban_call true none rfl

end PolicyService

end policy

end pii_engine
