import PiiEngine.Policy.Plans

open checked collections
open pii_engine.config pii_engine.planner

namespace pii_engine.policy.PolicyService
variable {service : PolicyService} {env : Environment} {request : SegmentRequest} {leaves : List TextLeaf}
  {reroute_as_block : Bool} {plans : PreparedLeaves}

/-- Every region names a type whose action the plan holds. -/
theorem exists_action_of_region {planner : ActionPlanner} {text : Text} {items : List EntityMatch}
    {plan : LeafPlan} (h : planner.Prepared text items reroute_as_block plan) {region : EntityMatch}
    (hregion : region ∈ plan.effective_matches) :
    ∃ action, plan.entity_actions.get? region.entity_type = some action := by
  obtain ⟨item, hitem, htype⟩ := exists_raw_of_region h hregion
  obtain ⟨logical, hlogical, htype'⟩ := h.resolved.exists_logical_of_raw hitem
  have hkey := (h.action_keys region.entity_type).mpr ⟨logical, hlogical, htype'.trans htype⟩
  exact Option.isSome_iff_exists.mp (OrderedDict.mem_keys_iff.mp hkey)

theorem diagnose_logical_total (service : PolicyService) {planner : ActionPlanner} {text : Text}
    {items : List EntityMatch}
    {plan : LeafPlan} (h : planner.Prepared text items reroute_as_block plan) (leaf : TextLeaf)
    {item : EntityMatch} (hitem : item ∈ plan.logical_matches) (acc : Diagnostics) :
    ∃ acc', service.diagnose_logical leaf plan acc item = .ok acc' := by
  obtain ⟨region, hregion, hstart, hstop⟩ := h.resolved.exists_region_of_logical h.start_lt_stop hitem
  cases hfind : plan.effective_matches.find? (overlapping · item) with
  | none =>
    have hapart := List.find?_eq_none.mp hfind region hregion
    simp only [overlapping, decide_eq_true_eq, not_and, gt_iff_lt, not_lt] at hapart
    have := hapart hstart
    omega
  | some found =>
    obtain ⟨action, haction⟩ := exists_action_of_region h (List.mem_of_find?_eq_some hfind)
    unfold diagnose_logical
    rw [hfind]
    simp only [haction]
    split
    · exact ⟨_, rfl⟩
    · exact ⟨_, rfl⟩

theorem diagnose_region_total {planner : ActionPlanner} {text : Text} {items : List EntityMatch}
    {plan : LeafPlan} (h : planner.Prepared text items reroute_as_block plan) (leaf : TextLeaf)
    {region : EntityMatch} (hregion : region ∈ plan.effective_matches) (acc : Diagnostics) :
    ∃ acc', diagnose_region leaf plan acc region = .ok acc' := by
  obtain ⟨action, haction⟩ := exists_action_of_region h hregion
  unfold diagnose_region
  simp only [haction]
  split
  · exact ⟨_, rfl⟩
  · exact ⟨_, rfl⟩

/-- Diagnostics find a region for every logical detection and an action for every region. -/
theorem diagnostics_total (h : service.LeavesPrepared env reroute_as_block leaves plans) :
    ∃ details, service.diagnostics plans.prepared = .ok details := by
  refine foldlM_total_of_step ?_ ({} : Diagnostics)
  intro entry hentry acc
  have hplan := h.plans entry hentry
  obtain ⟨acc', hacc'⟩ := foldlM_total_of_step
    (fun item hitem => service.diagnose_logical_total hplan entry.1 hitem) acc
  obtain ⟨acc'', hacc''⟩ := foldlM_total_of_step
    (fun region hregion => diagnose_region_total hplan entry.1 hregion) acc'
  exact ⟨acc'', bind_eq_ok.mpr ⟨acc', hacc', hacc''⟩⟩

theorem requested_diagnostics_total (h : service.LeavesPrepared env reroute_as_block leaves plans)
    (include_diagnostics : Bool) :
    ∃ details, service.requested_diagnostics include_diagnostics plans.prepared = .ok details := by
  unfold requested_diagnostics
  split
  · exact diagnostics_total h
  · exact ⟨{}, rfl⟩

/-- The route that the faces or the rerouted entities of a request ask for. -/
def text_route (service : PolicyService) (face_route : Option String) (plans : PreparedLeaves) : Option String :=
  face_route.or (service.resolve_route_class plans.reroute_entities plans.route_classes)

/-- A request is blocked when a region is, or when a text route disagrees with the face route. -/
def TextBlocked (service : PolicyService) (face_route : Option String) (plans : PreparedLeaves) : Prop :=
  (∃ entry ∈ plans.prepared, entry.2.blocked = true) ∨
    service.face_route_conflicts face_route plans.reroute_entities = true

instance (service : PolicyService) (face_route : Option String) (plans : PreparedLeaves) :
    Decidable (service.TextBlocked face_route plans) := inferInstanceAs (Decidable (_ ∨ _))

/-- What every text result says about its scan. -/
structure Scanned (leaves : List TextLeaf) (plans : PreparedLeaves) (result : PolicyResult) : Prop where
  entities : result.entities = plans.entities.sorted id
  entity_counts : result.entity_counts = plans.counts
  analysis_source : result.analysis_source = .current_request
  scan_performed : result.scan_performed = true
  overlap_count : result.overlap_count = plans.overlap_count
  uncached : result.cached_decision_applied = false
  unruled : result.safety_rule = none
  request_notices : result.request_notices = []
  duration_ms : result.duration_ms = none
  text_leaf_count : result.text_leaf_count = leaves.length

structure BlockedText (plans : PreparedLeaves) (result : PolicyResult) : Prop where
  decision : result.decision = .block
  remote_allowed : result.remote_allowed = false
  segments : result.segments = none
  applied_actions : result.applied_actions = [.pii .block]
  report_rows : PolicyService.report_rows plans.prepared = .ok result.report_rows
  route_class : result.route_class = none
  reversal : result.reversal = .empty
  response_notices : result.response_notices = []

structure TransformedText (service : PolicyService) (env : Environment) (request : SegmentRequest)
    (nonce : Text) (face_route : Option String) (plans : PreparedLeaves) (output : List TextSegment)
    (transformed : TransformedLeaves) (result : PolicyResult) : Prop where
  transform : service.transform_plans env request plans.prepared nonce = .ok (output, transformed)
  fresh : ∀ placeholder ∈ transformed.reversal.keys,
    ¬ placeholder <:+: Text.joinLines ((text_leaves request).map (·.text))
  decision : result.decision = text_decision (service.text_route face_route plans) transformed.actions
  remote_allowed : result.remote_allowed = decide (result.decision ≠ .reroute)
  segments : result.segments = some output
  applied_actions : result.applied_actions = sortedActions (piiActions transformed.actions)
  report_rows : PolicyService.report_rows transformed.prepared = .ok result.report_rows
  route_class : result.route_class =
    if service.text_route face_route plans = none ∧ request.request_kind ≠ .mcp then
      some (service.classify output) else service.text_route face_route plans
  reversal : result.reversal = transformed.reversal
  response_notices : result.response_notices = if request.request_kind = .mcp then []
    else service.response_notices result.decision (plans.entities.elems ≠ []) transformed.actions

/-- A text result follows from its plans: either it is blocked before any transformation, or
    every plan was transformed. -/
theorem analyze_text_cases {include_diagnostics : Bool} {placeholder_namespace : Option Text}
    {face_route : Option String} {result : PolicyResult}
    (h : service.analyze_text env request (text_leaves request) include_diagnostics placeholder_namespace face_route =
      .ok result) :
    ∃ plans, service.prepare_leaf_plans env (text_leaves request) (request.request_kind = .mcp) = .ok plans ∧
      Scanned (text_leaves request) plans result ∧
      ((service.TextBlocked face_route plans ∧ BlockedText plans result) ∨
        (¬ service.TextBlocked face_route plans ∧ ∃ segments transformed, service.TransformedText env request
          (request_namespace env placeholder_namespace) face_route plans segments transformed result)) := by
  unfold analyze_text at h
  obtain ⟨plans, hplans, h⟩ := bind_eq_ok.mp h
  obtain ⟨details, -, h⟩ := bind_eq_ok.mp h
  refine ⟨plans, hplans, ?_⟩
  have hblocked : ((plans.prepared.any (·.2.blocked)) = true ∨
      service.face_route_conflicts face_route plans.reroute_entities = true) ↔
        service.TextBlocked face_route plans := by
    rw [TextBlocked, List.any_eq_true]
  rw [if_congr hblocked rfl rfl] at h
  split at h
  · next hblock =>
    obtain ⟨rows, hrows, h⟩ := bind_eq_ok.mp h
    rw [← Except.ok.inj h]
    exact ⟨by constructor <;> rfl, Or.inl ⟨hblock, rfl, rfl, rfl, rfl, hrows, rfl, rfl, rfl⟩⟩
  · next hblock =>
    obtain ⟨⟨segments, transformed⟩, htransform, h⟩ := bind_eq_ok.mp h
    obtain ⟨hfresh, h⟩ := raiseIf_bind_eq_ok.mp h
    obtain ⟨rows, hrows, h⟩ := bind_eq_ok.mp h
    rw [← Except.ok.inj h]
    refine ⟨by constructor <;> rfl, Or.inr ⟨hblock, segments, transformed, htransform, ?_, rfl, rfl, rfl, rfl, hrows,
      rfl, rfl, rfl⟩⟩
    intro placeholder hplaceholder hinfix
    exact hfresh ⟨placeholder, hplaceholder, hinfix⟩

/-- The conditions under which a report row of every detected type can be built. -/
structure ReportableText (service : PolicyService) (plans : PreparedLeaves) : Prop where
  types : ∀ entry ∈ plans.prepared, ∀ e ∈ entry.2.entity_counts.keys, ReportedType e
  counts : ∀ e, detectedCount plans.prepared e ≤ 10000000

theorem LeavesPrepared.reportable (h : service.LeavesPrepared env reroute_as_block leaves plans) :
    ∀ entry ∈ plans.prepared, Reportable (service.planner.decidingAction reroute_as_block) entry.2 :=
  fun entry hentry => (h.plans entry hentry).reportable

/-- How a transformed plan comes from its prepared one. -/
theorem LeavesTransformed.exists_prepared {nonce : Text} {prepared : List (TextLeaf × LeafPlan)}
    {transformed : TransformedLeaves}
    (h : service.LeavesTransformed env nonce prepared transformed) {entry : TextLeaf × LeafPlan}
    (hentry : entry ∈ transformed.prepared) : ∃ before ∈ prepared, entry.1 = before.1 ∧
      service.planner.transform before.2 nonce (env.clock before.1.id) = .ok entry.2 :=
  exists_left_of_forall₂ h.plans hentry

theorem LeavesTransformed.reportable {nonce : Text} {transformed : TransformedLeaves}
    (h : service.LeavesTransformed env nonce plans.prepared transformed)
    (hplans : service.LeavesPrepared env reroute_as_block leaves plans) :
    ∀ entry ∈ transformed.prepared, Reportable (service.planner.decidingAction reroute_as_block) entry.2 := by
  intro entry hentry
  obtain ⟨before, hbefore, -, htransform⟩ := h.exists_prepared hentry
  have hprepared := hplans.plans before hbefore
  exact (ActionPlanner.transform_transformed hprepared htransform).reportable hprepared

/-- Transformation changes nothing that was detected. -/
theorem LeavesTransformed.entity_counts {nonce : Text} {transformed : TransformedLeaves}
    (h : service.LeavesTransformed env nonce plans.prepared transformed)
    (hplans : service.LeavesPrepared env reroute_as_block leaves plans) :
    transformed.prepared.map (fun entry => entry.2.entity_counts) =
      plans.prepared.map fun entry => entry.2.entity_counts := by
  have hall := hplans.plans
  have hrel := h.plans
  generalize plans.prepared = prepared at hall hrel
  generalize transformed.prepared = after at hrel
  induction hrel with
  | nil => rfl
  | @cons entry entry' prepared after hentry _ ih =>
    rw [List.map_cons, List.map_cons, ih fun other hother => hall other (by simp [hother])]
    have hframe := (ActionPlanner.transform_transformed (hall entry (by simp)) hentry.2).frame
    rw [hframe]

theorem detectedCount_eq {prepared : List (TextLeaf × LeafPlan)} (e : String) :
    detectedCount prepared e =
      ((prepared.map fun entry => entry.2.entity_counts).map fun counts => counts.getD e 0).sum := by
  rw [List.map_map]
  rfl

theorem exists_key_iff {prepared : List (TextLeaf × LeafPlan)} (e : String) :
    (∃ entry ∈ prepared, e ∈ entry.2.entity_counts.keys) ↔
      ∃ counts ∈ prepared.map fun entry => entry.2.entity_counts, e ∈ counts.keys := by
  simp

/-- A text analysis with admitted types fails only while an unblocked request is transformed. -/
theorem analyze_text_failure {include_diagnostics : Bool} {placeholder_namespace : Option Text}
    {face_route : Option String} {e : AnalysisError}
    (hplans : service.prepare_leaf_plans env (text_leaves request) (request.request_kind = .mcp) = .ok plans)
    (hreport : service.ReportableText plans)
    (h : service.analyze_text env request (text_leaves request) include_diagnostics placeholder_namespace face_route =
      .error e) :
    ¬ service.TextBlocked face_route plans ∧
      (service.transform_plans env request plans.prepared (request_namespace env placeholder_namespace) = .error e ∨
        ∃ segments transformed, service.transform_plans env request plans.prepared
            (request_namespace env placeholder_namespace) = .ok (segments, transformed) ∧
          (∃ placeholder ∈ transformed.reversal.keys,
            placeholder <:+: Text.joinLines ((text_leaves request).map (·.text))) ∧
          e = .value_error "generated reversal placeholder already existed in request") := by
  have hprepared := prepare_leaf_plans_prepared hplans
  obtain ⟨details, hdetails⟩ := requested_diagnostics_total hprepared include_diagnostics
  unfold analyze_text at h
  rw [hplans] at h
  change service.requested_diagnostics include_diagnostics plans.prepared >>= _ = _ at h
  rw [hdetails] at h
  change (if _ then _ else _) = _ at h
  have hblocked : ((plans.prepared.any (·.2.blocked)) = true ∨
      service.face_route_conflicts face_route plans.reroute_entities = true) ↔
        service.TextBlocked face_route plans := by
    rw [TextBlocked, List.any_eq_true]
  rw [if_congr hblocked rfl rfl] at h
  split at h
  · obtain ⟨rows, hrows⟩ := report_rows_total hprepared.reportable hreport.types hreport.counts
    rw [hrows] at h
    cases h
  · next hblock =>
    refine ⟨hblock, ?_⟩
    cases bind_eq_error.mp h with
    | inl htransform => exact Or.inl htransform
    | inr hrest =>
      obtain ⟨⟨segments, transformed⟩, htransform, h⟩ := hrest
      cases raiseIf_bind_eq_error.mp h with
      | inl hraise => exact Or.inr ⟨segments, transformed, htransform, hraise.1, hraise.2.symm⟩
      | inr hrest =>
        obtain ⟨-, h⟩ := hrest
        have htransformed := (transform_plans_transformed htransform hprepared.leaves).1
        have hcounts := htransformed.entity_counts hprepared
        obtain ⟨rows, hrows⟩ := report_rows_total (htransformed.reportable hprepared)
          (by
            intro entry hentry e he
            obtain ⟨before, hbefore, hkey⟩ := (exists_key_iff e).mpr
              (hcounts ▸ (exists_key_iff e).mp ⟨entry, hentry, he⟩)
            exact hreport.types before hbefore e hkey)
          (by
            intro e
            rw [detectedCount_eq, hcounts, ← detectedCount_eq]
            exact hreport.counts e)
        rw [hrows] at h
        cases h

theorem analyze_text_error {include_diagnostics : Bool} {placeholder_namespace : Option Text}
    {face_route : Option String} {e : AnalysisError}
    (hplans : service.prepare_leaf_plans env (text_leaves request) (request.request_kind = .mcp) = .ok plans)
    (hreport : service.ReportableText plans)
    (h : service.analyze_text env request (text_leaves request) include_diagnostics placeholder_namespace face_route =
      .error e) :
    ¬ service.TextBlocked face_route plans ∧
      (service.transform_plans env request plans.prepared (request_namespace env placeholder_namespace) = .error e ∨
        e = .value_error "generated reversal placeholder already existed in request") := by
  obtain ⟨hunblocked, hreason⟩ := analyze_text_failure hplans hreport h
  refine ⟨hunblocked, hreason.imp_right ?_⟩
  rintro ⟨segments, transformed, -, -, rfl⟩
  rfl

/-- What preflight settles without any analysis. -/
theorem preflight_eq_some {result : PolicyResult}
    (h : service.preflight request leaves = .ok (some result)) :
    (request.request_kind = .mcp ∧ leaves = [] ∧ request.attachments_present = false ∧
      result = { segments := some [], decision := .pass, remote_allowed := true }) ∨
    (request.attachments_present = true ∧ result = {
      decision := .block
      remote_allowed := false
      applied_actions := [.pii .block]
      response_notices := if request.request_kind = .mcp then []
        else ["Attachments are blocked by the configured policy."]
      text_leaf_count := leaves.length }) ∨
    (request.attachments_present = false ∧ ∃ safety, service.safety_match leaves = some safety ∧ result = {
      decision := .block
      remote_allowed := false
      applied_actions := [.pii .block]
      safety_rule := some safety.name
      response_notices := if request.request_kind = .mcp then [] else [safety.message]
      text_leaf_count := leaves.length }) := by
  unfold preflight at h
  split at h
  · next hmcp => exact Or.inl ⟨hmcp.1, hmcp.2.1, hmcp.2.2, (Option.some.inj (Except.ok.inj h)).symm⟩
  · obtain ⟨-, -, h⟩ := bind_eq_ok.mp h
    have hblock := Except.ok.inj h
    unfold preflight_block at hblock
    split at hblock
    · next hattachments => exact Or.inr (Or.inl ⟨hattachments, (Option.some.inj hblock).symm⟩)
    · next hattachments =>
      rw [Bool.not_eq_true] at hattachments
      split at hblock
      · next safety hsafety =>
        exact Or.inr (Or.inr ⟨hattachments, safety, hsafety, (Option.some.inj hblock).symm⟩)
      · cases hblock

/-- What preflight lets through has no attachments and matches no safety rule. -/
theorem preflight_eq_none (h : service.preflight request leaves = .ok none) :
    request.attachments_present = false ∧ service.safety_match leaves = none := by
  unfold preflight at h
  split at h
  · cases h
  · obtain ⟨-, -, h⟩ := bind_eq_ok.mp h
    have hblock := Except.ok.inj h
    unfold preflight_block at hblock
    split at hblock
    · cases hblock
    · next hattachments =>
      rw [Bool.not_eq_true] at hattachments
      split at hblock
      · cases hblock
      · next hsafety => exact ⟨hattachments, hsafety⟩

/-- A result settled by the visual findings. -/
theorem visual_decision_eq_some {result : PolicyResult}
    (h : service.visual_decision request leaves = some result) :
    request.visual_findings.isSome = true ∧
    (result = { decision := .block, remote_allowed := false, applied_actions := [.pii .block]
                text_leaf_count := leaves.length } ∨
      (request.text_pii_enabled = false ∧ result = {
        segments := some request.segments, decision := .pass, remote_allowed := true
        text_leaf_count := leaves.length })) := by
  unfold visual_decision at h
  split at h
  · cases h
  · next visual hvisual =>
    refine ⟨by rw [hvisual]; rfl, ?_⟩
    split at h
    · exact Or.inl (Option.some.inj h).symm
    · split at h
      · next hdisabled => exact Or.inr ⟨hdisabled, (Option.some.inj h).symm⟩
      · cases h

theorem apply_visual_result_eq_ok {result output : PolicyResult} {face_route : Option String} :
    service.apply_visual_result result request face_route = .ok output ↔
      (request.faceCount = 0 ∧ output = result) ∨
      (request.faceCount ≠ 0 ∧ ∃ row,
        PIIReportRow.create "FACE" (service.visual_action result) request.faceCount 0 0 = .ok row ∧
        output = service.apply_face_action
          (add_face_evidence result (service.visual_action result) request.faceCount row)
          (service.visual_action result) face_route) := by
  unfold apply_visual_result
  by_cases hcount : request.faceCount = 0
  · simp [hcount, pure, Except.pure, eq_comm]
  · rw [if_neg hcount]
    constructor
    · intro h
      obtain ⟨row, hrow, h⟩ := bind_eq_ok.mp h
      exact Or.inr ⟨hcount, row, hrow, (Except.ok.inj h).symm⟩
    · rintro (⟨hzero, -⟩ | ⟨-, row, hrow, rfl⟩)
      · exact absurd hzero hcount
      · exact bind_eq_ok.mpr ⟨row, hrow, rfl⟩

/-- A result comes from a settled or analyzed base, to which the visual evidence is added. -/
theorem analyze_segments_cases {include_diagnostics : Bool} {placeholder_namespace : Option Text}
    {result : PolicyResult}
    (h : service.analyze_segments env request include_diagnostics placeholder_namespace = .ok result) :
    ∃ base,
      (service.preflight request (text_leaves request) = .ok (some base) ∨
        (service.preflight request (text_leaves request) = .ok none ∧
          (service.visual_decision request (text_leaves request) = some base ∨
            (service.visual_decision request (text_leaves request) = none ∧
              service.analyze_text env request (text_leaves request) include_diagnostics placeholder_namespace
                (service.face_route request) = .ok base)))) ∧
      service.apply_visual_result base request (service.face_route request) = .ok result := by
  obtain ⟨preflight, hpreflight, h⟩ := bind_eq_ok.mp h
  obtain ⟨base, hbase, h⟩ := bind_eq_ok.mp h
  refine ⟨base, ?_, ?_⟩
  · rw [hpreflight]
    cases preflight with
    | some settled =>
      rw [Option.some_or] at hbase
      exact Or.inl (by rw [← Except.ok.inj hbase])
    | none =>
      rw [Option.none_or] at hbase
      refine Or.inr ⟨rfl, ?_⟩
      cases hvisual : service.visual_decision request (text_leaves request) with
      | some settled =>
        rw [hvisual] at hbase
        exact Or.inl (by rw [← Except.ok.inj hbase])
      | none =>
        rw [hvisual] at hbase
        exact Or.inr ⟨rfl, hbase⟩
  · split at h
    · exact h
    · next hvisual =>
      rw [Bool.not_eq_true, Option.isSome_eq_false_iff, Option.isNone_iff_eq_none] at hvisual
      rw [apply_visual_result_eq_ok]
      refine Or.inl ⟨?_, (Except.ok.inj h).symm⟩
      rw [SegmentRequest.faceCount, hvisual]

/-- The visual evidence leaves the text of a result alone and keeps its block. -/
theorem apply_visual_result_frame {result output : PolicyResult} {face_route : Option String}
    (h : service.apply_visual_result result request face_route = .ok output) :
    output.segments = result.segments ∧ output.scan_performed = result.scan_performed ∧
      output.reversal = result.reversal ∧ (result.decision = .block → output.decision = .block) := by
  cases apply_visual_result_eq_ok.mp h with
  | inl hnone =>
    rw [hnone.2]
    exact ⟨rfl, rfl, rfl, id⟩
  | inr hface =>
    obtain ⟨-, row, -, rfl⟩ := hface
    unfold apply_face_action
    split
    · next haction =>
      refine ⟨rfl, rfl, rfl, fun hblock => ?_⟩
      rw [visual_action, if_pos hblock] at haction
      cases haction
    · split
      · next haction =>
        refine ⟨rfl, rfl, rfl, fun hblock => ?_⟩
        rw [visual_action, if_pos hblock] at haction
        cases haction
      · exact ⟨rfl, rfl, rfl, id⟩

/-- A request with attachments is blocked. -/
theorem attachments_block {include_diagnostics : Bool} {placeholder_namespace : Option Text}
    {result : PolicyResult}
    (h : service.analyze_segments env request include_diagnostics placeholder_namespace = .ok result)
    (hattachments : request.attachments_present = true) : result.decision = .block := by
  obtain ⟨base, hbase, hvisual⟩ := analyze_segments_cases h
  refine (apply_visual_result_frame hvisual).2.2.2 ?_
  cases hbase with
  | inl hpreflight =>
    rcases preflight_eq_some hpreflight with ⟨-, -, hnone, -⟩ | ⟨-, rfl⟩ | ⟨hnone, -⟩
    · rw [hattachments] at hnone
      cases hnone
    · rfl
    · rw [hattachments] at hnone
      cases hnone
  | inr hrest =>
    have hnone := (preflight_eq_none hrest.1).1
    rw [hattachments] at hnone
    cases hnone

end pii_engine.policy.PolicyService
