import PiiEngine.Policy.Completion
import PiiEngine.Policy.McpReroute
import PiiEngine.Session

open checked collections
open pii_engine.config pii_engine.planner

namespace pii_engine.policy.PolicyService

/-- The entities, the counts and the rows of a result agree with each other. -/
structure Evidence (result : PolicyResult) : Prop where
  keys : ∀ e, e ∈ result.entity_counts.keys ↔ e ∈ result.entities
  nodup : result.entities.Nodup
  sorted : (result.report_rows.map PIIReportRow.entity_type).Pairwise (· < ·)
  types : ∀ e, e ∈ result.report_rows.map PIIReportRow.entity_type ↔ e ∈ result.entities
  detected : ∀ row ∈ result.report_rows, row.detected_count = result.entity_counts.getD row.entity_type 0

variable {service : PolicyService} {env : Environment} {request : SegmentRequest} {include_diagnostics : Bool}
  {placeholder_namespace : Option Text} {face_route : Option String} {plans : PreparedLeaves} {result : PolicyResult}
  {leaves : List TextLeaf} {reroute_as_block : Bool} {rows : List PIIReportRow}

/-- The rows of a report name the detected types, in their counts and with their actions. -/
structure RowsOf (service : PolicyService) (reroute_as_block : Bool) (plans : PreparedLeaves)
    (rows : List PIIReportRow) : Prop where
  sorted : (rows.map PIIReportRow.entity_type).Pairwise (· < ·)
  types : ∀ e, e ∈ rows.map PIIReportRow.entity_type ↔ e ∈ plans.entities
  actions : ∀ row ∈ rows, row.action = .pii (service.planner.decidingAction reroute_as_block row.entity_type)
  detected : ∀ row ∈ rows, row.detected_count = plans.counts.getD row.entity_type 0

theorem LeavesPrepared.exists_key_iff (h : service.LeavesPrepared env reroute_as_block leaves plans) (e : String) :
    (∃ entry ∈ plans.prepared, e ∈ entry.2.entity_counts.keys) ↔ e ∈ plans.entities := by
  rw [h.entities]
  exact exists_congr fun entry => and_congr_right fun hentry => mem_entities_iff_counts (h.plans entry hentry) e

/-- Plans that detect what the prepared ones did are reported alike. -/
theorem ReportRows.rowsOf {prepared : List (TextLeaf × LeafPlan)}
    (hrows : ReportRows (service.planner.decidingAction reroute_as_block) prepared rows)
    (h : service.LeavesPrepared env reroute_as_block leaves plans)
    (hcounts : prepared.map (fun entry => entry.2.entity_counts) =
      plans.prepared.map fun entry => entry.2.entity_counts) : service.RowsOf reroute_as_block plans rows := by
  refine ⟨hrows.sorted, fun e => ?_, hrows.actions, fun row hrow => ?_⟩
  · rw [hrows.types, PolicyService.exists_key_iff, hcounts, ← PolicyService.exists_key_iff, h.exists_key_iff]
  · rw [hrows.detected row hrow, detectedCount_eq, hcounts, ← detectedCount_eq, h.counts]
    rfl

theorem analyze_text_rows
    (h : service.analyze_text env request (text_leaves request) include_diagnostics placeholder_namespace face_route =
      .ok result) :
    ∃ plans, service.LeavesPrepared env (request.request_kind = .mcp) (text_leaves request) plans ∧
      Scanned (text_leaves request) plans result ∧
      service.RowsOf (request.request_kind = .mcp) plans result.report_rows ∧
      ((service.TextBlocked face_route plans ∧ BlockedText plans result) ∨
        (¬ service.TextBlocked face_route plans ∧ ∃ segments transformed, service.TransformedText env request
          (request_namespace env placeholder_namespace) face_route plans segments transformed result)) := by
  obtain ⟨plans, hplans, hscanned, hcases⟩ := analyze_text_cases h
  have hprepared := prepare_leaf_plans_prepared hplans
  refine ⟨plans, hprepared, hscanned, ?_, hcases⟩
  cases hcases with
  | inl hblocked => exact (report_rows_eq_ok hprepared.reportable hblocked.2.report_rows).rowsOf hprepared rfl
  | inr hrest =>
    obtain ⟨-, segments, transformed, hresult⟩ := hrest
    have htransformed := (transform_plans_transformed hresult.transform hprepared.leaves).1
    exact (report_rows_eq_ok (htransformed.reportable hprepared) hresult.report_rows).rowsOf hprepared
      (htransformed.entity_counts hprepared)

theorem analyze_text_evidence
    (h : service.analyze_text env request (text_leaves request) include_diagnostics placeholder_namespace face_route =
      .ok result) : Evidence result := by
  obtain ⟨plans, hprepared, hscanned, hrows, -⟩ := analyze_text_rows h
  constructor
  · intro e
    rw [hscanned.entity_counts, hscanned.entities, UniqueList.mem_sorted, hprepared.count_keys]
  · rw [hscanned.entities]
    exact plans.entities.sorted_nodup
  · exact hrows.sorted
  · intro e
    rw [hrows.types, hscanned.entities, UniqueList.mem_sorted]
  · intro row hrow
    rw [hrows.detected row hrow, hscanned.entity_counts]

/-- The type of a region was detected. -/
theorem LeavesPrepared.entity_of_region (h : service.LeavesPrepared env reroute_as_block leaves plans)
    {entry : TextLeaf × LeafPlan} (hentry : entry ∈ plans.prepared) {region : EntityMatch}
    (hregion : region ∈ entry.2.effective_matches) : region.entity_type ∈ plans.entities := by
  obtain ⟨item, hitem, htype⟩ := exists_raw_of_region (h.plans entry hentry) hregion
  obtain ⟨logical, hlogical, htype'⟩ := (h.plans entry hentry).resolved.exists_logical_of_raw hitem
  exact (h.entities _).mpr
    ⟨entry, hentry, ((h.plans entry hentry).entities _).mpr ⟨logical, hlogical, htype'.trans htype⟩⟩

/-- The type of a region has a row. -/
theorem RowsOf.exists_row (hrows : service.RowsOf reroute_as_block plans rows)
    (h : service.LeavesPrepared env reroute_as_block leaves plans) {entry : TextLeaf × LeafPlan}
    (hentry : entry ∈ plans.prepared) {region : EntityMatch} (hregion : region ∈ entry.2.effective_matches) :
    ∃ row ∈ rows, row.action = .pii (service.planner.decidingAction reroute_as_block region.entity_type) := by
  obtain ⟨row, hrow, hname⟩ := List.mem_map.mp ((hrows.types _).mpr (h.entity_of_region hentry hregion))
  exact ⟨row, hrow, by rw [hrows.actions row hrow, hname]⟩

/-- A row that blocks stands for a region that does. -/
theorem RowsOf.blocked_of_row (hrows : service.RowsOf reroute_as_block plans rows)
    (h : service.LeavesPrepared env reroute_as_block leaves plans) {row : PIIReportRow} (hrow : row ∈ rows)
    (hblock : row.action = .pii .block) : ∃ entry ∈ plans.prepared, entry.2.blocked = true := by
  obtain ⟨entry, hentry, hmem⟩ := (h.entities _).mp ((hrows.types _).mp (List.mem_map_of_mem hrow))
  have hplan := h.plans entry hentry
  obtain ⟨logical, hlogical, htype⟩ := (hplan.entities _).mp hmem
  obtain ⟨item, hitem, htype'⟩ := hplan.resolved.exists_raw_of_logical hlogical
  obtain ⟨region, hregion, hstrict⟩ := exists_region_of_raw hplan hitem
  have haction := hrows.actions row hrow
  rw [hblock, ReportAction.pii.injEq] at haction
  rw [htype', htype, ← haction] at hstrict
  refine ⟨entry, hentry, hplan.blocked.mpr ⟨region, hregion, ?_⟩⟩
  have hdecision := PIIAction.decision_mono hstrict
  exact PIIAction.decision_eq_block_iff.mp (Decision.block_le_iff.mp hdecision)

/-- A blocked text reports a block. -/
theorem analyze_text_block_row
    (h : service.analyze_text env request (text_leaves request) include_diagnostics placeholder_namespace none =
      .ok result) (hblock : result.decision = .block) : ∃ row ∈ result.report_rows, row.action = .pii .block := by
  obtain ⟨plans, hprepared, -, hrows, hcases⟩ := analyze_text_rows h
  cases hcases with
  | inl hblocked =>
    obtain ⟨⟨entry, hentry, hplan⟩ | hconflict, -⟩ := hblocked
    · obtain ⟨region, hregion, haction⟩ := (hprepared.plans entry hentry).blocked.mp hplan
      obtain ⟨row, hrow, hrowAction⟩ := hrows.exists_row hprepared hentry hregion
      exact ⟨row, hrow, by rw [hrowAction, haction]⟩
    · cases hconflict
  | inr hrest =>
    obtain ⟨-, segments, transformed, hresult⟩ := hrest
    rw [hresult.decision] at hblock
    exact absurd hblock (text_decision_ne_block _ _)

theorem text_decision_eq_reroute_iff {route : Option String} {actions : UniqueList PIIAction} :
    text_decision route actions = .reroute ↔ route.isSome := by
  unfold text_decision
  split
  · next hsome => exact iff_of_true rfl hsome
  · next hnone =>
    refine iff_of_false ?_ hnone
    split <;> decide

/-- The route of an entry is its own or the default one. -/
theorem entry_route_bounded (hdefault : service.policy.routing.default_target.length ≤ 128)
    (entry : Option EntityPolicy) :
    isRouteClass (orDefault (entry.bind (·.route_class)) service.policy.routing.default_target) = true ∧
      (orDefault (entry.bind (·.route_class)) service.policy.routing.default_target).length ≤ 128 := by
  unfold orDefault
  split
  · next text htext =>
    obtain ⟨entry, -, hroute⟩ := Option.bind_eq_some_iff.mp htext
    split
    · exact ⟨service.policy.routing.default_target_ok, hdefault⟩
    · exact entry.route_class_ok text hroute
  · exact ⟨service.policy.routing.default_target_ok, hdefault⟩

/-- The route of a text is one that the policy names. -/
theorem resolve_route_class_bounded (hdefault : service.policy.routing.default_target.length ≤ 128)
    (h : service.LeavesPrepared env reroute_as_block leaves plans) :
    ∀ route ∈ service.resolve_route_class plans.reroute_entities plans.route_classes,
      isRouteClass route = true ∧ route.length ≤ 128 := by
  intro route hroute
  unfold resolve_route_class at hroute
  split at hroute
  · cases hroute
  · next first rest hclasses =>
    split at hroute
    · next entry _ =>
      rw [← Option.some.inj hroute]
      exact entry_route_bounded hdefault (some entry)
    · obtain ⟨entry, hmem, hplan, -⟩ := (h.route_classes first).mp (by rw [hclasses]; exact List.mem_cons_self ..)
      obtain ⟨region, -, -, hrequested⟩ := (h.plans entry hmem).route_requested first hplan
      rw [← Option.some.inj hroute, hrequested]
      exact entry_route_bounded hdefault (service.planner.resolve region.entity_type).2

/-- A rerouted text has a region that reroutes and none that blocks. -/
theorem analyze_text_reroute_rows
    (h : service.analyze_text env request (text_leaves request) include_diagnostics placeholder_namespace none =
      .ok result) (hreroute : result.decision = .reroute) :
    (∀ row ∈ result.report_rows, row.action ≠ .pii .block) ∧
      ∃ row ∈ result.report_rows, row.action = .pii .reroute := by
  obtain ⟨plans, hprepared, -, hrows, hcases⟩ := analyze_text_rows h
  cases hcases with
  | inl hblocked =>
    rw [hblocked.2.decision] at hreroute
    cases hreroute
  | inr hrest =>
    obtain ⟨hunblocked, segments, transformed, hresult⟩ := hrest
    refine ⟨fun row hrow hblock => hunblocked (Or.inl (hrows.blocked_of_row hprepared hrow hblock)), ?_⟩
    rw [hresult.decision, text_decision_eq_reroute_iff] at hreroute
    obtain ⟨entry, hentry, region, hregion, hdecision⟩ :=
      mem_region_decisions.mp ((route_isSome_iff hprepared).mp hreroute)
    obtain ⟨row, hrow, haction⟩ := hrows.exists_row hprepared hentry hregion
    rw [PIIAction.decision_eq_reroute_iff.mp hdecision] at haction
    exact ⟨row, hrow, haction⟩

/-- A safety rule is built in or an entry of the policy. -/
theorem mem_safety_rules {safety : SafetyRule} (h : safety ∈ service.safety_rules) :
    safety ∈ SAFETY_RULES ∨
      ∃ entry ∈ service.policy.safety.custom, safety = ⟨entry.name, entry.pattern, entry.message⟩ := by
  obtain ⟨enabled, henabled, hrules⟩ := bind_eq_ok.mp service.compiled
  rw [← Except.ok.inj hrules, List.mem_append] at h
  cases h with
  | inl hmem =>
    obtain ⟨name, -, hname⟩ := exists_left_of_forall₂ (mapM_eq_ok.mp henabled) hmem
    split at hname
    · next rule hrule =>
      cases hname
      exact Or.inl (List.mem_of_find?_eq_some hrule)
    · cases hname
  | inr hmem =>
    obtain ⟨entry, hentry, rfl⟩ := List.mem_map.mp hmem
    exact Or.inr ⟨entry, hentry, rfl⟩

/-- The message of a safety rule is short enough for a notice. -/
theorem safety_message_le {safety : SafetyRule} (h : safety ∈ service.safety_rules) : safety.message.length ≤ 4000 := by
  have hbuiltin : ∀ rule ∈ SAFETY_RULES, rule.message.length ≤ 4000 := by decide
  cases mem_safety_rules h with
  | inl hmem => exact hbuiltin _ hmem
  | inr hcustom =>
    obtain ⟨entry, -, rfl⟩ := hcustom
    exact entry.message_le.trans (by decide)

/-- A text result has at most one notice for its response. -/
theorem response_notices_bounded (service : PolicyService) (decision : Decision) (has_entities : Bool)
    (actions : UniqueList PIIAction) :
    (service.response_notices decision has_entities actions).length ≤ 1 ∧
      ∀ notice ∈ service.response_notices decision has_entities actions, notice.length ≤ 4000 := by
  have hrerouted := service.policy.notice.rerouted_le
  have hmasked := service.policy.notice.masked_le
  unfold PolicyService.response_notices
  split
  · simp [hrerouted]
  · split
    · decide
    · split
      · simp [hmasked]
      · split <;> decide

theorem text_notices_bounded {nonce : Text}
    (hcases : (service.TextBlocked face_route plans ∧ BlockedText plans result) ∨
      (¬ service.TextBlocked face_route plans ∧ ∃ segments transformed,
        service.TransformedText env request nonce face_route plans segments transformed result)) :
    result.response_notices.length ≤ 1 ∧ ∀ notice ∈ result.response_notices, notice.length ≤ 4000 := by
  cases hcases with
  | inl hblocked =>
    rw [hblocked.2.response_notices]
    exact ⟨Nat.zero_le _, nofun⟩
  | inr hrest =>
    obtain ⟨-, segments, transformed, hresult⟩ := hrest
    rw [hresult.response_notices]
    split
    · exact ⟨Nat.zero_le _, nofun⟩
    · exact response_notices_bounded _ _ _ _

/-- What a session can record of a result. -/
structure Recordable (request : SegmentRequest) (result : PolicyResult) : Prop where
  evidence : Evidence result
  uncached : result.cached_decision_applied = false
  overlap_count : result.overlap_count ≤ 10000000
  request_notices : result.request_notices = []
  response_notices : result.decision ∈ [.block, .reroute] →
    session_decision.notices_bounded result.response_notices = true
  local_only : result.decision ∈ [.block, .reroute] → result.remote_allowed = false
  blocked : result.decision = .block → result.route_class = none ∧
    (∀ row ∈ result.report_rows, row.transformed_count = 0) ∧
    (result.report_rows ≠ [] → ∃ row ∈ result.report_rows, row.action = .pii .block)
  rerouted : result.decision = .reroute →
    (∃ route, result.route_class = some route ∧ isRouteClass route = true ∧ route.length ≤ 128) ∧
    (∀ row ∈ result.report_rows, row.action ≠ .pii .block) ∧ ∃ row ∈ result.report_rows, row.action = .pii .reroute
  mcp : request.request_kind = .mcp → Unrouted result

theorem evidence_of_empty (hentities : result.entities = []) (hcounts : result.entity_counts = .empty)
    (hrows : result.report_rows = []) : Evidence result := by
  constructor <;> simp [hentities, hcounts, hrows]

/-- A block without evidence, with a notice that MCP does not get. -/
theorem recordable_of_block {notice : String} (hnotice : notice.length ≤ 4000) (safety_rule : Option String)
    (text_leaf_count : Nat) : Recordable request {
      decision := .block
      remote_allowed := false
      applied_actions := [.pii .block]
      safety_rule
      response_notices := if request.request_kind = .mcp then [] else [notice]
      text_leaf_count } where
  evidence := evidence_of_empty rfl rfl rfl
  uncached := rfl
  overlap_count := Nat.zero_le _
  request_notices := rfl
  response_notices _ := by
    dsimp only
    split <;> simp [session_decision.notices_bounded, hnotice]
  local_only _ := rfl
  blocked _ := ⟨rfl, fun row hrow => absurd hrow List.not_mem_nil, fun hrows => absurd rfl hrows⟩
  rerouted hreroute := by cases hreroute
  mcp hmcp := ⟨nofun, rfl, rfl, if_pos hmcp, fun row hrow => absurd hrow List.not_mem_nil⟩

/-- What preflight settles has no evidence. -/
theorem recordable_of_preflight (h : service.preflight request (text_leaves request) = .ok (some result)) :
    Recordable request result := by
  rcases preflight_eq_some h with ⟨-, -, -, rfl⟩ | ⟨-, rfl⟩ | ⟨-, safety, hsafety, rfl⟩
  · exact {
      evidence := evidence_of_empty rfl rfl rfl
      uncached := rfl
      overlap_count := Nat.zero_le _
      request_notices := rfl
      response_notices := fun hterminal => absurd hterminal (by decide)
      local_only := fun hterminal => absurd hterminal (by decide)
      blocked := fun hblock => by cases hblock
      rerouted := fun hreroute => by cases hreroute
      mcp := fun _ => ⟨by decide, rfl, rfl, rfl, fun row hrow => absurd hrow List.not_mem_nil⟩ }
  · exact recordable_of_block (by decide) none _
  · exact recordable_of_block (safety_message_le (List.mem_of_find?_eq_some hsafety)) (some safety.name) _

/-- A text has fewer overlaps than characters. -/
theorem overlap_count_le (h : service.LeavesPrepared env reroute_as_block leaves plans) :
    plans.overlap_count ≤ (leaves.map (·.text.length)).sum := by
  rw [h.overlap_count, ← h.leaves, List.map_map]
  refine List.sum_le_sum fun entry hentry => ?_
  have hplan := h.plans entry hentry
  exact hplan.resolved.overlap_count_le fun a ha => (hplan.valid a ha).1

theorem recordable_of_text (hdefault : service.policy.routing.default_target.length ≤ 128)
    (hpreflight : service.preflight request (text_leaves request) = .ok none)
    (h : service.analyze_text env request (text_leaves request) include_diagnostics placeholder_namespace none =
      .ok result) : Recordable request result := by
  obtain ⟨plans, hprepared, hscanned, hrows, hcases⟩ := analyze_text_rows h
  obtain ⟨-, hremote, hblock⟩ := analyze_text_strictest h
  have hnotices := text_notices_bounded hcases
  have hoverlap : result.overlap_count ≤ 10000000 := by
    have hcount := overlap_count_le hprepared
    have hcharacters := characters_le_of_preflight hpreflight
    have hbound := service.settings.max_text_characters_ok.2
    rw [hscanned.overlap_count]
    omega
  refine {
    evidence := analyze_text_evidence h
    uncached := hscanned.uncached
    overlap_count := hoverlap
    request_notices := hscanned.request_notices
    response_notices := ?_
    local_only := ?_
    blocked := ?_
    rerouted := ?_
    mcp := fun hmcp => analyze_text_unrouted service hmcp h }
  · exact fun _ => session_decision.notices_bounded_iff.mpr ⟨hnotices.1.trans (by decide), hnotices.2⟩
  · intro hterminal
    rw [← Bool.not_eq_true, hremote]
    rintro (hpass | happly)
    · rw [hpass] at hterminal
      simp at hterminal
    · rw [happly] at hterminal
      simp at hterminal
  · intro hdecision
    obtain ⟨-, -, hroute, huntransformed⟩ := hblock hdecision
    exact ⟨hroute, huntransformed, fun _ => analyze_text_block_row h hdecision⟩
  · intro hreroute
    refine ⟨?_, analyze_text_reroute_rows h hreroute⟩
    cases hcases with
    | inl hblocked =>
      rw [hblocked.2.decision] at hreroute
      cases hreroute
    | inr hrest =>
      obtain ⟨-, segments, transformed, hresult⟩ := hrest
      rw [hresult.decision, text_decision_eq_reroute_iff] at hreroute
      obtain ⟨route, hroute⟩ := Option.isSome_iff_exists.mp hreroute
      rw [hresult.route_class, if_neg fun hnone => by rw [hnone.1] at hroute; cases hroute]
      exact ⟨route, hroute, resolve_route_class_bounded hdefault hprepared route hroute⟩

/-- A session can record whatever the policy decides about a request without visual findings. -/
theorem analyze_segments_recordable (hvisual : request.visual_findings = none)
    (hdefault : service.policy.routing.default_target.length ≤ 128)
    (h : service.analyze_segments env request include_diagnostics placeholder_namespace = .ok result) :
    Recordable request result := by
  have hfaces : request.faceCount = 0 := by rw [SegmentRequest.faceCount, hvisual]
  have hroute : service.face_route request = none := if_neg fun hface => hface.1 hfaces
  obtain ⟨base, hbase, hresult⟩ := analyze_segments_cases h
  obtain ⟨-, rfl⟩ := (apply_visual_result_eq_ok.mp hresult).resolve_right fun hface => hface.1 hfaces
  rcases hbase with hsettled | ⟨hpreflight, hvisualSettled | ⟨-, htext⟩⟩
  · exact recordable_of_preflight hsettled
  · have hsome := (visual_decision_eq_some hvisualSettled).1
    rw [hvisual] at hsome
    cases hsome
  · rw [hroute] at htext
    exact recordable_of_text hdefault hpreflight htext

end pii_engine.policy.PolicyService
