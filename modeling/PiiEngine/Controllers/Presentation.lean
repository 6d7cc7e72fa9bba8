import PiiEngine.Controllers.Faces
import PiiEngine.Controllers.Reversal
import PiiEngine.Planner.Placeholders
import PiiEngine.Policy.Masking

open checked collections
open pii_engine.config pii_engine.policy

namespace pii_engine.policy.PolicyService
open pii_engine.planner

variable {service : PolicyService} {env : Environment} {request : SegmentRequest} {include_diagnostics : Bool}
  {placeholder_namespace : Option Text} {face_route : Option String} {plans : PreparedLeaves} {result : PolicyResult}
  {leaves : List TextLeaf} {reroute_as_block : Bool} {rows : List PIIReportRow}

/-- A region whose decision is to apply its action is executed, and counted as such. -/
theorem LeavesPrepared.executed (h : service.LeavesPrepared env reroute_as_block leaves plans)
    {entry : TextLeaf × LeafPlan} (hentry : entry ∈ plans.prepared) {region : EntityMatch}
    (hregion : region ∈ entry.2.effective_matches)
    (hdecision : (service.planner.decidingAction reroute_as_block region.entity_type).decision = .apply_actions)
    {plan' : LeafPlan} {nonce : Text} {clock : EntityMatch → Nat}
    (htransform : service.planner.transform entry.2 nonce clock = .ok plan') :
    0 < plan'.transformed_counts.getD region.entity_type 0 := by
  rw [(ActionPlanner.transform_transformed (h.plans entry hentry) htransform).counts, countOf_pos]
  exact ⟨region, List.mem_filter.mpr ⟨hregion, (executes_of_apply hdecision).1⟩, rfl⟩

/-- The action of a row is at most as strict as that of some region. -/
theorem RowsOf.le_region (hrows : service.RowsOf reroute_as_block plans rows)
    (h : service.LeavesPrepared env reroute_as_block leaves plans) {row : PIIReportRow} (hrow : row ∈ rows) :
    ∃ action, row.action = .pii action ∧
      ∃ decision ∈ service.region_decisions reroute_as_block plans, action.decision ≤ decision := by
  obtain ⟨entry, hentry, hmem⟩ := (h.entities _).mp ((hrows.types _).mp (List.mem_map_of_mem hrow))
  have hplan := h.plans entry hentry
  obtain ⟨logical, hlogical, htype⟩ := (hplan.entities _).mp hmem
  obtain ⟨item, hitem, htype'⟩ := hplan.resolved.exists_raw_of_logical hlogical
  obtain ⟨region, hregion, hstrict⟩ := exists_region_of_raw hplan hitem
  rw [htype', htype] at hstrict
  exact ⟨_, hrows.actions row hrow, _, mem_region_decisions.mpr ⟨entry, hentry, region, hregion, rfl⟩,
    PIIAction.decision_mono hstrict⟩

/-- The analyzer and the expressions of the policy find only some types. -/
def FindsWithin (service : PolicyService) (env : Environment) (leaves : List TextLeaf) (types : List String) : Prop :=
  ∀ leaf ∈ leaves, ∀ item ∈ service.rawMatches env leaf, item.entity_type ∈ types

instance (service : PolicyService) (env : Environment) (leaves : List TextLeaf) (types : List String) :
    Decidable (service.FindsWithin env leaves types) :=
  inferInstanceAs (Decidable (∀ leaf ∈ leaves, ∀ item ∈ service.rawMatches env leaf, item.entity_type ∈ types))

theorem LeavesPrepared.entities_within {types : List String}
    (h : service.LeavesPrepared env reroute_as_block leaves plans) (hwithin : service.FindsWithin env leaves types) :
    ∀ e ∈ plans.entities, e ∈ types := by
  intro e he
  obtain ⟨entry, hentry, hmem⟩ := (h.entities e).mp he
  have hplan := h.plans entry hentry
  obtain ⟨logical, hlogical, rfl⟩ := (hplan.entities _).mp hmem
  obtain ⟨item, hitem, htype⟩ := hplan.resolved.exists_raw_of_logical hlogical
  exact htype ▸ hwithin entry.1 (h.mem_leaves hentry) item hitem

/-- The route of the faces is one that the policy names. -/
theorem face_route_bounded (hdefault : service.policy.routing.default_target.length ≤ 128) :
    ∀ route ∈ service.face_route request, isRouteClass route = true ∧ route.length ≤ 128 := by
  intro route hroute
  unfold face_route at hroute
  split at hroute
  · rw [← Option.some.inj hroute]
    unfold orDefault
    split
    · next text htext =>
      split
      · exact ⟨service.policy.routing.default_target_ok, hdefault⟩
      · exact service.policy.attachments.faces.route_class_ok text htext
    · exact ⟨service.policy.routing.default_target_ok, hdefault⟩
  · cases hroute

theorem text_route_bounded (hdefault : service.policy.routing.default_target.length ≤ 128)
    (h : service.LeavesPrepared env reroute_as_block leaves plans) :
    ∀ route ∈ service.text_route (service.face_route request) plans,
      isRouteClass route = true ∧ route.length ≤ 128 := by
  intro route hroute
  rw [text_route, Option.mem_def, Option.or_eq_some_iff] at hroute
  rcases hroute with hface | ⟨-, htext⟩
  · exact face_route_bounded hdefault route hface
  · exact resolve_route_class_bounded hdefault h route htext

/-- The class of a text is short where the default one is. -/
theorem length_classify_le (hclass : service.policy.classifier.default_class.length ≤ 128)
    (segments : List TextSegment) : (service.classify segments).length ≤ 128 := by
  unfold classify
  dsimp only
  split
  · next item _ => exact item.name_ok.2.1
  · exact hclass

end pii_engine.policy.PolicyService

namespace pii_engine.controllers

section text
variable {service : PolicyService} {env : Environment} {request : SegmentRequest} {include_diagnostics : Bool}
  {placeholder_namespace : Option Text} {plans : PolicyService.PreparedLeaves} {base : PolicyResult}
  {segments : List TextSegment} {transformed : PolicyService.TransformedLeaves} {nonce : Text}
  {rows : List PIIReportRow} {types : List String} {face_route : Option String}

open PolicyService in
/-- The reversal map of a text holds placeholders of detected types for parts of the text. -/
theorem transform_reversal {operate : Nat → String → PIIAction → OperatorArguments → Text → Text}
    (hlocal : service.planner.anonymizer.RewritesSpan operate) (hnonce : HexWord nonce)
    (hprepared : service.LeavesPrepared env (request.request_kind = .mcp) (text_leaves request) plans)
    (hrows : service.RowsOf (request.request_kind = .mcp) plans rows)
    (hcharacters : ((text_leaves request).map (·.text.length)).sum ≤ 4000000)
    (htransform : service.transform_plans env request plans.prepared nonce = .ok (segments, transformed))
    (placeholder value : Text) (hget : transformed.reversal.get? placeholder = some value) :
    ReversalEntry placeholder value := by
  have htransformed := (transform_plans_transformed htransform hprepared.leaves).1
  obtain ⟨entry, hentry, hget⟩ := (htransformed.reversal placeholder value).mp hget
  obtain ⟨before, hbefore, -, hplan'⟩ := htransformed.exists_prepared hentry
  have hplan := hprepared.plans before hbefore
  constructor
  · obtain ⟨kind, hkind, e, he, key, rfl⟩ :=
      planner.ActionPlanner.transform_names hplan' hplan.untransformed.2.2 placeholder value hget
    obtain ⟨region, hregion, rfl⟩ := List.mem_map.mp he
    obtain ⟨row, hrow, htype⟩ := List.mem_map.mp ((hrows.types _).mpr (hprepared.entity_of_region hbefore hregion))
    have hentity := row.counts.entity_type
    rw [htype, isEntityType, Bool.and_eq_true, decide_eq_true_eq] at hentity
    refine ⟨kind.toList, region.entity_type.toList, ⟨?_, hentity.1, nonce, _, hnonce,
      hexWord_digest service.planner region.entity_type key nonce, ?_⟩, ?_⟩
    · rcases hkind with rfl | rfl
      · exact Or.inl rfl
      · exact Or.inr rfl
    · simp [planner.ActionPlanner.placeholder_text]
    · rw [String.length_toList]
      exact hentity.2
  · obtain ⟨rewrites, hregions, horiginals, -, -, -, hreversal⟩ := planner.ActionPlanner.transform_substituted hplan'
      (planner.ActionPlanner.obeys_writes hlocal nonce _ _) hplan.spans hplan.resolved.disjoint hplan.untransformed.2.2
    obtain ⟨rewrite, hrewrite, -, -, rfl⟩ := (hreversal placeholder value).mp hget
    have hregion : rewrite.region ∈ before.2.effective_matches :=
      (List.mem_filter.mp (hregions ▸ List.mem_map_of_mem hrewrite)).1
    have hspan := hplan.spans rewrite.region hregion
    have hlength : before.1.text.length ≤ ((text_leaves request).map (·.text.length)).sum :=
      List.le_sum_of_mem (List.mem_map_of_mem (hprepared.mem_leaves hbefore))
    rw [horiginals rewrite hrewrite, planner.ActionPlanner.length_originalValue hspan]
    obtain ⟨hstart, hlt, hstop⟩ := hspan
    rw [hplan.text_eq] at hstop
    omega

theorem pass_of_decision {action : PIIAction} (h : action.decision ≤ .pass) : action = .pass := by
  cases action <;> first | rfl | exact absurd h (by decide)

open PolicyService in
/-- Evidence stands behind the block of a text, unless a route of the faces does. -/
theorem blocked_text_supported
    (hprepared : service.LeavesPrepared env (request.request_kind = .mcp) (text_leaves request) plans)
    (hrows : service.RowsOf (request.request_kind = .mcp) plans base.report_rows)
    (hwhy : service.TextBlocked face_route plans) (hblocked : BlockedText plans base) :
    Supported (face_route.isSome) base := by
  have hne : ∀ decision, decision ≠ .block → base.decision ≠ decision := by
    intro decision hne heq
    exact hne (heq.symm.trans hblocked.decision)
  refine ⟨fun h => absurd h (hne _ (by decide)), fun h => absurd h (hne _ (by decide)),
    fun h => absurd h (hne _ (by decide)), fun _ => ⟨untransformed_rows hprepared hblocked.report_rows, fun _ => ?_⟩⟩
  rcases hwhy with ⟨entry, hentry, hplan⟩ | hconflict
  · obtain ⟨region, hregion, haction⟩ := (hprepared.plans entry hentry).blocked.mp hplan
    obtain ⟨row, hrow, hrowAction⟩ := hrows.exists_row hprepared hentry hregion
    exact Or.inr ⟨row, hrow, by rw [hrowAction, haction]⟩
  · refine Or.inl ?_
    cases face_route with
    | none => cases hconflict
    | some route => rfl

section transformed
open PolicyService
variable (hprepared : service.LeavesPrepared env (request.request_kind = .mcp) (text_leaves request) plans)
  (hrows : service.RowsOf (request.request_kind = .mcp) plans base.report_rows)
  (hunblocked : ¬ service.TextBlocked face_route plans)
  (hresult : service.TransformedText env request nonce face_route plans segments transformed base)
include hprepared

theorem unrouted_regions (hroute : service.text_route face_route plans = none) :
    .reroute ∉ service.region_decisions (request.request_kind = .mcp) plans := by
  intro hmem
  have hsome := (route_isSome_iff hprepared).mpr hmem
  rw [text_route, Option.or_eq_none_iff] at hroute
  rw [hroute.2] at hsome
  cases hsome

include hunblocked in
theorem unblocked_regions : .block ∉ service.region_decisions (request.request_kind = .mcp) plans :=
  fun hmem => hunblocked (Or.inl ((blocked_iff hprepared).mpr hmem))

include hrows hresult in
/-- A region whose decision is to apply its action leaves a row of transformed text. -/
theorem exists_transformed_row
    (hdecision : .apply_actions ∈ service.region_decisions (request.request_kind = .mcp) plans) :
    ∃ row ∈ base.report_rows, row.transformed_count ≠ 0 := by
  have htransformed := (transform_plans_transformed hresult.transform hprepared.leaves).1
  obtain ⟨before, hbefore, region, hregion, hdecision⟩ := mem_region_decisions.mp hdecision
  obtain ⟨entry, hentry, -, hplan'⟩ := exists_right_of_forall₂ htransformed.plans hbefore
  obtain ⟨row, hrow, htype⟩ := List.mem_map.mp ((hrows.types _).mpr (hprepared.entity_of_region hbefore hregion))
  refine ⟨row, hrow, ?_⟩
  have hcounts := (report_rows_eq_ok (htransformed.reportable hprepared) hresult.report_rows).transformed row hrow
  have hone := hprepared.executed hbefore hregion hdecision hplan'
  have hle : entry.2.transformed_counts.getD row.entity_type 0 ≤ row.transformed_count := by
    rw [hcounts]
    exact List.le_sum_of_mem (List.mem_map_of_mem (f := fun entry : TextLeaf × planner.LeafPlan =>
      entry.2.transformed_counts.getD row.entity_type 0) hentry)
  rw [htype] at hle
  omega

include hrows hunblocked hresult in
theorem pass_rows (hpass : base.decision = .pass) : ∀ row ∈ base.report_rows, row.action = .pii .pass := by
  intro row hrow
  rw [hresult.decision, text_decision] at hpass
  split at hpass
  · cases hpass
  · next hroute =>
    rw [Option.not_isSome_iff_eq_none] at hroute
    split at hpass
    · cases hpass
    · next happlied =>
      have htransformed := (transform_plans_transformed hresult.transform hprepared.leaves).1
      have hblock := unblocked_regions hprepared hunblocked
      have hreroute := unrouted_regions hprepared hroute
      obtain ⟨action, haction, decision, hdecision, hle⟩ := hrows.le_region hprepared hrow
      have hdecision_pass : decision = .pass := by
        cases decision with
        | pass => rfl
        | apply_actions =>
          exact absurd ((applies_iff hprepared htransformed hblock hreroute).mpr hdecision) happlied
        | reroute => exact absurd hdecision hreroute
        | block => exact absurd hdecision hblock
      rw [hdecision_pass] at hle
      rw [haction, pass_of_decision hle]

include hrows hunblocked hresult in
theorem applied_rows (happly : base.decision = .apply_actions) :
    (∀ row ∈ base.report_rows, row.action ≠ .pii .reroute) ∧ ∃ row ∈ base.report_rows, row.transformed_count ≠ 0 := by
  rw [hresult.decision, text_decision] at happly
  split at happly
  · cases happly
  · next hroute =>
    rw [Option.not_isSome_iff_eq_none] at hroute
    split at happly
    · next happlied =>
      have htransformed := (transform_plans_transformed hresult.transform hprepared.leaves).1
      have hblock := unblocked_regions hprepared hunblocked
      have hunrouted := unrouted_regions hprepared hroute
      refine ⟨fun row hrow hreroute => ?_, exists_transformed_row hprepared hrows hresult
        ((applies_iff hprepared htransformed hblock hunrouted).mp happlied)⟩
      obtain ⟨action, haction, decision, hdecision, hle⟩ := hrows.le_region hprepared hrow
      rw [hreroute, ReportAction.pii.injEq] at haction
      rw [← haction] at hle
      cases decision with
      | pass => exact absurd hle (by decide)
      | apply_actions => exact absurd hle (by decide)
      | reroute => exact hunrouted hdecision
      | block => exact hblock hdecision
    · cases happly

include hrows hresult in
theorem rerouted_row (hreroute : base.decision = .reroute) :
    face_route.isSome = true ∨ ∃ row ∈ base.report_rows, row.action = .pii .reroute := by
  rw [hresult.decision, text_decision_eq_reroute_iff, text_route] at hreroute
  cases face_route with
  | some route => exact Or.inl rfl
  | none =>
    rw [Option.none_or] at hreroute
    obtain ⟨entry, hentry, region, hregion, hdecision⟩ :=
      mem_region_decisions.mp ((route_isSome_iff hprepared).mp hreroute)
    obtain ⟨row, hrow, haction⟩ := hrows.exists_row hprepared hentry hregion
    rw [PIIAction.decision_eq_reroute_iff.mp hdecision] at haction
    exact Or.inr ⟨row, hrow, haction⟩

include hrows hunblocked hresult in
theorem transformed_text_supported : Supported (face_route.isSome) base := by
  have hunblocked_row : ∀ row ∈ base.report_rows, row.action ≠ .pii .block :=
    fun row hrow hblock => hunblocked (Or.inl (hrows.blocked_of_row hprepared hrow hblock))
  refine ⟨pass_rows hprepared hrows hunblocked hresult, fun happly => ?_,
    fun hreroute => ⟨hunblocked_row, rerouted_row hprepared hrows hresult hreroute⟩, fun hblock => ?_⟩
  · obtain ⟨hunrouted_row, row, hrow, htransformed⟩ := applied_rows hprepared hrows hunblocked hresult happly
    exact ⟨fun row hrow => ⟨hunblocked_row row hrow, hunrouted_row row hrow⟩, row, hrow, Or.inl htransformed⟩
  · rw [hresult.decision] at hblock
    exact absurd hblock (text_decision_ne_block _ _)

end transformed

end text

open pii_engine.policy.PolicyService

section bases
variable {service : PolicyService} {env : Environment} {request : SegmentRequest} {include_diagnostics : Bool}
  {placeholder_namespace : Option Text} {result : PolicyResult} {types : List String}

/-- A block without evidence, in front of any scan. -/
theorem faceless_of_block {notices : List String} (safety_rule : Option String) (text_leaf_count : Nat)
    (hsafety : ∀ rule ∈ safety_rule, rule.length ≤ 128) (hnotices : notices.length ≤ 1)
    (hlength : ∀ notice ∈ notices, notice.length ≤ 4000) (hmcp : request.request_kind = .mcp → notices = []) :
    Faceless service request {
      decision := .block
      remote_allowed := false
      applied_actions := [.pii .block]
      safety_rule
      response_notices := notices
      text_leaf_count } where
  bounded := {
    overlap_count := Nat.zero_le _
    no_overlap := fun _ _ => rfl
    applied_actions := List.nodup_singleton _
    route_class := nofun
    safety_rule := hsafety
    request_notices := rfl
    response_notices := session_decision.notices_bounded_iff.mpr ⟨hnotices.trans (by decide), hlength⟩
    reversal := fun placeholder value hget => by
      rw [OrderedDict.get?_empty] at hget
      cases hget
    no_reversal := fun _ => rfl }
  notices := hnotices
  forwarded := ⟨fun hne => absurd rfl hne, fun _ => ⟨rfl, rfl, rfl⟩, rfl, nofun⟩
  supported := ⟨nofun, nofun, nofun, fun _ => ⟨nofun, fun hrows => absurd rfl hrows⟩⟩
  corresponds := ⟨fun hne => absurd rfl hne, fun _ => ⟨rfl, nofun⟩, fun _ _ _ => rfl,
    fun hkind => ⟨nofun, rfl, rfl, hmcp hkind, nofun⟩⟩
  evidence := evidence_of_empty rfl rfl rfl
  unfaced := List.not_mem_nil
  entities_le := Nat.zero_le _
  text_only := by simp
  current := ⟨rfl, rfl, rfl⟩
  unscanned _ := rfl
  failed _ _ _ := rfl
  faces _ _ := rfl

/-- A pass without evidence: an MCP call without text, or a request that only its faces decide. -/
theorem faceless_of_pass {segments : List TextSegment} (text_leaf_count : Nat) (hsegments : segments = request.segments)
    (hno_text : request.visual_findings = none →
      request.request_kind = .mcp ∧ request.segments = [] ∧ text_leaf_count = 0)
    (hvisual_only : request.visual_findings ≠ none → request.text_pii_enabled = false)
    (hunfailed : ∀ visual ∈ request.visual_findings, visual.faces.scan_status ≠ .failed)
    (hfaces : ¬ (request.faceCount ≠ 0 ∧ service.policy.attachments.faces.action = .block)) :
    Faceless service request {
      segments := some segments
      decision := .pass
      remote_allowed := true
      text_leaf_count } where
  bounded := {
    overlap_count := Nat.zero_le _
    no_overlap := fun _ _ => rfl
    applied_actions := List.nodup_nil
    route_class := nofun
    safety_rule := nofun
    request_notices := rfl
    response_notices := rfl
    reversal := fun placeholder value hget => by
      rw [OrderedDict.get?_empty] at hget
      cases hget
    no_reversal := fun _ => rfl }
  notices := Nat.zero_le _
  forwarded := ⟨fun _ => ⟨segments, rfl, by rw [hsegments]⟩, nofun, rfl, nofun⟩
  supported := ⟨fun _ => nofun, nofun, nofun, nofun⟩
  corresponds := {
    no_text := fun _ _ _ hnone => by
      obtain ⟨hmcp, hempty, hcount⟩ := hno_text hnone
      exact ⟨hmcp, hempty, rfl, rfl, rfl, rfl, rfl, rfl, Or.inl rfl, rfl, rfl, hcount⟩
    disabled := fun _ => ⟨rfl, fun other hother => (Option.some.inj hother).symm.trans hsegments⟩
    enabled := fun hsome henabled => absurd ((hvisual_only hsome).symm.trans henabled) Bool.false_ne_true
    mcp := fun _ => ⟨nofun, rfl, rfl, rfl, nofun⟩ }
  evidence := evidence_of_empty rfl rfl rfl
  unfaced := List.not_mem_nil
  entities_le := Nat.zero_le _
  text_only := List.not_mem_nil
  current := ⟨rfl, rfl, rfl⟩
  unscanned _ := rfl
  failed visual hvisual hfailed := absurd hfailed (hunfailed visual hvisual)
  faces hcount haction := absurd ⟨hcount, haction⟩ hfaces

/-- The name of a safety rule is short. -/
theorem safety_name_le {safety : SafetyRule} (h : safety ∈ service.safety_rules) : safety.name.length ≤ 128 := by
  have hbuiltin : ∀ rule ∈ SAFETY_RULES, rule.name.length ≤ 128 := by decide
  cases mem_safety_rules h with
  | inl hmem => exact hbuiltin _ hmem
  | inr hcustom =>
    obtain ⟨entry, -, rfl⟩ := hcustom
    exact entry.name_ok.2

theorem faceless_of_preflight (h : service.preflight request (text_leaves request) = .ok (some result)) :
    Faceless service request result := by
  rcases preflight_eq_some h with ⟨hmcp, hleaves, -, rfl⟩ | ⟨-, rfl⟩ | ⟨-, safety, hsafety, rfl⟩
  · have hsegments : request.segments = [] := List.map_eq_nil_iff.mp hleaves
    have hnone : request.visual_findings = none := by
      by_contra hvisual
      exact (request.visual_ok hvisual).1 hmcp
    have hcount : request.faceCount = 0 := by rw [SegmentRequest.faceCount, hnone]
    refine faceless_of_pass 0 hsegments.symm (fun _ => ⟨hmcp, hsegments, rfl⟩) (fun hvisual => absurd hnone hvisual) ?_
      fun hfaces => hfaces.1 hcount
    intro visual hvisual
    rw [hnone] at hvisual
    cases hvisual
  · refine faceless_of_block none _ ?_ ?_ ?_ fun hmcp => if_pos hmcp
    · intro rule hrule
      cases hrule
    · split <;> decide
    · split <;> decide
  · have hmem := List.mem_of_find?_eq_some hsafety
    refine faceless_of_block (some safety.name) _ ?_ ?_ ?_ fun hmcp => if_pos hmcp
    · intro rule hrule
      exact Option.some.inj hrule ▸ safety_name_le hmem
    · split <;> simp
    · split
      · simp
      · intro notice hnotice
        rw [List.mem_singleton.mp hnotice]
        exact safety_message_le hmem

theorem faceless_of_visual (h : service.visual_decision request (text_leaves request) = some result) :
    Faceless service request result := by
  unfold visual_decision at h
  split at h
  · cases h
  · next visual hvisual =>
    split at h
    · next hfaces =>
      cases h
      exact faceless_of_block none _ nofun (by decide) nofun fun _ => rfl
    · next hfaces =>
      rw [not_or] at hfaces
      split at h
      · next hdisabled =>
        cases h
        refine faceless_of_pass _ rfl (fun hnone => ?_) (fun _ => hdisabled) ?_ hfaces.2
        · rw [hvisual] at hnone
          cases hnone
        · intro other hother
          rw [Option.mem_def, hvisual, Option.some.injEq] at hother
          exact hother ▸ hfaces.1
      · cases h

/-- What visual findings leave open when they decide nothing. -/
theorem open_of_undecided (h : service.visual_decision request (text_leaves request) = none) :
    request.text_pii_enabled = true ∧
      (∀ visual ∈ request.visual_findings, visual.faces.scan_status ≠ .failed) ∧
      ¬ (request.faceCount ≠ 0 ∧ service.policy.attachments.faces.action = .block) := by
  unfold visual_decision at h
  split at h
  · next hnone =>
    refine ⟨?_, fun visual hvisual => ?_, fun hfaces => absurd hnone (visual_of_faces hfaces.1)⟩
    · by_contra hdisabled
      exact request.text_disabled_ok (Bool.not_eq_true _ ▸ hdisabled) hnone
    · rw [hnone] at hvisual
      cases hvisual
  · next visual hvisual =>
    split at h
    · cases h
    · next hfaces =>
      rw [not_or] at hfaces
      split at h
      · cases h
      · next henabled =>
        refine ⟨by simpa using henabled, fun other hother => ?_, hfaces.2⟩
        rw [Option.mem_def, hvisual, Option.some.injEq] at hother
        exact hother ▸ hfaces.1

section analyzed_text
variable {plans : PreparedLeaves}
  (hprepared : service.LeavesPrepared env (request.request_kind = .mcp) (text_leaves request) plans)
  (hscanned : Scanned (text_leaves request) plans result)
  (hcases : (service.TextBlocked (service.face_route request) plans ∧ BlockedText plans result) ∨
    (¬ service.TextBlocked (service.face_route request) plans ∧ ∃ segments transformed, service.TransformedText env
      request (request_namespace env placeholder_namespace) (service.face_route request) plans segments transformed
      result))
  (hdefault : service.policy.routing.default_target.length ≤ 128)
include hcases

/-- Only faces are withheld. -/
theorem text_actions : result.applied_actions.Nodup ∧ .text_only ∉ result.applied_actions := by
  cases hcases with
  | inl hblocked =>
    rw [hblocked.2.applied_actions]
    exact ⟨List.nodup_singleton _, by decide⟩
  | inr hrest =>
    obtain ⟨-, segments, transformed, hresult⟩ := hrest
    rw [hresult.applied_actions, sortedActions]
    refine ⟨UniqueList.sorted_nodup _, ?_⟩
    rw [UniqueList.mem_sorted, piiActions, UniqueList.mem_ofList, List.mem_map]
    rintro ⟨action, -, haction⟩
    cases haction

include hprepared hdefault in
theorem text_forwarded : Forwarded request result := by
  cases hcases with
  | inl hblocked =>
    obtain ⟨-, hblocked⟩ := hblocked
    refine ⟨fun hne => absurd hblocked.decision hne, fun _ => ⟨hblocked.segments, hblocked.route_class,
      hblocked.reversal⟩, ?_, fun hreroute => ?_⟩
    · rw [hblocked.remote_allowed, hblocked.decision]
      decide
    · rw [hblocked.decision] at hreroute
      cases hreroute
  | inr hrest =>
    obtain ⟨-, segments, transformed, hresult⟩ := hrest
    have hne : result.decision ≠ .block := by
      rw [hresult.decision]
      exact text_decision_ne_block _ _
    refine ⟨fun _ => ⟨segments, hresult.segments, hresult.ids hprepared.leaves⟩, fun hblock => absurd hblock hne, ?_,
      fun hreroute => ?_⟩
    · rw [hresult.remote_allowed]
      cases hdecision : result.decision <;> first | decide | exact absurd hdecision hne
    · rw [hresult.decision, text_decision_eq_reroute_iff] at hreroute
      obtain ⟨route, hroute⟩ := Option.isSome_iff_exists.mp hreroute
      refine ⟨route, ?_, ?_⟩
      · rw [hresult.route_class, if_neg fun hnone => by rw [hnone.1] at hroute; cases hroute]
        exact hroute
      · rintro rfl
        exact absurd (text_route_bounded hdefault hprepared _ hroute).1 (by decide)

include hprepared hdefault in
theorem text_route_class_le (hclass : service.policy.classifier.default_class.length ≤ 128) :
    ∀ route ∈ result.route_class, route.length ≤ 128 := by
  intro route hroute
  cases hcases with
  | inl hblocked =>
    rw [hblocked.2.route_class] at hroute
    cases hroute
  | inr hrest =>
    obtain ⟨-, segments, transformed, hresult⟩ := hrest
    rw [hresult.route_class] at hroute
    split at hroute
    · rw [← Option.some.inj hroute]
      exact length_classify_le hclass segments
    · exact (text_route_bounded hdefault hprepared route hroute).2

include hprepared hscanned hdefault in
theorem text_bounded {operate : Nat → String → PIIAction → OperatorArguments → Text → Text}
    (hlocal : service.planner.anonymizer.RewritesSpan operate)
    (hnonce : HexWord (request_namespace env placeholder_namespace))
    (hclass : service.policy.classifier.default_class.length ≤ 128)
    (hrows : service.RowsOf (request.request_kind = .mcp) plans result.report_rows)
    (hcharacters : ((text_leaves request).map (·.text.length)).sum ≤ 4000000) : Bounded result := by
  have hnotices := text_notices_bounded hcases
  have hscan : result.scan_performed ≠ false := by
    rw [hscanned.scan_performed]
    nofun
  refine ⟨?_, fun hunscanned => absurd hunscanned hscan, (text_actions hcases).1,
    text_route_class_le hprepared hcases hdefault hclass, ?_, ?_,
    session_decision.notices_bounded_iff.mpr ⟨hnotices.1.trans (by decide), hnotices.2⟩, ?_,
    fun hunscanned => absurd hunscanned hscan⟩
  · rw [hscanned.overlap_count]
    exact (overlap_count_le hprepared).trans (hcharacters.trans (by decide))
  · rw [hscanned.unruled]
    nofun
  · rw [hscanned.request_notices]
    rfl
  · intro placeholder value hget
    cases hcases with
    | inl hblocked =>
      rw [hblocked.2.reversal, OrderedDict.get?_empty] at hget
      cases hget
    | inr hrest =>
      obtain ⟨-, segments, transformed, hresult⟩ := hrest
      rw [hresult.reversal] at hget
      exact transform_reversal hlocal hnonce hprepared hrows hcharacters hresult.transform placeholder value hget

end analyzed_text

theorem faceless_of_text {operate : Nat → String → PIIAction → OperatorArguments → Text → Text}
    (hlocal : service.planner.anonymizer.RewritesSpan operate)
    (hnonce : HexWord (request_namespace env placeholder_namespace))
    (hdefault : service.policy.routing.default_target.length ≤ 128)
    (hclass : service.policy.classifier.default_class.length ≤ 128)
    (hwithin : service.FindsWithin env (text_leaves request) types) (hface : "FACE" ∉ types)
    (htypes : types.length ≤ 63) (hpreflight : service.preflight request (text_leaves request) = .ok none)
    (hundecided : service.visual_decision request (text_leaves request) = none)
    (h : service.analyze_text env request (text_leaves request) include_diagnostics placeholder_namespace
      (service.face_route request) = .ok result) : Faceless service request result := by
  obtain ⟨plans, hprepared, hscanned, hrows, hcases⟩ := analyze_text_rows h
  obtain ⟨henabled, hunfailed, hfaces⟩ := open_of_undecided hundecided
  have hevidence := analyze_text_evidence h
  have hentities : ∀ e ∈ result.entities, e ∈ types := by
    intro e he
    rw [hscanned.entities, UniqueList.mem_sorted] at he
    exact hprepared.entities_within hwithin e he
  have hscan : result.scan_performed ≠ false := by
    rw [hscanned.scan_performed]
    nofun
  have hcharacters := (characters_le_of_preflight hpreflight).trans service.settings.max_text_characters_ok.2
  exact {
    bounded := text_bounded hprepared hscanned hcases hdefault hlocal hnonce hclass hrows hcharacters
    notices := (text_notices_bounded hcases).1
    forwarded := text_forwarded hprepared hcases hdefault
    supported := by
      rcases hcases with ⟨hwhy, hblocked⟩ | ⟨hunblocked, segments, transformed, hresult⟩
      · exact blocked_text_supported hprepared hrows hwhy hblocked
      · exact transformed_text_supported hprepared hrows hunblocked hresult
    corresponds := {
      no_text := fun _ hunscanned => absurd hunscanned hscan
      disabled := fun hdisabled => absurd (hdisabled.symm.trans henabled) Bool.false_ne_true
      enabled := fun _ _ hunscanned => absurd hunscanned hscan
      mcp := fun hmcp => by
        have hnone : service.face_route request = none := by
          refine if_neg fun hface => ?_
          exact (request.visual_ok (visual_of_faces hface.1)).1 hmcp
        rw [hnone] at h
        exact analyze_text_unrouted service hmcp h }
    evidence := hevidence
    unfaced := fun hmem => hface (hentities _ hmem)
    entities_le := (List.subperm_of_subset hevidence.nodup hentities).length_le.trans htypes
    text_only := (text_actions hcases).2
    current := ⟨hscanned.analysis_source, hscanned.uncached, hscanned.duration_ms⟩
    unscanned := fun hunscanned => absurd hunscanned hscan
    failed := fun visual hvisual hfailed => absurd hfailed (hunfailed visual hvisual)
    faces := fun hcount haction => absurd ⟨hcount, haction⟩ hfaces }

/-- Whatever the policy decides about a request is presented, while its analyzer finds few
    types and calls no text a face. -/
theorem analyze_segments_presented {operate : Nat → String → PIIAction → OperatorArguments → Text → Text}
    (hlocal : service.planner.anonymizer.RewritesSpan operate)
    (hnonce : HexWord (request_namespace env placeholder_namespace))
    (hdefault : service.policy.routing.default_target.length ≤ 128)
    (hclass : service.policy.classifier.default_class.length ≤ 128)
    (hwithin : service.FindsWithin env (text_leaves request) types) (hface : "FACE" ∉ types)
    (htypes : types.length ≤ 63)
    (h : service.analyze_segments env request include_diagnostics placeholder_namespace = .ok result) :
    Presented request result ∧ Current result := by
  obtain ⟨base, hbase, hresult⟩ := analyze_segments_cases h
  have hfaceless : Faceless service request base := by
    rcases hbase with hsettled | ⟨hpreflight, hvisual | ⟨hundecided, htext⟩⟩
    · exact faceless_of_preflight hsettled
    · exact faceless_of_visual hvisual
    · exact faceless_of_text hlocal hnonce hdefault hclass hwithin hface htypes hpreflight hundecided htext
  by_cases hcount : request.faceCount = 0
  · obtain ⟨-, rfl⟩ := (apply_visual_result_eq_ok.mp hresult).resolve_right fun hfaces => hfaces.1 hcount
    exact ⟨hfaceless.presented hcount, hfaceless.current⟩
  · exact hfaceless.presented_faces hcount (face_route_bounded hdefault) hresult

end bases

end pii_engine.controllers
