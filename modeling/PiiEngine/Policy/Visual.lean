import PiiEngine.Policy.Decision
import PiiEngine.Selection

open checked collections
open pii_engine.config pii_engine.planner

namespace pii_engine

/-- The same segments without visual findings. -/
def SegmentRequest.textOnly (request : SegmentRequest) : SegmentRequest :=
  .ofTexts request.request_kind request.scope request.segments request.attachments_present request.ids_nodup

namespace policy.PolicyService

/-- The analyzer reports entities that the policy selects. -/
def AnalyzesSelected (service : PolicyService) (env : Environment) : Prop :=
  ∀ leaf analyzed, env.analyze leaf = .ok analyzed → ∀ item ∈ analyzed,
    item.entity_type ∈ selected_entities service.policy

/-- The result of a request without its visual findings. Where text analysis is off, the
    segments pass unchanged. -/
def text_result (service : PolicyService) (env : Environment) (request : SegmentRequest) (include_diagnostics : Bool)
    (placeholder_namespace : Option Text) : Except AnalysisError PolicyResult :=
  if request.text_pii_enabled then
    service.analyze_segments env request.textOnly include_diagnostics placeholder_namespace
  else .ok {
    segments := some request.segments
    decision := .pass
    remote_allowed := true
    text_leaf_count := request.segments.length }

/-- The decision that the faces of a request ask for. -/
def face_decision (service : PolicyService) (request : SegmentRequest) : Decision :=
  if request.faceCount = 0 then .pass
  else match service.policy.attachments.faces.action with
    | .block => .block
    | .text_only => .apply_actions
    | .reroute => .reroute

/-- The ways in which a document request is blocked. -/
inductive DocumentBlocked (service : PolicyService) (env : Environment) (request : SegmentRequest)
    (include_diagnostics : Bool) (placeholder_namespace : Option Text) : Prop where
  | scan_failed (visual : VisualFindings) (hvisual : request.visual_findings = some visual)
      (hfailed : visual.faces.scan_status = .failed)
  | preflight (settled : PolicyResult) (hsettled : service.preflight request (text_leaves request) = .ok (some settled))
      (hblock : settled.decision = .block)
  | faces (hcount : request.faceCount ≠ 0) (haction : service.policy.attachments.faces.action = .block)
  | text (text : PolicyResult)
      (htext : service.text_result env request include_diagnostics placeholder_namespace = .ok text)
      (hblock : text.decision = .block)
  /-- A region is rerouted elsewhere than the faces are. -/
  | route (henabled : request.text_pii_enabled = true) (face_route : String)
      (hface : service.face_route request = some face_route) (plans : PreparedLeaves)
      (hplans : service.prepare_leaf_plans env (text_leaves request) (request.request_kind = .mcp) = .ok plans)
      (entry : TextLeaf × LeafPlan) (hentry : entry ∈ plans.prepared) (region : EntityMatch)
      (hregion : region ∈ entry.2.effective_matches)
      (hreroute : service.planner.decidingAction (request.request_kind = .mcp) region.entity_type = .reroute)
      (hroute : service.planner.requestedRoute region.entity_type ≠ face_route)

/-- The part of a text result that no route decides. -/
def routeless (result : PolicyResult) : PolicyResult :=
  { result with
    decision := if result.decision = .block then .block else .pass
    remote_allowed := false
    route_class := none
    response_notices := [] }

theorem text_decision_ne_block (route : Option String) (actions : UniqueList PIIAction) :
    text_decision route actions ≠ .block := by
  unfold text_decision
  split
  · decide
  · split <;> decide

theorem routeless_decision (result : PolicyResult) :
    (routeless result).decision = .block ↔ result.decision = .block := by
  unfold routeless
  dsimp only
  split
  · next h => simp [h]
  · next h => simp [h]

variable {service : PolicyService} {env : Environment} {request : SegmentRequest} {include_diagnostics : Bool}
  {placeholder_namespace : Option Text} {leaves : List TextLeaf} {face_route : Option String} {plans : PreparedLeaves}

/-- A face route that no text reroute contradicts changes nothing but the routing. -/
theorem analyze_text_routeless
    (h : ∀ plans, service.prepare_leaf_plans env leaves (request.request_kind = .mcp) = .ok plans →
      service.face_route_conflicts face_route plans.reroute_entities = false) :
    (service.analyze_text env request leaves include_diagnostics placeholder_namespace face_route).map routeless =
      (service.analyze_text env request leaves include_diagnostics placeholder_namespace none).map routeless := by
  refine map_bind_congr fun plans hplans => map_bind_congr fun details _ => ?_
  have hnone : service.face_route_conflicts none plans.reroute_entities = false := rfl
  rw [h plans hplans, hnone]
  split
  · rfl
  · refine map_bind_congr fun transformed _ => map_bind_congr fun _ _ => map_bind_congr fun rows _ => ?_
    simp only [Except.map, pure, Except.pure, routeless, text_decision_ne_block, if_false]

theorem resolve_snd (service : PolicyService) (e : String) :
    (service.planner.resolve e).2 = service.policy.pii.entity_policies.find? fun entry => entry.entity_type = e := by
  have hlookup : service.planner.by_entity.get? e =
      service.policy.pii.entity_policies.find? fun entry => entry.entity_type = e :=
    service.planner.get?_by_entity e
  rw [ActionPlanner.resolve, hlookup]
  cases service.policy.pii.entity_policies.find? fun entry => entry.entity_type = e <;> rfl

/-- Only an entry that reroutes has a route of its own. -/
theorem requestedRoute_eq_default {e : String} (h : ∀ entry ∈ service.policy.pii.entity_policies,
      entry.entity_type = e → entry.action ≠ .reroute) :
    service.planner.requestedRoute e = service.policy.routing.default_target := by
  rw [ActionPlanner.requestedRoute, resolve_snd]
  cases hfind : service.policy.pii.entity_policies.find? fun entry => entry.entity_type = e with
  | none => rfl
  | some entry =>
    have htype := List.find?_some hfind
    rw [decide_eq_true_eq] at htype
    have hroute : entry.route_class = none := by
      by_contra hroute
      exact h entry (List.mem_of_find?_eq_some hfind) htype (entry.route_class_reroute hroute)
    rw [Option.bind_some, hroute]
    rfl

/-- The text route of an entity type is the one that its policy asks for. -/
theorem resolve_route_class_singleton (service : PolicyService) (e : String) :
    service.resolve_route_class (.ofList [e]) [service.policy.routing.default_target] =
      some (service.planner.requestedRoute e) := by
  have hunique : ∀ entry ∈ service.policy.pii.entity_policies, ∀ other ∈ service.policy.pii.entity_policies,
      entry.entity_type = e → other.entity_type = e → entry = other :=
    fun entry hentry other hother htype htype' =>
      List.inj_on_of_nodup_map service.policy.pii.entity_nodup hentry hother (htype.trans htype'.symm)
  unfold resolve_route_class
  simp only [UniqueList.mem_ofList, List.mem_singleton]
  cases hrerouted : service.policy.pii.entity_policies.find? fun entry => entry.entity_type = e ∧
    entry.action = .reroute with
  | some entry =>
    have hentry := List.mem_of_find?_eq_some hrerouted
    have hmatch := List.find?_some hrerouted
    rw [decide_eq_true_eq] at hmatch
    rw [ActionPlanner.requestedRoute, resolve_snd]
    cases hfind : service.policy.pii.entity_policies.find? fun entry => entry.entity_type = e with
    | none => exact absurd hmatch.1 (by simpa using List.find?_eq_none.mp hfind entry hentry)
    | some other =>
      have hother := List.find?_some hfind
      rw [decide_eq_true_eq] at hother
      rw [hunique entry hentry other (List.mem_of_find?_eq_some hfind) hmatch.1 hother]
      rfl
  | none =>
    rw [requestedRoute_eq_default]
    intro entry hentry htype haction
    exact List.find?_eq_none.mp hrerouted entry hentry (decide_eq_true ⟨htype, haction⟩)

/-- The face route conflicts with the text where a region is rerouted elsewhere. -/
theorem face_route_conflicts_iff {route : String} {reroute_as_block : Bool}
    (h : service.LeavesPrepared env reroute_as_block leaves plans) :
    service.face_route_conflicts (some route) plans.reroute_entities = true ↔
      ∃ entry ∈ plans.prepared, ∃ region ∈ entry.2.effective_matches,
        service.planner.decidingAction reroute_as_block region.entity_type = .reroute ∧
          service.planner.requestedRoute region.entity_type ≠ route := by
  unfold face_route_conflicts
  simp only [resolve_route_class_singleton, List.any_eq_true, decide_eq_true_eq, ne_eq, Option.some.injEq]
  constructor
  · rintro ⟨e, he, hroute⟩
    obtain ⟨entry, hentry, he⟩ := (h.reroute_entities e).mp he
    obtain ⟨region, hregion, rfl, hreroute⟩ := ((h.plans entry hentry).reroute_entities e).mp he
    exact ⟨entry, hentry, region, hregion, hreroute, hroute⟩
  · rintro ⟨entry, hentry, region, hregion, hreroute, hroute⟩
    refine ⟨region.entity_type, (h.reroute_entities _).mpr ⟨entry, hentry, ?_⟩, hroute⟩
    exact ((h.plans entry hentry).reroute_entities _).mpr ⟨region, hregion, rfl, hreroute⟩

/-- Without visual findings a request that passes preflight is its text analysis. -/
theorem analyze_textOnly (h : service.preflight request (text_leaves request) = .ok none) :
    service.analyze_segments env request.textOnly include_diagnostics placeholder_namespace =
      service.analyze_text env request (text_leaves request) include_diagnostics placeholder_namespace none := by
  change (service.preflight request (text_leaves request) >>= fun preflight => _) = _
  rw [h]
  change (service.settled_or_text env request.textOnly include_diagnostics placeholder_namespace none >>= pure) = _
  rw [bind_pure]
  rfl

/-- A result of text, without any face in it. -/
structure Unfaced (result : PolicyResult) : Prop where
  sorted : result.report_rows.Pairwise fun first second => first.entity_type < second.entity_type
  rows : ∀ row ∈ result.report_rows, row.entity_type ≠ "FACE"
  counts : "FACE" ∉ result.entity_counts.keys

theorem rawMatches_ne_face (h : service.AnalyzesSelected env) {leaf : TextLeaf} {item : EntityMatch}
    (hitem : item ∈ service.rawMatches env leaf) : item.entity_type ≠ "FACE" := by
  cases List.mem_append.mp hitem with
  | inl hanalyzed =>
    cases hanswer : env.analyze leaf with
    | error e => simp [hanswer] at hanalyzed
    | ok analyzed =>
      rw [hanswer] at hanalyzed
      intro hface
      exact face_not_selected service.policy (hface ▸ h leaf analyzed hanswer item hanalyzed)
  | inr hcustom =>
    obtain ⟨entry, -, hcustom⟩ := List.mem_flatMap.mp hcustom
    obtain ⟨pattern, -, hcustom⟩ := List.mem_flatMap.mp hcustom
    obtain ⟨span, -, rfl⟩ := List.mem_map.mp hcustom
    exact entry.not_face

theorem analyze_text_unfaced {result : PolicyResult} (hselected : service.AnalyzesSelected env)
    (h : service.analyze_text env request (text_leaves request) include_diagnostics placeholder_namespace face_route =
      .ok result) : Unfaced result := by
  obtain ⟨plans, hplans, hscanned, hcases⟩ := analyze_text_cases h
  have hprepared := prepare_leaf_plans_prepared hplans
  have hkeys : ∀ entry ∈ plans.prepared, ∀ e ∈ entry.2.entity_counts.keys, e ≠ "FACE" := by
    intro entry hentry e he
    obtain ⟨logical, hlogical, rfl⟩ := ((hprepared.plans entry hentry).count_keys e).mp he
    obtain ⟨item, hitem, htype⟩ := (hprepared.plans entry hentry).resolved.exists_raw_of_logical hlogical
    exact htype ▸ rawMatches_ne_face hselected hitem
  have hcounts : "FACE" ∉ result.entity_counts.keys := by
    rw [hscanned.entity_counts, hprepared.count_keys, hprepared.entities]
    rintro ⟨entry, hentry, hface⟩
    exact hkeys entry hentry _ ((mem_entities_iff_counts (hprepared.plans entry hentry) _).mpr hface) rfl
  cases hcases with
  | inl hblock =>
    have hrows := report_rows_eq_ok hprepared.reportable hblock.2.report_rows
    refine ⟨List.pairwise_map.mp hrows.sorted, fun row hrow => ?_, hcounts⟩
    obtain ⟨entry, hentry, hkey⟩ := (hrows.types _).mp (List.mem_map_of_mem hrow)
    exact hkeys entry hentry _ hkey
  | inr htransform =>
    obtain ⟨-, segments, transformed, hresult⟩ := htransform
    have htransformed := (transform_plans_transformed hresult.transform hprepared.leaves).1
    have hrows := report_rows_eq_ok (htransformed.reportable hprepared) hresult.report_rows
    refine ⟨List.pairwise_map.mp hrows.sorted, fun row hrow => ?_, hcounts⟩
    have hkey := (exists_key_iff _).mp ((hrows.types _).mp (List.mem_map_of_mem hrow))
    rw [htransformed.entity_counts hprepared] at hkey
    obtain ⟨entry, hentry, hkey⟩ := (exists_key_iff _).mpr hkey
    exact hkeys entry hentry _ hkey

/-- What preflight or the visual findings settle reports nothing. -/
theorem unfaced_of_empty {result : PolicyResult} (hrows : result.report_rows = [])
    (hcounts : result.entity_counts = .empty) : Unfaced result := by
  refine ⟨?_, ?_, ?_⟩
  · rw [hrows]
    exact List.Pairwise.nil
  · rw [hrows]
    simp
  · rw [hcounts]
    simp

/-- A document that preflight settles is blocked. -/
theorem preflight_document {base : PolicyResult} (hvisual : request.visual_findings ≠ none)
    (h : service.preflight request (text_leaves request) = .ok (some base)) :
    base.decision = .block ∧ Unfaced base := by
  rcases preflight_eq_some h with ⟨hmcp, -⟩ | ⟨-, rfl⟩ | ⟨-, safety, -, rfl⟩
  · exact absurd hmcp (request.visual_ok hvisual).1
  · exact ⟨rfl, unfaced_of_empty rfl rfl⟩
  · exact ⟨rfl, unfaced_of_empty rfl rfl⟩

/-- The result of a document before its faces are added. It is blocked in the listed ways
    only, and is otherwise that of its text alone, up to the routing. -/
structure DocumentBase (service : PolicyService) (env : Environment) (request : SegmentRequest)
    (include_diagnostics : Bool) (placeholder_namespace : Option Text) (base : PolicyResult) : Prop where
  unfaced : Unfaced base
  blocked : base.decision = .block ↔ service.DocumentBlocked env request include_diagnostics placeholder_namespace
  text : base.decision ≠ .block → ∃ text,
    service.text_result env request include_diagnostics placeholder_namespace = .ok text ∧
      routeless text = routeless base ∧ (service.face_route request = none → text = base)
  /-- Faces that are blocked leave nothing to add. -/
  faces : request.faceCount ≠ 0 → service.policy.attachments.faces.action = .block → base.decision = .block

theorem documentBase_of_preflight {base : PolicyResult} (hvisual : request.visual_findings ≠ none)
    (h : service.preflight request (text_leaves request) = .ok (some base)) :
    service.DocumentBase env request include_diagnostics placeholder_namespace base := by
  obtain ⟨hblock, hunfaced⟩ := preflight_document hvisual h
  exact ⟨hunfaced, ⟨fun _ => .preflight base h hblock, fun _ => hblock⟩, fun hne => absurd hblock hne,
    fun _ _ => hblock⟩

theorem documentBase_of_visual {base : PolicyResult}
    (hpreflight : service.preflight request (text_leaves request) = .ok none)
    (h : service.visual_decision request (text_leaves request) = some base) :
    service.DocumentBase env request include_diagnostics placeholder_namespace base := by
  unfold visual_decision at h
  split at h
  · cases h
  · next visual hvisual =>
    split at h
    · next hfaces =>
      cases h
      have hblocked : service.DocumentBlocked env request include_diagnostics placeholder_namespace := by
        cases hfaces with
        | inl hfailed => exact .scan_failed visual hvisual hfailed
        | inr hfaces => exact .faces hfaces.1 hfaces.2
      exact ⟨unfaced_of_empty rfl rfl, ⟨fun _ => hblocked, fun _ => rfl⟩, fun hne => absurd rfl hne, fun _ _ => rfl⟩
    · next hfaces =>
      rw [not_or] at hfaces
      split at h
      · next hdisabled =>
        cases h
        have htext : service.text_result env request include_diagnostics placeholder_namespace = .ok {
            segments := some request.segments
            decision := .pass
            remote_allowed := true
            text_leaf_count := request.segments.length } := by
          rw [text_result, hdisabled]
          rfl
        refine ⟨unfaced_of_empty rfl rfl, ⟨fun hblock => (by cases hblock), ?_⟩, fun _ => ⟨_, htext, ?_, fun _ => ?_⟩,
          ?_⟩
        · intro hblocked
          cases hblocked with
          | scan_failed other hother hfailed =>
            rw [hvisual, Option.some.injEq] at hother
            exact absurd (hother ▸ hfailed) hfaces.1
          | preflight settled hsettled =>
            rw [hpreflight] at hsettled
            cases hsettled
          | faces hcount haction => exact absurd ⟨hcount, haction⟩ hfaces.2
          | text text hother hblock =>
            rw [htext, Except.ok.injEq] at hother
            rw [← hother] at hblock
            cases hblock
          | route henabled =>
            rw [hdisabled] at henabled
            cases henabled
        · rw [text_leaves, List.length_map]
        · rw [text_leaves, List.length_map]
        · intro hcount haction
          exact absurd ⟨hcount, haction⟩ hfaces.2
      · cases h

theorem documentBase_of_text {base : PolicyResult} (hselected : service.AnalyzesSelected env)
    (hpreflight : service.preflight request (text_leaves request) = .ok none)
    (hvisual : request.visual_findings ≠ none)
    (hundecided : service.visual_decision request (text_leaves request) = none)
    (h : service.analyze_text env request (text_leaves request) include_diagnostics placeholder_namespace
      (service.face_route request) = .ok base) :
    service.DocumentBase env request include_diagnostics placeholder_namespace base := by
  -- visual findings that decide nothing leave an enabled text analysis
  obtain ⟨visual, hfindings⟩ := Option.ne_none_iff_exists'.mp hvisual
  have hopen : visual.faces.scan_status ≠ .failed ∧
      ¬ (request.faceCount ≠ 0 ∧ service.policy.attachments.faces.action = .block) ∧
        request.text_pii_enabled = true := by
    rw [visual_decision, hfindings] at hundecided
    dsimp only at hundecided
    split at hundecided
    · cases hundecided
    · next hfaces =>
      rw [not_or] at hfaces
      split at hundecided
      · cases hundecided
      · next henabled => exact ⟨hfaces.1, hfaces.2, by simpa using henabled⟩
  obtain ⟨hscanned, hfaces, henabled⟩ := hopen
  have htext_result : service.text_result env request include_diagnostics placeholder_namespace =
      service.analyze_text env request (text_leaves request) include_diagnostics placeholder_namespace none := by
    rw [text_result, if_pos henabled, analyze_textOnly hpreflight]
  obtain ⟨plans, hplans, -, hcases⟩ := analyze_text_cases h
  have hprepared := prepare_leaf_plans_prepared hplans
  have hunfaced := analyze_text_unfaced hselected h
  by_cases hconflict : service.face_route_conflicts (service.face_route request) plans.reroute_entities = true
  · have hblock : base.decision = .block := by
      cases hcases with
      | inl hblocked => exact hblocked.2.decision
      | inr htransformed => exact absurd (Or.inr hconflict) htransformed.1
    refine ⟨hunfaced, ⟨fun _ => ?_, fun _ => hblock⟩, fun hne => absurd hblock hne, fun _ _ => hblock⟩
    cases hroute : service.face_route request with
    | none =>
      rw [hroute] at hconflict
      cases hconflict
    | some route =>
      rw [hroute, face_route_conflicts_iff hprepared] at hconflict
      obtain ⟨entry, hentry, region, hregion, hreroute, hdiffers⟩ := hconflict
      exact .route henabled route hroute plans hplans entry hentry region hregion hreroute hdiffers
  · rw [Bool.not_eq_true] at hconflict
    have hrouteless : (service.analyze_text env request (text_leaves request) include_diagnostics placeholder_namespace
        (service.face_route request)).map routeless = _ :=
      analyze_text_routeless fun plans' hplans' => by
        rw [hplans, Except.ok.injEq] at hplans'
        rw [← hplans', hconflict]
    rw [h, ← htext_result] at hrouteless
    obtain ⟨text, htext, hsame⟩ := map_eq_ok.mp hrouteless.symm
    have hdecision : text.decision = .block ↔ base.decision = .block := by
      rw [← routeless_decision text, hsame, routeless_decision]
    refine ⟨hunfaced, ⟨fun hblock => .text text htext (hdecision.mpr hblock), ?_⟩, fun _ => ⟨text, htext, hsame, ?_⟩,
      fun hcount haction => absurd ⟨hcount, haction⟩ hfaces⟩
    · intro hblocked
      cases hblocked with
      | scan_failed other hother hfailed =>
        rw [hfindings, Option.some.injEq] at hother
        exact absurd (hother ▸ hfailed) hscanned
      | preflight settled hsettled =>
        rw [hpreflight] at hsettled
        cases hsettled
      | faces hcount haction => exact absurd ⟨hcount, haction⟩ hfaces
      | text other hother hblock =>
        rw [htext, Except.ok.injEq] at hother
        exact hdecision.mp (hother ▸ hblock)
      | route _ route hroute plans' hplans' entry hentry region hregion hreroute hdiffers =>
        rw [hplans, Except.ok.injEq] at hplans'
        subst hplans'
        have hconflicts := (face_route_conflicts_iff hprepared).mpr
          ⟨entry, hentry, region, hregion, hreroute, hdiffers⟩
        rw [← hroute, hconflict] at hconflicts
        cases hconflicts
    · intro hnone
      rw [htext_result, ← hnone, h, Except.ok.injEq] at htext
      exact htext.symm

/-- The faces leave the report of the text alone and add one row. -/
theorem apply_visual_result_rows {base result : PolicyResult} (hunfaced : Unfaced base)
    (h : service.apply_visual_result base request face_route = .ok result) :
    result.report_rows.filter (·.entity_type ≠ "FACE") = base.report_rows ∧
      result.entity_counts.items.filter (·.1 ≠ "FACE") = base.entity_counts.items ∧
      (request.faceCount ≠ 0 → ∃ row, result.report_rows.filter (·.entity_type = "FACE") = [row] ∧
        row.detected_count = request.faceCount ∧ row.action = service.visual_action base) := by
  have hrows : base.report_rows.filter (·.entity_type ≠ "FACE") = base.report_rows :=
    List.filter_eq_self.mpr fun row hrow => decide_eq_true (hunfaced.rows row hrow)
  have hcounts : base.entity_counts.items.filter (·.1 ≠ "FACE") = base.entity_counts.items :=
    List.filter_eq_self.mpr fun entry hentry => decide_eq_true fun hface =>
      hunfaced.counts (hface ▸ List.mem_map_of_mem hentry)
  cases apply_visual_result_eq_ok.mp h with
  | inl hnone =>
    obtain ⟨hcount, rfl⟩ := hnone
    exact ⟨hrows, hcounts, fun hne => absurd hcount hne⟩
  | inr hface =>
    obtain ⟨hcount, row, hrow, hresult⟩ := hface
    obtain ⟨htype, haction, hdetected, -, -⟩ := PIIReportRow.create_eq_ok.mp hrow
    have hresult_rows : result.report_rows = sortOn PIIReportRow.entity_type (base.report_rows ++ [row]) := by
      rw [hresult, apply_face_action]
      split
      · rfl
      · split <;> rfl
    have hresult_counts : result.entity_counts = base.entity_counts.set "FACE" request.faceCount := by
      rw [hresult, apply_face_action]
      split
      · rfl
      · split <;> rfl
    refine ⟨?_, ?_, fun _ => ⟨row, ?_, hdetected, haction⟩⟩
    · rw [hresult_rows]
      exact filter_sortOn_append hunfaced.sorted (fun other hother => decide_eq_true (hunfaced.rows other hother))
        (by simp [htype])
    · rw [hresult_counts]
      change (OrderedDict.assign "FACE" request.faceCount base.entity_counts.items).filter _ = _
      rw [OrderedDict.assign_of_not_mem _ hunfaced.counts, List.filter_append, hcounts]
      simp
    · rw [hresult_rows, ← List.perm_singleton]
      have hperm : ((sortOn PIIReportRow.entity_type (base.report_rows ++ [row])).filter (·.entity_type = "FACE")).Perm
          ((base.report_rows ++ [row]).filter (·.entity_type = "FACE")) := (sortOn_perm _).filter _
      have hnone : base.report_rows.filter (·.entity_type = "FACE") = [] :=
        List.filter_eq_nil_iff.mpr fun other hother => by simpa using hunfaced.rows other hother
      rwa [List.filter_append, hnone, List.nil_append, List.filter_singleton, htype] at hperm

/-- The faces decide together with a result that is not blocked. -/
theorem apply_visual_result_decision {base result : PolicyResult}
    (hfaces : request.faceCount ≠ 0 → service.policy.attachments.faces.action = .block → base.decision = .block)
    (h : service.apply_visual_result base request face_route = .ok result) :
    (result.decision = .block ↔ base.decision = .block) ∧
      (base.decision ≠ .block → result.decision = max base.decision (service.face_decision request) ∧
        (request.faceCount ≠ 0 → service.policy.attachments.faces.action = .reroute →
          result.route_class = face_route)) := by
  cases apply_visual_result_eq_ok.mp h with
  | inl hnone =>
    obtain ⟨hcount, rfl⟩ := hnone
    refine ⟨Iff.rfl, fun _ => ⟨?_, fun hne => absurd hcount hne⟩⟩
    rw [face_decision, if_pos hcount]
    exact (max_eq_left (Decision.pass_le _)).symm
  | inr hface =>
    obtain ⟨hcount, row, -, rfl⟩ := hface
    by_cases hblock : base.decision = .block
    · have haction : service.visual_action base = .pii .block := if_pos hblock
      rw [haction]
      exact ⟨Iff.rfl, fun hne => absurd hblock hne⟩
    · have haction : service.visual_action base = face_action service.policy.attachments.faces.action := if_neg hblock
      rw [haction, face_decision, if_neg hcount]
      cases hfaces_action : service.policy.attachments.faces.action with
      | block => exact absurd (hfaces hcount hfaces_action) hblock
      | text_only =>
        change ((if base.decision = .pass then .apply_actions else base.decision) = Decision.block ↔ _) ∧
          (_ → (if base.decision = .pass then .apply_actions else base.decision) = _ ∧ _)
        cases hdecision : base.decision with
        | block => exact absurd hdecision hblock
        | _ => exact ⟨by decide, fun _ => ⟨by decide, fun _ hne => by cases hne⟩⟩
      | reroute =>
        change (Decision.reroute = .block ↔ _) ∧ (_ → Decision.reroute = _ ∧ (_ → _ → face_route = face_route))
        cases hdecision : base.decision with
        | block => exact absurd hdecision hblock
        | _ => exact ⟨by decide, fun _ => ⟨by decide, fun _ _ => rfl⟩⟩

theorem analyze_segments_document {result : PolicyResult} (hvisual : request.visual_findings ≠ none)
    (hselected : service.AnalyzesSelected env)
    (h : service.analyze_segments env request include_diagnostics placeholder_namespace = .ok result) :
    ∃ base, service.DocumentBase env request include_diagnostics placeholder_namespace base ∧
      service.apply_visual_result base request (service.face_route request) = .ok result := by
  obtain ⟨base, hbase, happly⟩ := analyze_segments_cases h
  refine ⟨base, ?_, happly⟩
  rcases hbase with hpreflight | ⟨hpreflight, hdecided | ⟨hundecided, htext⟩⟩
  · exact documentBase_of_preflight hvisual hpreflight
  · exact documentBase_of_visual hpreflight hdecided
  · exact documentBase_of_text hselected hpreflight hvisual hundecided htext

/-- The row of the faces can always be built. -/
theorem apply_visual_result_total (base : PolicyResult) :
    ∃ result, service.apply_visual_result base request face_route = .ok result := by
  by_cases hcount : request.faceCount = 0
  · exact ⟨base, apply_visual_result_eq_ok.mpr (Or.inl ⟨hcount, rfl⟩)⟩
  · have hbound : request.faceCount ≤ 10000000 := by
      unfold SegmentRequest.faceCount
      split
      · next visual _ =>
        cases hfaces : visual.faces.count with
        | none => exact Nat.zero_le _
        | some n => exact visual.faces.count_le n hfaces
      · exact Nat.zero_le _
    have haction : service.visual_action base ∈ report_row.face_actions := by
      unfold visual_action
      split
      · decide
      · cases service.policy.attachments.faces.action <;> decide
    have hvalid : report_row.validate "FACE" (service.visual_action base) request.faceCount 0 0 = .ok () := by
      rw [PIIReportRow.validate_eq_ok]
      exact ⟨by decide, ⟨by omega, hbound⟩, fun _ => ⟨haction, rfl⟩, fun _ => rfl, by omega, by omega, fun _ => rfl⟩
    exact ⟨_, apply_visual_result_eq_ok.mpr (Or.inr ⟨hcount, _, PIIReportRow.create_total hvalid, rfl⟩)⟩

/-- A document fails only where its preflight or its text analysis does. -/
theorem analyze_segments_error {e : AnalysisError}
    (h : service.analyze_segments env request include_diagnostics placeholder_namespace = .error e) :
    service.preflight request (text_leaves request) = .error e ∨
      service.visual_decision request (text_leaves request) = none ∧
        service.analyze_text env request (text_leaves request) include_diagnostics placeholder_namespace
          (service.face_route request) = .error e := by
  cases bind_eq_error.mp h with
  | inl hpreflight => exact Or.inl hpreflight
  | inr hrest =>
    obtain ⟨preflight, hpreflight, hrest⟩ := hrest
    cases bind_eq_error.mp hrest with
    | inl hsettled =>
      cases preflight with
      | some settled => cases hsettled
      | none =>
        rw [Option.none_or] at hsettled
        cases hvisual : service.visual_decision request (text_leaves request) with
        | some settled =>
          rw [hvisual] at hsettled
          cases hsettled
        | none =>
          rw [hvisual] at hsettled
          exact Or.inr ⟨rfl, hsettled⟩
    | inr happly =>
      obtain ⟨base, -, happly⟩ := happly
      split at happly
      · obtain ⟨result, hresult⟩ := service.apply_visual_result_total base
        rw [hresult] at happly
        cases happly
      · cases happly

/-- The decision of a document joins those of its text and of its faces, and the text comes out
    as it does without them. One row reports the faces, blocked exactly when the document is.
    The faces themselves never fail. -/
theorem analyze_document (service : PolicyService) (env : Environment) (request : SegmentRequest)
    (include_diagnostics : Bool) (placeholder_namespace : Option Text) (hvisual : request.visual_findings ≠ none)
    (hselected : service.AnalyzesSelected env) :
    (∀ e, service.analyze_segments env request include_diagnostics placeholder_namespace = .error e →
      service.preflight request (text_leaves request) = .error e ∨
        service.visual_decision request (text_leaves request) = none ∧
          service.analyze_text env request (text_leaves request) include_diagnostics placeholder_namespace
            (service.face_route request) = .error e) ∧
    ∀ result, service.analyze_segments env request include_diagnostics placeholder_namespace = .ok result →
    (result.decision = .block ↔ service.DocumentBlocked env request include_diagnostics placeholder_namespace) ∧
    (result.decision ≠ .block → ∃ text,
      service.text_result env request include_diagnostics placeholder_namespace = .ok text ∧
      result.decision = max text.decision (service.face_decision request) ∧
      (request.faceCount ≠ 0 → service.policy.attachments.faces.action = .reroute → result.route_class =
        some (orDefault service.policy.attachments.faces.route_class service.policy.routing.default_target)) ∧
      result.segments = text.segments ∧ result.reversal = text.reversal ∧
      result.report_rows.filter (·.entity_type ≠ "FACE") = text.report_rows ∧
      result.entity_counts.items.filter (·.1 ≠ "FACE") = text.entity_counts.items) ∧
    (request.faceCount ≠ 0 → ∃ row, result.report_rows.filter (·.entity_type = "FACE") = [row] ∧
      row.detected_count = request.faceCount ∧ (row.action = .pii .block ↔ result.decision = .block)) := by
  refine ⟨fun e => analyze_segments_error, fun result h => ?_⟩
  obtain ⟨base, hbase, happly⟩ := analyze_segments_document hvisual hselected h
  obtain ⟨hblock, hdecision⟩ := apply_visual_result_decision hbase.faces happly
  obtain ⟨hrows, hcounts, hface⟩ := apply_visual_result_rows hbase.unfaced happly
  obtain ⟨hsegments, -, hreversal, -⟩ := apply_visual_result_frame happly
  refine ⟨hblock.trans hbase.blocked, ?_, ?_⟩
  · intro hne
    have hbase_ne : base.decision ≠ .block := fun heq => hne (hblock.mpr heq)
    obtain ⟨text, htext, hsame, hunrouted⟩ := hbase.text hbase_ne
    obtain ⟨hmax, hroute⟩ := hdecision hbase_ne
    have htext_ne : text.decision ≠ .block := by
      rwa [Ne, ← routeless_decision, hsame, routeless_decision]
    refine ⟨text, htext, ?_, ?_, ?_, ?_, ?_, ?_⟩
    · rw [hmax]
      by_cases hreroute : request.faceCount ≠ 0 ∧ service.policy.attachments.faces.action = .reroute
      · -- a face reroute is stricter than every text that is not blocked
        have hface_decision : service.face_decision request = .reroute := by
          rw [face_decision, if_neg hreroute.1, hreroute.2]
        have hle : ∀ decision : Decision, decision ≠ .block → decision ≤ .reroute := by
          intro decision
          cases decision <;> decide
        rw [hface_decision, max_eq_right (hle _ hbase_ne), max_eq_right (hle _ htext_ne)]
      · rw [hunrouted (if_neg hreroute)]
    · intro hcount haction
      rw [hroute hcount haction, face_route, if_pos ⟨hcount, haction⟩]
    · rw [hsegments]
      exact (congrArg PolicyResult.segments hsame).symm
    · rw [hreversal]
      exact (congrArg PolicyResult.reversal hsame).symm
    · rw [hrows]
      exact (congrArg PolicyResult.report_rows hsame).symm
    · rw [hcounts]
      exact congrArg OrderedDict.items (congrArg PolicyResult.entity_counts hsame).symm
  · intro hcount
    obtain ⟨row, hrow, hdetected, haction⟩ := hface hcount
    refine ⟨row, hrow, hdetected, ?_⟩
    rw [haction, hblock, visual_action]
    split
    · next hbase_block => simp [hbase_block]
    · next hbase_ne =>
      cases hfaces_action : service.policy.attachments.faces.action with
      | block => exact absurd (hbase.faces hcount hfaces_action) hbase_ne
      | _ => simp [face_action, hbase_ne]

/-- The test service with faces that are rerouted. -/
def face_service : PolicyService :=
  { test_service with
    planner := { ActionPlanner.test_planner with
      policy := { test_policy with attachments := { faces := { test_policy.attachments.faces with
          action := .reroute
          route_class_reroute := fun _ => rfl } } } }
    compiled := rfl }

/-- A mail address and two faces. -/
def face_document : SegmentRequest where
  request_kind := .chat
  scope := .request
  segments := [⟨"d1", "a@example.com".toList, by decide⟩]
  visual_findings := some ⟨{ scan_status := .complete, count := some 2 }⟩

theorem analyze_document_reroute : ∃ result,
    face_service.analyze_segments (test_environment [⟨"EMAIL_ADDRESS", 0, 13, some (9 / 10), "deterministic"⟩])
      face_document false none = .ok result ∧ result.decision = .reroute ∧ result.route_class = some "local" ∧
      ∃ row, result.report_rows.filter (·.entity_type = "FACE") = [row] ∧ row.detected_count = 2 ∧
        row.action ≠ .pii .block := by
  have hrun : (face_service.analyze_segments
      (test_environment [⟨"EMAIL_ADDRESS", 0, 13, some (9 / 10), "deterministic"⟩]) face_document false
        none).toOption.any
        (·.decision = .reroute) = true := by decide +kernel
  cases hresult : face_service.analyze_segments
      (test_environment [⟨"EMAIL_ADDRESS", 0, 13, some (9 / 10), "deterministic"⟩]) face_document false none with
  | error e =>
    rw [hresult] at hrun
    cases hrun
  | ok result =>
    rw [hresult] at hrun
    have hreroute : result.decision = .reroute := of_decide_eq_true hrun
    have hne : result.decision ≠ .block := by rw [hreroute]; decide
    have hselected : face_service.AnalyzesSelected
        (test_environment [⟨"EMAIL_ADDRESS", 0, 13, some (9 / 10), "deterministic"⟩]) := by
      intro leaf analyzed hanalyzed item hitem
      cases hanalyzed
      rw [List.mem_singleton.mp hitem]
      decide
    obtain ⟨-, hunblocked, hface⟩ :=
      (analyze_document face_service _ face_document false none (by decide) hselected).2 result hresult
    obtain ⟨-, -, -, hroute, -⟩ := hunblocked hne
    obtain ⟨row, hrow, hdetected, haction⟩ := hface (by decide)
    exact ⟨result, rfl, hreroute, hroute (by decide) rfl, row, hrow, hdetected, fun hblock => hne (haction.mp hblock)⟩

end policy.PolicyService

end pii_engine
