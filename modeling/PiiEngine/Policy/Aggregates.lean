import PiiEngine.Planner.Placeholders
import PiiEngine.Policy.Visual

open checked collections
open pii_engine.config pii_engine.planner

namespace pii_engine.policy.PolicyService

/-- The plan of one leaf, in which no other leaf has a part. -/
def leaf_plan (service : PolicyService) (env : Environment) (reroute_as_block : Bool) (leaf : TextLeaf) :
    Except AnalysisError (TextLeaf × LeafPlan) := do
  let analyzed ← env.analyze leaf
  let plan ← service.planner.prepare leaf.text (analyzed ++ service.custom_matches leaf.text) reroute_as_block
  pure (leaf, plan)

/-- The text that one segment becomes, analyzed on its own. -/
def segment_output (service : PolicyService) (env : Environment) (reroute_as_block : Bool) (nonce : Text)
    (segment : TextSegment) : Except AnalysisError Text := do
  let (leaf, plan) ← service.leaf_plan env reroute_as_block ⟨segment.id, segment.text⟩
  let plan ← service.planner.transform plan nonce (env.clock leaf.id)
  pure plan.text

variable {service : PolicyService} {env : Environment} {reroute_as_block : Bool} {leaves leaves' : List TextLeaf}
  {plans plans' : PreparedLeaves} {nonce : Text} {request : SegmentRequest}

theorem prepare_leaf_plan_eq_ok {acc acc' : PreparedLeaves} {leaf : TextLeaf}
    (h : service.prepare_leaf_plan env reroute_as_block acc leaf = .ok acc') :
    ∃ entry, service.leaf_plan env reroute_as_block leaf = .ok entry ∧ acc'.prepared = acc.prepared ++ [entry] := by
  obtain ⟨analyzed, hanalyzed, h⟩ := bind_eq_ok.mp h
  obtain ⟨plan, hplan, h⟩ := bind_eq_ok.mp h
  refine ⟨(leaf, plan), bind_eq_ok.mpr ⟨analyzed, hanalyzed, bind_eq_ok.mpr ⟨plan, hplan, rfl⟩⟩, ?_⟩
  rw [← Except.ok.inj h]

theorem prepare_leaf_plan_total {leaf : TextLeaf} {entry : TextLeaf × LeafPlan}
    (h : service.leaf_plan env reroute_as_block leaf = .ok entry) (acc : PreparedLeaves) :
    ∃ acc', service.prepare_leaf_plan env reroute_as_block acc leaf = .ok acc' := by
  obtain ⟨analyzed, hanalyzed, h⟩ := bind_eq_ok.mp h
  obtain ⟨plan, hplan, -⟩ := bind_eq_ok.mp h
  exact ⟨_, bind_eq_ok.mpr ⟨analyzed, hanalyzed, bind_eq_ok.mpr ⟨plan, hplan, rfl⟩⟩⟩

/-- Prepared plans are the plans of the leaves, each on its own. -/
theorem prepare_leaf_plans_leaves (h : service.prepare_leaf_plans env leaves reroute_as_block = .ok plans) :
    List.Forall₂ (fun leaf entry => service.leaf_plan env reroute_as_block leaf = .ok entry) leaves plans.prepared := by
  have hrun := foldlM_invariant (fun done (acc : PreparedLeaves) => List.Forall₂ (fun leaf entry =>
    service.leaf_plan env reroute_as_block leaf = .ok entry) done acc.prepared) ?_ List.Forall₂.nil h
  · rwa [List.nil_append] at hrun
  · intro done leaf acc acc' hacc hstep
    obtain ⟨entry, hentry, hprepared⟩ := prepare_leaf_plan_eq_ok hstep
    rw [hprepared]
    exact List.rel_append hacc (.cons hentry .nil)

/-- Leaves in another order have the same plans in another order. -/
theorem prepare_leaf_plans_perm (hperm : leaves.Perm leaves')
    (h : service.prepare_leaf_plans env leaves reroute_as_block = .ok plans) :
    ∃ plans', service.prepare_leaf_plans env leaves' reroute_as_block = .ok plans' ∧
      plans.prepared.Perm plans'.prepared := by
  have hleaves := prepare_leaf_plans_leaves h
  obtain ⟨plans', hplans'⟩ : ∃ plans', service.prepare_leaf_plans env leaves' reroute_as_block = .ok plans' := by
    refine foldlM_total_of_step ?_ ({} : PreparedLeaves)
    intro leaf hleaf acc
    obtain ⟨entry, -, hentry⟩ := exists_right_of_forall₂ hleaves (hperm.mem_iff.mpr hleaf)
    exact prepare_leaf_plan_total hentry acc
  refine ⟨plans', hplans', perm_of_forall₂ ?_ hperm hleaves (prepare_leaf_plans_leaves hplans')⟩
  intro leaf entry entry' hentry hentry'
  rw [hentry] at hentry'
  exact Except.ok.inj hentry'

theorem text_blocked_congr (hperm : plans.prepared.Perm plans'.prepared) :
    service.TextBlocked none plans ↔ service.TextBlocked none plans' := by
  have hconflict : ∀ entities, service.face_route_conflicts none entities = false := fun _ => rfl
  simp only [TextBlocked, hconflict, hperm.mem_iff]

section prepared
variable (h : service.LeavesPrepared env reroute_as_block leaves plans)
  (h' : service.LeavesPrepared env reroute_as_block leaves' plans') (hperm : plans.prepared.Perm plans'.prepared)
include h h' hperm

theorem mem_entities_congr (e : String) : e ∈ plans.entities ↔ e ∈ plans'.entities := by
  simp only [h.entities, h'.entities, hperm.mem_iff]

theorem counts_congr (e : String) : plans.counts.get? e = plans'.counts.get? e := by
  have hget : ∀ e, plans.counts.getD e 0 = plans'.counts.getD e 0 := fun e => by
    rw [h.counts, h'.counts]
    exact (hperm.map _).sum_eq
  refine OrderedDict.get?_congr (fun e => ?_) hget e
  rw [h.count_keys, h'.count_keys]
  exact mem_entities_congr h h' hperm e

theorem mem_reroute_entities_congr (e : String) : e ∈ plans.reroute_entities ↔ e ∈ plans'.reroute_entities := by
  simp only [h.reroute_entities, h'.reroute_entities, hperm.mem_iff]

theorem overlap_count_congr : plans.overlap_count = plans'.overlap_count := by
  rw [h.overlap_count, h'.overlap_count]
  exact (hperm.map _).sum_eq

omit h' hperm in
/-- A detected route that no rerouting entry decides is the default one. -/
theorem route_class_eq_default {route : String} (hroute : route ∈ plans.route_classes)
    (hnone : ∀ entry ∈ service.policy.pii.entity_policies, entry.entity_type ∈ plans.reroute_entities →
      entry.action ≠ .reroute) : route = service.policy.routing.default_target := by
  obtain ⟨entry, hentry, hclass, -⟩ := (h.route_classes route).mp hroute
  have hplan := h.plans entry hentry
  obtain ⟨region, hregion, hreroute, rfl⟩ := hplan.route_requested route hclass
  apply requestedRoute_eq_default
  intro policy hpolicy htype
  apply hnone policy hpolicy
  rw [htype, h.reroute_entities]
  exact ⟨entry, hentry, (hplan.reroute_entities _).mpr ⟨region, hregion, rfl, hreroute⟩⟩

/-- The route of a text depends on what was rerouted, not on what was rerouted first. -/
theorem resolve_route_class_congr : service.resolve_route_class plans.reroute_entities plans.route_classes =
    service.resolve_route_class plans'.reroute_entities plans'.route_classes := by
  have hroutes : ∀ route, route ∈ plans.route_classes ↔ route ∈ plans'.route_classes := by
    simp only [h.route_classes, h'.route_classes, hperm.mem_iff, implies_true]
  unfold resolve_route_class
  simp only [← mem_reroute_entities_congr h h' hperm]
  cases hfirst : plans.route_classes with
  | nil =>
    cases hfirst' : plans'.route_classes with
    | nil => rfl
    | cons route' rest' =>
      have hmem := (hroutes route').mpr (by simp [hfirst'])
      rw [hfirst] at hmem
      cases hmem
  | cons route rest =>
    have hmem : route ∈ plans.route_classes := by simp [hfirst]
    cases hfirst' : plans'.route_classes with
    | nil =>
      rw [hroutes, hfirst'] at hmem
      cases hmem
    | cons route' rest' =>
      dsimp only
      split
      · rfl
      · next hfind =>
        -- without a rerouting entry both first routes are the default one
        have hnone : ∀ entry ∈ service.policy.pii.entity_policies, entry.entity_type ∈ plans.reroute_entities →
            entry.action ≠ .reroute := fun entry hentry htype haction =>
          List.find?_eq_none.mp hfind entry hentry (decide_eq_true ⟨htype, haction⟩)
        have hnone' : ∀ entry ∈ service.policy.pii.entity_policies, entry.entity_type ∈ plans'.reroute_entities →
            entry.action ≠ .reroute := fun entry hentry htype =>
          hnone entry hentry ((mem_reroute_entities_congr h h' hperm _).mpr htype)
        have hmem' : route' ∈ plans'.route_classes := by simp [hfirst']
        rw [route_class_eq_default h hmem hnone, route_class_eq_default h' hmem' hnone']

end prepared

section transformed
variable {prepared prepared' : List (TextLeaf × LeafPlan)} {transformed transformed' : TransformedLeaves}

/-- Plans in another order are transformed alike. Their reversal maps agree, since those of
    the first order were merged. -/
theorem transform_plans_of_perm (request : SegmentRequest) (hperm : prepared.Perm prepared')
    (h : service.LeavesTransformed env nonce prepared transformed) :
    ∃ output, service.transform_plans env request prepared' nonce = .ok output := by
  suffices hloop : ∃ acc, prepared'.foldlM (service.transform_leaf_plan env nonce) {} = .ok acc ∧
      ∀ placeholder value, acc.reversal.get? placeholder = some value →
        transformed.reversal.get? placeholder = some value by
    obtain ⟨acc, hacc, -⟩ := hloop
    exact ⟨_, bind_eq_ok.mpr ⟨acc, hacc, rfl⟩⟩
  refine foldlM_total (fun _ (acc : TransformedLeaves) => ∀ placeholder value,
    acc.reversal.get? placeholder = some value → transformed.reversal.get? placeholder = some value) (by simp) ?_
  rintro done ⟨leaf, plan⟩ acc hentry hacc
  obtain ⟨after, hafter, -, hplan⟩ := exists_right_of_forall₂ h.plans (hperm.mem_iff.mpr hentry)
  have hremembered : ∀ placeholder value, after.2.reversal.get? placeholder = some value →
      transformed.reversal.get? placeholder = some value :=
    fun placeholder value hget => (h.reversal placeholder value).mpr ⟨after, hafter, hget⟩
  obtain ⟨merged, hmerged⟩ : ∃ merged, merge_reversal acc.reversal after.2.reversal = .ok merged := by
    apply merge_reversal_total
    intro placeholder value value' hvalue hvalue'
    have heq := (hacc _ _ hvalue).symm.trans (hremembered _ _ hvalue')
    exact Option.some.inj heq
  refine ⟨_, bind_eq_ok.mpr ⟨after.2, hplan, bind_eq_ok.mpr ⟨merged, hmerged, rfl⟩⟩, ?_⟩
  intro placeholder value hget
  cases (merge_reversal_eq_ok hmerged placeholder value).mp hget with
  | inl htarget => exact hacc placeholder value htarget
  | inr hsource => exact hremembered placeholder value hsource

variable (h : service.LeavesTransformed env nonce prepared transformed)
  (h' : service.LeavesTransformed env nonce prepared' transformed')
include h h'

theorem transformed_perm (hperm : prepared.Perm prepared') : transformed.prepared.Perm transformed'.prepared := by
  refine perm_of_forall₂ ?_ hperm h.plans h'.plans
  rintro entry after after' ⟨hleaf, hplan⟩ ⟨hleaf', hplan'⟩
  rw [hplan] at hplan'
  exact Prod.ext (hleaf.trans hleaf'.symm) (Except.ok.inj hplan')

theorem mem_actions_congr (hperm : transformed.prepared.Perm transformed'.prepared) (action : PIIAction) :
    action ∈ transformed.actions ↔ action ∈ transformed'.actions := by
  simp only [h.actions, h'.actions, hperm.mem_iff]

theorem reversal_congr (hperm : transformed.prepared.Perm transformed'.prepared) (placeholder : Text) :
    transformed.reversal.get? placeholder = transformed'.reversal.get? placeholder := by
  apply Option.ext
  intro value
  simp only [h.reversal, h'.reversal, hperm.mem_iff]

end transformed

/-- Every segment carries the text that it becomes on its own. -/
theorem transform_plans_segments {segments : List TextSegment} {transformed : TransformedLeaves}
    (hplans : service.prepare_leaf_plans env (text_leaves request) reroute_as_block = .ok plans)
    (h : service.transform_plans env request plans.prepared nonce = .ok (segments, transformed)) :
    ∃ rewrite : TextSegment → Text, (∀ segment ∈ request.segments,
        service.segment_output env reroute_as_block nonce segment = .ok (rewrite segment)) ∧
      segments = request.segments.map fun segment => { segment with text := rewrite segment } := by
  have hprepared := prepare_leaf_plans_prepared hplans
  obtain ⟨htransformed, houtputs⟩ := transform_plans_transformed h hprepared.leaves
  refine ⟨fun segment => transformed.replacements.getD segment.id segment.text, ?_, ?_⟩
  · intro segment hsegment
    have hleaf : (⟨segment.id, segment.text⟩ : TextLeaf) ∈ text_leaves request := List.mem_map_of_mem hsegment
    obtain ⟨entry, hentry, hplan⟩ := exists_right_of_forall₂ (prepare_leaf_plans_leaves hplans) hleaf
    obtain ⟨after, hafter, hsame, htransform⟩ := exists_right_of_forall₂ htransformed.plans hentry
    have hfirst : entry.1 = ⟨segment.id, segment.text⟩ := by
      obtain ⟨analyzed, -, hplan⟩ := bind_eq_ok.mp hplan
      obtain ⟨plan, -, hplan⟩ := bind_eq_ok.mp hplan
      rw [← Except.ok.inj hplan]
    have hids : (plans.prepared.map fun entry => entry.1.id).Nodup := by
      rw [ids_of_leaves hprepared.leaves]
      exact request.ids_nodup
    have htext := (htransformed.replacements hids).1 after hafter
    rw [hsame, hfirst] at htext
    rw [segment_output, hplan]
    refine bind_eq_ok.mpr ⟨entry, rfl, bind_eq_ok.mpr ⟨after.2, htransform, ?_⟩⟩
    rw [← htext]
    rfl
  · obtain ⟨acc, -, hsegments⟩ := bind_eq_ok.mp h
    obtain ⟨rfl, rfl⟩ := Prod.mk.inj (Except.ok.inj hsegments)
    rfl

section rows
variable {prepared prepared' : List (TextLeaf × LeafPlan)}

theorem values_of_report_entity {plan : LeafPlan} {acc acc' : ReportTotals} {entry : String × Nat}
    (h : report_entity plan acc entry = .ok acc') (e : String) (value : Text) :
    value ∈ acc'.transformed_values.getD e .empty ↔ value ∈ acc.transformed_values.getD e .empty ∨
      entry.1 = e ∧ value ∈ plan.transformed_values.getD e .empty := by
  obtain ⟨entity_type, count⟩ := entry
  rw [report_entity] at h
  cases haction : plan.entity_actions.get? entity_type with
  | none =>
    rw [haction] at h
    cases h
  | some action =>
    rw [haction] at h
    obtain ⟨-, h⟩ := raiseIf_bind_eq_ok.mp h
    rw [← Except.ok.inj h]
    simp only [OrderedDict.getD_set]
    split
    · next he =>
      rw [he, UniqueList.mem_update]
      simp [UniqueList.mem_def]
    · next he => simp [Ne.symm he]

/-- The values gathered for a type are those that its plans transformed. -/
theorem values_totalled {totals : ReportTotals}
    (h : prepared.foldlM (fun acc entry => entry.2.entity_counts.items.foldlM (report_entity entry.2) acc) {} =
      .ok totals) (e : String) (value : Text) :
    value ∈ totals.transformed_values.getD e .empty ↔
      ∃ entry ∈ prepared, e ∈ entry.2.entity_counts.keys ∧ value ∈ entry.2.transformed_values.getD e .empty := by
  have hstart : ∀ e value, value ∈ ({} : ReportTotals).transformed_values.getD e .empty ↔
      ∃ entry ∈ ([] : List (TextLeaf × LeafPlan)), e ∈ entry.2.entity_counts.keys ∧
        value ∈ entry.2.transformed_values.getD e .empty := by
    simp [OrderedDict.getD]
  have hrun := foldlM_invariant (fun (done : List (TextLeaf × LeafPlan)) (acc : ReportTotals) => ∀ e value,
    value ∈ acc.transformed_values.getD e .empty ↔ ∃ entry ∈ done, e ∈ entry.2.entity_counts.keys ∧
      value ∈ entry.2.transformed_values.getD e .empty) ?_ hstart h
  · rw [hrun, List.nil_append]
  · intro done entry acc acc' hacc hstep e value
    have hinner : ∀ e value, value ∈ acc.transformed_values.getD e .empty ↔
        value ∈ acc.transformed_values.getD e .empty ∨ (∃ item ∈ ([] : List (String × Nat)), item.1 = e) ∧
          value ∈ entry.2.transformed_values.getD e .empty := by
      simp
    have hentries := foldlM_invariant (fun (handled : List (String × Nat)) (totals : ReportTotals) => ∀ e value,
      value ∈ totals.transformed_values.getD e .empty ↔ value ∈ acc.transformed_values.getD e .empty ∨
        (∃ item ∈ handled, item.1 = e) ∧ value ∈ entry.2.transformed_values.getD e .empty) ?_ hinner hstep
    · rw [hentries, hacc, exists_mem_append_singleton, List.nil_append]
      simp [OrderedDict.keys]
    · intro handled item totals totals' htotals hitem e value
      rw [values_of_report_entity hitem, htotals, exists_mem_append_singleton, or_and_right, or_assoc]

/-- The rows of a report do not depend on the order of its plans. -/
theorem report_rows_perm {action : String → PIIAction} (hplans : ∀ entry ∈ prepared, Reportable action entry.2)
    (hperm : prepared.Perm prepared') : report_rows prepared = report_rows prepared' := by
  have hplans' : ∀ entry ∈ prepared', Reportable action entry.2 :=
    fun entry hentry => hplans entry (hperm.mem_iff.mpr hentry)
  obtain ⟨totals, hrun, htotals⟩ := gather_totals hplans
  obtain ⟨totals', hrun', htotals'⟩ := gather_totals hplans'
  have hkeys : ∀ e, e ∈ totals.detected.keys ↔ e ∈ totals'.detected.keys := by
    simp only [htotals.keys, htotals'.keys, hperm.mem_iff, implies_true]
  have hsorted : sortOn id totals.detected.keys = sortOn id totals'.detected.keys :=
    sortOn_eq_of_perm ((List.perm_ext_iff_of_nodup totals.detected.keys_nodup totals'.detected.keys_nodup).mpr hkeys)
      fun _ _ _ _ heq => heq
  rw [report_rows_eq hrun, report_rows_eq hrun', ← hsorted]
  apply mapM_congr
  intro e he
  rw [mem_sortOn] at he
  have hdetected : detectedCount prepared e = detectedCount prepared' e := (hperm.map _).sum_eq
  have htransformed : transformedCount prepared e = transformedCount prepared' e := (hperm.map _).sum_eq
  have hvalues : (totals.transformed_values.getD e .empty).card = (totals'.transformed_values.getD e .empty).card := by
    apply UniqueList.card_congr
    intro value
    simp only [values_totalled hrun, values_totalled hrun', hperm.mem_iff]
  rw [htotals.report_row_eq he, htotals'.report_row_eq ((hkeys e).mp he), hdetected, htransformed, hvalues]

end rows

/-- The placeholders of reported plans are single lines. -/
theorem newline_not_mem_reversal {transformed : TransformedLeaves} {rows : List PIIReportRow}
    (hprepared : service.LeavesPrepared env reroute_as_block leaves plans)
    (h : service.LeavesTransformed env nonce plans.prepared transformed)
    (hrows : report_rows transformed.prepared = .ok rows) (hnonce : '\n' ∉ nonce) :
    ∀ placeholder ∈ transformed.reversal.keys, '\n' ∉ placeholder ∧ placeholder ≠ [] := by
  intro placeholder hkey
  obtain ⟨value, hvalue⟩ := Option.isSome_iff_exists.mp (OrderedDict.mem_keys_iff.mp hkey)
  obtain ⟨after, hafter, hget⟩ := (h.reversal placeholder value).mp hvalue
  obtain ⟨before, hbefore, -, htransform⟩ := h.exists_prepared hafter
  have hplan := hprepared.plans before hbefore
  obtain ⟨kind, hkind, entity_type, htype, key, rfl⟩ :=
    ActionPlanner.transform_names htransform hplan.untransformed.2.2 placeholder value hget
  refine ⟨?_, by simp [ActionPlanner.placeholder_text]⟩
  apply ActionPlanner.newline_not_mem_placeholder hkind _ hnonce
  -- a region has the type of a detection, and a report row has every such type
  obtain ⟨region, hregion, rfl⟩ := List.mem_map.mp htype
  obtain ⟨item, hitem, hraw⟩ := exists_raw_of_region hplan hregion
  obtain ⟨logical, hlogical, hlogical_type⟩ := hplan.resolved.exists_logical_of_raw hitem
  have hreported := report_rows_eq_ok (h.reportable hprepared) hrows
  have hmem : region.entity_type ∈ rows.map PIIReportRow.entity_type := by
    rw [hreported.types, exists_key_iff, h.entity_counts hprepared, ← exists_key_iff]
    exact ⟨before, hbefore, (hplan.count_keys _).mpr ⟨logical, hlogical, hlogical_type.trans hraw⟩⟩
  obtain ⟨row, -, hrow⟩ := List.mem_map.mp hmem
  rw [← hrow]
  exact row.counts.entity_type

end pii_engine.policy.PolicyService
