import PiiEngine.Planner.Transform
import PiiEngine.Policy.Model

open checked collections
open pii_engine.config pii_engine.planner

namespace pii_engine.policy.PolicyService

/-- The matches of one leaf before overlap resolution: what the analyzer answers and what
    the policy expressions find. -/
def rawMatches (service : PolicyService) (env : Environment) (leaf : TextLeaf) : List EntityMatch :=
  (match env.analyze leaf with
    | .ok analyzed => analyzed
    | .error _ => []) ++ service.custom_matches leaf.text

/-- The plans of the leaves handled so far and their aggregates. -/
structure LeavesPrepared (service : PolicyService) (env : Environment) (reroute_as_block : Bool)
    (done : List TextLeaf) (acc : PreparedLeaves) : Prop where
  leaves : acc.prepared.map Prod.fst = done
  plans : ∀ entry ∈ acc.prepared, service.planner.Prepared entry.1.text (service.rawMatches env entry.1)
    reroute_as_block entry.2
  entities : ∀ e, e ∈ acc.entities ↔ ∃ entry ∈ acc.prepared, e ∈ entry.2.entities
  counts : ∀ e, acc.counts.getD e 0 = (acc.prepared.map fun entry => entry.2.entity_counts.getD e 0).sum
  count_keys : ∀ e, e ∈ acc.counts.keys ↔ e ∈ acc.entities
  route_classes : ∀ route, route ∈ acc.route_classes ↔
    ∃ entry ∈ acc.prepared, route ∈ entry.2.route_class ∧ route ≠ ""
  reroute_entities : ∀ e, e ∈ acc.reroute_entities ↔ ∃ entry ∈ acc.prepared, e ∈ entry.2.reroute_entities
  overlap_count : acc.overlap_count = (acc.prepared.map fun entry => entry.2.overlap_count).sum

theorem mem_entities_iff_counts {planner : ActionPlanner} {text : Text} {items : List EntityMatch}
    {reroute_as_block : Bool} {plan : LeafPlan} (h : planner.Prepared text items reroute_as_block plan)
    (e : String) : e ∈ plan.entity_counts.keys ↔ e ∈ plan.entities := by
  rw [h.count_keys, h.entities]

theorem LeavesPrepared.step {service : PolicyService} {env : Environment} {reroute_as_block : Bool}
    {done : List TextLeaf} {acc acc' : PreparedLeaves} {leaf : TextLeaf}
    (h : service.LeavesPrepared env reroute_as_block done acc)
    (hstep : service.prepare_leaf_plan env reroute_as_block acc leaf = .ok acc') :
    service.LeavesPrepared env reroute_as_block (done ++ [leaf]) acc' := by
  obtain ⟨analyzed, hanalyzed, hstep⟩ := bind_eq_ok.mp hstep
  obtain ⟨plan, hplan, hstep⟩ := bind_eq_ok.mp hstep
  have hraw : service.rawMatches env leaf = analyzed ++ service.custom_matches leaf.text := by
    rw [rawMatches, hanalyzed]
  rw [← hraw] at hplan
  have hprepared := ActionPlanner.prepare_prepared hplan
  rw [← Except.ok.inj hstep]
  constructor
  · rw [List.map_append, h.leaves, List.map_singleton]
  · rw [List.forall_mem_append]
    exact ⟨h.plans, by simpa using hprepared⟩
  · intro e
    rw [UniqueList.mem_update, h.entities, exists_mem_append_singleton]
    rfl
  · intro e
    rw [OrderedDict.getD_mergeCounts, h.counts, List.map_append, List.sum_append]
    simp
  · intro e
    rw [OrderedDict.mem_keys_mergeCounts, h.count_keys, UniqueList.mem_update,
      mem_entities_iff_counts hprepared]
    rfl
  · intro route
    rw [List.mem_append, h.route_classes, exists_mem_append_singleton]
    simp
  · intro e
    rw [UniqueList.mem_update, h.reroute_entities, exists_mem_append_singleton]
    rfl
  · rw [h.overlap_count, List.map_append, List.sum_append]
    simp

private theorem leavesPrepared_initial (service : PolicyService) (env : Environment) (reroute_as_block : Bool) :
    service.LeavesPrepared env reroute_as_block [] {} := by
  constructor <;> simp [OrderedDict.getD, OrderedDict.get?_empty]

theorem prepare_leaf_plans_prepared {service : PolicyService} {env : Environment} {leaves : List TextLeaf}
    {reroute_as_block : Bool} {acc : PreparedLeaves}
    (h : service.prepare_leaf_plans env leaves reroute_as_block = .ok acc) :
    service.LeavesPrepared env reroute_as_block leaves acc := by
  have hrun := foldlM_invariant (service.LeavesPrepared env reroute_as_block)
    (fun _ _ _ _ hs hstep => hs.step hstep) (service.leavesPrepared_initial env reroute_as_block) h
  rwa [List.nil_append] at hrun

/-- The analyzer answers on every leaf, and every raw match is one the planner accepts. -/
def RawMatchesValid (service : PolicyService) (env : Environment) (leaves : List TextLeaf) : Prop :=
  ∀ leaf ∈ leaves, (∃ analyzed, env.analyze leaf = .ok analyzed) ∧
    ∀ item ∈ service.rawMatches env leaf, item.Valid leaf.text.length

theorem prepare_leaf_plans_total {service : PolicyService} {env : Environment} {leaves : List TextLeaf}
    (hvalid : service.RawMatchesValid env leaves) (reroute_as_block : Bool) :
    ∃ acc, service.prepare_leaf_plans env leaves reroute_as_block = .ok acc := by
  refine foldlM_total_of_step ?_ ({} : PreparedLeaves)
  intro leaf hleaf acc
  obtain ⟨⟨analyzed, hanalyzed⟩, hitems⟩ := hvalid leaf hleaf
  rw [rawMatches, hanalyzed] at hitems
  obtain ⟨plan, hplan⟩ := ActionPlanner.prepare_total hitems reroute_as_block
  exact ⟨_, bind_eq_ok.mpr ⟨analyzed, hanalyzed, bind_eq_ok.mpr ⟨plan, hplan, rfl⟩⟩⟩

section prepared
variable {service : PolicyService} {env : Environment} {leaves : List TextLeaf} {reroute_as_block : Bool}
  {acc : PreparedLeaves}

theorem LeavesPrepared.mem_leaves (h : service.LeavesPrepared env reroute_as_block leaves acc)
    {entry : TextLeaf × LeafPlan} (hentry : entry ∈ acc.prepared) : entry.1 ∈ leaves :=
  h.leaves ▸ List.mem_map_of_mem hentry

theorem LeavesPrepared.exists_entry (h : service.LeavesPrepared env reroute_as_block leaves acc)
    {leaf : TextLeaf} (hleaf : leaf ∈ leaves) : ∃ entry ∈ acc.prepared, entry.1 = leaf := by
  rw [← h.leaves] at hleaf
  exact List.mem_map.mp hleaf

/-- Every component of raw matches has a region at least as strict as each of them. -/
theorem exists_region_of_raw {planner : ActionPlanner} {text : Text} {items : List EntityMatch}
    {plan : LeafPlan} (h : planner.Prepared text items reroute_as_block plan) {item : EntityMatch}
    (hitem : item ∈ items) : ∃ region ∈ plan.effective_matches,
      (planner.decidingAction reroute_as_block item.entity_type).strictness ≤
        (planner.decidingAction reroute_as_block region.entity_type).strictness := by
  obtain ⟨components, -, hcomponents, hregions⟩ := h.resolved.regions
  have hcomponent : EntityMatch.spans.IsComponent {a | a ∈ items}
      {b | EntityMatch.spans.Linked {a | a ∈ items} item b} := ⟨item, hitem, rfl⟩
  obtain ⟨region, hregion, hspec⟩ := exists_right_of_forall₂ hregions ((hcomponents _).mpr hcomponent)
  exact ⟨region, hregion, hspec.strictest item Relation.ReflTransGen.refl⟩

/-- The entity type of a region is that of a raw match. -/
theorem exists_raw_of_region {planner : ActionPlanner} {text : Text} {items : List EntityMatch}
    {plan : LeafPlan} (h : planner.Prepared text items reroute_as_block plan) {region : EntityMatch}
    (hregion : region ∈ plan.effective_matches) :
    ∃ item ∈ items, item.entity_type = region.entity_type := by
  obtain ⟨components, -, hcomponents, hregions⟩ := h.resolved.regions
  obtain ⟨c, hc, hspec⟩ := exists_left_of_forall₂ hregions hregion
  obtain ⟨a, ha, htype⟩ := hspec.entity_type
  obtain ⟨start, hstart, rfl⟩ := (hcomponents c).mp hc
  have hlinked : EntityMatch.spans.Linked {a | a ∈ items} start a := ha
  exact ⟨a, hlinked.mem hstart, htype⟩

end prepared

end pii_engine.policy.PolicyService
