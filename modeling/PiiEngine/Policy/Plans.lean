import PiiEngine.Policy.Report
import PiiEngine.Policy.Transformed

open checked collections
open pii_engine.config pii_engine.planner

namespace pii_engine.planner.ActionPlanner
variable {planner : ActionPlanner} {text : Text} {items : List EntityMatch} {reroute_as_block : Bool}
  {plan plan' : LeafPlan} {nonce : Text} {clock : EntityMatch → Nat}

/-- The configured policy of an entity type is its only entry. -/
theorem get?_by_entity (planner : ActionPlanner) (e : String) :
    planner.by_entity.get? e = planner.policy.pii.entity_policies.find? fun entry => entry.entity_type = e := by
  have hnodup :
      ((planner.policy.pii.entity_policies.map fun entry => (entry.entity_type, entry)).map Prod.fst).Nodup := by
    rw [List.map_map]
    exact planner.policy.pii.entity_nodup
  refine (OrderedDict.get?_ofList hnodup e).trans ?_
  induction planner.policy.pii.entity_policies with
  | nil => rfl
  | cons entry entries ih =>
    rw [List.map_cons, List.lookup_cons, List.find?_cons, ih]
    by_cases heq : entry.entity_type = e
    · simp [heq]
    · have hbeq : (e == entry.entity_type) = false := by simpa using Ne.symm heq
      simp [hbeq, heq]

theorem decidingAction_eq (planner : ActionPlanner) (reroute_as_block : Bool) (e : String) :
    planner.decidingAction reroute_as_block e =
      if reroute_as_block ∧ (planner.resolve e).1 = .reroute then .block else (planner.resolve e).1 := by
  unfold decidingAction effective_action
  cases planner.resolve e
  simp only
  split <;> rfl

/-- Only a reroute that the protocol cannot follow decides differently from what it is. -/
theorem resolve_eq_decidingAction {e : String} (hblock : planner.decidingAction reroute_as_block e ≠ .block) :
    (planner.resolve e).1 = planner.decidingAction reroute_as_block e := by
  rw [decidingAction_eq] at hblock ⊢
  split at hblock
  · exact absurd rfl hblock
  · next hreroute => rw [if_neg hreroute]

theorem Prepared.start_lt_stop (h : planner.Prepared text items reroute_as_block plan) :
    ∀ a ∈ items, a.start < a.stop :=
  fun a ha => (h.valid a ha).1.2.1

/-- The regions of a leaf lie within its text. -/
theorem Prepared.spans (h : planner.Prepared text items reroute_as_block plan) :
    ∀ region ∈ plan.effective_matches, region.SpanWithin plan.text.length := by
  intro region hregion
  obtain ⟨components, -, hcomponents, hregions⟩ := h.resolved.regions
  obtain ⟨c, hc, hspec⟩ := exists_left_of_forall₂ hregions hregion
  have hsubset := ((hcomponents c).mp hc).subset
  obtain ⟨first, hfirst, hstart⟩ := hspec.start.1
  obtain ⟨last, hlast, hstop⟩ := hspec.stop.1
  have hfirst_span := (h.valid first (hsubset hfirst)).1
  have hlast_span := (h.valid last (hsubset hlast)).1
  have hlt := h.resolved.nonempty region hregion
  rw [h.text_eq]
  refine ⟨?_, hlt, ?_⟩
  · rw [← hstart]
    exact hfirst_span.1
  · rw [← hstop]
    exact hlast_span.2.2

/-- A transformed plan records what its executed regions are. -/
structure Transformed (planner : ActionPlanner) (plan plan' : LeafPlan) : Prop where
  unblocked : plan.blocked = false
  applied : ∀ action, action ∈ plan'.applied_actions ↔ action ∈ plan.applied_actions ∨
    action ≠ .reroute ∧ ∃ region ∈ planner.executed plan.effective_matches,
      (planner.resolve region.entity_type).1 = action
  counts : ∀ e, plan'.transformed_counts.getD e 0 = countOf (planner.executed plan.effective_matches) e
  values : ∀ e, (plan'.transformed_values.getD e .empty).card ≤
    countOf (planner.executed plan.effective_matches) e
  frame : plan' = { plan with
    text := plan'.text
    applied_actions := plan'.applied_actions
    transformed_counts := plan'.transformed_counts
    transformed_values := plan'.transformed_values
    reversal := plan'.reversal }

theorem executed_perm (planner : ActionPlanner) {regions other : List EntityMatch} (h : regions.Perm other) :
    (planner.executed regions).Perm (planner.executed other) :=
  h.filter _

theorem transform_transformed (h : planner.Prepared text items reroute_as_block plan)
    (htransform : planner.transform plan nonce clock = .ok plan') : planner.Transformed plan plan' := by
  obtain ⟨hcounts, hvalues, -⟩ := h.untransformed
  obtain ⟨hblocked, recorded, hrecorded, heq⟩ := transform_recorded htransform ⟨hcounts, hvalues⟩
  have hsorted : (sortOn descending_key plan.effective_matches).Perm plan.effective_matches := sortOn_perm _
  have hperm := planner.executed_perm hsorted
  have hcount : ∀ e, countOf (planner.executed (sortOn descending_key plan.effective_matches)) e =
      countOf (planner.executed plan.effective_matches) e := fun e => hperm.countP_eq _
  rw [heq]
  constructor
  · exact hblocked
  · intro action
    simp only [hrecorded.applied, hperm.mem_iff]
  · intro e
    rw [hrecorded.counts, hcount]
  · intro e
    rw [← hcount]
    exact hrecorded.values e
  · conv_lhs => rw [hrecorded.frame]

theorem Prepared.reportable (h : planner.Prepared text items reroute_as_block plan) :
    policy.PolicyService.Reportable (planner.decidingAction reroute_as_block) plan := by
  obtain ⟨hcounts, hvalues, -⟩ := h.untransformed
  constructor
  · intro e he
    rw [h.count_keys, ← h.action_keys, OrderedDict.mem_keys_iff] at he
    obtain ⟨action, haction⟩ := Option.isSome_iff_exists.mp he
    rw [haction, h.actions e action haction]
  · intro e he
    rw [h.counts]
    exact countOf_pos.mpr ((h.count_keys e).mp he)
  · intro e
    simp [hcounts, OrderedDict.getD]
  · intro e
    simp [hvalues, OrderedDict.getD, UniqueList.card, UniqueList.empty]
  · intro e _
    simp [hcounts, OrderedDict.getD]

/-- A region of an executed type was not decided to pass or to block. -/
theorem countOf_executed_eq_zero (h : planner.Prepared text items reroute_as_block plan)
    (hblocked : plan.blocked = false) {e : String}
    (haction : planner.decidingAction reroute_as_block e = .pass ∨
      planner.decidingAction reroute_as_block e = .block) :
    countOf (planner.executed plan.effective_matches) e = 0 := by
  by_contra hpos
  obtain ⟨region, hregion, rfl⟩ := countOf_pos.mp (Nat.pos_of_ne_zero hpos)
  obtain ⟨hregion, hexecutes⟩ := List.mem_filter.mp hregion
  obtain ⟨hpass, -, -⟩ := executes_iff.mp hexecutes
  cases haction with
  | inl haction =>
    rw [resolve_eq_decidingAction (by rw [haction]; decide)] at hpass
    exact hpass haction
  | inr haction =>
    rw [h.blocked.mpr ⟨region, hregion, haction⟩] at hblocked
    cases hblocked

theorem Transformed.reportable (ht : planner.Transformed plan plan')
    (h : planner.Prepared text items reroute_as_block plan) :
    policy.PolicyService.Reportable (planner.decidingAction reroute_as_block) plan' := by
  have hbefore := h.reportable
  have hexecuted : ∀ e, countOf (planner.executed plan.effective_matches) e ≤ plan.entity_counts.getD e 0 := by
    intro e
    rw [h.counts]
    exact (List.Sublist.countP_le List.filter_sublist).trans
      (h.resolved.countOf_effective_le h.start_lt_stop e)
  have hentity_counts : plan'.entity_counts = plan.entity_counts := by rw [ht.frame]
  have hentity_actions : plan'.entity_actions = plan.entity_actions := by rw [ht.frame]
  constructor
  · rw [hentity_counts, hentity_actions]
    exact hbefore.actions
  · rw [hentity_counts]
    exact hbefore.detected
  · intro e
    rw [ht.counts, hentity_counts]
    exact hexecuted e
  · intro e
    rw [ht.counts]
    exact ht.values e
  · intro e haction
    rw [ht.counts]
    exact countOf_executed_eq_zero h ht.unblocked haction

end pii_engine.planner.ActionPlanner
