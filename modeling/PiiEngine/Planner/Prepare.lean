import PiiEngine.Planner.Counting

open checked collections

namespace pii_engine.planner

namespace ActionPlanner

/-- The action that decides for one entity type. -/
def decidingAction (planner : ActionPlanner) (reroute_as_block : Bool) (entity_type : String) : PIIAction :=
  (planner.effective_action entity_type reroute_as_block).1

/-- The summary of the logical detections seen so far. -/
structure Detected (planner : ActionPlanner) (reroute_as_block : Bool) (base : LeafPlan)
    (done : List EntityMatch) (plan : LeafPlan) : Prop where
  entities : ∀ e, e ∈ plan.entities ↔ ∃ item ∈ done, item.entity_type = e
  counts : ∀ e, plan.entity_counts.getD e 0 = countOf done e
  count_keys : ∀ e, e ∈ plan.entity_counts.keys ↔ ∃ item ∈ done, item.entity_type = e
  action_keys : ∀ e, e ∈ plan.entity_actions.keys ↔ ∃ item ∈ done, item.entity_type = e
  actions : ∀ e action, plan.entity_actions.get? e = some action →
    action = planner.decidingAction reroute_as_block e
  frame : plan = { base with
    entities := plan.entities
    entity_counts := plan.entity_counts
    entity_actions := plan.entity_actions }

theorem Detected.step {planner : ActionPlanner} {reroute_as_block : Bool} {base plan : LeafPlan}
    {done : List EntityMatch} (h : planner.Detected reroute_as_block base done plan) (item : EntityMatch) :
    ∃ plan', planner.summarize_detection reroute_as_block plan item = .ok plan' ∧
      planner.Detected reroute_as_block base (done ++ [item]) plan' := by
  refine ⟨_, raiseIf_bind_eq_ok.mpr ⟨?_, rfl⟩, ?_⟩
  · rintro ⟨existing, hexisting, hne⟩
    exact hne (h.actions _ _ hexisting)
  · constructor
    · intro e
      rw [UniqueList.mem_insert, h.entities, exists_mem_append_singleton, or_comm, eq_comm]
    · intro e
      simp only [OrderedDict.getD_addCount, h.counts, countOf_append, countOf_singleton]
    · intro e
      rw [OrderedDict.mem_keys_addCount, h.count_keys, exists_mem_append_singleton, or_comm, eq_comm]
    · intro e
      rw [OrderedDict.mem_keys_set, h.action_keys, exists_mem_append_singleton, or_comm, eq_comm]
    · intro e action haction
      simp only [OrderedDict.get?_set] at haction
      split at haction
      · next he =>
        rw [he]
        exact (Option.some.inj haction).symm
      · exact h.actions e action haction
    · conv_lhs => rw [h.frame]

theorem effective_action_snd (planner : ActionPlanner) (entity_type : String) (reroute_as_block : Bool) :
    (planner.effective_action entity_type reroute_as_block).2 = (planner.resolve entity_type).2 := by
  unfold effective_action
  cases planner.resolve entity_type
  simp only
  split <;> rfl

/-- The route a rerouted entity type asks for. -/
def requestedRoute (planner : ActionPlanner) (entity_type : String) : String :=
  orDefault ((planner.resolve entity_type).2.bind (·.route_class)) planner.policy.routing.default_target

section summarize_effective_action
variable (planner : ActionPlanner) (reroute_as_block : Bool) (plan : LeafPlan) (item : EntityMatch)

private theorem summarize_effective_action_eq :
    planner.summarize_effective_action reroute_as_block plan item =
      match planner.decidingAction reroute_as_block item.entity_type with
      | .pass => { plan with applied_actions := plan.applied_actions.insert .pass }
      | .block => { plan with blocked := true, applied_actions := plan.applied_actions.insert .block }
      | .reroute => { plan with
          applied_actions := plan.applied_actions.insert .reroute
          reroute_entities := plan.reroute_entities.insert item.entity_type
          route_class := some (plan.route_class.getD (planner.requestedRoute item.entity_type)) }
      | _ => plan := by
  have hentry := effective_action_snd planner item.entity_type reroute_as_block
  unfold summarize_effective_action decidingAction requestedRoute
  exact hentry ▸ rfl

private theorem blocked_summarize :
    (planner.summarize_effective_action reroute_as_block plan item).blocked = true ↔
      plan.blocked = true ∨ planner.decidingAction reroute_as_block item.entity_type = .block := by
  rw [summarize_effective_action_eq]
  cases planner.decidingAction reroute_as_block item.entity_type <;> simp

private theorem mem_applied_summarize {action : PIIAction} :
    action ∈ (planner.summarize_effective_action reroute_as_block plan item).applied_actions ↔
      action ∈ plan.applied_actions ∨ (action = .pass ∨ action = .block ∨ action = .reroute) ∧
        planner.decidingAction reroute_as_block item.entity_type = action := by
  rw [summarize_effective_action_eq]
  cases planner.decidingAction reroute_as_block item.entity_type <;> cases action <;> simp

private theorem mem_reroute_entities_summarize {e : String} :
    e ∈ (planner.summarize_effective_action reroute_as_block plan item).reroute_entities ↔
      e ∈ plan.reroute_entities ∨
        item.entity_type = e ∧ planner.decidingAction reroute_as_block e = .reroute := by
  rw [summarize_effective_action_eq]
  by_cases he : item.entity_type = e
  · subst he
    cases planner.decidingAction reroute_as_block item.entity_type <;> simp
  · cases planner.decidingAction reroute_as_block item.entity_type <;> simp [he, Ne.symm he]

private theorem route_class_summarize :
    (planner.summarize_effective_action reroute_as_block plan item).route_class =
      if planner.decidingAction reroute_as_block item.entity_type = .reroute then
        some (plan.route_class.getD (planner.requestedRoute item.entity_type))
      else plan.route_class := by
  rw [summarize_effective_action_eq]
  cases planner.decidingAction reroute_as_block item.entity_type <;> rfl

private theorem frame_summarize :
    planner.summarize_effective_action reroute_as_block plan item = { plan with
      blocked := (planner.summarize_effective_action reroute_as_block plan item).blocked
      applied_actions := (planner.summarize_effective_action reroute_as_block plan item).applied_actions
      reroute_entities := (planner.summarize_effective_action reroute_as_block plan item).reroute_entities
      route_class := (planner.summarize_effective_action reroute_as_block plan item).route_class } := by
  rw [summarize_effective_action_eq]
  cases planner.decidingAction reroute_as_block item.entity_type <;> rfl

end summarize_effective_action

/-- The summary of the effective regions seen so far. -/
structure Applied (planner : ActionPlanner) (reroute_as_block : Bool) (base : LeafPlan)
    (done : List EntityMatch) (plan : LeafPlan) : Prop where
  blocked : plan.blocked = true ↔
    ∃ region ∈ done, planner.decidingAction reroute_as_block region.entity_type = .block
  applied : ∀ action, action ∈ plan.applied_actions ↔
    (action = .pass ∨ action = .block ∨ action = .reroute) ∧
      ∃ region ∈ done, planner.decidingAction reroute_as_block region.entity_type = action
  reroute_entities : ∀ e, e ∈ plan.reroute_entities ↔
    ∃ region ∈ done, region.entity_type = e ∧ planner.decidingAction reroute_as_block e = .reroute
  route_isSome : plan.route_class.isSome ↔
    ∃ region ∈ done, planner.decidingAction reroute_as_block region.entity_type = .reroute
  route_requested : ∀ route ∈ plan.route_class, ∃ region ∈ done,
    planner.decidingAction reroute_as_block region.entity_type = .reroute ∧
      route = planner.requestedRoute region.entity_type
  frame : plan = { base with
    blocked := plan.blocked
    applied_actions := plan.applied_actions
    reroute_entities := plan.reroute_entities
    route_class := plan.route_class }

theorem Applied.step {planner : ActionPlanner} {reroute_as_block : Bool} {base plan : LeafPlan}
    {done : List EntityMatch} (item : EntityMatch) (h : planner.Applied reroute_as_block base done plan) :
    planner.Applied reroute_as_block base (done ++ [item])
      (planner.summarize_effective_action reroute_as_block plan item) := by
  constructor
  · rw [blocked_summarize, h.blocked, exists_mem_append_singleton]
  · intro action
    rw [mem_applied_summarize, h.applied, exists_mem_append_singleton, and_or_left]
  · intro e
    rw [mem_reroute_entities_summarize, h.reroute_entities, exists_mem_append_singleton]
  · rw [route_class_summarize, exists_mem_append_singleton, ← h.route_isSome]
    split
    · next hreroute => simp [hreroute]
    · next hreroute => simp [hreroute]
  · intro route hroute
    rw [route_class_summarize] at hroute
    rw [exists_mem_append_singleton]
    split at hroute
    · next hreroute =>
      cases hbefore : plan.route_class with
      | none =>
        rw [hbefore, Option.getD_none, Option.mem_some_iff] at hroute
        exact Or.inr ⟨hreroute, hroute.symm⟩
      | some before =>
        rw [hbefore, Option.getD_some, Option.mem_some_iff] at hroute
        exact Or.inl (h.route_requested route (by rw [hbefore, hroute]; rfl))
    · exact Or.inl (h.route_requested route hroute)
  · have hstep := frame_summarize planner reroute_as_block plan item
    generalize planner.summarize_effective_action reroute_as_block plan item = next at hstep ⊢
    refine hstep.trans ?_
    conv_lhs => rw [h.frame]

/-- What a prepared plan says about the matches of its leaf. -/
structure Prepared (planner : ActionPlanner) (text : Text) (items : List EntityMatch)
    (reroute_as_block : Bool) (plan : LeafPlan) : Prop where
  text_eq : plan.text = text
  resolution : planner.resolve_matches items text.length reroute_as_block =
    .ok (plan.logical_matches, plan.effective_matches, plan.overlap_count)
  valid : ∀ item ∈ items, item.Valid text.length
  resolved : Resolved (fun e => (planner.decidingAction reroute_as_block e).strictness) items
    plan.logical_matches plan.effective_matches plan.overlap_count
  entities : ∀ e, e ∈ plan.entities ↔ ∃ item ∈ plan.logical_matches, item.entity_type = e
  counts : ∀ e, plan.entity_counts.getD e 0 = countOf plan.logical_matches e
  count_keys : ∀ e, e ∈ plan.entity_counts.keys ↔ ∃ item ∈ plan.logical_matches, item.entity_type = e
  action_keys : ∀ e, e ∈ plan.entity_actions.keys ↔ ∃ item ∈ plan.logical_matches, item.entity_type = e
  actions : ∀ e action, plan.entity_actions.get? e = some action →
    action = planner.decidingAction reroute_as_block e
  blocked : plan.blocked = true ↔ ∃ region ∈ plan.effective_matches,
    planner.decidingAction reroute_as_block region.entity_type = .block
  applied : ∀ action, action ∈ plan.applied_actions ↔
    (action = .pass ∨ action = .block ∨ action = .reroute) ∧ ∃ region ∈ plan.effective_matches,
      planner.decidingAction reroute_as_block region.entity_type = action
  reroute_entities : ∀ e, e ∈ plan.reroute_entities ↔ ∃ region ∈ plan.effective_matches,
    region.entity_type = e ∧ planner.decidingAction reroute_as_block e = .reroute
  route_isSome : plan.route_class.isSome ↔ ∃ region ∈ plan.effective_matches,
    planner.decidingAction reroute_as_block region.entity_type = .reroute
  route_requested : ∀ route ∈ plan.route_class, ∃ region ∈ plan.effective_matches,
    planner.decidingAction reroute_as_block region.entity_type = .reroute ∧
      route = planner.requestedRoute region.entity_type
  untransformed : plan.transformed_counts = .empty ∧ plan.transformed_values = .empty ∧
    plan.reversal = .empty

private theorem detected_initial (planner : ActionPlanner) (reroute_as_block : Bool) (text : Text)
    (logical_matches effective_matches : List EntityMatch) (overlap_count : Nat) :
    planner.Detected reroute_as_block { text, logical_matches, effective_matches, overlap_count } []
      { text, logical_matches, effective_matches, overlap_count } := by
  constructor <;> simp [countOf, OrderedDict.getD, OrderedDict.get?_empty]

theorem prepare_prepared {planner : ActionPlanner} {text : Text} {items : List EntityMatch}
    {reroute_as_block : Bool} {plan : LeafPlan}
    (h : planner.prepare text items reroute_as_block = .ok plan) :
    planner.Prepared text items reroute_as_block plan := by
  rw [prepare, bind_eq_ok] at h
  obtain ⟨⟨logical, effective, overlap_count⟩, hresolve, h⟩ := h
  rw [bind_eq_ok] at h
  obtain ⟨detected, hdetected, h⟩ := h
  obtain ⟨hresolved, hvalid⟩ := resolve_matches_resolved hresolve
  simp only [pure, Except.pure, Except.ok.injEq] at h
  have hd : planner.Detected reroute_as_block
      { text, logical_matches := logical, effective_matches := effective, overlap_count }
      logical detected := by
    refine foldlM_invariant (planner.Detected reroute_as_block _) ?_
      (planner.detected_initial reroute_as_block text logical effective overlap_count) hdetected
    intro done item s s' hs hstep
    obtain ⟨s'', hs'', hdone⟩ := hs.step item
    rw [hs''] at hstep
    exact Except.ok.inj hstep ▸ hdone
  have ha : planner.Applied reroute_as_block detected effective plan := by
    have hstart : planner.Applied reroute_as_block detected [] detected := by
      rw [hd.frame]
      constructor <;> simp
    rw [← h]
    exact foldl_invariant (planner.Applied reroute_as_block detected) (fun _ item _ hs => hs.step item) hstart
  have hframe := ha.frame
  rw [hd.frame] at hframe
  have hlogical : plan.logical_matches = logical := by rw [hframe]
  have heffective : plan.effective_matches = effective := by rw [hframe]
  have hentities : plan.entities = detected.entities := by rw [hframe]
  have hcounts : plan.entity_counts = detected.entity_counts := by rw [hframe]
  have hactions : plan.entity_actions = detected.entity_actions := by rw [hframe]
  have hoverlap : plan.overlap_count = overlap_count := by rw [hframe]
  refine ⟨by rw [hframe], ?_, hvalid, ?_, ?_, ?_, ?_, ?_, ?_, ?_, ?_, ?_, ?_, ?_, ?_⟩
  · rw [hlogical, heffective, hoverlap]
    exact hresolve
  · rw [hlogical, heffective, hoverlap]
    exact hresolved
  · rw [hentities, hlogical]
    exact hd.entities
  · rw [hcounts, hlogical]
    exact hd.counts
  · rw [hcounts, hlogical]
    exact hd.count_keys
  · rw [hactions, hlogical]
    exact hd.action_keys
  · rw [hactions]
    exact hd.actions
  · rw [heffective]
    exact ha.blocked
  · rw [heffective]
    exact ha.applied
  · rw [heffective]
    exact ha.reroute_entities
  · rw [heffective]
    exact ha.route_isSome
  · rw [heffective]
    exact ha.route_requested
  · rw [hframe]
    exact ⟨rfl, rfl, rfl⟩

/-- Valid matches are always prepared. -/
theorem prepare_total {planner : ActionPlanner} {text : Text} {items : List EntityMatch}
    (hvalid : ∀ item ∈ items, item.Valid text.length) (reroute_as_block : Bool) :
    ∃ plan, planner.prepare text items reroute_as_block = .ok plan := by
  obtain ⟨⟨logical, effective, overlap_count⟩, hresolve⟩ : ∃ result,
      planner.resolve_matches items text.length reroute_as_block = .ok result :=
    ⟨_, resolve_matches_eq hvalid⟩
  obtain ⟨plan, hplan, -⟩ := foldlM_total (planner.Detected reroute_as_block _)
    (planner.detected_initial reroute_as_block text logical effective overlap_count)
    fun done item s (_ : item ∈ logical) hs => hs.step item
  unfold prepare
  exact ⟨_, bind_eq_ok.mpr ⟨_, hresolve, bind_eq_ok.mpr ⟨_, hplan, rfl⟩⟩⟩

end ActionPlanner

end pii_engine.planner
