import PiiEngine.Planner.Prepare

open checked collections slices

namespace pii_engine.planner.ActionPlanner

theorem executes_iff {planner : ActionPlanner} {entity_type : String} :
    planner.executes entity_type = true ↔ (planner.resolve entity_type).1 ≠ .pass ∧
      (planner.resolve entity_type).1 ≠ .block ∧
      ((planner.resolve entity_type).1 = .reroute → planner.policy.pii.mask_on_reroute = true) := by
  unfold executes
  cases (planner.resolve entity_type).1 <;> cases planner.policy.pii.mask_on_reroute <;> decide

theorem insert_placeholder_frame {planner : ActionPlanner} {nonce : Text} {kind : String} {value : Text}
    {s s' : TransformState} {item : EntityMatch}
    (h : planner.insert_placeholder nonce kind value s item = .ok s') :
    s'.plan = { s.plan with reversal := s'.plan.reversal } := by
  obtain ⟨reversal, -, h⟩ := bind_eq_ok.mp h
  rw [← Except.ok.inj h]

theorem rewrite_match_frame {planner : ActionPlanner} {nonce : Text} {now : Nat} {effective : PIIAction}
    {entry : Option config.EntityPolicy} {s s' : TransformState} {item : EntityMatch}
    (h : planner.rewrite_match nonce now effective entry s item = .ok s') :
    s'.plan = { s.plan with reversal := s'.plan.reversal } := by
  unfold rewrite_match at h
  split at h
  · exact insert_placeholder_frame h
  · rw [← Except.ok.inj h]
  · obtain ⟨encrypted, -, h⟩ := bind_eq_ok.mp h
    exact insert_placeholder_frame h
  · obtain ⟨result, -, h⟩ := bind_eq_ok.mp h
    rw [← Except.ok.inj h]

/-- What one step of the transformation does. -/
theorem transform_match_cases {planner : ActionPlanner} {nonce : Text} {clock : EntityMatch → Nat}
    {s s' : TransformState} {item : EntityMatch}
    (h : planner.transform_match nonce clock s item = .ok s') :
    (planner.executes item.entity_type = false ∧ s' = s) ∨
    (planner.executes item.entity_type = true ∧ ∃ rewritten,
      planner.rewrite_match nonce (clock item)
        (if (planner.resolve item.entity_type).1 = .reroute then .mask
          else (planner.resolve item.entity_type).1)
        (planner.resolve item.entity_type).2 s item = .ok rewritten ∧
      s' = { rewritten with
        plan := record_transformation rewritten.plan (planner.resolve item.entity_type).1
          item.entity_type (slice s.result item.start item.stop) }) := by
  unfold transform_match at h
  by_cases hexec : planner.executes item.entity_type = true
  · simp only [hexec, if_true] at h
    obtain ⟨rewritten, hrewritten, h⟩ := bind_eq_ok.mp h
    exact Or.inr ⟨hexec, rewritten, hrewritten, (Except.ok.inj h).symm⟩
  · rw [Bool.not_eq_true] at hexec
    simp only [hexec, Bool.false_eq_true, if_false] at h
    exact Or.inl ⟨hexec, (Except.ok.inj h).symm⟩

/-- The regions whose action executes, in the given order. -/
def executed (planner : ActionPlanner) (regions : List EntityMatch) : List EntityMatch :=
  regions.filter fun region => planner.executes region.entity_type

/-- The bookkeeping of the regions transformed so far. -/
structure Recorded (planner : ActionPlanner) (base : LeafPlan) (done : List EntityMatch)
    (plan : LeafPlan) : Prop where
  applied : ∀ action, action ∈ plan.applied_actions ↔ action ∈ base.applied_actions ∨
    action ≠ .reroute ∧ ∃ region ∈ planner.executed done, (planner.resolve region.entity_type).1 = action
  counts : ∀ e, plan.transformed_counts.getD e 0 = countOf (planner.executed done) e
  values : ∀ e, (plan.transformed_values.getD e .empty).card ≤ countOf (planner.executed done) e
  frame : plan = { base with
    applied_actions := plan.applied_actions
    transformed_counts := plan.transformed_counts
    transformed_values := plan.transformed_values
    reversal := plan.reversal }

theorem executed_append_singleton (planner : ActionPlanner) (done : List EntityMatch) (item : EntityMatch) :
    planner.executed (done ++ [item]) =
      planner.executed done ++ if planner.executes item.entity_type then [item] else [] := by
  rw [executed, List.filter_append]
  congr 1
  cases h : planner.executes item.entity_type <;> simp [h]

theorem Recorded.step {planner : ActionPlanner} {nonce : Text} {clock : EntityMatch → Nat}
    {base : LeafPlan} {done : List EntityMatch} {s s' : TransformState} {item : EntityMatch}
    (h : planner.Recorded base done s.plan)
    (hstep : planner.transform_match nonce clock s item = .ok s') :
    planner.Recorded base (done ++ [item]) s'.plan := by
  cases transform_match_cases hstep with
  | inl hskip =>
    obtain ⟨hexec, rfl⟩ := hskip
    have hsame : planner.executed (done ++ [item]) = planner.executed done := by
      simp [executed_append_singleton, hexec]
    exact ⟨by rw [hsame]; exact h.applied, by rw [hsame]; exact h.counts, by rw [hsame]; exact h.values,
      h.frame⟩
  | inr hrun =>
    obtain ⟨hexec, rewritten, hrewritten, rfl⟩ := hrun
    have hsame : planner.executed (done ++ [item]) = planner.executed done ++ [item] := by
      simp [executed_append_singleton, hexec]
    have hframe := rewrite_match_frame hrewritten
    rw [hframe]
    constructor
    · intro action
      simp only [hsame, record_transformation, List.mem_append, List.mem_singleton]
      by_cases hreroute : (planner.resolve item.entity_type).1 = .reroute
      · rw [if_neg (not_not.mpr hreroute), h.applied]
        constructor
        · rintro (hbase | ⟨hne, region, hregion, haction⟩)
          · exact Or.inl hbase
          · exact Or.inr ⟨hne, region, Or.inl hregion, haction⟩
        · rintro (hbase | ⟨hne, region, hregion | rfl, haction⟩)
          · exact Or.inl hbase
          · exact Or.inr ⟨hne, region, hregion, haction⟩
          · exact absurd (haction.symm.trans hreroute) hne
      · rw [if_pos hreroute, UniqueList.mem_insert, h.applied]
        constructor
        · rintro (rfl | hbase | ⟨hne, region, hregion, haction⟩)
          · exact Or.inr ⟨hreroute, item, Or.inr rfl, rfl⟩
          · exact Or.inl hbase
          · exact Or.inr ⟨hne, region, Or.inl hregion, haction⟩
        · rintro (hbase | ⟨hne, region, hregion | rfl, haction⟩)
          · exact Or.inr (Or.inl hbase)
          · exact Or.inr (Or.inr ⟨hne, region, hregion, haction⟩)
          · exact Or.inl haction.symm
    · intro e
      simp only [hsame, record_transformation, OrderedDict.getD_addCount, h.counts, countOf_append,
        countOf_singleton]
    · intro e
      simp only [hsame, record_transformation, OrderedDict.getD_set, countOf_append, countOf_singleton]
      split
      · next he =>
        subst he
        have hinsert := (s.plan.transformed_values.getD item.entity_type .empty).card_insert_le
          (slice s.result item.start item.stop)
        have hvalues := h.values item.entity_type
        omega
      · exact h.values e
    · conv_lhs => rw [h.frame]
      rfl

/-- What a transformed plan records of the regions whose action executes. -/
theorem transform_recorded {planner : ActionPlanner} {plan plan' : LeafPlan} {nonce : Text}
    {clock : EntityMatch → Nat} (h : planner.transform plan nonce clock = .ok plan')
    (huntransformed : plan.transformed_counts = .empty ∧ plan.transformed_values = .empty) :
    plan.blocked = false ∧ ∃ recorded, planner.Recorded plan (sortOn descending_key plan.effective_matches) recorded ∧
      plan' = { recorded with text := plan'.text } := by
  rw [transform, raiseIf_bind_eq_ok, Bool.not_eq_true] at h
  obtain ⟨hblocked, h⟩ := h
  rw [bind_eq_ok] at h
  obtain ⟨final, hfinal, h⟩ := h
  have hstart : planner.Recorded plan [] plan :=
    ⟨by simp [executed], by simp [executed, countOf, huntransformed.1, OrderedDict.getD],
      by simp [executed, countOf, huntransformed.2, OrderedDict.getD, UniqueList.card, UniqueList.empty], rfl⟩
  have hrecorded : planner.Recorded plan _ final.plan :=
    foldlM_invariant (fun done (s : TransformState) => planner.Recorded plan done s.plan)
      (fun _ _ _ _ hs hstep => hs.step hstep) hstart hfinal
  refine ⟨hblocked, final.plan, hrecorded, ?_⟩
  rw [← Except.ok.inj h]

end pii_engine.planner.ActionPlanner
