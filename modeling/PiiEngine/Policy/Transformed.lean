import PiiEngine.Policy.Prepared

open checked collections
open pii_engine.config pii_engine.planner

namespace pii_engine.policy.PolicyService

theorem merge_reversal_eq_ok {target source merged : OrderedDict Text Text}
    (h : merge_reversal target source = .ok merged) (placeholder value : Text) :
    merged.get? placeholder = some value ↔
      target.get? placeholder = some value ∨ source.get? placeholder = some value := by
  have hstart : ∀ p v, target.get? p = some v ↔ target.get? p = some v ∨ (p, v) ∈ ([] : List (Text × Text)) := by
    simp
  have hrun := foldlM_invariant (fun (done : List (Text × Text)) (d : OrderedDict Text Text) =>
    ∀ p v, d.get? p = some v ↔ target.get? p = some v ∨ (p, v) ∈ done) ?_ hstart h
  · rw [hrun, List.nil_append, OrderedDict.mem_items_iff]
  · intro done entry d d' hd hstep p v
    rw [raiseIf_bind_eq_ok] at hstep
    obtain ⟨hconsistent, hstep⟩ := hstep
    rw [← Except.ok.inj hstep, OrderedDict.get?_set]
    by_cases hp : p = entry.1
    · subst hp
      simp only [if_true, Option.some.injEq, List.mem_append, List.mem_singleton]
      constructor
      · rintro rfl
        exact Or.inr (Or.inr rfl)
      · rintro (htarget | hdone | hentry)
        · by_contra hne
          exact hconsistent ⟨v, (hd _ _).mpr (Or.inl htarget), Ne.symm hne⟩
        · by_contra hne
          exact hconsistent ⟨v, (hd _ _).mpr (Or.inr hdone), Ne.symm hne⟩
        · rw [← hentry]
    · have hne : (p, v) ≠ entry := fun heq => hp (heq ▸ rfl)
      simp only [hp, if_false, hd, List.mem_append, List.mem_singleton, hne, or_false]

/-- Maps that agree where both know a placeholder are merged. -/
theorem merge_reversal_total {target source : OrderedDict Text Text}
    (h : ∀ placeholder value value', target.get? placeholder = some value →
      source.get? placeholder = some value' → value = value') :
        ∃ merged, merge_reversal target source = .ok merged := by
  let Inv (done : List (Text × Text)) (d : OrderedDict Text Text) : Prop :=
    (∀ entry ∈ done, entry ∈ source.items) ∧ ∀ p v, d.get? p = some v → target.get? p = some v ∨ (p, v) ∈ done
  suffices hrun : ∃ merged, merge_reversal target source = .ok merged ∧ Inv source.items merged by
    obtain ⟨merged, hmerged, -⟩ := hrun
    exact ⟨merged, hmerged⟩
  refine foldlM_total Inv ⟨by simp, fun p v hget => Or.inl hget⟩ ?_
  rintro done entry d hentry ⟨hdone, hd⟩
  have hsource : source.get? entry.1 = some entry.2 := OrderedDict.mem_items_iff.mp hentry
  refine ⟨d.set entry.1 entry.2, raiseIf_bind_eq_ok.mpr ⟨?_, rfl⟩, ?_, ?_⟩
  · rintro ⟨existing, hexisting, hne⟩
    cases hd _ _ hexisting with
    | inl htarget => exact hne (h _ _ _ htarget hsource)
    | inr hmem =>
      have hget : source.get? entry.1 = some existing := OrderedDict.mem_items_iff.mp (hdone _ hmem)
      rw [hsource, Option.some.injEq] at hget
      exact hne hget.symm
  · rw [List.forall_mem_append]
    exact ⟨hdone, by simpa using hentry⟩
  · intro p v hget
    rw [OrderedDict.get?_set] at hget
    split at hget
    · next hp =>
      rw [List.mem_append, List.mem_singleton]
      exact Or.inr (Or.inr (Prod.ext hp (Option.some.inj hget).symm))
    · rw [List.mem_append]
      exact (hd p v hget).imp_right Or.inl

/-- The plans transformed so far and what the request gathers from them. -/
structure LeavesTransformed (service : PolicyService) (env : Environment) (nonce : Text)
    (done : List (TextLeaf × LeafPlan)) (acc : TransformedLeaves) : Prop where
  plans : List.Forall₂ (fun entry entry' : TextLeaf × LeafPlan => entry'.1 = entry.1 ∧
    service.planner.transform entry.2 nonce (env.clock entry.1.id) = .ok entry'.2) done acc.prepared
  actions : ∀ action, action ∈ acc.actions ↔ ∃ entry ∈ acc.prepared, action ∈ entry.2.applied_actions
  reversal : ∀ placeholder value, acc.reversal.get? placeholder = some value ↔
    ∃ entry ∈ acc.prepared, entry.2.reversal.get? placeholder = some value
  replacements : (done.map fun entry => entry.1.id).Nodup →
    (∀ entry ∈ acc.prepared, acc.replacements.getD entry.1.id entry.1.text = entry.2.text) ∧
    ∀ id ∈ acc.replacements.keys, ∃ entry ∈ acc.prepared, entry.1.id = id

private theorem ids_eq {service : PolicyService} {env : Environment} {nonce : Text}
    {done prepared : List (TextLeaf × LeafPlan)}
    (h : List.Forall₂ (fun entry entry' : TextLeaf × LeafPlan => entry'.1 = entry.1 ∧
      service.planner.transform entry.2 nonce (env.clock entry.1.id) = .ok entry'.2) done prepared) :
    prepared.map Prod.fst = done.map Prod.fst := by
  induction h with
  | nil => rfl
  | cons hentry _ ih => rw [List.map_cons, List.map_cons, ih, hentry.1]

theorem LeavesTransformed.step {service : PolicyService} {env : Environment} {nonce : Text}
    {done : List (TextLeaf × LeafPlan)} {acc acc' : TransformedLeaves} {entry : TextLeaf × LeafPlan}
    (h : service.LeavesTransformed env nonce done acc)
    (hstep : service.transform_leaf_plan env nonce acc entry = .ok acc') :
    service.LeavesTransformed env nonce (done ++ [entry]) acc' := by
  obtain ⟨leaf, plan⟩ := entry
  obtain ⟨plan', hplan, hstep⟩ := bind_eq_ok.mp hstep
  obtain ⟨reversal, hreversal, hstep⟩ := bind_eq_ok.mp hstep
  have hmerged := merge_reversal_eq_ok hreversal
  rw [← Except.ok.inj hstep]
  constructor
  · exact List.rel_append h.plans (.cons ⟨rfl, hplan⟩ .nil)
  · intro action
    rw [UniqueList.mem_update, h.actions, exists_mem_append_singleton]
    rfl
  · intro placeholder value
    rw [hmerged, h.reversal, exists_mem_append_singleton]
  · intro hnodup
    rw [List.map_append, List.nodup_append] at hnodup
    obtain ⟨hbefore, -, hfresh⟩ := hnodup
    obtain ⟨htexts, hkeys⟩ := h.replacements hbefore
    have hids : ∀ entry ∈ acc.prepared, entry.1.id ≠ leaf.id := by
      intro entry hentry heq
      have hmem : entry.1.id ∈ done.map fun entry => entry.1.id := by
        have := List.mem_map_of_mem (f := fun leaf : TextLeaf => leaf.id) (List.mem_map_of_mem (f := Prod.fst) hentry)
        rw [ids_eq h.plans, List.map_map] at this
        exact this
      exact hfresh _ hmem _ (by simp) heq
    have hmissing : leaf.id ∉ acc.replacements.keys := by
      intro hmem
      obtain ⟨entry, hentry, heq⟩ := hkeys _ hmem
      exact hids entry hentry heq
    by_cases hchanged : plan'.text = leaf.text
    · simp only [hchanged, ne_eq, not_true_eq_false, if_false]
      refine ⟨?_, ?_⟩
      · rw [List.forall_mem_append]
        refine ⟨htexts, ?_⟩
        simpa [hchanged] using OrderedDict.getD_eq_of_not_mem hmissing leaf.text
      · intro id hid
        rw [exists_mem_append_singleton]
        exact Or.inl (hkeys id hid)
    · simp only [ne_eq, hchanged, not_false_eq_true, if_true]
      refine ⟨?_, ?_⟩
      · rw [List.forall_mem_append]
        refine ⟨?_, by simp [OrderedDict.getD_set]⟩
        intro entry hentry
        rw [OrderedDict.getD_set, if_neg (hids entry hentry)]
        exact htexts entry hentry
      · intro id hid
        rw [exists_mem_append_singleton]
        cases OrderedDict.mem_keys_set.mp hid with
        | inl heq => exact Or.inr heq.symm
        | inr hid => exact Or.inl (hkeys id hid)

theorem ids_of_leaves {request : SegmentRequest} {prepared : List (TextLeaf × LeafPlan)}
    (hleaves : prepared.map Prod.fst = text_leaves request) :
    (prepared.map fun entry => entry.1.id) = request.segments.map TextSegment.id := by
  have hcompose : (prepared.map fun entry => entry.1.id) = (prepared.map Prod.fst).map TextLeaf.id := by
    rw [List.map_map]
    rfl
  rw [hcompose, hleaves, text_leaves, List.map_map]
  rfl

/-- Every plan is transformed, and every segment carries the text of its plan. -/
theorem transform_plans_transformed {service : PolicyService} {env : Environment} {request : SegmentRequest}
    {prepared : List (TextLeaf × LeafPlan)} {nonce : Text} {segments : List TextSegment}
    {transformed : TransformedLeaves}
    (h : service.transform_plans env request prepared nonce = .ok (segments, transformed))
    (hleaves : prepared.map Prod.fst = text_leaves request) :
    service.LeavesTransformed env nonce prepared transformed ∧
      List.Forall₂ (fun (segment output : TextSegment) => output.id = segment.id ∧
        ∃ entry ∈ transformed.prepared, entry.1 = ⟨segment.id, segment.text⟩ ∧ output.text = entry.2.text)
        request.segments segments := by
  obtain ⟨acc, hacc, h⟩ := bind_eq_ok.mp h
  have hstart : service.LeavesTransformed env nonce [] {} := by
    constructor <;> simp [OrderedDict.get?_empty]
  have hrun := foldlM_invariant (service.LeavesTransformed env nonce) (fun _ _ _ _ hs hstep => hs.step hstep)
    hstart hacc
  rw [List.nil_append] at hrun
  simp only [pure, Except.pure, Except.ok.injEq, Prod.mk.injEq] at h
  obtain ⟨rfl, rfl⟩ := h
  refine ⟨hrun, ?_⟩
  rw [List.forall₂_map_right_iff, List.forall₂_same]
  intro segment hsegment
  refine ⟨rfl, ?_⟩
  have hids : (prepared.map fun entry => entry.1.id).Nodup := by
    rw [ids_of_leaves hleaves]
    exact request.ids_nodup
  have hmem : (⟨segment.id, segment.text⟩ : TextLeaf) ∈ acc.prepared.map Prod.fst := by
    rw [ids_eq hrun.plans, hleaves]
    exact List.mem_map_of_mem hsegment
  obtain ⟨entry, hentry, hleaf⟩ := List.mem_map.mp hmem
  refine ⟨entry, hentry, hleaf, ?_⟩
  have htext := (hrun.replacements hids).1 entry hentry
  rw [hleaf] at htext
  exact htext

end pii_engine.policy.PolicyService
