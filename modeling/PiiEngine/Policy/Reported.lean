import PiiEngine.Policy.Analysis

open checked collections
open pii_engine.config pii_engine.planner

namespace pii_engine.policy.PolicyService
variable {service : PolicyService} {env : Environment} {request : SegmentRequest} {acc acc' details : Diagnostics}
  {leaf : TextLeaf} {plan : LeafPlan} {item : EntityMatch} {include_diagnostics : Bool}
  {placeholder_namespace : Option Text} {face_route : Option String} {result : PolicyResult} {ids : List String}

/-- The evidence is about some segments only. -/
structure Diagnostics.About (ids : List String) (details : Diagnostics) : Prop where
  logical : ∀ detection ∈ details.logical_detections, detection.segment_id ∈ ids
  regions : ∀ region ∈ details.effective_regions, region.segment_id ∈ ids

theorem Diagnostics.About.mono {more : List String} (h : acc.About ids) (hsubset : ids ⊆ more) : acc.About more :=
  ⟨fun detection hdetection => hsubset (h.logical detection hdetection),
    fun region hregion => hsubset (h.regions region hregion)⟩

theorem about_diagnose_logical (h : acc.About ids) (hleaf : leaf.id ∈ ids)
    (hrun : service.diagnose_logical leaf plan acc item = .ok acc') : acc'.About ids := by
  unfold diagnose_logical at hrun
  split at hrun
  · split at hrun
    · split at hrun
      · cases hrun
        refine ⟨?_, h.regions⟩
        rw [List.forall_mem_append, List.forall_mem_singleton]
        exact ⟨h.logical, hleaf⟩
      · cases hrun
    · cases hrun
      exact ⟨h.logical, h.regions⟩
  · cases hrun

theorem about_diagnose_region (h : acc.About ids) (hleaf : leaf.id ∈ ids)
    (hrun : diagnose_region leaf plan acc item = .ok acc') : acc'.About ids := by
  unfold diagnose_region at hrun
  dsimp only at hrun
  split at hrun
  · split at hrun
    · cases hrun
      refine ⟨h.logical, ?_⟩
      rw [List.forall_mem_append, List.forall_mem_singleton]
      exact ⟨h.regions, hleaf⟩
    · cases hrun
  · cases hrun
    exact ⟨h.logical, h.regions⟩

/-- Diagnostics report the leaves they were made from. -/
theorem about_diagnostics {prepared : List (TextLeaf × LeafPlan)}
    (hrun : service.diagnostics prepared = .ok details) : details.About (prepared.map (·.1.id)) := by
  have hinvariant : details.About (([] ++ prepared : List (TextLeaf × LeafPlan)).map (·.1.id)) := by
    refine foldlM_invariant (fun (done : List (TextLeaf × LeafPlan)) (acc : Diagnostics) =>
      acc.About (done.map (·.1.id))) ?_ ⟨by simp, by simp⟩ hrun
    intro done entry acc acc' hacc hstep
    have hmore : acc.About ((done ++ [entry]).map (·.1.id)) := hacc.mono (by simp)
    have hleaf : entry.1.id ∈ (done ++ [entry]).map (·.1.id) := by simp
    obtain ⟨middle, hlogical, hregions⟩ := bind_eq_ok.mp hstep
    have hmiddle := foldlM_keeps (fun _ _ _ h hrun => about_diagnose_logical h hleaf hrun) hmore hlogical
    exact foldlM_keeps (fun _ _ _ h hrun => about_diagnose_region h hleaf hrun) hmiddle hregions
  exact hinvariant

/-- The evidence of a text result is that of its plans. -/
theorem analyze_text_details
    (h : service.analyze_text env request (text_leaves request) include_diagnostics placeholder_namespace face_route =
      .ok result) :
    ∃ plans details, service.prepare_leaf_plans env (text_leaves request) (request.request_kind = .mcp) = .ok plans ∧
      service.requested_diagnostics include_diagnostics plans.prepared = .ok details ∧
      result.logical_detections = details.logical_detections ∧
      result.effective_regions = details.effective_regions ∧ result.diagnostics_truncated = details.truncated := by
  unfold analyze_text at h
  obtain ⟨plans, hplans, h⟩ := bind_eq_ok.mp h
  obtain ⟨details, hdetails, h⟩ := bind_eq_ok.mp h
  refine ⟨plans, details, hplans, hdetails, ?_⟩
  split at h
  · obtain ⟨rows, -, h⟩ := bind_eq_ok.mp h
    cases h
    exact ⟨rfl, rfl, rfl⟩
  · obtain ⟨⟨segments, transformed⟩, -, h⟩ := bind_eq_ok.mp h
    obtain ⟨-, h⟩ := raiseIf_bind_eq_ok.mp h
    obtain ⟨rows, -, h⟩ := bind_eq_ok.mp h
    cases h
    exact ⟨rfl, rfl, rfl⟩

/-- The visual evidence adds nothing to the diagnostics. -/
theorem apply_visual_result_details {output : PolicyResult}
    (h : service.apply_visual_result result request face_route = .ok output) :
    output.logical_detections = result.logical_detections ∧ output.effective_regions = result.effective_regions := by
  cases apply_visual_result_eq_ok.mp h with
  | inl hnone => rw [hnone.2]; exact ⟨rfl, rfl⟩
  | inr hface =>
    obtain ⟨-, row, -, rfl⟩ := hface
    unfold apply_face_action
    split
    · exact ⟨rfl, rfl⟩
    · split <;> exact ⟨rfl, rfl⟩

/-- An analysis reports only segments of its request. -/
theorem analyze_segments_about
    (h : service.analyze_segments env request include_diagnostics placeholder_namespace = .ok result) :
    Diagnostics.About (request.segments.map TextSegment.id)
      ⟨result.logical_detections, result.effective_regions, result.diagnostics_truncated⟩ := by
  obtain ⟨base, hbase, hvisual⟩ := analyze_segments_cases h
  obtain ⟨hlogical, hregions⟩ := apply_visual_result_details hvisual
  have hempty : base.logical_detections = [] → base.effective_regions = [] →
      Diagnostics.About (request.segments.map TextSegment.id)
        ⟨result.logical_detections, result.effective_regions, result.diagnostics_truncated⟩ := by
    intro hno_logical hno_regions
    rw [hlogical, hregions, hno_logical, hno_regions]
    exact ⟨by simp, by simp⟩
  rcases hbase with hpreflight | ⟨-, hsettled | ⟨-, htext⟩⟩
  · rcases preflight_eq_some hpreflight with ⟨-, -, -, rfl⟩ | ⟨-, rfl⟩ | ⟨-, safety, -, rfl⟩
    · exact hempty rfl rfl
    · exact hempty rfl rfl
    · exact hempty rfl rfl
  · rcases (visual_decision_eq_some hsettled).2 with rfl | ⟨-, rfl⟩
    · exact hempty rfl rfl
    · exact hempty rfl rfl
  · obtain ⟨plans, details, hplans, hdetails, hdetails_logical, hdetails_regions, -⟩ := analyze_text_details htext
    rw [hlogical, hregions, hdetails_logical, hdetails_regions]
    unfold requested_diagnostics at hdetails
    split at hdetails
    · have habout := about_diagnostics hdetails
      rw [ids_of_leaves (prepare_leaf_plans_prepared hplans).leaves] at habout
      exact ⟨habout.logical, habout.regions⟩
    · cases hdetails
      exact ⟨by simp, by simp⟩

end pii_engine.policy.PolicyService
