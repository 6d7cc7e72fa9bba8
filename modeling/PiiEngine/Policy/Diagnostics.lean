import PiiEngine.Planner.Containment
import PiiEngine.Policy.Analysis

open checked collections
open pii_engine.config pii_engine.planner

namespace pii_engine.policy.PolicyService

/-- What a logical row says about a detection of a leaf. -/
structure LogicalRow (service : PolicyService) (reroute_as_block : Bool) (leaf : TextLeaf) (plan : LeafPlan)
    (item : EntityMatch) (row : LogicalDetectionData) : Prop where
  segment_id : row.segment_id = leaf.id
  start : row.start = item.start
  stop : row.stop = item.stop
  entity_type : row.entity_type = item.entity_type
  score : row.score = item.score
  source : row.source = normalized_source item.source
  configured_action : row.configured_action = service.entity_action item.entity_type
  region : ∃ region ∈ plan.effective_matches, item.Inside region ∧
    (∀ other ∈ plan.effective_matches, item.Inside other → other = region) ∧
    row.resolved_action = service.planner.decidingAction reroute_as_block region.entity_type ∧
    ∀ other ∈ plan.logical_matches, other.Inside region →
      (service.planner.decidingAction reroute_as_block other.entity_type).strictness ≤
        row.resolved_action.strictness

/-- What a region row says about a region of a leaf. -/
structure RegionRow (service : PolicyService) (reroute_as_block : Bool) (leaf : TextLeaf) (plan : LeafPlan)
    (region : EntityMatch) (row : EffectiveRegionData) : Prop where
  segment_id : row.segment_id = leaf.id
  start : row.start = region.start
  stop : row.stop = region.stop
  entity_type : row.entity_type = region.entity_type
  action : row.action = service.planner.decidingAction reroute_as_block region.entity_type
  source : row.source = normalized_source region.source
  score : row.score = region.score
  members : ∀ e, e ∈ row.member_entity_types ↔
    ∃ item ∈ plan.logical_matches, item.Inside region ∧ item.entity_type = e
  members_sorted : row.member_entity_types.Pairwise (· < ·)
  winner : row.entity_type ∈ row.member_entity_types
  overlap : row.overlap = decide (1 < row.member_entity_types.length)

/-- Every match that a projection of the plans yields, with its leaf and plan. -/
def allMatches (project : LeafPlan → List EntityMatch) (prepared : List (TextLeaf × LeafPlan)) :
    List ((TextLeaf × LeafPlan) × EntityMatch) :=
  prepared.flatMap fun entry => (project entry.2).map (Prod.mk entry)

/-- The diagnostics are the bounded starts of two full lists of rows. -/
structure Diagnostics.Bounded (details : Diagnostics) (logical : List LogicalDetectionData)
    (regions : List EffectiveRegionData) : Prop where
  logical_detections : details.logical_detections = logical.take MAX_DIAGNOSTICS_PER_KIND
  effective_regions : details.effective_regions = regions.take MAX_DIAGNOSTICS_PER_KIND
  truncated : details.truncated = true ↔
    MAX_DIAGNOSTICS_PER_KIND < logical.length ∨ MAX_DIAGNOSTICS_PER_KIND < regions.length

variable {service : PolicyService} {reroute_as_block : Bool} {leaf : TextLeaf} {text : Text}
  {items : List EntityMatch} {plan : LeafPlan} {acc : Diagnostics} {logical : List LogicalDetectionData}
  {regions : List EffectiveRegionData}

theorem overlapping_iff {first second : EntityMatch} : overlapping first second = true ↔
    first.start < second.stop ∧ second.start < first.stop := by
  simp [overlapping]

private theorem logical_row_exists (service : PolicyService) (leaf : TextLeaf)
    (h : service.planner.Prepared text items reroute_as_block plan)
    {item : EntityMatch} (hitem : item ∈ plan.logical_matches) : ∃ region action,
      plan.effective_matches.find? (overlapping · item) = some region ∧
      plan.entity_actions.get? region.entity_type = some action ∧
      service.LogicalRow reroute_as_block leaf plan item {
        segment_id := leaf.id
        start := item.start
        stop := item.stop
        entity_type := item.entity_type
        score := item.score
        source := normalized_source item.source
        configured_action := service.entity_action item.entity_type
        resolved_action := action } := by
  obtain ⟨region, hregion, hinside, -⟩ := h.resolved.exists_region_containing hitem
  have hlt := h.resolved.logical_nonempty h.start_lt_stop hitem
  have hfind : plan.effective_matches.find? (overlapping · item) = some region := by
    cases hfound : plan.effective_matches.find? (overlapping · item) with
    | none =>
      obtain ⟨hlower, hupper⟩ := hinside
      exact absurd (overlapping_iff.mpr ⟨by omega, by omega⟩) (List.find?_eq_none.mp hfound region hregion)
    | some other =>
      have hother := List.mem_of_find?_eq_some hfound
      have hmeets : overlapping other item = true := List.find?_some (p := (overlapping · item)) hfound
      obtain ⟨hstart, hstop⟩ := overlapping_iff.mp hmeets
      have hcontains := h.resolved.inside_of_overlapping h.start_lt_stop hitem hother hstart hstop
      rw [h.resolved.region_unique h.start_lt_stop hitem hregion hother hinside hcontains.1]
  obtain ⟨action, haction⟩ := exists_action_of_region h hregion
  have hdeciding := h.actions _ _ haction
  refine ⟨region, action, hfind, haction, rfl, rfl, rfl, rfl, rfl, rfl, rfl, ?_⟩
  refine ⟨region, hregion, hinside, ?_, hdeciding, ?_⟩
  · intro other hother hinside'
    exact h.resolved.region_unique h.start_lt_stop hitem hregion hother hinside hinside'
  · intro other hother hinside'
    obtain ⟨hlower, hupper⟩ := hinside'
    have hother_lt := h.resolved.logical_nonempty h.start_lt_stop hother
    have hregion_lt := h.resolved.nonempty region hregion
    rw [hdeciding]
    exact (h.resolved.inside_of_overlapping h.start_lt_stop hother hregion (by omega) (by omega)).2

theorem diagnose_logical_bounded (service : PolicyService) (leaf : TextLeaf)
    (h : service.planner.Prepared text items reroute_as_block plan) {item : EntityMatch}
    (hitem : item ∈ plan.logical_matches) (hacc : acc.Bounded logical regions) :
    ∃ acc' row, service.diagnose_logical leaf plan acc item = .ok acc' ∧
      service.LogicalRow reroute_as_block leaf plan item row ∧ acc'.Bounded (logical ++ [row]) regions := by
  obtain ⟨region, action, hfind, haction, hrow⟩ := service.logical_row_exists leaf h hitem
  obtain ⟨hlogical, hregions, htruncated⟩ := hacc
  unfold diagnose_logical
  simp only [hfind, haction]
  by_cases hroom : logical.length < MAX_DIAGNOSTICS_PER_KIND
  · have hfull : acc.logical_detections = logical := hlogical.trans (List.take_of_length_le hroom.le)
    rw [if_pos (by rwa [hfull])]
    refine ⟨_, _, rfl, hrow, ?_, hregions, ?_⟩
    · rw [List.take_of_length_le (by rw [List.length_append]; exact hroom), hfull]
    · rw [htruncated, List.length_append, List.length_singleton]
      omega
  · rw [if_neg (by rw [hlogical, List.length_take]; omega)]
    refine ⟨_, _, rfl, hrow, ?_, hregions, ?_⟩
    · rw [hlogical, List.take_append_of_le_length (by omega)]
    · rw [List.length_append, List.length_singleton]
      exact ⟨fun _ => Or.inl (by omega), fun _ => rfl⟩

private theorem region_row_exists (service : PolicyService) (leaf : TextLeaf)
    (h : service.planner.Prepared text items reroute_as_block plan)
    {region : EntityMatch} (hregion : region ∈ plan.effective_matches) :
    let members := (UniqueList.ofList
      ((plan.logical_matches.filter (overlapping · region)).map (·.entity_type))).sorted id
    ∃ action, plan.entity_actions.get? region.entity_type = some action ∧
      service.RegionRow reroute_as_block leaf plan region {
        segment_id := leaf.id
        start := region.start
        stop := region.stop
        entity_type := region.entity_type
        action
        source := normalized_source region.source
        score := region.score
        member_entity_types := members
        overlap := 1 < members.length } := by
  intro members
  have hmembers : ∀ e, e ∈ members ↔
      ∃ item ∈ plan.logical_matches, item.Inside region ∧ item.entity_type = e := by
    intro e
    simp only [members, UniqueList.mem_sorted, UniqueList.mem_ofList, List.mem_map, List.mem_filter,
      overlapping_iff]
    constructor
    · rintro ⟨item, ⟨hitem, hstart, hstop⟩, rfl⟩
      exact ⟨item, hitem, (h.resolved.inside_of_overlapping h.start_lt_stop hitem hregion hstop hstart).1, rfl⟩
    · rintro ⟨item, hitem, ⟨hlower, hupper⟩, rfl⟩
      have hlt := h.resolved.logical_nonempty h.start_lt_stop hitem
      have hregion_lt := h.resolved.nonempty region hregion
      exact ⟨item, ⟨hitem, by omega, by omega⟩, rfl⟩
  obtain ⟨action, haction⟩ := exists_action_of_region h hregion
  obtain ⟨item, hitem, htype, hinside⟩ := h.resolved.exists_winner hregion h.start_lt_stop
  refine ⟨action, haction, rfl, rfl, rfl, rfl, h.actions _ _ haction, rfl, rfl, hmembers, ?_,
    (hmembers _).mpr ⟨item, hitem, hinside, htype⟩, rfl⟩
  refine ((UniqueList.sorted_pairwise _).and (UniqueList.sorted_nodup _)).imp ?_
  rintro first second ⟨hle, hne⟩
  exact lt_of_le_of_ne hle hne

theorem diagnose_region_bounded (service : PolicyService) (leaf : TextLeaf)
    (h : service.planner.Prepared text items reroute_as_block plan) {region : EntityMatch}
    (hregion : region ∈ plan.effective_matches) (hacc : acc.Bounded logical regions) :
    ∃ acc' row, diagnose_region leaf plan acc region = .ok acc' ∧
      service.RegionRow reroute_as_block leaf plan region row ∧ acc'.Bounded logical (regions ++ [row]) := by
  obtain ⟨action, haction, hrow⟩ := service.region_row_exists leaf h hregion
  obtain ⟨hlogical, hregions, htruncated⟩ := hacc
  unfold diagnose_region
  simp only [haction]
  by_cases hroom : regions.length < MAX_DIAGNOSTICS_PER_KIND
  · have hfull : acc.effective_regions = regions := hregions.trans (List.take_of_length_le hroom.le)
    rw [if_pos (by rwa [hfull])]
    refine ⟨_, _, rfl, hrow, hlogical, ?_, ?_⟩
    · rw [List.take_of_length_le (by rw [List.length_append]; exact hroom), hfull]
    · rw [htruncated, List.length_append, List.length_singleton]
      omega
  · rw [if_neg (by rw [hregions, List.length_take]; omega)]
    refine ⟨_, _, rfl, hrow, hlogical, ?_, ?_⟩
    · rw [hregions, List.take_append_of_le_length (by omega)]
    · rw [List.length_append, List.length_singleton]
      exact ⟨fun _ => Or.inr (by omega), fun _ => rfl⟩

/-- The full lists of rows of the plans handled so far. -/
structure Diagnosed (service : PolicyService) (reroute_as_block : Bool) (done : List (TextLeaf × LeafPlan))
    (logical : List LogicalDetectionData) (regions : List EffectiveRegionData) : Prop where
  logical_rows : List.Forall₂ (fun entry => service.LogicalRow reroute_as_block entry.1.1 entry.1.2 entry.2)
    (allMatches LeafPlan.logical_matches done) logical
  region_rows : List.Forall₂ (fun entry => service.RegionRow reroute_as_block entry.1.1 entry.1.2 entry.2)
    (allMatches LeafPlan.effective_matches done) regions

theorem allMatches_append (project : LeafPlan → List EntityMatch) (done : List (TextLeaf × LeafPlan))
    (entry : TextLeaf × LeafPlan) :
    allMatches project (done ++ [entry]) = allMatches project done ++ (project entry.2).map (Prod.mk entry) := by
  simp [allMatches]

theorem Diagnosed.step {done : List (TextLeaf × LeafPlan)} {entry : TextLeaf × LeafPlan}
    (h : service.planner.Prepared text items reroute_as_block entry.2)
    (hdone : service.Diagnosed reroute_as_block done logical regions) (hacc : acc.Bounded logical regions) :
    ∃ acc' logical' regions', (do
        let acc ← entry.2.logical_matches.foldlM (service.diagnose_logical entry.1 entry.2) acc
        entry.2.effective_matches.foldlM (diagnose_region entry.1 entry.2) acc) = .ok acc' ∧
      service.Diagnosed reroute_as_block (done ++ [entry]) logical' regions' ∧ acc'.Bounded logical' regions' := by
  obtain ⟨acc₁, hrun₁, rows, hrows, hacc₁⟩ := foldlM_total
    (f := service.diagnose_logical entry.1 entry.2) (s := acc)
    (fun done s => ∃ rows, List.Forall₂ (service.LogicalRow reroute_as_block entry.1 entry.2) done rows ∧
      s.Bounded (logical ++ rows) regions) ⟨[], .nil, by rwa [List.append_nil]⟩ (by
    rintro done item s (hitem : item ∈ entry.2.logical_matches) ⟨rows, hrows, hs⟩
    obtain ⟨s', row, hs', hrow, hbounded⟩ := service.diagnose_logical_bounded entry.1 h hitem hs
    exact ⟨s', hs', rows ++ [row], List.rel_append hrows (.cons hrow .nil), by rwa [← List.append_assoc]⟩)
  obtain ⟨acc₂, hrun₂, rows', hrows', hacc₂⟩ := foldlM_total
    (f := diagnose_region entry.1 entry.2) (s := acc₁)
    (fun done s => ∃ rows', List.Forall₂ (service.RegionRow reroute_as_block entry.1 entry.2) done rows' ∧
      s.Bounded (logical ++ rows) (regions ++ rows')) ⟨[], .nil, by rwa [List.append_nil]⟩ (by
    rintro done region s (hregion : region ∈ entry.2.effective_matches) ⟨rows', hrows', hs⟩
    obtain ⟨s', row, hs', hrow, hbounded⟩ := service.diagnose_region_bounded entry.1 h hregion hs
    exact ⟨s', hs', rows' ++ [row], List.rel_append hrows' (.cons hrow .nil), by rwa [← List.append_assoc]⟩)
  refine ⟨acc₂, _, _, bind_eq_ok.mpr ⟨acc₁, hrun₁, hrun₂⟩, ⟨?_, ?_⟩, hacc₂⟩
  · rw [allMatches_append]
    exact List.rel_append hdone.logical_rows (List.forall₂_map_left_iff.mpr hrows)
  · rw [allMatches_append]
    exact List.rel_append hdone.region_rows (List.forall₂_map_left_iff.mpr hrows')

/-- Rows count as overlapped exactly as often as the plans say. -/
theorem Diagnosed.countP_overlap {prepared : List (TextLeaf × LeafPlan)}
    (hprepared : ∀ entry ∈ prepared, ∃ text items, service.planner.Prepared text items reroute_as_block entry.2)
    (h : service.Diagnosed reroute_as_block prepared logical regions) :
    regions.countP (·.overlap) = (prepared.map (·.2.overlap_count)).sum := by
  have hcount := countP_eq_of_forall₂ (p := fun entry : (TextLeaf × LeafPlan) × EntityMatch => decide
      (∃ first ∈ entry.1.2.logical_matches, ∃ second ∈ entry.1.2.logical_matches,
        first.entity_type ≠ second.entity_type ∧ first.Inside entry.2 ∧ second.Inside entry.2))
    (q := EffectiveRegionData.overlap) h.region_rows (by
      intro entry _ row _ hrow
      have hnodup : row.member_entity_types.Nodup := hrow.members_sorted.imp fun hlt => ne_of_lt hlt
      have hlength : 1 < row.member_entity_types.length ↔
          ∃ a ∈ row.member_entity_types, ∃ b ∈ row.member_entity_types, a ≠ b :=
        UniqueList.one_lt_card_iff (s := ⟨row.member_entity_types, hnodup⟩)
      rw [hrow.overlap, decide_eq_true_eq, decide_eq_true_eq, hlength]
      simp only [hrow.members]
      constructor
      · rintro ⟨first, hfirst, second, hsecond, hne, hinside, hinside'⟩
        exact ⟨_, ⟨first, hfirst, hinside, rfl⟩, _, ⟨second, hsecond, hinside', rfl⟩, hne⟩
      · rintro ⟨_, ⟨first, hfirst, hinside, rfl⟩, _, ⟨second, hsecond, hinside', rfl⟩, hne⟩
        exact ⟨first, hfirst, second, hsecond, hne, hinside, hinside'⟩)
  rw [← hcount, allMatches, List.countP_flatMap]
  congr 1
  refine List.map_congr_left ?_
  intro entry hentry
  obtain ⟨text, items, hplan⟩ := hprepared entry hentry
  rw [Function.comp_apply, List.countP_map]
  refine (hplan.resolved.overlap_eq_countP hplan.start_lt_stop ?_).symm
  intro region _
  rw [Function.comp_apply, decide_eq_true_eq]

/-- Diagnostics never miss a region or an action. Each logical row lies inside one region of
    its leaf and reports the action of it, which is as strict as that of every detection in
    the region. Each list is the bounded start of its full list. -/
theorem diagnostics_consistent (service : PolicyService) (reroute_as_block : Bool)
    (prepared : List (TextLeaf × LeafPlan))
    (hprepared : ∀ entry ∈ prepared, ∃ items,
      service.planner.prepare entry.1.text items reroute_as_block = .ok entry.2) :
    ∃ details logical regions, service.diagnostics prepared = .ok details ∧
      List.Forall₂ (fun entry => service.LogicalRow reroute_as_block entry.1.1 entry.1.2 entry.2)
        (allMatches LeafPlan.logical_matches prepared) logical ∧
      List.Forall₂ (fun entry => service.RegionRow reroute_as_block entry.1.1 entry.1.2 entry.2)
        (allMatches LeafPlan.effective_matches prepared) regions ∧
      details.logical_detections = logical.take 2048 ∧
      details.effective_regions = regions.take 2048 ∧
      (details.truncated = true ↔ 2048 < logical.length ∨ 2048 < regions.length) ∧
      (details.truncated = false → details.effective_regions.countP (·.overlap) =
        (prepared.map (·.2.overlap_count)).sum) := by
  have hplans : ∀ entry ∈ prepared, ∃ text items,
      service.planner.Prepared text items reroute_as_block entry.2 := by
    intro entry hentry
    obtain ⟨items, hitems⟩ := hprepared entry hentry
    exact ⟨_, _, ActionPlanner.prepare_prepared hitems⟩
  obtain ⟨details, hrun, logical, regions, hdiagnosed, hbounded⟩ := foldlM_total
    (s := ({} : Diagnostics))
    (fun done acc => ∃ logical regions, service.Diagnosed reroute_as_block done logical regions ∧
      acc.Bounded logical regions) ⟨[], [], ⟨.nil, .nil⟩, ⟨rfl, rfl, by simp⟩⟩ (by
    rintro done entry acc (hentry : entry ∈ prepared) ⟨logical, regions, hdone, hacc⟩
    obtain ⟨text, items, hplan⟩ := hplans entry hentry
    obtain ⟨acc', logical', regions', hstep, hdone', hacc'⟩ := hdone.step hplan hacc
    exact ⟨acc', hstep, logical', regions', hdone', hacc'⟩)
  refine ⟨details, logical, regions, hrun, hdiagnosed.logical_rows, hdiagnosed.region_rows,
    hbounded.logical_detections, hbounded.effective_regions, hbounded.truncated, ?_⟩
  intro htruncated
  have hshort : ¬ (MAX_DIAGNOSTICS_PER_KIND < logical.length ∨ MAX_DIAGNOSTICS_PER_KIND < regions.length) := by
    rw [← hbounded.truncated, htruncated]
    decide
  rw [hbounded.effective_regions, List.take_of_length_le (by omega)]
  exact hdiagnosed.countP_overlap hplans

/-- The chained matches of one leaf, under the unit-test policy. -/
theorem diagnostics_consistent_chained :
    ∃ plan, test_service.planner.prepare "0123456789".toList chained_matches false = .ok plan ∧
      ∃ details logical regions,
        test_service.diagnostics [(⟨"s", "0123456789".toList⟩, plan)] = .ok details ∧
        List.Forall₂ (fun entry => test_service.LogicalRow false entry.1.1 entry.1.2 entry.2)
          (allMatches LeafPlan.logical_matches [(⟨"s", "0123456789".toList⟩, plan)]) logical ∧
        List.Forall₂ (fun entry => test_service.RegionRow false entry.1.1 entry.1.2 entry.2)
          (allMatches LeafPlan.effective_matches [(⟨"s", "0123456789".toList⟩, plan)]) regions ∧
        details.logical_detections = logical.take 2048 ∧
        details.effective_regions = regions.take 2048 ∧
        (details.truncated = true ↔ 2048 < logical.length ∨ 2048 < regions.length) ∧
        (details.truncated = false → details.effective_regions.countP (·.overlap) =
          ([((⟨"s", "0123456789".toList⟩ : TextLeaf), plan)].map (·.2.overlap_count)).sum) := by
  obtain ⟨plan, hplan⟩ : ∃ plan,
      test_service.planner.prepare "0123456789".toList chained_matches false = .ok plan :=
    ActionPlanner.prepare_total (by decide +kernel) false
  refine ⟨plan, hplan, diagnostics_consistent test_service false [(⟨"s", "0123456789".toList⟩, plan)] ?_⟩
  intro entry hentry
  rw [List.mem_singleton] at hentry
  exact ⟨chained_matches, hentry ▸ hplan⟩

end pii_engine.policy.PolicyService
