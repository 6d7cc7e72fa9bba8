import PiiEngine.Planner.Counting

open collections intervals

namespace pii_engine.planner

namespace Resolved
variable {strictness : String → Nat} {items logical effective : List EntityMatch} {overlap_count : Nat}

theorem exists_component_of_logical (h : Resolved strictness items logical effective overlap_count)
    {item : EntityMatch} (hitem : item ∈ logical) :
    ∃ d, EntityMatch.spans.IsComponent (entitySet items item.entity_type) d ∧ SpanOf d item := by
  obtain ⟨components, -, hcomponents, hspans⟩ := h.logical item.entity_type
  obtain ⟨d, hd, hspec⟩ := exists_left_of_forall₂ hspans (List.mem_filter.mpr ⟨hitem, by simp⟩)
  exact ⟨d, (hcomponents d).mp hd, hspec⟩

/-- Some raw match of the type of a logical detection lies inside it. -/
theorem exists_raw_inside (h : Resolved strictness items logical effective overlap_count)
    {item : EntityMatch} (hitem : item ∈ logical) :
    ∃ a ∈ items, a.entity_type = item.entity_type ∧ EntityMatch.Inside a item := by
  obtain ⟨d, hd, hspec⟩ := h.exists_component_of_logical hitem
  obtain ⟨a, ha⟩ := hd.nonempty
  exact ⟨a, (hd.subset ha).1, (hd.subset ha).2, hspec.start.2 ⟨a, ha, rfl⟩, hspec.stop.2 ⟨a, ha, rfl⟩⟩

theorem logical_nonempty (h : Resolved strictness items logical effective overlap_count)
    (hnonempty : ∀ a ∈ items, a.start < a.stop) {item : EntityMatch} (hitem : item ∈ logical) :
    item.start < item.stop := by
  obtain ⟨a, ha, -, hstart, hstop⟩ := h.exists_raw_inside hitem
  have := hnonempty a ha
  omega

/-- Every raw match lies inside a logical detection of its type. -/
theorem exists_logical_around (h : Resolved strictness items logical effective overlap_count)
    {a : EntityMatch} (ha : a ∈ items) :
    ∃ item ∈ logical, item.entity_type = a.entity_type ∧ EntityMatch.Inside a item := by
  obtain ⟨components, -, hcomponents, hspans⟩ := h.logical a.entity_type
  obtain ⟨item, hitem, hspec⟩ := exists_right_of_forall₂ hspans ((hcomponents _).mpr ⟨a, ⟨ha, rfl⟩, rfl⟩)
  rw [List.mem_filter, decide_eq_true_eq] at hitem
  exact ⟨item, hitem.1, hitem.2, hspec.start.2 ⟨a, .refl, rfl⟩, hspec.stop.2 ⟨a, .refl, rfl⟩⟩

/-- A logical detection lies inside a region that is at least as strict. -/
theorem exists_region_containing (h : Resolved strictness items logical effective overlap_count)
    {item : EntityMatch} (hitem : item ∈ logical) : ∃ region ∈ effective, EntityMatch.Inside item region ∧
      strictness item.entity_type ≤ strictness region.entity_type := by
  obtain ⟨d, hd, hspec⟩ := h.exists_component_of_logical hitem
  obtain ⟨components, -, hcomponents, hregions⟩ := h.regions
  obtain ⟨a, ha⟩ := hd.nonempty
  obtain ⟨region, hregion, hregion_spec⟩ := exists_right_of_forall₂ hregions
    ((hcomponents _).mpr ⟨a, (hd.subset ha).1, rfl⟩)
  -- the component of one type is part of the component of all types
  have hsub : ∀ b ∈ d, EntityMatch.spans.Linked {x | x ∈ items} a b := fun b hb =>
    Interval.Linked.mono (fun _ hx => hx.1) ((hd.linked ha).mp hb)
  obtain ⟨first, hfirst, hstart⟩ := hspec.start.1
  obtain ⟨last, hlast, hstop⟩ := hspec.stop.1
  refine ⟨region, hregion, ⟨?_, ?_⟩, ?_⟩
  · rw [← hstart]
    exact hregion_spec.start.2 ⟨first, hsub first hfirst, rfl⟩
  · rw [← hstop]
    exact hregion_spec.stop.2 ⟨last, hsub last hlast, rfl⟩
  · rw [← (hd.subset ha).2]
    exact hregion_spec.strictest a .refl

/-- The region that a logical detection shares a character with contains it. -/
theorem inside_of_overlapping (h : Resolved strictness items logical effective overlap_count)
    (hnonempty : ∀ a ∈ items, a.start < a.stop) {item region : EntityMatch} (hitem : item ∈ logical)
    (hregion : region ∈ effective) (hstart : region.start < item.stop) (hstop : item.start < region.stop) :
    EntityMatch.Inside item region ∧ strictness item.entity_type ≤ strictness region.entity_type := by
  obtain ⟨other, hother, hinside, hstrict⟩ := h.exists_region_containing hitem
  obtain ⟨hlower, hupper⟩ := hinside
  have hitem_lt := h.logical_nonempty hnonempty hitem
  have hregion_lt := h.nonempty region hregion
  have heq : region = other := h.eq_of_common hregion hother (p := max region.start item.start)
    (by omega) (by omega)
  exact heq ▸ ⟨⟨hlower, hupper⟩, hstrict⟩

/-- A logical detection lies inside no more than one region. -/
theorem region_unique (h : Resolved strictness items logical effective overlap_count)
    (hnonempty : ∀ a ∈ items, a.start < a.stop) {item region other : EntityMatch} (hitem : item ∈ logical)
    (hregion : region ∈ effective) (hother : other ∈ effective) (hinside : EntityMatch.Inside item region)
    (hinside' : EntityMatch.Inside item other) : other = region := by
  have hlt := h.logical_nonempty hnonempty hitem
  obtain ⟨hlower, hupper⟩ := hinside
  obtain ⟨hlower', hupper'⟩ := hinside'
  exact h.eq_of_common hother hregion (p := item.start) (by omega) (by omega)

/-- The winning type of a region is that of a logical detection inside it. -/
theorem exists_winner (h : Resolved strictness items logical effective overlap_count) {region : EntityMatch}
    (hregion : region ∈ effective) (hnonempty : ∀ a ∈ items, a.start < a.stop) :
    ∃ item ∈ logical, item.entity_type = region.entity_type ∧ EntityMatch.Inside item region := by
  obtain ⟨components, -, hcomponents, hregions⟩ := h.regions
  obtain ⟨c, hc, hspec⟩ := exists_left_of_forall₂ hregions hregion
  obtain ⟨a, ha, htype⟩ := hspec.entity_type
  have hmem := ((hcomponents c).mp hc).subset ha
  obtain ⟨item, hitem, hitem_type, hlower, hupper⟩ := h.exists_logical_around hmem
  have hlt := hnonempty a hmem
  have hstart : region.start ≤ a.start := hspec.start.2 ⟨a, ha, rfl⟩
  have hstop : a.stop ≤ region.stop := hspec.stop.2 ⟨a, ha, rfl⟩
  exact ⟨item, hitem, hitem_type.trans htype,
    (h.inside_of_overlapping hnonempty hitem hregion (by omega) (by omega)).1⟩

/-- A component is mixed when logical detections of two types lie inside its region. -/
theorem mixed_iff (h : Resolved strictness items logical effective overlap_count)
    (hnonempty : ∀ a ∈ items, a.start < a.stop) {c : Set EntityMatch} {region : EntityMatch}
    (hc : EntityMatch.spans.IsComponent {a | a ∈ items} c) (hspec : RegionOf strictness c region)
    (hregion : region ∈ effective) :
    Mixed c ↔ ∃ first ∈ logical, ∃ second ∈ logical, first.entity_type ≠ second.entity_type ∧
      first.Inside region ∧ second.Inside region := by
  have haround : ∀ a ∈ c, ∃ item ∈ logical, item.entity_type = a.entity_type ∧ item.Inside region := by
    intro a ha
    obtain ⟨item, hitem, htype, hlower, hupper⟩ := h.exists_logical_around (hc.subset ha)
    have hlt := hnonempty a (hc.subset ha)
    have hstart : region.start ≤ a.start := hspec.start.2 ⟨a, ha, rfl⟩
    have hstop : a.stop ≤ region.stop := hspec.stop.2 ⟨a, ha, rfl⟩
    exact ⟨item, hitem, htype, (h.inside_of_overlapping hnonempty hitem hregion (by omega) (by omega)).1⟩
  have hwithin : ∀ item ∈ logical, item.Inside region → ∃ a ∈ c, a.entity_type = item.entity_type := by
    rintro item hitem ⟨hlower, hupper⟩
    obtain ⟨a, ha, htype, hinside, hinside'⟩ := h.exists_raw_inside hitem
    have hlt := hnonempty a ha
    obtain ⟨first, hfirst, hfirst_start⟩ := hspec.start.1
    obtain ⟨last, hlast, hlast_stop⟩ := hspec.stop.1
    obtain ⟨b, hb, hpoint⟩ := exists_mem_points (p := a.start) (fun x hx y hy => hc.linked_within hx hy)
      hfirst hlast (by change first.start ≤ a.start; omega) (by change a.start < last.stop; omega)
    have hmeets : EntityMatch.spans.Meets b a := ⟨a.start, hpoint, ⟨le_refl a.start, hlt⟩⟩
    exact ⟨a, (hc.linked hb).mpr (Interval.Linked.single (hc.subset hb) ha hmeets), htype⟩
  constructor
  · rintro ⟨a, ha, b, hb, hne⟩
    obtain ⟨first, hfirst, hfirst_type, hfirst_inside⟩ := haround a ha
    obtain ⟨second, hsecond, hsecond_type, hsecond_inside⟩ := haround b hb
    refine ⟨first, hfirst, second, hsecond, ?_, hfirst_inside, hsecond_inside⟩
    rwa [hfirst_type, hsecond_type]
  · rintro ⟨first, hfirst, second, hsecond, hne, hfirst_inside, hsecond_inside⟩
    obtain ⟨a, ha, ha_type⟩ := hwithin first hfirst hfirst_inside
    obtain ⟨b, hb, hb_type⟩ := hwithin second hsecond hsecond_inside
    refine ⟨a, ha, b, hb, ?_⟩
    rwa [ha_type, hb_type]

/-- The overlap count is the number of regions that hold logical detections of two types. -/
theorem overlap_eq_countP (h : Resolved strictness items logical effective overlap_count)
    (hnonempty : ∀ a ∈ items, a.start < a.stop) {shared : EntityMatch → Bool}
    (hshared : ∀ region ∈ effective, shared region = true ↔
      ∃ first ∈ logical, ∃ second ∈ logical, first.entity_type ≠ second.entity_type ∧
        first.Inside region ∧ second.Inside region) :
    overlap_count = effective.countP shared := by
  classical
  obtain ⟨components, hnodup, hcomponents, hregions⟩ := h.regions
  have hset : {c | EntityMatch.spans.IsComponent {a | a ∈ items} c ∧ Mixed c} =
      (components.filter fun c => Mixed c).toFinset := by
    ext c
    simp [hcomponents]
  rw [h.overlap, hset, Set.ncard_coe_finset, List.toFinset_card_of_nodup (hnodup.filter _),
    ← List.countP_eq_length_filter]
  refine countP_eq_of_forall₂ hregions ?_
  intro c hc region hregion hspec
  rw [decide_eq_true_eq, hshared region hregion]
  exact h.mixed_iff hnonempty ((hcomponents c).mp hc) hspec hregion

end Resolved

end pii_engine.planner
