import PiiEngine.Planner.Resolution

open collections intervals

namespace pii_engine.planner

/-- The number of matches of one entity type. -/
def countOf (items : List EntityMatch) (entity_type : String) : Nat :=
  items.countP fun item => item.entity_type = entity_type

theorem countOf_pos {items : List EntityMatch} {entity_type : String} :
    0 < countOf items entity_type ↔ ∃ item ∈ items, item.entity_type = entity_type := by
  simp [countOf, List.countP_pos_iff]

@[simp] theorem countOf_append (items rest : List EntityMatch) (entity_type : String) :
    countOf (items ++ rest) entity_type = countOf items entity_type + countOf rest entity_type :=
  List.countP_append

@[simp] theorem countOf_singleton (item : EntityMatch) (entity_type : String) :
    countOf [item] entity_type = if entity_type = item.entity_type then 1 else 0 := by
  simp [countOf, List.countP_cons, eq_comm]

theorem countOf_eq_length (items : List EntityMatch) (entity_type : String) :
    countOf items entity_type = (items.filter fun item => item.entity_type = entity_type).length :=
  List.countP_eq_length_filter

/-- A text has at most as many components of spans as characters. -/
theorem components_length_le {items : Set EntityMatch} {components : List (Set EntityMatch)} {text_length : Nat}
    (hnodup : components.Nodup) (hcomponents : ∀ c ∈ components, EntityMatch.spans.IsComponent items c)
    (hspans : ∀ a ∈ items, a.SpanWithin text_length) : components.length ≤ text_length := by
  rw [← List.length_range (n := text_length)]
  refine length_le_of_partners (R := fun (c : Set EntityMatch) (position : Nat) =>
    ∃ a ∈ c, a.start = position) hnodup ?_ ?_
  · intro c hc
    have hcomponent := hcomponents c hc
    obtain ⟨a, ha⟩ := hcomponent.nonempty
    obtain ⟨hstart, hlt, hstop⟩ := hspans a (hcomponent.subset ha)
    exact ⟨a.start.toNat, by rw [List.mem_range]; omega, a, ha, by omega⟩
  · rintro c hc c' hc' position ⟨a, ha, hposition⟩ ⟨a', ha', hposition'⟩
    have hcomponent := hcomponents c hc
    have hcomponent' := hcomponents c' hc'
    have hlt := (hspans a (hcomponent.subset ha)).2.1
    have hlt' := (hspans a' (hcomponent'.subset ha')).2.1
    have hmeets : EntityMatch.spans.Meets a a' :=
      ⟨position, ⟨hposition.le, by rw [← hposition]; exact hlt⟩,
        ⟨hposition'.le, by rw [← hposition']; exact hlt'⟩⟩
    exact hcomponent.eq_of_meets hcomponent' ha ha' hmeets

namespace Resolved
variable {strictness : String → Nat} {items logical effective : List EntityMatch} {overlap_count : Nat}

theorem effective_nodup (h : Resolved strictness items logical effective overlap_count) : effective.Nodup := by
  refine (List.Pairwise.and_mem.mp h.disjoint).imp ?_
  rintro region later ⟨hregion, -, hstop⟩ rfl
  have := h.nonempty region hregion
  omega

/-- Regions with a common character are one region. -/
theorem eq_of_common (h : Resolved strictness items logical effective overlap_count) {region other : EntityMatch}
    (hregion : region ∈ effective) (hother : other ∈ effective) {p : Int}
    (hp : region.start ≤ p ∧ p < region.stop) (hp' : other.start ≤ p ∧ p < other.stop) : region = other := by
  have hsymm : Std.Symm fun a b : EntityMatch => a.stop ≤ b.start ∨ b.stop ≤ a.start :=
    ⟨fun _ _ hab => hab.symm⟩
  have hapart : effective.Pairwise fun a b => a.stop ≤ b.start ∨ b.stop ≤ a.start :=
    h.disjoint.imp Or.inl
  by_contra hne
  have := hapart.forall hregion hother hne
  omega

/-- Every region covers a whole component of the matches of its own type. -/
theorem exists_component_within (h : Resolved strictness items logical effective overlap_count)
    {region : EntityMatch} (hregion : region ∈ effective) :
    ∃ d, EntityMatch.spans.IsComponent (entitySet items region.entity_type) d ∧
      ∀ a ∈ d, region.start ≤ a.start ∧ a.stop ≤ region.stop := by
  obtain ⟨components, -, hcomponents, hregions⟩ := h.regions
  obtain ⟨c, hc, hspec⟩ := exists_left_of_forall₂ hregions hregion
  obtain ⟨a, ha, htype⟩ := hspec.entity_type
  have hcomponent := (hcomponents c).mp hc
  refine ⟨{b | EntityMatch.spans.Linked (entitySet items region.entity_type) a b},
    ⟨a, ⟨hcomponent.subset ha, htype⟩, rfl⟩, ?_⟩
  intro b hb
  have hlinked : EntityMatch.spans.Linked {a | a ∈ items} a b :=
    Interval.Linked.mono (fun _ hx => hx.1) hb
  have hbc : b ∈ c := (hcomponent.linked ha).mpr hlinked
  exact ⟨hspec.start.2 ⟨b, hbc, rfl⟩, hspec.stop.2 ⟨b, hbc, rfl⟩⟩

/-- A type wins at most as many regions as it has logical detections. -/
theorem countOf_effective_le (h : Resolved strictness items logical effective overlap_count)
    (hnonempty : ∀ a ∈ items, a.start < a.stop) (entity_type : String) :
    countOf effective entity_type ≤ countOf logical entity_type := by
  obtain ⟨components, -, hcomponents, hspans⟩ := h.logical entity_type
  rw [countOf_eq_length, countOf_eq_length, ← hspans.length_eq]
  refine length_le_of_partners (R := fun (region : EntityMatch) (d : Set EntityMatch) =>
    (∃ a ∈ d, a.start < a.stop) ∧ ∀ a ∈ d, region.start ≤ a.start ∧ a.stop ≤ region.stop)
    (h.effective_nodup.filter _) ?_ ?_
  · intro region hregion
    obtain ⟨hregion, htype⟩ := List.mem_filter.mp hregion
    obtain ⟨d, hd, hwithin⟩ := h.exists_component_within hregion
    rw [decide_eq_true_eq] at htype
    rw [htype] at hd
    obtain ⟨a, ha⟩ := hd.nonempty
    exact ⟨d, (hcomponents d).mpr hd, ⟨a, ha, hnonempty a (hd.subset ha).1⟩, hwithin⟩
  · rintro region hregion other hother d ⟨⟨a, ha, hlt⟩, hwithin⟩ ⟨-, hwithin'⟩
    have ha₁ := hwithin a ha
    have ha₂ := hwithin' a ha
    exact h.eq_of_common (List.mem_filter.mp hregion).1 (List.mem_filter.mp hother).1
      (p := a.start) (by omega) (by omega)

/-- A type has at most as many logical detections as the text has characters. -/
theorem countOf_logical_le (h : Resolved strictness items logical effective overlap_count)
    {text_length : Nat} (hspans : ∀ a ∈ items, a.SpanWithin text_length) (entity_type : String) :
    countOf logical entity_type ≤ text_length := by
  obtain ⟨components, hnodup, hcomponents, hlogical⟩ := h.logical entity_type
  rw [countOf_eq_length, ← hlogical.length_eq]
  exact components_length_le hnodup (fun c hc => (hcomponents c).mp hc) fun a ha => hspans a ha.1

/-- At most as many regions hold matches of two types as the text has characters. -/
theorem overlap_count_le (h : Resolved strictness items logical effective overlap_count)
    {text_length : Nat} (hspans : ∀ a ∈ items, a.SpanWithin text_length) : overlap_count ≤ text_length := by
  classical
  obtain ⟨components, hnodup, hcomponents, -⟩ := h.regions
  have hsubset : {c | EntityMatch.spans.IsComponent {a | a ∈ items} c ∧ Mixed c} ⊆ (components.toFinset : Set _) :=
    fun c hc => Finset.mem_coe.mpr (List.mem_toFinset.mpr ((hcomponents c).mpr hc.1))
  calc overlap_count
      ≤ Set.ncard (components.toFinset : Set (Set EntityMatch)) := by
        rw [h.overlap]
        exact Set.ncard_le_ncard hsubset (Finset.finite_toSet _)
    _ ≤ components.length := by
        rw [Set.ncard_coe_finset]
        exact components.toFinset_card_le
    _ ≤ text_length := components_length_le hnodup (fun c hc => (hcomponents c).mp hc) hspans

/-- Every logical detection shares a character with a region. -/
theorem exists_region_of_logical (h : Resolved strictness items logical effective overlap_count)
    (hnonempty : ∀ a ∈ items, a.start < a.stop) {item : EntityMatch} (hitem : item ∈ logical) :
    ∃ region ∈ effective, region.start < item.stop ∧ item.start < region.stop := by
  obtain ⟨components, -, hcomponents, hspans⟩ := h.logical item.entity_type
  obtain ⟨d, hd, hspec⟩ := exists_left_of_forall₂ hspans (List.mem_filter.mpr ⟨hitem, by simp⟩)
  have hcomponent := (hcomponents d).mp hd
  obtain ⟨a, ha, hstart⟩ := hspec.start.1
  have hmem := (hcomponent.subset ha).1
  have hlt := hnonempty a hmem
  have hstop : a.stop ≤ item.stop := hspec.stop.2 ⟨a, ha, rfl⟩
  obtain ⟨region, hregion, hlower, hupper⟩ := (h.covered a.start).mpr ⟨a, hmem, le_refl _, hlt⟩
  have hlower : region.start ≤ a.start := hlower
  have hupper : a.start < region.stop := hupper
  exact ⟨region, hregion, by omega, by omega⟩

/-- The type of a logical detection is that of a raw match. -/
theorem exists_raw_of_logical (h : Resolved strictness items logical effective overlap_count)
    {item : EntityMatch} (hitem : item ∈ logical) : ∃ a ∈ items, a.entity_type = item.entity_type := by
  obtain ⟨components, -, hcomponents, hspans⟩ := h.logical item.entity_type
  obtain ⟨d, hd, -⟩ := exists_left_of_forall₂ hspans (List.mem_filter.mpr ⟨hitem, by simp⟩)
  obtain ⟨a, ha⟩ := ((hcomponents d).mp hd).nonempty
  exact ⟨a, (((hcomponents d).mp hd).subset ha).1, (((hcomponents d).mp hd).subset ha).2⟩

/-- The type of a raw match is that of a logical detection. -/
theorem exists_logical_of_raw (h : Resolved strictness items logical effective overlap_count)
    {a : EntityMatch} (ha : a ∈ items) : ∃ item ∈ logical, item.entity_type = a.entity_type := by
  obtain ⟨components, -, hcomponents, hspans⟩ := h.logical a.entity_type
  obtain ⟨item, hitem, -⟩ := exists_right_of_forall₂ hspans ((hcomponents _).mpr ⟨a, ⟨ha, rfl⟩, rfl⟩)
  rw [List.mem_filter, decide_eq_true_eq] at hitem
  exact ⟨item, hitem.1, hitem.2⟩

end Resolved

end pii_engine.planner
