import PiiEngine.Planner.Components

open collections intervals intervals.sweep

namespace pii_engine.planner

/-- The matches a logical detection stands for. -/
def members (items : List EntityMatch) (logical : LogicalMatch) : Set EntityMatch :=
  {a | a ∈ items ∧ a.entity_type = logical.entity_type ∧ logical.start ≤ a.start ∧ a.stop ≤ logical.stop}

def logical_clusters (logical : List LogicalMatch) : List (Cluster LogicalMatch) :=
  groups LogicalMatch.spans (-1) (sortOn resolve_key logical)

/-- The matches below one cluster of logical detections. -/
def component (items : List EntityMatch) (g : Cluster LogicalMatch) : Set EntityMatch :=
  {a | ∃ logical ∈ g.set, a ∈ members items logical}

/-- An effective region spans its component and carries its strictest action. -/
structure RegionOf (strictness : String → Nat) (c : Set EntityMatch) (region : EntityMatch) : Prop where
  start : IsLeast (EntityMatch.start '' c) region.start
  stop : IsGreatest (EntityMatch.stop '' c) region.stop
  entity_type : ∃ a ∈ c, a.entity_type = region.entity_type
  strictest : ∀ a ∈ c, strictness a.entity_type ≤ strictness region.entity_type

section clusters
variable {distinct : List EntityMatch}

theorem members_coalesced (hnonempty : ∀ a ∈ distinct, a.start < a.stop) {entity_type : String}
    {g : Cluster EntityMatch} (hg : g ∈ entity_groups (ofEntity distinct entity_type)) :
    members distinct (coalesced g) = g.set := by
  have hsub : ∀ a ∈ ofEntity distinct entity_type, a.start < a.stop :=
    fun a ha => hnonempty a (mem_ofEntity.mp ha).1
  have hparts := entity_groups_parts hsub
  have htype := entity_of_mem_coalesced hnonempty (List.mem_map_of_mem hg)
  ext a
  constructor
  · rintro ⟨ha, hentity, hstart, hstop⟩
    have hmem : a ∈ ofEntity distinct entity_type := mem_ofEntity.mpr ⟨ha, hentity.trans htype⟩
    obtain ⟨c, hc, hac⟩ := (hparts.mem_iff a).mp hmem
    obtain ⟨first, hfirst, hfirst_start⟩ := (isLeast_groupStart EntityMatch.spans g).1
    obtain ⟨last, hlast, hlast_stop⟩ := (isGreatest_groupStop EntityMatch.spans g).1
    have hlt := hsub a hmem
    obtain ⟨b, hb, hpoint⟩ := exists_mem_points (p := a.start) (hparts.linked _ (List.mem_map_of_mem hg))
      hfirst hlast (hfirst_start.le.trans hstart) (by rw [hlast_stop]; exact hlt.trans_le hstop)
    have hmeets : EntityMatch.spans.Meets a b := ⟨a.start, ⟨le_refl a.start, hlt⟩, hpoint⟩
    rw [hparts.eq_of_meets hc (List.mem_map_of_mem hg) hac hb hmeets] at hac
    exact hac
  · intro ha
    have hmem := mem_ofEntity.mp (mem_of_mem_entity_groups hsub hg ha)
    exact ⟨hmem.1, hmem.2.trans htype.symm, (isLeast_groupStart EntityMatch.spans g).2 ⟨a, ha, rfl⟩,
      (isGreatest_groupStop EntityMatch.spans g).2 ⟨a, ha, rfl⟩⟩

/-- The matches below a logical detection form one component of its entity type. -/
theorem members_spec (hnonempty : ∀ a ∈ distinct, a.start < a.stop) {logical : LogicalMatch}
    (hlogical : logical ∈ coalesce_same_entity distinct) :
    SpanOf (members distinct logical) logical.as_entity_match ∧ (members distinct logical).Nonempty ∧
      ∀ a ∈ members distinct logical, ∀ b ∈ members distinct logical,
        EntityMatch.spans.Linked (members distinct logical) a b := by
  obtain ⟨g, hg, hcoalesced⟩ := (mem_coalesce_same_entity hnonempty).mp hlogical
  have hsub : ∀ a ∈ ofEntity distinct logical.entity_type, a.start < a.stop :=
    fun a ha => hnonempty a (mem_ofEntity.mp ha).1
  have hmembers := members_coalesced hnonempty hg
  rw [← hcoalesced] at hmembers
  rw [hmembers]
  refine ⟨?_, ⟨owner g, owner_mem g⟩, (entity_groups_parts hsub).linked _ (List.mem_map_of_mem hg)⟩
  rw [hcoalesced]
  exact coalesced_spanOf fun a ha => (mem_ofEntity.mp (mem_of_mem_entity_groups hsub hg ha)).2

theorem exists_logical_of_mem (hnonempty : ∀ a ∈ distinct, a.start < a.stop) {a : EntityMatch}
    (ha : a ∈ distinct) : ∃ logical ∈ coalesce_same_entity distinct, a ∈ members distinct logical := by
  have hsub : ∀ b ∈ ofEntity distinct a.entity_type, b.start < b.stop :=
    fun b hb => hnonempty b (mem_ofEntity.mp hb).1
  obtain ⟨c, hc, hac⟩ := ((entity_groups_parts hsub).mem_iff a).mp (mem_ofEntity.mpr ⟨ha, rfl⟩)
  obtain ⟨g, hg, rfl⟩ := List.mem_map.mp hc
  have htype := entity_of_mem_coalesced hnonempty (List.mem_map_of_mem hg)
  refine ⟨coalesced g, (mem_coalesce_same_entity hnonempty).mpr ⟨g, by rwa [htype], rfl⟩, ?_⟩
  rwa [members_coalesced hnonempty hg]

theorem logical_start_lt_stop (hnonempty : ∀ a ∈ distinct, a.start < a.stop) {logical : LogicalMatch}
    (hlogical : logical ∈ coalesce_same_entity distinct) : logical.start < logical.stop := by
  obtain ⟨hspan, ⟨a, ha⟩, -⟩ := members_spec hnonempty hlogical
  have hstart : logical.start ≤ a.start := hspan.start.2 ⟨a, ha, rfl⟩
  have hstop : a.stop ≤ logical.stop := hspan.stop.2 ⟨a, ha, rfl⟩
  have := hnonempty a ha.1
  omega

theorem logical_clusters_parts {logical : List LogicalMatch}
    (hnonempty : ∀ item ∈ logical, item.start < item.stop) :
    Parts LogicalMatch.spans {item | item ∈ logical} ((logical_clusters logical).map Cluster.set) := by
  have hset : {item | item ∈ logical} = {item | item ∈ sortOn resolve_key logical} := by
    ext item
    exact mem_sortOn.symm
  rw [hset]
  refine groups_parts ((sortOn_pairwise logical).imp ?_) (fun a ha => hnonempty a (mem_sortOn.mp ha)) (-1)
  intro a b hab
  exact Prod.Lex.monotone_fst _ _ hab

theorem mem_of_mem_logical_clusters {logical : List LogicalMatch}
    (hnonempty : ∀ item ∈ logical, item.start < item.stop) {g : Cluster LogicalMatch}
    (hg : g ∈ logical_clusters logical) {item : LogicalMatch} (hitem : item ∈ g.val) : item ∈ logical :=
  (logical_clusters_parts hnonempty).subset (List.mem_map_of_mem hg) hitem

/-- The two sweeps together find the components of the raw matches. -/
theorem component_parts (hnonempty : ∀ a ∈ distinct, a.start < a.stop) :
    Parts EntityMatch.spans {a | a ∈ distinct}
      ((logical_clusters (coalesce_same_entity distinct)).map (component distinct)) := by
  have hlogical : ∀ item ∈ coalesce_same_entity distinct, item.start < item.stop :=
    fun item hitem => logical_start_lt_stop hnonempty hitem
  have hcoarse := (logical_clusters_parts hlogical).coarsen (I := EntityMatch.spans)
    (s := {a | a ∈ distinct}) (members distinct) ?_ ?_ ?_ ?_ ?_
  · rw [List.map_map] at hcoarse
    exact hcoarse
  · intro a
    exact ⟨fun ha => exists_logical_of_mem hnonempty ha, fun ⟨_, _, ha⟩ => ha.1⟩
  · intro item hitem
    exact (members_spec hnonempty hitem).2.1
  · intro item hitem
    exact (members_spec hnonempty hitem).2.2
  · intro item _ a ha
    exact ha.2.2
  · intro item hitem p hp
    obtain ⟨hspan, -, hlinked⟩ := members_spec hnonempty hitem
    obtain ⟨first, hfirst, hfirst_start⟩ := hspan.start.1
    obtain ⟨last, hlast, hlast_stop⟩ := hspan.stop.1
    exact exists_mem_points hlinked hfirst hlast (hfirst_start.le.trans hp.1) (by
      change p < last.stop
      rw [hlast_stop]
      exact hp.2)

theorem resolve_group_regionOf (hnonempty : ∀ a ∈ distinct, a.start < a.stop)
    (strictness : String → Nat) {g : Cluster LogicalMatch}
    (hg : g ∈ logical_clusters (coalesce_same_entity distinct)) :
    RegionOf strictness (component distinct g) (resolve_group strictness g).1 := by
  have hlogical : ∀ item ∈ g.val, item ∈ coalesce_same_entity distinct := fun item hitem =>
    mem_of_mem_logical_clusters (fun item hitem => logical_start_lt_stop hnonempty hitem) hg hitem
  constructor
  · constructor
    · obtain ⟨item, hitem, hstart⟩ := (isLeast_groupStart LogicalMatch.spans g).1
      obtain ⟨a, ha, ha_start⟩ := (members_spec hnonempty (hlogical item hitem)).1.start.1
      exact ⟨a, ⟨item, hitem, ha⟩, ha_start.trans hstart⟩
    · rintro _ ⟨a, ⟨item, hitem, ha⟩, rfl⟩
      exact ((isLeast_groupStart LogicalMatch.spans g).2 ⟨item, hitem, rfl⟩).trans ha.2.2.1
  · constructor
    · obtain ⟨item, hitem, hstop⟩ := (isGreatest_groupStop LogicalMatch.spans g).1
      obtain ⟨a, ha, ha_stop⟩ := (members_spec hnonempty (hlogical item hitem)).1.stop.1
      exact ⟨a, ⟨item, hitem, ha⟩, ha_stop.trans hstop⟩
    · rintro _ ⟨a, ⟨item, hitem, ha⟩, rfl⟩
      exact ha.2.2.2.trans ((isGreatest_groupStop LogicalMatch.spans g).2 ⟨item, hitem, rfl⟩)
  · have hwinner := winner_mem strictness g
    obtain ⟨-, ⟨a, ha⟩, -⟩ := members_spec hnonempty (hlogical _ hwinner)
    exact ⟨a, ⟨_, hwinner, ha⟩, ha.2.1⟩
  · rintro a ⟨item, hitem, ha⟩
    rw [ha.2.1]
    exact strictness_le_winner strictness hitem

/-- A component holds two entity types exactly when its logical detections do. -/
theorem resolve_group_overlapped (hnonempty : ∀ a ∈ distinct, a.start < a.stop)
    (strictness : String → Nat) {g : Cluster LogicalMatch}
    (hg : g ∈ logical_clusters (coalesce_same_entity distinct)) [Decidable
      (∃ a ∈ component distinct g, ∃ b ∈ component distinct g, a.entity_type ≠ b.entity_type)] :
    (resolve_group strictness g).2 =
      if ∃ a ∈ component distinct g, ∃ b ∈ component distinct g, a.entity_type ≠ b.entity_type
      then 1 else 0 := by
  have hlogical : ∀ item ∈ g.val, item ∈ coalesce_same_entity distinct := fun item hitem =>
    mem_of_mem_logical_clusters (fun item hitem => logical_start_lt_stop hnonempty hitem) hg hitem
  have hcard : 1 < (UniqueList.ofList (g.val.map (·.entity_type))).card ↔
      ∃ a ∈ component distinct g, ∃ b ∈ component distinct g, a.entity_type ≠ b.entity_type := by
    rw [UniqueList.one_lt_card_iff]
    simp only [UniqueList.mem_ofList, List.mem_map]
    constructor
    · rintro ⟨_, ⟨first, hfirst, rfl⟩, _, ⟨second, hsecond, rfl⟩, hne⟩
      obtain ⟨-, ⟨a, ha⟩, -⟩ := members_spec hnonempty (hlogical first hfirst)
      obtain ⟨-, ⟨b, hb⟩, -⟩ := members_spec hnonempty (hlogical second hsecond)
      refine ⟨a, ⟨first, hfirst, ha⟩, b, ⟨second, hsecond, hb⟩, ?_⟩
      rwa [ha.2.1, hb.2.1]
    · rintro ⟨a, ⟨first, hfirst, ha⟩, b, ⟨second, hsecond, hb⟩, hne⟩
      refine ⟨_, ⟨first, hfirst, rfl⟩, _, ⟨second, hsecond, rfl⟩, ?_⟩
      rwa [ha.2.1, hb.2.1] at hne
  simp only [resolve_group, hcard]

end clusters

end pii_engine.planner
