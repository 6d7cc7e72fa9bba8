import PiiEngine.Planner.Matches

open collections intervals intervals.sweep

namespace pii_engine.planner

theorem isLeast_groupStart {α : Type} (I : Interval α Int) (g : Cluster α) :
    IsLeast (I.start '' g.set) (groupStart I g) := by
  constructor
  · obtain ⟨a, ha, hstart⟩ := List.mem_map.mp (List.min_mem (l := g.val.map I.start) (by simpa using g.property))
    exact ⟨a, ha, hstart⟩
  · rintro _ ⟨a, ha, rfl⟩
    exact List.min_le_of_mem (List.mem_map_of_mem ha)

theorem isGreatest_groupStop {α : Type} (I : Interval α Int) (g : Cluster α) :
    IsGreatest (I.stop '' g.set) (groupStop I g) := by
  constructor
  · obtain ⟨a, ha, hstop⟩ := List.mem_map.mp (List.max_mem (l := g.val.map I.stop) (by simpa using g.property))
    exact ⟨a, ha, hstop⟩
  · rintro _ ⟨a, ha, rfl⟩
    exact List.le_max_of_mem (List.mem_map_of_mem ha)

theorem owner_mem (g : Cluster EntityMatch) : owner g ∈ g.val := List.minOn_mem

theorem winner_mem (strictness : String → Nat) (g : Cluster LogicalMatch) :
    winner strictness g ∈ g.val := List.minOn_mem

theorem strictness_le_winner (strictness : String → Nat) {g : Cluster LogicalMatch}
    {item : LogicalMatch} (hitem : item ∈ g.val) :
    strictness item.entity_type ≤ strictness (winner strictness g).entity_type := by
  have hkey : winner_key strictness (winner strictness g) ≤ winner_key strictness item :=
    List.apply_minOn_le_of_mem hitem
  have hfirst := Prod.Lex.monotone_fst _ _ hkey
  simp only [winner_key, ofLex_toLex, neg_le_neg_iff, Nat.cast_le] at hfirst
  exact hfirst

/-- A logical detection spans its component, whose members share its entity type. -/
structure SpanOf (c : Set EntityMatch) (item : EntityMatch) : Prop where
  start : IsLeast (EntityMatch.start '' c) item.start
  stop : IsGreatest (EntityMatch.stop '' c) item.stop
  entity_type : ∀ a ∈ c, a.entity_type = item.entity_type

section entity_groups
variable {items : List EntityMatch}

theorem entity_groups_parts (hnonempty : ∀ a ∈ items, a.start < a.stop) :
    Parts EntityMatch.spans {a | a ∈ items} ((entity_groups items).map Cluster.set) := by
  have hset : {a | a ∈ items} = {a | a ∈ sortOn coalesce_key items} := by
    ext a
    exact mem_sortOn.symm
  rw [hset]
  refine groups_parts ((sortOn_pairwise items).imp ?_) (fun a ha => hnonempty a (mem_sortOn.mp ha)) (-1)
  intro a b hab
  exact Prod.Lex.monotone_fst _ _ hab

theorem mem_of_mem_entity_groups (hnonempty : ∀ a ∈ items, a.start < a.stop)
    {g : Cluster EntityMatch} (hg : g ∈ entity_groups items) {a : EntityMatch} (ha : a ∈ g.val) :
    a ∈ items :=
  (entity_groups_parts hnonempty).subset (List.mem_map_of_mem hg) ha

/-- The clusters of one entity type depend on the set of its matches only. -/
theorem entity_groups_congr {other : List EntityMatch} (hperm : items.Perm other)
    (hentity : ∀ a ∈ items, ∀ b ∈ items, a.entity_type = b.entity_type)
    (hscore : ∀ a ∈ items, a.ScoreValid) : entity_groups items = entity_groups other := by
  unfold entity_groups
  rw [sortOn_eq_of_perm hperm]
  intro a ha b hb hkey
  obtain ⟨_, ha_score, -⟩ := hscore a ha
  obtain ⟨_, hb_score, -⟩ := hscore b hb
  have htype := hentity a ha b hb
  obtain ⟨_, _, _, _, _⟩ := a
  obtain ⟨_, _, _, _, _⟩ := b
  simp only [coalesce_key, scoreKey, EmbeddingLike.apply_eq_iff_eq, Prod.mk.injEq, neg_inj] at *
  obtain ⟨rfl, rfl, hscores, rfl⟩ := hkey
  subst ha_score hb_score htype
  simpa using hscores

theorem coalesced_spanOf {entity_type : String} {g : Cluster EntityMatch}
    (hentity : ∀ a ∈ g.val, a.entity_type = entity_type) :
    SpanOf g.set (coalesced g).as_entity_match where
  start := isLeast_groupStart EntityMatch.spans g
  stop := isGreatest_groupStop EntityMatch.spans g
  entity_type a ha := (hentity a ha).trans (hentity _ (owner_mem g)).symm

theorem coalesced_before {g h : Cluster EntityMatch} (hbefore : EntityMatch.spans.Before g.set h.set) :
    (coalesced g).stop ≤ (coalesced h).start := by
  obtain ⟨a, ha, hstop⟩ := (isGreatest_groupStop EntityMatch.spans g).1
  obtain ⟨b, hb, hstart⟩ := (isLeast_groupStart EntityMatch.spans h).1
  calc (coalesced g).stop = EntityMatch.spans.stop a := hstop.symm
    _ ≤ EntityMatch.spans.start b := hbefore a ha b hb
    _ = (coalesced h).start := hstart

theorem coalesced_start_lt_stop {g : Cluster EntityMatch} (hnonempty : ∀ a ∈ g.val, a.start < a.stop) :
    (coalesced g).start < (coalesced g).stop := by
  have howner := owner_mem g
  have hstart : (coalesced g).start ≤ (owner g).start :=
    (isLeast_groupStart EntityMatch.spans g).2 ⟨owner g, howner, rfl⟩
  have hstop : (owner g).stop ≤ (coalesced g).stop :=
    (isGreatest_groupStop EntityMatch.spans g).2 ⟨owner g, howner, rfl⟩
  have := hnonempty _ howner
  omega

theorem coalesced_entity_groups_pairwise (hnonempty : ∀ a ∈ items, a.start < a.stop) :
    ((entity_groups items).map coalesced).Pairwise fun a b => a.stop ≤ b.start := by
  have hbefore := (entity_groups_parts hnonempty).before
  rw [List.pairwise_map] at hbefore ⊢
  exact hbefore.imp fun h => coalesced_before h

end entity_groups

section coalesce
variable {distinct : List EntityMatch}

/-- The matches of one entity type. -/
def ofEntity (items : List EntityMatch) (entity_type : String) : List EntityMatch :=
  items.filter fun item => item.entity_type = entity_type

theorem filter_eq_ofEntity (items : List EntityMatch) (entity_type : String) :
    items.filter (fun item => item.entity_type = entity_type) = ofEntity items entity_type := rfl

theorem mem_ofEntity {items : List EntityMatch} {entity_type : String} {a : EntityMatch} :
    a ∈ ofEntity items entity_type ↔ a ∈ items ∧ a.entity_type = entity_type := by
  simp [ofEntity]

private theorem flatMap_single {α : Type} {keys : List String} (hnodup : keys.Nodup) (key : String)
    (f : String → List α) (hempty : key ∉ keys → f key = []) :
    (keys.flatMap fun other => if other = key then f other else []) = f key := by
  induction keys with
  | nil => simpa using (hempty (by simp)).symm
  | cons other keys ih =>
    rw [List.nodup_cons] at hnodup
    rw [List.flatMap_cons]
    by_cases hother : other = key
    · subst hother
      have hrest : (keys.flatMap fun k => if k = other then f k else []) = [] := by
        rw [List.flatMap_eq_nil_iff]
        intro k hk
        rw [if_neg]
        rintro rfl
        exact hnodup.1 hk
      rw [if_pos rfl, hrest, List.append_nil]
    · rw [if_neg hother, List.nil_append]
      refine ih hnodup.2 fun hkey => hempty ?_
      simp [hkey, Ne.symm hother]

theorem entity_of_mem_coalesced {entity_type : String}
    (hnonempty : ∀ a ∈ distinct, a.start < a.stop) {item : LogicalMatch}
    (hitem : item ∈ (entity_groups (ofEntity distinct entity_type)).map coalesced) :
    item.entity_type = entity_type := by
  obtain ⟨g, hg, rfl⟩ := List.mem_map.mp hitem
  have hsub : ∀ a ∈ ofEntity distinct entity_type, a.start < a.stop :=
    fun a ha => hnonempty a (mem_ofEntity.mp ha).1
  exact (mem_ofEntity.mp (mem_of_mem_entity_groups hsub hg (owner_mem g))).2

/-- The logical detections of one entity type are its clusters, in order. -/
theorem filter_coalesce_same_entity (hnonempty : ∀ a ∈ distinct, a.start < a.stop)
    (entity_type : String) :
    (coalesce_same_entity distinct).filter (fun item => item.entity_type = entity_type) =
      (entity_groups (ofEntity distinct entity_type)).map coalesced := by
  have hsub : ∀ e, ∀ a ∈ ofEntity distinct e, a.start < a.stop :=
    fun e a ha => hnonempty a (mem_ofEntity.mp ha).1
  have hperm : ((coalesce_same_entity distinct).filter (fun item => item.entity_type = entity_type)).Perm
      ((entity_groups (ofEntity distinct entity_type)).map coalesced) := by
    unfold coalesce_same_entity
    refine ((sortOn_perm _).filter _).trans (List.Perm.of_eq ?_)
    simp only [OrderedDict.getD_groupBy, List.filter_flatMap, filter_eq_ofEntity]
    have hkeys : (sortOn id (OrderedDict.groupBy EntityMatch.entity_type distinct).keys).Nodup :=
      (sortOn_perm _).nodup_iff.mpr (OrderedDict.keys_nodup _)
    rw [← flatMap_single hkeys entity_type fun e => (entity_groups (ofEntity distinct e)).map coalesced]
    · refine List.flatMap_congr ?_
      intro e _
      split
      · next h =>
        rw [List.filter_eq_self]
        intro item hitem
        simpa [h] using entity_of_mem_coalesced hnonempty hitem
      · next h =>
        rw [List.filter_eq_nil_iff]
        intro item hitem
        simpa [entity_of_mem_coalesced hnonempty hitem] using h
    · intro hkey
      have hnone : ofEntity distinct entity_type = [] := by
        rw [ofEntity, List.filter_eq_nil_iff]
        intro a ha htype
        exact hkey (mem_sortOn.mpr (OrderedDict.mem_keys_groupBy.mpr ⟨a, ha, by simpa using htype⟩))
      rw [hnone]
      rfl
  have hpairwise := coalesced_entity_groups_pairwise (hsub entity_type)
  have hordered : ∀ item ∈ (entity_groups (ofEntity distinct entity_type)).map coalesced,
      item.start < item.stop := by
    intro item hitem
    obtain ⟨g, hg, rfl⟩ := List.mem_map.mp hitem
    exact coalesced_start_lt_stop fun a ha => hsub _ a (mem_of_mem_entity_groups (hsub _) hg ha)
  have hsorted : ((coalesce_same_entity distinct).filter (fun item => item.entity_type = entity_type)).Pairwise
      fun a b => logical_key a ≤ logical_key b := (sortOn_pairwise _).filter _
  refine hperm.eq_of_pairwise ?_ hsorted ?_
  · intro a b ha hb hab hba
    by_contra hne
    have hstart : a.start = b.start := le_antisymm (Prod.Lex.monotone_fst _ _ hab) (Prod.Lex.monotone_fst _ _ hba)
    have hsymm : Std.Symm fun a b : LogicalMatch => a.stop ≤ b.start ∨ b.stop ≤ a.start :=
      ⟨fun _ _ h => h.symm⟩
    have happart := (hpairwise.imp (S := fun a b : LogicalMatch => a.stop ≤ b.start ∨ b.stop ≤ a.start)
      fun h => Or.inl h).forall (hperm.mem_iff.mp ha) hb hne
    have ha_lt := hordered a (hperm.mem_iff.mp ha)
    have hb_lt := hordered b hb
    omega
  · refine (List.Pairwise.and_mem.mp hpairwise).imp ?_
    rintro a b ⟨ha, -, hab⟩
    rw [logical_key, logical_key, Prod.Lex.toLex_le_toLex]
    have := hordered a ha
    exact Or.inl (by show a.start < b.start; omega)

theorem mem_coalesce_same_entity (hnonempty : ∀ a ∈ distinct, a.start < a.stop) {item : LogicalMatch} :
    item ∈ coalesce_same_entity distinct ↔
      ∃ g ∈ entity_groups (ofEntity distinct item.entity_type), item = coalesced g := by
  have hfilter : item ∈ coalesce_same_entity distinct ↔
      item ∈ (coalesce_same_entity distinct).filter (fun other => other.entity_type = item.entity_type) := by
    simp
  rw [hfilter, filter_coalesce_same_entity hnonempty, List.mem_map]
  simp only [eq_comm]

/-- The logical detections depend on the set of matches only, not on the order in
    which the set yields them. -/
theorem coalesce_same_entity_congr {other : List EntityMatch} (hperm : distinct.Perm other)
    (hscore : ∀ a ∈ distinct, a.ScoreValid) :
    coalesce_same_entity distinct = coalesce_same_entity other := by
  unfold coalesce_same_entity
  have hkeys : sortOn id (OrderedDict.groupBy EntityMatch.entity_type distinct).keys =
      sortOn id (OrderedDict.groupBy EntityMatch.entity_type other).keys := by
    refine sortOn_eq_of_perm ?_ fun _ _ _ _ h => h
    rw [List.perm_ext_iff_of_nodup (OrderedDict.keys_nodup _) (OrderedDict.keys_nodup _)]
    intro e
    simp only [OrderedDict.mem_keys_groupBy, hperm.mem_iff]
  simp only [OrderedDict.getD_groupBy, hkeys]
  congr 1
  refine List.flatMap_congr ?_
  intro e _
  rw [entity_groups_congr (hperm.filter _)]
  · intro a ha b hb
    simp only [List.mem_filter, decide_eq_true_eq] at ha hb
    exact ha.2.trans hb.2.symm
  · intro a ha
    exact hscore a (List.mem_filter.mp ha).1

end coalesce

end pii_engine.planner
