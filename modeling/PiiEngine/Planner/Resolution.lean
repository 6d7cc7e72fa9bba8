import Mathlib.Data.Set.Card
import PiiEngine.Planner.Model
import PiiEngine.Planner.Regions

open checked collections intervals intervals.sweep

namespace pii_engine.planner

/-- The matches of one entity type, as a set. -/
def entitySet (items : List EntityMatch) (entity_type : String) : Set EntityMatch :=
  {a | a ∈ items ∧ a.entity_type = entity_type}

/-- A component that holds at least two entity types. -/
def Mixed (c : Set EntityMatch) : Prop := ∃ a ∈ c, ∃ b ∈ c, a.entity_type ≠ b.entity_type

/-- What overlap resolution returns, in terms of the components of the raw matches. -/
structure Resolved (strictness : String → Nat) (items logical effective : List EntityMatch)
    (overlap_count : Nat) : Prop where
  regions : ∃ components : List (Set EntityMatch), components.Nodup ∧
    (∀ c, c ∈ components ↔ EntityMatch.spans.IsComponent {a | a ∈ items} c) ∧
    List.Forall₂ (RegionOf strictness) components effective
  nonempty : ∀ region ∈ effective, region.start < region.stop
  disjoint : effective.Pairwise fun region later => region.stop ≤ later.start
  covered : ∀ p, (∃ region ∈ effective, p ∈ EntityMatch.spans.points region) ↔
    ∃ item ∈ items, p ∈ EntityMatch.spans.points item
  logical : ∀ entity_type, ∃ components : List (Set EntityMatch), components.Nodup ∧
    (∀ c, c ∈ components ↔ EntityMatch.spans.IsComponent (entitySet items entity_type) c) ∧
    List.Forall₂ SpanOf components (logical.filter fun item => item.entity_type = entity_type)
  overlap : overlap_count =
    Set.ncard {c | EntityMatch.spans.IsComponent {a | a ∈ items} c ∧ Mixed c}

theorem validate_spans_eq_ok {items : List EntityMatch} {text_length : Nat} :
    validate_spans items text_length = .ok () ↔ ∀ item ∈ items, item.Valid text_length := by
  rw [validate_spans, forM_eq_ok]
  refine forall₂_congr fun item _ => ?_
  rw [raiseIf_bind_eq_ok, raiseIf_eq_ok, not_not, EntityMatch.Valid, EntityMatch.SpanWithin]
  constructor
  · rintro ⟨hspan, hscore⟩
    exact ⟨by omega, hscore⟩
  · rintro ⟨⟨hstart, hlt, hstop⟩, hscore⟩
    exact ⟨by omega, hscore⟩

/-- With valid spans only a score can be rejected. -/
theorem validate_spans_eq_error {items : List EntityMatch} {text_length : Nat} {e : AnalysisError}
    (hspans : ∀ item ∈ items, item.SpanWithin text_length)
    (h : validate_spans items text_length = .error e) :
    e = .value_error "analyzer returned an invalid entity score" ∧ ∃ item ∈ items, ¬ item.ScoreValid := by
  obtain ⟨item, hitem, hfail⟩ := forM_eq_error h
  obtain ⟨hstart, hlt, hstop⟩ := hspans item hitem
  rw [raiseIf_bind_eq_error, raiseIf_eq_error] at hfail
  cases hfail with
  | inl hspan =>
    obtain ⟨hspan, -⟩ := hspan
    omega
  | inr hscore => exact ⟨hscore.2.2.symm, item, hitem, hscore.2.1⟩

section resolved
variable {items : List EntityMatch} (strictness : String → Nat)

private theorem points_region_iff {c : Set EntityMatch} {region : EntityMatch}
    (hregion : RegionOf strictness c region)
    (hlinked : ∀ a ∈ c, ∀ b ∈ c, EntityMatch.spans.Linked c a b) (p : Int) :
    p ∈ EntityMatch.spans.points region ↔ ∃ a ∈ c, p ∈ EntityMatch.spans.points a := by
  obtain ⟨⟨first, hfirst, hfirst_start⟩, hleast⟩ := hregion.start
  obtain ⟨⟨last, hlast, hlast_stop⟩, hgreatest⟩ := hregion.stop
  constructor
  · rintro ⟨hlower, hupper⟩
    refine exists_mem_points hlinked hfirst hlast (hfirst_start.le.trans hlower) ?_
    change p < last.stop
    rw [hlast_stop]
    exact hupper
  · rintro ⟨a, ha, hlower, hupper⟩
    exact ⟨(hleast ⟨a, ha, rfl⟩).trans hlower, hupper.trans_le (hgreatest ⟨a, ha, rfl⟩)⟩

private theorem region_before {c d : Set EntityMatch} {region later : EntityMatch}
    (hregion : RegionOf strictness c region) (hlater : RegionOf strictness d later)
    (hbefore : EntityMatch.spans.Before c d) : region.stop ≤ later.start := by
  obtain ⟨a, ha, hstop⟩ := hregion.stop.1
  obtain ⟨b, hb, hstart⟩ := hlater.start.1
  rw [← hstop, ← hstart]
  exact hbefore a ha b hb

private theorem region_nonempty {c : Set EntityMatch} {region : EntityMatch}
    (hregion : RegionOf strictness c region) (hnonempty : ∀ a ∈ c, a.start < a.stop) :
    region.start < region.stop := by
  obtain ⟨a, ha, -⟩ := hregion.entity_type
  have hstart : region.start ≤ a.start := hregion.start.2 ⟨a, ha, rfl⟩
  have hstop : a.stop ≤ region.stop := hregion.stop.2 ⟨a, ha, rfl⟩
  have := hnonempty a ha
  omega

/-- The number of clusters that count as overlapped is the number of mixed components. -/
private theorem sum_overlapped {distinct : List EntityMatch} (hnonempty : ∀ a ∈ distinct, a.start < a.stop) :
    (((logical_clusters (coalesce_same_entity distinct)).map (resolve_group strictness)).map Prod.snd).sum =
      Set.ncard {c | EntityMatch.spans.IsComponent {a | a ∈ distinct} c ∧ Mixed c} := by
  classical
  have hparts := component_parts hnonempty
  generalize hclusters : logical_clusters (coalesce_same_entity distinct) = clusters at hparts ⊢
  have hsum : ((clusters.map (resolve_group strictness)).map Prod.snd).sum =
      ((clusters.map (component distinct)).filter (fun c => Mixed c)).length := by
    have hvalue : ∀ g ∈ clusters,
        (resolve_group strictness g).2 = if Mixed (component distinct g) then 1 else 0 := by
      intro g hg
      exact resolve_group_overlapped hnonempty strictness (hclusters ▸ hg)
    clear hparts hclusters
    induction clusters with
    | nil => rfl
    | cons g clusters ih =>
      simp only [List.map_cons, List.sum_cons, List.filter_cons]
      rw [ih fun g' hg' => hvalue g' (by simp [hg']), hvalue g (by simp)]
      by_cases hmixed : Mixed (component distinct g) <;> simp [hmixed, Nat.add_comm]
  have hset : {c | EntityMatch.spans.IsComponent {a | a ∈ distinct} c ∧ Mixed c} =
      ((clusters.map (component distinct)).filter (fun c => Mixed c)).toFinset := by
    ext c
    simp [hparts.isComponent_iff]
  rw [hsum, hset, Set.ncard_coe_finset, List.toFinset_card_of_nodup]
  exact (hparts.nodup hnonempty).filter _

/-- The two sweeps return the components of the matches they are given. -/
theorem resolved_of_distinct (distinct : List EntityMatch) (hmem : ∀ a, a ∈ distinct ↔ a ∈ items)
    (hnonempty : ∀ a ∈ items, a.start < a.stop) :
    let logical := coalesce_same_entity distinct
    let resolved := (logical_clusters logical).map (resolve_group strictness)
    Resolved strictness items (logical.map LogicalMatch.as_entity_match) (resolved.map Prod.fst)
      (resolved.map Prod.snd).sum := by
  have hset : {a | a ∈ items} = {a | a ∈ distinct} := by
    ext a
    exact (hmem a).symm
  have hdistinct : ∀ a ∈ distinct, a.start < a.stop := fun a ha => hnonempty a ((hmem a).mp ha)
  have hparts := component_parts hdistinct
  have hregion : List.Forall₂ (RegionOf strictness)
      ((logical_clusters (coalesce_same_entity distinct)).map (component distinct))
      (((logical_clusters (coalesce_same_entity distinct)).map (resolve_group strictness)).map Prod.fst) := by
    rw [List.map_map, List.forall₂_map_left_iff, List.forall₂_map_right_iff, List.forall₂_same]
    exact fun g hg => resolve_group_regionOf hdistinct strictness hg
  constructor
  · refine ⟨_, hparts.nodup hdistinct, ?_, hregion⟩
    intro c
    rw [hset]
    exact (hparts.isComponent_iff c).symm
  · intro region hmem_region
    obtain ⟨_, hpair, rfl⟩ := List.mem_map.mp hmem_region
    obtain ⟨g, hg, rfl⟩ := List.mem_map.mp hpair
    refine region_nonempty strictness (resolve_group_regionOf hdistinct strictness hg) ?_
    exact fun a ha => hdistinct a (hparts.subset (List.mem_map_of_mem hg) ha)
  · have hbefore := hparts.before
    rw [List.map_map, List.pairwise_map]
    rw [List.pairwise_map] at hbefore
    refine (List.Pairwise.and_mem.mp hbefore).imp ?_
    rintro g h ⟨hg, hh, hgh⟩
    exact region_before strictness (resolve_group_regionOf hdistinct strictness hg)
      (resolve_group_regionOf hdistinct strictness hh) hgh
  · intro p
    constructor
    · rintro ⟨region, hmem_region, hp⟩
      obtain ⟨_, hpair, rfl⟩ := List.mem_map.mp hmem_region
      obtain ⟨g, hg, rfl⟩ := List.mem_map.mp hpair
      obtain ⟨a, ha, hpa⟩ := (points_region_iff strictness (resolve_group_regionOf hdistinct strictness hg)
        (hparts.linked _ (List.mem_map_of_mem hg)) p).mp hp
      exact ⟨a, (hmem a).mp (hparts.subset (List.mem_map_of_mem hg) ha), hpa⟩
    · rintro ⟨a, ha, hpa⟩
      obtain ⟨c, hc, hac⟩ := (hparts.mem_iff a).mp ((hmem a).mpr ha)
      obtain ⟨g, hg, rfl⟩ := List.mem_map.mp hc
      exact ⟨_, List.mem_map_of_mem (List.mem_map_of_mem hg),
        (points_region_iff strictness (resolve_group_regionOf hdistinct strictness hg)
          (hparts.linked _ hc) p).mpr ⟨a, hac, hpa⟩⟩
  · intro entity_type
    have hsub : ∀ a ∈ ofEntity distinct entity_type, a.start < a.stop :=
      fun a ha => hdistinct a (mem_ofEntity.mp ha).1
    have hentity : entitySet items entity_type = {a | a ∈ ofEntity distinct entity_type} := by
      ext a
      change a ∈ items ∧ a.entity_type = entity_type ↔ a ∈ ofEntity distinct entity_type
      rw [mem_ofEntity, hmem]
    have hgroups := entity_groups_parts hsub
    refine ⟨_, hgroups.nodup hsub, ?_, ?_⟩
    · intro c
      rw [hentity]
      exact (hgroups.isComponent_iff c).symm
    · have hfilter : ((coalesce_same_entity distinct).map LogicalMatch.as_entity_match).filter
            (fun item => item.entity_type = entity_type) =
          ((coalesce_same_entity distinct).filter (fun item => item.entity_type = entity_type)).map
            LogicalMatch.as_entity_match := by
        rw [List.filter_map]
        rfl
      rw [hfilter, filter_coalesce_same_entity hdistinct, List.map_map, List.forall₂_map_left_iff,
        List.forall₂_map_right_iff, List.forall₂_same]
      intro g hg
      exact coalesced_spanOf fun a ha => (mem_ofEntity.mp (mem_of_mem_entity_groups hsub hg ha)).2
  · rw [hset]
    exact sum_overlapped strictness hdistinct

end resolved

theorem resolve_matches_eq {strictness : String → Nat} {items : List EntityMatch} {text_length : Nat}
    (hvalid : ∀ item ∈ items, item.Valid text_length) :
    resolve_matches strictness items text_length =
      let logical := coalesce_same_entity items.dedup
      let resolved := (logical_clusters logical).map (resolve_group strictness)
      .ok (logical.map LogicalMatch.as_entity_match, resolved.map Prod.fst, (resolved.map Prod.snd).sum) := by
  rw [resolve_matches, validate_spans_eq_ok.mpr hvalid]
  rfl

/-- Accepted matches resolve to their components. -/
theorem resolve_matches_resolved {strictness : String → Nat} {items logical effective : List EntityMatch}
    {text_length overlap_count : Nat}
    (h : resolve_matches strictness items text_length = .ok (logical, effective, overlap_count)) :
    Resolved strictness items logical effective overlap_count ∧
      ∀ item ∈ items, item.Valid text_length := by
  have hvalid : ∀ item ∈ items, item.Valid text_length := by
    rw [resolve_matches, bind_eq_ok] at h
    obtain ⟨⟨⟩, hcheck, -⟩ := h
    exact validate_spans_eq_ok.mp hcheck
  have hresolved := resolved_of_distinct strictness items.dedup (fun a => List.mem_dedup)
    fun a ha => (hvalid a ha).1.2.1
  rw [resolve_matches_eq hvalid] at h
  simp only [Except.ok.injEq, Prod.mk.injEq] at h
  obtain ⟨rfl, rfl, rfl⟩ := h
  exact ⟨hresolved, hvalid⟩

/-- Overlap resolution is a function of the set of matches. -/
theorem resolve_matches_congr {strictness : String → Nat} {items other : List EntityMatch}
    {text_length : Nat} (hmem : ∀ a, a ∈ other ↔ a ∈ items)
    (hspans : ∀ item ∈ items, item.SpanWithin text_length) :
    resolve_matches strictness other text_length = resolve_matches strictness items text_length := by
  have hspans' : ∀ item ∈ other, item.SpanWithin text_length := fun a ha => hspans a ((hmem a).mp ha)
  cases hcheck : validate_spans items text_length with
  | ok =>
    have hvalid := validate_spans_eq_ok.mp hcheck
    have hperm : other.dedup.Perm items.dedup := by
      rw [List.perm_ext_iff_of_nodup (List.nodup_dedup _) (List.nodup_dedup _)]
      intro a
      rw [List.mem_dedup, List.mem_dedup, hmem]
    have hvalid' : ∀ a ∈ other, a.Valid text_length := fun a ha => hvalid a ((hmem a).mp ha)
    rw [resolve_matches_eq hvalid, resolve_matches_eq hvalid',
      coalesce_same_entity_congr hperm fun a ha => (hvalid' a (List.mem_dedup.mp ha)).2]
  | error e =>
    obtain ⟨rfl, item, hitem, hscore⟩ := validate_spans_eq_error hspans hcheck
    cases hcheck' : validate_spans other text_length with
    | ok =>
      exact absurd (validate_spans_eq_ok.mp hcheck' item ((hmem item).mpr hitem)).2 hscore
    | error e' =>
      obtain ⟨rfl, -⟩ := validate_spans_eq_error hspans' hcheck'
      rw [resolve_matches, resolve_matches, hcheck, hcheck']
      rfl

def chained_matches : List EntityMatch :=
  [⟨"EMAIL_ADDRESS", 7, 10, some (7 / 10), "rules"⟩, ⟨"EMAIL_ADDRESS", 0, 5, some (9 / 10), "rules"⟩,
    ⟨"IBAN", 3, 8, some (8 / 10), "rules"⟩, ⟨"EMAIL_ADDRESS", 7, 10, some (7 / 10), "rules"⟩]

/-- Overlap resolution returns exactly the connected components of the matches that share
    a character, and depends on the set of matches only: neither the order nor the
    repetitions of the list matter, nor the order in which the set of distinct matches is
    traversed. A list with valid spans can be rejected for an invalid score alone. -/
theorem ActionPlanner.resolve_matches_components (planner : ActionPlanner) (items : List EntityMatch)
    (text_length : Nat) (reroute_as_block : Bool)
    (hspans : ∀ item ∈ items, item.SpanWithin text_length) :
    (match planner.resolve_matches items text_length reroute_as_block with
      | .ok (logical, effective, overlap_count) =>
        Resolved (fun entity_type => (planner.effective_action entity_type reroute_as_block).1.strictness)
          items logical effective overlap_count
      | .error e => e = .value_error "analyzer returned an invalid entity score" ∧
          ∃ item ∈ items, ¬ item.ScoreValid) ∧
    (∀ other, (∀ a, a ∈ other ↔ a ∈ items) →
      planner.resolve_matches other text_length reroute_as_block =
        planner.resolve_matches items text_length reroute_as_block) ∧
    ∀ enumeration, enumeration.Nodup → (∀ a, a ∈ enumeration ↔ a ∈ items) →
      (∀ item ∈ items, item.ScoreValid) →
      coalesce_same_entity enumeration = coalesce_same_entity items.dedup := by
  refine ⟨?_, fun other hmem => resolve_matches_congr hmem hspans, ?_⟩
  · cases hresult : planner.resolve_matches items text_length reroute_as_block with
    | ok result => exact (resolve_matches_resolved hresult).1
    | error e =>
      rw [resolve_matches, planner.resolve_matches, bind_eq_error] at hresult
      cases hresult with
      | inl hcheck => exact validate_spans_eq_error hspans hcheck
      | inr hrest =>
        obtain ⟨_, -, hrest⟩ := hrest
        simp [pure, Except.pure] at hrest
  · intro enumeration hnodup hmem hscores
    refine coalesce_same_entity_congr ?_ fun a ha => hscores a ((hmem a).mp ha)
    rw [List.perm_ext_iff_of_nodup hnodup (List.nodup_dedup _)]
    intro a
    rw [List.mem_dedup, hmem]

/-- Three matches of two types that chain into one region, one of them repeated. -/
theorem ActionPlanner.resolve_matches_components_chained :
    (match ActionPlanner.test_planner.resolve_matches chained_matches 12 false with
      | .ok (logical, effective, overlap_count) =>
        Resolved (fun entity_type =>
            (ActionPlanner.test_planner.effective_action entity_type false).1.strictness)
          chained_matches logical effective overlap_count
      | .error e => e = .value_error "analyzer returned an invalid entity score" ∧
          ∃ item ∈ chained_matches, ¬ item.ScoreValid) ∧
    (∀ other, (∀ a, a ∈ other ↔ a ∈ chained_matches) →
      ActionPlanner.test_planner.resolve_matches other 12 false =
        ActionPlanner.test_planner.resolve_matches chained_matches 12 false) ∧
    ∀ enumeration, enumeration.Nodup → (∀ a, a ∈ enumeration ↔ a ∈ chained_matches) →
      (∀ item ∈ chained_matches, item.ScoreValid) →
      coalesce_same_entity enumeration = coalesce_same_entity chained_matches.dedup :=
  ActionPlanner.resolve_matches_components ActionPlanner.test_planner chained_matches 12 false
    (by decide)

example : ActionPlanner.test_planner.resolve_matches chained_matches 12 false =
    .ok ([⟨"EMAIL_ADDRESS", 0, 5, some (9 / 10), "rules"⟩, ⟨"IBAN", 3, 8, some (8 / 10), "rules"⟩,
        ⟨"EMAIL_ADDRESS", 7, 10, some (7 / 10), "rules"⟩],
      [⟨"IBAN", 0, 10, some (8 / 10), "rules"⟩], 1) := by decide +kernel

end pii_engine.planner
