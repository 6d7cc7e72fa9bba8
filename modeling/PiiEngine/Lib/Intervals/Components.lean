import Mathlib.Order.Bounds.Basic
import Mathlib.Order.Interval.Set.Basic
import Mathlib.Logic.Relation
import Mathlib.Data.Set.Card
import Mathlib.Tactic.Common

namespace intervals

section Components
variable {α τ : Type} [LinearOrder τ]

/-- Every item covers the half-open interval from its start to its stop. -/
structure Interval (α τ : Type) where
  start : α → τ
  stop : α → τ

variable (I : Interval α τ)

def Interval.points (a : α) : Set τ := Set.Ico (I.start a) (I.stop a)

/-- Two items meet when their intervals share at least one point. -/
def Interval.Meets (a b : α) : Prop := ∃ p, p ∈ I.points a ∧ p ∈ I.points b

/-- Every item of the first set stops no later than every item of the second starts. -/
def Interval.Before (c d : Set α) : Prop := ∀ a ∈ c, ∀ b ∈ d, I.stop a ≤ I.start b

/-- Two items are linked in a set when a chain of meeting members joins them. -/
def Interval.Linked (s : Set α) : α → α → Prop :=
  Relation.ReflTransGen fun a b => a ∈ s ∧ b ∈ s ∧ I.Meets a b

/-- A connected component of the meeting graph on a set. -/
def Interval.IsComponent (s c : Set α) : Prop := ∃ a ∈ s, c = {b | I.Linked s a b}

variable {I}

theorem Interval.Meets.symm {a b : α} (h : I.Meets a b) : I.Meets b a := by
  obtain ⟨p, ha, hb⟩ := h
  exact ⟨p, hb, ha⟩

theorem meets_of_start_mem {a b : α} (hb : I.start b < I.stop b) (hle : I.start a ≤ I.start b)
    (hlt : I.start b < I.stop a) : I.Meets a b :=
  ⟨I.start b, ⟨hle, hlt⟩, ⟨le_refl _, hb⟩⟩

theorem Interval.Meets.start_lt_stop {a b : α} (h : I.Meets a b) : I.start a < I.stop b := by
  obtain ⟨p, ha, hb⟩ := h
  exact lt_of_le_of_lt ha.1 hb.2

theorem Interval.Before.not_meets {c d : Set α} (h : I.Before c d) {a b : α} (ha : a ∈ c) (hb : b ∈ d) :
    ¬ I.Meets a b := by
  intro hmeets
  exact absurd (Interval.Meets.start_lt_stop (Interval.Meets.symm hmeets)) (not_lt.mpr (h a ha b hb))

theorem Interval.Linked.symm {s : Set α} {a b : α} (h : I.Linked s a b) : I.Linked s b a := by
  induction h with
  | refl => exact .refl
  | tail _ hstep ih => exact .head ⟨hstep.2.1, hstep.1, Interval.Meets.symm hstep.2.2⟩ ih

theorem Interval.Linked.mono {s t : Set α} (hsub : s ⊆ t) {a b : α} (h : I.Linked s a b) : I.Linked t a b :=
  Relation.ReflTransGen.mono (fun _ _ hstep => ⟨hsub hstep.1, hsub hstep.2.1, hstep.2.2⟩) _ _ h

theorem Interval.Linked.single {s : Set α} {a b : α} (ha : a ∈ s) (hb : b ∈ s) (h : I.Meets a b) :
    I.Linked s a b :=
  Relation.ReflTransGen.single ⟨ha, hb, h⟩

/-- A property that no meeting pair of members leaves holds along a whole chain. -/
theorem Interval.Linked.invariant {s : Set α} {p : α → Prop}
    (hstep : ∀ a ∈ s, ∀ b ∈ s, I.Meets a b → p a → p b) {a b : α} (h : I.Linked s a b) (ha : p a) :
    p b := by
  induction h with
  | refl => exact ha
  | tail _ hlast ih => exact hstep _ hlast.1 _ hlast.2.1 hlast.2.2 ih

theorem Interval.Linked.mem {s : Set α} {a b : α} (h : I.Linked s a b) (ha : a ∈ s) : b ∈ s :=
  Interval.Linked.invariant (p := (· ∈ s)) (fun _ _ _ hb _ _ => hb) h ha

theorem Interval.IsComponent.subset {s c : Set α} (h : I.IsComponent s c) : c ⊆ s := by
  obtain ⟨start, hstart, rfl⟩ := h
  intro a ha
  have hlinked : I.Linked s start a := ha
  exact Interval.Linked.mem hlinked hstart

theorem Interval.IsComponent.nonempty {s c : Set α} (h : I.IsComponent s c) : c.Nonempty := by
  obtain ⟨start, -, rfl⟩ := h
  exact ⟨start, Relation.ReflTransGen.refl⟩

theorem Interval.IsComponent.linked {s c : Set α} (h : I.IsComponent s c) {a b : α} (ha : a ∈ c) :
    b ∈ c ↔ I.Linked s a b := by
  obtain ⟨start, -, rfl⟩ := h
  have hlinked : I.Linked s start a := ha
  exact ⟨fun hb => (Interval.Linked.symm hlinked).trans hb, fun hb => hlinked.trans hb⟩

/-- A chain between members of a component stays inside it. -/
theorem Interval.IsComponent.linked_within {s c : Set α} (h : I.IsComponent s c) {a b : α} (ha : a ∈ c)
    (hb : b ∈ c) : I.Linked c a b := by
  have hchain : b ∈ c ∧ I.Linked c a b := by
    refine Interval.Linked.invariant (p := fun x => x ∈ c ∧ I.Linked c a x) ?_ ((h.linked ha).mp hb) ⟨ha, .refl⟩
    rintro x hx y hy hmeets ⟨hxc, hreach⟩
    have hyc : y ∈ c := (h.linked hxc).mpr (Interval.Linked.single hx hy hmeets)
    exact ⟨hyc, hreach.trans (Interval.Linked.single hxc hyc hmeets)⟩
  exact hchain.2

/-- Components with meeting members are one component. -/
theorem Interval.IsComponent.eq_of_meets {s c d : Set α} (hc : I.IsComponent s c) (hd : I.IsComponent s d)
    {a b : α} (ha : a ∈ c) (hb : b ∈ d) (hmeets : I.Meets a b) : c = d := by
  have hab : I.Linked s a b := Interval.Linked.single (hc.subset ha) (hd.subset hb) hmeets
  ext x
  rw [hc.linked ha, hd.linked hb]
  exact ⟨fun hx => (Interval.Linked.symm hab).trans hx, fun hx => hab.trans hx⟩

/-- A linked set covers the whole stretch from its first start to its last stop. -/
theorem exists_mem_points {c : Set α} (hlinked : ∀ a ∈ c, ∀ b ∈ c, I.Linked c a b) {first last : α}
    (hfirst : first ∈ c) (hlast : last ∈ c) {p : τ} (hlower : I.start first ≤ p)
    (hupper : p < I.stop last) : ∃ a ∈ c, p ∈ I.points a := by
  by_contra hnone
  push Not at hnone
  have houtside : ∀ a ∈ c, I.start a ≤ p → I.stop a ≤ p := by
    intro a ha hle
    by_contra hlt
    exact hnone a ha ⟨hle, not_le.mp hlt⟩
  have hleft : I.stop last ≤ p := by
    refine Interval.Linked.invariant (p := fun a => I.stop a ≤ p) ?_ (hlinked first hfirst last hlast)
      (houtside first hfirst hlower)
    intro a ha b hb hmeets hstop
    have hlt := Interval.Meets.start_lt_stop (Interval.Meets.symm hmeets)
    exact houtside b hb (hlt.le.trans hstop)
  exact absurd hupper (not_lt.mpr hleft)

/-- A partition of a set into linked parts that follow each other. -/
structure Parts (I : Interval α τ) (s : Set α) (parts : List (Set α)) : Prop where
  mem_iff : ∀ a, a ∈ s ↔ ∃ c ∈ parts, a ∈ c
  nonempty : ∀ c ∈ parts, c.Nonempty
  linked : ∀ c ∈ parts, ∀ a ∈ c, ∀ b ∈ c, I.Linked c a b
  before : parts.Pairwise I.Before

namespace Parts
variable {s : Set α} {parts : List (Set α)}

theorem subset (h : Parts I s parts) {c : Set α} (hc : c ∈ parts) : c ⊆ s :=
  fun a ha => (h.mem_iff a).mpr ⟨c, hc, ha⟩

theorem eq_of_meets (h : Parts I s parts) {c d : Set α} (hc : c ∈ parts) (hd : d ∈ parts) {a b : α}
    (ha : a ∈ c) (hb : b ∈ d) (hmeets : I.Meets a b) : c = d := by
  have hsymm : Std.Symm fun c d : Set α => ∀ a ∈ c, ∀ b ∈ d, ¬ I.Meets a b :=
    ⟨fun c d hcd a ha b hb hab => hcd b hb a ha (Interval.Meets.symm hab)⟩
  have hapart : parts.Pairwise fun c d => ∀ a ∈ c, ∀ b ∈ d, ¬ I.Meets a b :=
    h.before.imp fun hbefore a ha b hb => Interval.Before.not_meets hbefore ha hb
  by_contra hne
  exact hapart.forall hc hd hne a ha b hb hmeets

/-- Linked parts that follow each other are exactly the connected components. -/
theorem isComponent_iff (h : Parts I s parts) (c : Set α) : I.IsComponent s c ↔ c ∈ parts := by
  have hreach : ∀ d ∈ parts, ∀ a ∈ d, {b | I.Linked s a b} = d := by
    intro d hd a ha
    ext b
    constructor
    · intro hlinked
      refine Interval.Linked.invariant (p := (· ∈ d)) ?_ hlinked ha
      intro x _ y hy hmeets hxd
      obtain ⟨e, he, hye⟩ := (h.mem_iff y).mp hy
      exact h.eq_of_meets hd he hxd hye hmeets ▸ hye
    · intro hb
      exact Interval.Linked.mono (h.subset hd) (h.linked d hd a ha b hb)
  constructor
  · rintro ⟨a, ha, rfl⟩
    obtain ⟨d, hd, had⟩ := (h.mem_iff a).mp ha
    exact hreach d hd a had ▸ hd
  · intro hc
    obtain ⟨a, ha⟩ := h.nonempty c hc
    exact ⟨a, h.subset hc ha, (hreach c hc a ha).symm⟩

theorem nodup (h : Parts I s parts) (hnonempty : ∀ a ∈ s, I.start a < I.stop a) : parts.Nodup := by
  refine (List.Pairwise.and_mem.mp h.before).imp ?_
  rintro c d ⟨hc, -, hbefore⟩ rfl
  obtain ⟨a, ha⟩ := h.nonempty c hc
  exact absurd (hbefore a ha a ha) (not_le.mpr (hnonempty a (h.subset hc ha)))

end Parts

end Components

/-- Refining parts: the items of one level stand for linked, covering sets of a lower level. -/
theorem Parts.coarsen {α β τ : Type} [LinearOrder τ] {I : Interval α τ} {J : Interval β τ}
    {s : Set α} {t : Set β} {parts : List (Set β)} (h : Parts J t parts) (members : β → Set α)
    (hmem : ∀ a, a ∈ s ↔ ∃ b ∈ t, a ∈ members b)
    (hnonempty : ∀ b ∈ t, (members b).Nonempty)
    (hlinked : ∀ b ∈ t, ∀ a ∈ members b, ∀ a' ∈ members b, I.Linked (members b) a a')
    (hwithin : ∀ b ∈ t, ∀ a ∈ members b, J.start b ≤ I.start a ∧ I.stop a ≤ J.stop b)
    (hcover : ∀ b ∈ t, ∀ p ∈ J.points b, ∃ a ∈ members b, p ∈ I.points a) :
    Parts I s (parts.map fun c => {a | ∃ b ∈ c, a ∈ members b}) where
  mem_iff a := by
    rw [hmem]
    constructor
    · rintro ⟨b, hb, ha⟩
      obtain ⟨c, hc, hbc⟩ := (h.mem_iff b).mp hb
      exact ⟨_, List.mem_map_of_mem hc, b, hbc, ha⟩
    · rintro ⟨_, hd, ha⟩
      obtain ⟨c, hc, rfl⟩ := List.mem_map.mp hd
      obtain ⟨b, hb, ha⟩ := ha
      exact ⟨b, h.subset hc hb, ha⟩
  nonempty := by
    intro d hd
    obtain ⟨c, hc, rfl⟩ := List.mem_map.mp hd
    obtain ⟨b, hb⟩ := h.nonempty c hc
    obtain ⟨a, ha⟩ := hnonempty b (h.subset hc hb)
    exact ⟨a, b, hb, ha⟩
  linked := by
    intro d hd a ha a' ha'
    obtain ⟨c, hc, rfl⟩ := List.mem_map.mp hd
    obtain ⟨b, hb, ha⟩ := ha
    obtain ⟨b', hb', ha'⟩ := ha'
    have hsub : ∀ b ∈ c, members b ⊆ {a | ∃ b ∈ c, a ∈ members b} := fun b hb a ha => ⟨b, hb, ha⟩
    have hinside : ∀ b ∈ c, ∀ x ∈ members b, ∀ y ∈ members b,
        I.Linked {a | ∃ b ∈ c, a ∈ members b} x y := fun b hb x hx y hy =>
      Interval.Linked.mono (hsub b hb) (hlinked b (h.subset hc hb) x hx y hy)
    have hchain : ∀ y ∈ members b', I.Linked {a | ∃ b ∈ c, a ∈ members b} a y := by
      refine Interval.Linked.invariant (I := J)
        (p := fun b' => ∀ y ∈ members b', I.Linked {a | ∃ b ∈ c, a ∈ members b} a y) ?_
        (h.linked c hc b hb b' hb') (hinside b hb a ha)
      intro u hu v hv hmeets hreach y hy
      obtain ⟨p, hpu, hpv⟩ := hmeets
      obtain ⟨x, hx, hpx⟩ := hcover u (h.subset hc hu) p hpu
      obtain ⟨x', hx', hpx'⟩ := hcover v (h.subset hc hv) p hpv
      exact ((hreach x hx).trans (Interval.Linked.single (hsub u hu hx) (hsub v hv hx') ⟨p, hpx, hpx'⟩)).trans
        (hinside v hv x' hx' y hy)
    exact hchain a' ha'
  before := by
    rw [List.pairwise_map]
    refine (List.Pairwise.and_mem.mp h.before).imp ?_
    rintro c d ⟨hc, hd, hbefore⟩ a ⟨b, hb, ha⟩ a' ⟨b', hb', ha'⟩
    exact ((hwithin b (h.subset hc hb) a ha).2.trans (hbefore b hb b' hb')).trans
      (hwithin b' (h.subset hd hb') a' ha').1

end intervals
