import PiiEngine.Lib.Intervals.Components

open intervals

namespace intervals.sweep
variable {α τ : Type} [LinearOrder τ]

/-- A run of items handed on together, never empty. -/
abbrev Cluster (α : Type) := { members : List α // members ≠ [] }

structure State (α τ : Type) where
  flushed : List (Cluster α)
  group : List α
  group_end : τ

def State.flush (s : State α τ) : State α τ :=
  if h : s.group ≠ [] then { s with flushed := s.flushed ++ [⟨s.group, h⟩], group := [] } else s

/-- One turn of the loop: close the group when the item starts at or after its end,
    then append the item and advance the end. -/
def advance (I : Interval α τ) (s : State α τ) (item : α) : State α τ :=
  let s := if s.group ≠ [] ∧ s.group_end ≤ I.start item then s.flush else s
  let group := s.group ++ [item]
  { s with
    group
    group_end := max (if 1 < group.length then s.group_end else I.stop item) (I.stop item) }

/-- Cluster a list by the single pass over its items. -/
def groups (I : Interval α τ) (initial : τ) (items : List α) : List (Cluster α) :=
  (items.foldl (advance I) ⟨[], [], initial⟩).flush.flushed

def Cluster.set (g : Cluster α) : Set α := {a | a ∈ g.val}

@[simp] theorem Cluster.mem_set {g : Cluster α} {a : α} : a ∈ g.set ↔ a ∈ g.val := Iff.rfl

def LinkedList (I : Interval α τ) (items : List α) : Prop :=
  ∀ a ∈ items, ∀ b ∈ items, I.Linked {x | x ∈ items} a b

/-- What the pass knows after a prefix of the items. -/
structure Progress (I : Interval α τ) (done : List α) (s : State α τ) : Prop where
  items : (s.flushed.map Subtype.val).flatten ++ s.group = done
  empty : s.group = [] → s.flushed = []
  linked : ∀ g ∈ s.flushed, LinkedList I g.val
  group_linked : LinkedList I s.group
  group_end : s.group ≠ [] → (∃ a ∈ s.group, I.stop a = s.group_end) ∧ ∀ a ∈ s.group, I.stop a ≤ s.group_end
  before : s.flushed.Pairwise fun g h => I.Before g.set h.set
  group_before : ∀ g ∈ s.flushed, I.Before g.set {a | a ∈ s.group}

variable {I : Interval α τ}

theorem LinkedList.singleton (a : α) : LinkedList I [a] := by
  intro x hx y hy
  rw [List.mem_singleton.mp hx, List.mem_singleton.mp hy]
  exact .refl

theorem LinkedList.append_singleton {items : List α} {item last : α} (h : LinkedList I items)
    (hlast : last ∈ items) (hmeets : I.Meets last item) : LinkedList I (items ++ [item]) := by
  have hsub : {x | x ∈ items} ⊆ {x | x ∈ items ++ [item]} := by
    intro x hx
    exact List.mem_append_left _ hx
  have hlink : ∀ x ∈ items ++ [item], I.Linked {x | x ∈ items ++ [item]} last x := by
    intro x hx
    rcases List.mem_append.mp hx with hx | hx
    · exact Interval.Linked.mono hsub (h last hlast x hx)
    · rw [List.mem_singleton.mp hx]
      exact Interval.Linked.single (hsub hlast) (by simp) hmeets
  exact fun x hx y hy => (Interval.Linked.symm (hlink x hx)).trans (hlink y hy)

theorem progress_initial (initial : τ) : Progress I [] (⟨[], [], initial⟩ : State α τ) where
  items := rfl
  empty _ := rfl
  linked := by simp
  group_linked := by intro a ha; simp at ha
  group_end h := absurd rfl h
  before := List.Pairwise.nil
  group_before := by simp

/-- Opening a fresh group with an item keeps the progress when everything flushed stops before it. -/
private theorem progress_open {done : List α} {flushed : List (Cluster α)} {item : α}
    (hitems : (flushed.map Subtype.val).flatten = done) (hlinked : ∀ g ∈ flushed, LinkedList I g.val)
    (hbefore : flushed.Pairwise fun g h => I.Before g.set h.set)
    (hclosed : ∀ g ∈ flushed, ∀ a ∈ g.val, I.stop a ≤ I.start item) :
    Progress I (done ++ [item]) ⟨flushed, [item], I.stop item⟩ where
  items := by rw [hitems]
  empty h := by simp at h
  linked := hlinked
  group_linked := LinkedList.singleton item
  group_end _ := by simp
  before := hbefore
  group_before g hg a ha b hb := by
    rw [List.mem_singleton.mp hb]
    exact hclosed g hg a ha

/-- One item keeps the progress when items arrive by ascending start. -/
theorem Progress.advance {done : List α} {s : State α τ} (h : Progress I done s) {item : α}
    (hsorted : ∀ a ∈ done, I.start a ≤ I.start item) (hitem : I.start item < I.stop item) :
    Progress I (done ++ [item]) (advance I s item) := by
  obtain ⟨flushed, group, group_end⟩ := s
  obtain ⟨hitems, hempty, hlinked, hgroup, hend, hbefore, hgroup_before⟩ := h
  simp only at hitems hempty hlinked hgroup hend hbefore hgroup_before
  by_cases hnil : group = []
  · subst hnil
    obtain rfl := hempty rfl
    have hadvance : sweep.advance I ⟨[], [], group_end⟩ item = ⟨[], [item], I.stop item⟩ := by
      simp [sweep.advance]
    rw [hadvance]
    exact progress_open (by simpa using hitems) hlinked hbefore (by simp)
  · obtain ⟨⟨last, hlast, hstop⟩, hmax⟩ := hend hnil
    have hdone : ∀ a ∈ group, I.start a ≤ I.start item := by
      intro a ha
      exact hsorted a (hitems ▸ List.mem_append_right _ ha)
    have hclosed : ∀ g ∈ flushed, ∀ a ∈ g.val, I.stop a ≤ I.start item := by
      intro g hg a ha
      exact (hgroup_before g hg a ha last hlast).trans (hdone last hlast)
    by_cases hflush : group_end ≤ I.start item
    · have hadvance : sweep.advance I ⟨flushed, group, group_end⟩ item =
          ⟨flushed ++ [⟨group, hnil⟩], [item], I.stop item⟩ := by
        simp [sweep.advance, State.flush, hnil, hflush]
      rw [hadvance]
      refine progress_open (by simpa using hitems) ?_ ?_ ?_
      · intro g hg
        rcases List.mem_append.mp hg with hg | hg
        · exact hlinked g hg
        · rw [List.mem_singleton.mp hg]
          exact hgroup
      · rw [List.pairwise_append]
        refine ⟨hbefore, List.pairwise_singleton _ _, ?_⟩
        intro g hg g' hg'
        rw [List.mem_singleton.mp hg']
        exact hgroup_before g hg
      · intro g hg a ha
        rcases List.mem_append.mp hg with hg | hg
        · exact hclosed g hg a ha
        · rw [List.mem_singleton.mp hg] at ha
          exact (hmax a ha).trans hflush
    · have hadvance : sweep.advance I ⟨flushed, group, group_end⟩ item =
          ⟨flushed, group ++ [item], max group_end (I.stop item)⟩ := by
        have hlength : 0 < group.length := List.length_pos_iff.mpr hnil
        simp [sweep.advance, hflush, hlength]
      rw [hadvance]
      have hmeets : I.Meets last item :=
        meets_of_start_mem hitem (hdone last hlast) (by rw [hstop]; exact not_le.mp hflush)
      refine ⟨by rw [← hitems]; simp, by simp, hlinked, hgroup.append_singleton hlast hmeets, ?_, hbefore, ?_⟩
      · intro _
        refine ⟨?_, ?_⟩
        · rcases le_total group_end (I.stop item) with hle | hle
          · exact ⟨item, by simp, by simp [hle]⟩
          · exact ⟨last, by simp [hlast], by simp [hle, hstop]⟩
        · intro a ha
          rcases List.mem_append.mp ha with ha | ha
          · exact le_max_of_le_left (hmax a ha)
          · rw [List.mem_singleton.mp ha]
            exact le_max_right _ _
      · intro g hg a ha b hb
        rcases List.mem_append.mp hb with hb | hb
        · exact hgroup_before g hg a ha b hb
        · rw [List.mem_singleton.mp hb]
          exact hclosed g hg a ha

theorem Progress.foldl {done rest : List α} {s : State α τ} (h : Progress I done s)
    (hsorted : (done ++ rest).Pairwise fun a b => I.start a ≤ I.start b)
    (hrest : ∀ a ∈ rest, I.start a < I.stop a) :
    Progress I (done ++ rest) (rest.foldl (sweep.advance I) s) := by
  induction rest generalizing done s with
  | nil => simpa using h
  | cons item rest ih =>
    have hitem : ∀ a ∈ done, I.start a ≤ I.start item := by
      intro a ha
      exact (List.pairwise_append.mp hsorted).2.2 a ha item (by simp)
    have hnext := ih (h.advance hitem (hrest item (by simp))) (by simpa using hsorted)
      fun a ha => hrest a (List.mem_cons_of_mem _ ha)
    simpa using hnext

private theorem progress_groups (initial : τ) {items : List α}
    (hsorted : items.Pairwise fun a b => I.start a ≤ I.start b)
    (hnonempty : ∀ a ∈ items, I.start a < I.stop a) :
    Progress I items (items.foldl (sweep.advance I) ⟨[], [], initial⟩) := by
  have hprogress := (progress_initial (I := I) initial).foldl hsorted hnonempty
  rwa [List.nil_append] at hprogress

/-- The groups contain every item once, in order. -/
theorem groups_flatten {items : List α} (hsorted : items.Pairwise fun a b => I.start a ≤ I.start b)
    (hnonempty : ∀ a ∈ items, I.start a < I.stop a) (initial : τ) :
    ((groups I initial items).map Subtype.val).flatten = items := by
  have hprogress := progress_groups (I := I) initial hsorted hnonempty
  unfold groups State.flush
  split
  · simpa using hprogress.items
  · next h =>
    simpa [not_not.mp h] using hprogress.items

/-- The groups of a list sorted by start are the connected components, in order. -/
theorem groups_parts {items : List α} (hsorted : items.Pairwise fun a b => I.start a ≤ I.start b)
    (hnonempty : ∀ a ∈ items, I.start a < I.stop a) (initial : τ) :
    Parts I {a | a ∈ items} ((groups I initial items).map Cluster.set) where
  mem_iff a := by
    have hflatten := groups_flatten hsorted hnonempty initial
    constructor
    · intro (ha : a ∈ items)
      rw [← hflatten] at ha
      simpa using ha
    · intro ha
      change a ∈ items
      rw [← hflatten]
      simpa using ha
  nonempty := by
    intro c hc
    obtain ⟨g, -, rfl⟩ := List.mem_map.mp hc
    obtain ⟨a, ha⟩ := List.exists_mem_of_ne_nil _ g.property
    exact ⟨a, ha⟩
  linked := by
    have hprogress := progress_groups (I := I) initial hsorted hnonempty
    intro c hc
    obtain ⟨g, hg, rfl⟩ := List.mem_map.mp hc
    unfold groups State.flush at hg
    split at hg
    · rcases List.mem_append.mp hg with hg | hg
      · exact hprogress.linked g hg
      · rw [List.mem_singleton.mp hg]
        exact hprogress.group_linked
    · exact hprogress.linked g hg
  before := by
    have hprogress := progress_groups (I := I) initial hsorted hnonempty
    rw [List.pairwise_map]
    unfold groups State.flush
    split
    · rw [List.pairwise_append]
      refine ⟨hprogress.before, List.pairwise_singleton _ _, ?_⟩
      intro g hg g' hg'
      rw [List.mem_singleton.mp hg']
      exact hprogress.group_before g hg
    · exact hprogress.before

end intervals.sweep
