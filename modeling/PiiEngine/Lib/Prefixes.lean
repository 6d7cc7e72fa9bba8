import Mathlib.Data.List.Infix
import Mathlib.Tactic.Common

namespace prefixes
variable {α : Type}

theorem append_singleton_prefix (path : List α) (part : α) (rest : List α) : path ++ [part] <+: path ++ part :: rest :=
  ⟨rest, (List.append_cons path part rest).symm⟩

/-- Neither of two paths leads through the other. -/
def Apart (p q : List α) : Prop := ¬ p <+: q ∧ ¬ q <+: p

theorem Apart.ne {p q : List α} (h : Apart p q) : p ≠ q := by
  rintro rfl
  exact h.1 (List.prefix_refl p)

/-- Paths that lead through paths apart are apart. -/
theorem Apart.below {p q p' q' : List α} (h : Apart p q) (hp : p <+: p') (hq : q <+: q') : Apart p' q' := by
  constructor
  · intro hpre
    cases List.prefix_or_prefix_of_prefix (hp.trans hpre) hq with
    | inl hpq => exact h.1 hpq
    | inr hqp => exact h.2 hqp
  · intro hpre
    cases List.prefix_or_prefix_of_prefix hp (hq.trans hpre) with
    | inl hpq => exact h.1 hpq
    | inr hqp => exact h.2 hqp

/-- Paths that part ways at some point are apart. -/
theorem apart_of_ne (path : List α) {p q : List α} {a b : α} (hne : a ≠ b) (hp : path ++ [a] <+: p)
    (hq : path ++ [b] <+: q) :
    Apart p q := by
  have hclash {p q : List α} {a b : α} (hne : a ≠ b) (hp : path ++ [a] <+: p) (hq : path ++ [b] <+: q) : ¬ p <+: q := by
    intro hpq
    have hboth := List.prefix_of_prefix_length_le (hp.trans hpq) hq (by simp)
    have heq : path ++ [a] = path ++ [b] := hboth.eq_of_length (by simp)
    rw [List.append_cancel_left_eq, List.singleton_inj] at heq
    exact hne heq
  exact ⟨hclash hne hp hq, hclash hne.symm hq hp⟩

/-- Some paths all lead through one. -/
def Below (path : List α) (paths : List (List α)) : Prop := ∀ p ∈ paths, path <+: p

/-- No path of a list leads through another. -/
def Antichain (paths : List (List α)) : Prop := paths.Pairwise Apart

theorem Antichain.nil : Antichain ([] : List (List α)) := List.Pairwise.nil

theorem Antichain.singleton (path : List α) : Antichain [path] := List.pairwise_singleton _ _

theorem Antichain.nodup {paths : List (List α)} (h : Antichain paths) : paths.Nodup :=
  h.imp fun hapart => hapart.ne

/-- A path of an antichain leads through no other of it. -/
theorem Antichain.eq_of_prefix {paths : List (List α)} (h : Antichain paths) {p q : List α} (hp : p ∈ paths)
    (hq : q ∈ paths) (hpre : p <+: q) : p = q := by
  induction paths with
  | nil => cases hp
  | cons first paths ih =>
    rw [Antichain, List.pairwise_cons] at h
    rw [List.mem_cons] at hp hq
    obtain rfl | hp := hp
    · obtain rfl | hq := hq
      · rfl
      · exact absurd hpre (h.1 q hq).1
    · obtain rfl | hq := hq
      · exact absurd hpre (h.1 p hp).2
      · exact ih h.2 hp hq

/-- Antichains below different parts of a path are one antichain. -/
theorem antichain_flatMap {ι : Type} (path : List α) {items : List ι} (part : ι → α) {f : ι → List (List α)}
    (hparts : (items.map part).Nodup) (hbelow : ∀ item ∈ items, Below (path ++ [part item]) (f item))
    (hchains : ∀ item ∈ items, Antichain (f item)) : Antichain (items.flatMap f) := by
  rw [Antichain, List.pairwise_flatMap]
  refine ⟨hchains, ?_⟩
  have hne : items.Pairwise fun first second => part first ≠ part second := List.pairwise_map.mp hparts
  refine hne.imp_of_mem fun hfirst hsecond hne p hp q hq => ?_
  exact apart_of_ne path hne (hbelow _ hfirst p hp) (hbelow _ hsecond q hq)

end prefixes
