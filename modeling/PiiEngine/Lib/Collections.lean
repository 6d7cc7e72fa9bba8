import Mathlib.Algebra.GroupWithZero.Nat
import Mathlib.Data.List.Sort
import Mathlib.Data.List.Dedup
import Mathlib.Data.List.Perm.Basic
import Mathlib.Tactic.Common

namespace collections

/-- Stable sort by a key, smallest key first. -/
def sortOn {α β : Type} [LE β] [DecidableLE β] (key : α → β) (items : List α) : List α :=
  items.insertionSort (fun a b => key a ≤ key b)

section sortOn
variable {α β : Type} [LinearOrder β] {key : α → β}

theorem sortOn_perm (items : List α) : (sortOn key items).Perm items :=
  List.perm_insertionSort _ items

@[simp] theorem mem_sortOn {items : List α} {a : α} : a ∈ sortOn key items ↔ a ∈ items :=
  List.mem_insertionSort _

@[simp] theorem length_sortOn (items : List α) : (sortOn key items).length = items.length :=
  List.length_insertionSort _ items

@[simp] theorem sortOn_eq_nil {items : List α} : sortOn key items = [] ↔ items = [] := by
  rw [← List.length_eq_zero_iff, length_sortOn, List.length_eq_zero_iff]

theorem sortOn_pairwise (items : List α) :
    (sortOn key items).Pairwise (fun a b => key a ≤ key b) := by
  have : Std.Total (fun a b : α => key a ≤ key b) := ⟨fun a b => le_total (key a) (key b)⟩
  have : IsTrans α (fun a b => key a ≤ key b) := ⟨fun _ _ _ => le_trans⟩
  exact List.pairwise_insertionSort _ items

theorem sortOn_eq_self {items : List α} (hsorted : items.Pairwise (fun a b => key a ≤ key b)) :
    sortOn key items = items :=
  hsorted.insertionSort_eq

/-- A key that separates the elements makes the sorted list independent of the
    order in which they arrive. -/
theorem sortOn_eq_of_perm {first second : List α} (hperm : first.Perm second)
    (hinj : ∀ a ∈ first, ∀ b ∈ first, key a = key b → a = b) :
    sortOn key first = sortOn key second := by
  have hall : (sortOn key first).Perm (sortOn key second) :=
    (sortOn_perm first).trans (hperm.trans (sortOn_perm second).symm)
  refine hall.eq_of_pairwise ?_ (sortOn_pairwise first) (sortOn_pairwise second)
  intro a b ha hb hab hba
  have hb' : b ∈ first := hperm.mem_iff.mpr (mem_sortOn.mp hb)
  exact hinj a (mem_sortOn.mp ha) b hb' (le_antisymm hab hba)

/-- An item that a filter drops leaves the sorted others alone. -/
theorem filter_sortOn_append {items : List α} {item : α} {p : α → Bool}
    (hsorted : items.Pairwise (fun a b => key a < key b)) (hitems : ∀ a ∈ items, p a = true) (hitem : p item = false) :
    (sortOn key (items ++ [item])).filter p = items := by
  have hperm : ((sortOn key (items ++ [item])).filter p).Perm items := by
    have hfilter : ((sortOn key (items ++ [item])).filter p).Perm ((items ++ [item]).filter p) :=
      (sortOn_perm (items ++ [item])).filter p
    rwa [List.filter_append, List.filter_eq_self.mpr hitems, List.filter_singleton, hitem, cond_false,
      List.append_nil] at hfilter
  have hne : ((sortOn key (items ++ [item])).filter p).Pairwise (fun a b => key a ≠ key b) :=
    (hperm.pairwise_iff fun h => h.symm).mpr (hsorted.imp ne_of_lt)
  have hstrict := ((sortOn_pairwise (items ++ [item])).filter p).imp₂ (fun _ _ => lt_of_le_of_ne) hne
  exact hperm.eq_of_pairwise (fun a b _ _ hab hba => absurd hba (lt_asymm hab)) hstrict hsorted

end sortOn

theorem flatMap_intercalate {α β : Type} (f : α → List β) (separator : List α) (items : List (List α)) :
    (separator.intercalate items).flatMap f = (separator.flatMap f).intercalate (items.map (·.flatMap f)) := by
  induction items with
  | nil => rfl
  | cons item items ih =>
    cases items with
    | nil => rw [List.intercalate_singleton, List.map_singleton, List.intercalate_singleton]
    | cons other items =>
      rw [List.intercalate_cons_cons, List.flatMap_append, List.flatMap_append, ih, List.map_cons, List.map_cons,
        List.map_cons, List.intercalate_cons_cons]

theorem filterMap_intercalate {α β : Type} {f : α → Option β} {separator : List α}
    (hseparator : separator.filterMap f = []) (items : List (List α)) :
    (separator.intercalate items).filterMap f = items.flatMap (·.filterMap f) := by
  induction items with
  | nil => rfl
  | cons item items ih =>
    cases items with
    | nil => simp [List.intercalate_singleton]
    | cons other items =>
      rw [List.intercalate_cons_cons, List.filterMap_append, List.filterMap_append, hseparator, ih,
        List.append_nil]
      rfl

theorem intercalate_append {α : Type} {separator : List α} {first second : List (List α)} (hfirst : first ≠ [])
    (hsecond : second ≠ []) :
    separator.intercalate (first ++ second) =
      separator.intercalate first ++ separator ++ separator.intercalate second := by
  induction first with
  | nil => exact absurd rfl hfirst
  | cons item first ih =>
    rw [List.cons_append, List.intercalate_cons_of_ne_nil (List.append_ne_nil_of_right_ne_nil first hsecond)]
    cases first with
    | nil => rw [List.nil_append, List.intercalate_singleton]
    | cons next first =>
      rw [ih (List.cons_ne_nil next first), List.intercalate_cons_of_ne_nil (List.cons_ne_nil next first)]
      simp only [List.append_assoc]

/-- What starts with a mark does not start in a stretch without that mark. -/
theorem infix_of_append {α : Type} {mark : α} {front text word : List α} (hfront : mark ∉ front)
    (h : mark :: word <:+: front ++ text) : mark :: word <:+: text := by
  induction front with
  | nil => exact h
  | cons c front ih =>
    rw [List.mem_cons, not_or] at hfront
    rw [List.cons_append, List.infix_cons_iff] at h
    cases h with
    | inl hstart => exact absurd (List.cons_prefix_cons.mp hstart).1 hfront.1
    | inr hinfix => exact ih hfront.2 hinfix

theorem prefix_append_cons_iff {α : Type} {separator : α} {word front rest : List α} (hword : separator ∉ word) :
    word <+: front ++ separator :: rest ↔ word <+: front := by
  constructor
  · intro h
    induction front generalizing word with
    | nil =>
      cases word with
      | nil => exact List.prefix_refl []
      | cons c word =>
        rw [(List.cons_prefix_cons.mp h).1] at hword
        exact absurd List.mem_cons_self hword
    | cons c front ih =>
      cases word with
      | nil => exact List.nil_prefix
      | cons d word =>
        obtain ⟨hhead, htail⟩ := List.cons_prefix_cons.mp h
        rw [List.mem_cons, not_or] at hword
        exact List.cons_prefix_cons.mpr ⟨hhead, ih hword.2 htail⟩
  · exact fun h => h.trans (List.prefix_append front _)

/-- What does not hold the separator stands on one side of it. -/
theorem infix_append_cons_iff {α : Type} {separator : α} {word front rest : List α} (hword : separator ∉ word) :
    word <:+: front ++ separator :: rest ↔ word <:+: front ∨ word <:+: rest := by
  induction front with
  | nil =>
    have hstart : word <+: [] ++ separator :: rest ↔ word <+: [] := prefix_append_cons_iff hword
    rw [List.nil_append] at hstart
    rw [List.nil_append, List.infix_cons_iff, hstart, List.prefix_nil, List.infix_nil]
  | cons c front ih =>
    rw [List.cons_append, List.infix_cons_iff, ih, List.infix_cons_iff, ← List.cons_append,
      prefix_append_cons_iff hword, or_assoc]

theorem infix_intercalate_iff {α : Type} {separator : α} {word : List α} {items : List (List α)}
    (hword : separator ∉ word)
    (hne : word ≠ []) : word <:+: [separator].intercalate items ↔ ∃ item ∈ items, word <:+: item := by
  induction items with
  | nil => simp [hne]
  | cons item items ih =>
    cases items with
    | nil => simp [List.intercalate_singleton]
    | cons other items =>
      rw [List.intercalate_cons_cons, List.append_assoc, List.singleton_append, infix_append_cons_iff hword, ih]
      simp

/-- Lists related entry by entry: every entry of one has its partner in the other. -/
theorem exists_right_of_forall₂ {α β : Type} {R : α → β → Prop} {first : List α} {second : List β}
    (h : List.Forall₂ R first second) {a : α} (ha : a ∈ first) : ∃ b ∈ second, R a b := by
  induction h with
  | nil => simp at ha
  | cons hab _ ih =>
    cases List.mem_cons.mp ha with
    | inl heq => exact ⟨_, by simp, heq ▸ hab⟩
    | inr hmem =>
      obtain ⟨b, hb, hR⟩ := ih hmem
      exact ⟨b, by simp [hb], hR⟩

theorem exists_left_of_forall₂ {α β : Type} {R : α → β → Prop} {first : List α} {second : List β}
    (h : List.Forall₂ R first second) {b : β} (hb : b ∈ second) : ∃ a ∈ first, R a b :=
  exists_right_of_forall₂ h.flip hb

/-- Where partners are unique, lists in different orders have the same partners in different orders. -/
theorem perm_of_forall₂ {α β : Type} {R : α → β → Prop} {first first' : List α} {second second' : List β}
    (hunique : Relator.RightUnique R) (hperm : first.Perm first') (h : List.Forall₂ R first second)
    (h' : List.Forall₂ R first' second') : second.Perm second' := by
  obtain ⟨partners, hpartners, hperm'⟩ := List.perm_comp_forall₂ hperm.symm h
  rw [List.right_unique_forall₂' hunique h' hpartners]
  exact hperm'.symm

/-- Partners that satisfy their predicates together are counted alike. -/
theorem countP_eq_of_forall₂ {α β : Type} {R : α → β → Prop} {p : α → Bool} {q : β → Bool} {first : List α}
    {second : List β} (h : List.Forall₂ R first second)
    (hiff : ∀ a ∈ first, ∀ b ∈ second, R a b → (p a = true ↔ q b = true)) :
    first.countP p = second.countP q := by
  induction h with
  | nil => rfl
  | cons hab _ ih =>
    rw [List.countP_cons, List.countP_cons, ih fun a ha b hb => hiff a (by simp [ha]) b (by simp [hb])]
    simp only [hiff _ (by simp) _ (by simp) hab]

/-- Distinct items with distinct partners are at most as many as the partners. -/
theorem length_le_of_partners {α β : Type} {R : α → β → Prop} {first : List α} {second : List β}
    (hnodup : first.Nodup) (hpartner : ∀ a ∈ first, ∃ b ∈ second, R a b)
    (hunique : ∀ a ∈ first, ∀ a' ∈ first, ∀ b, R a b → R a' b → a = a') :
    first.length ≤ second.length := by
  classical
  cases first with
  | nil => simp
  | cons head rest =>
    obtain ⟨fallback, -, -⟩ := hpartner head (by simp)
    have : Nonempty β := ⟨fallback⟩
    choose! f hf using hpartner
    have hmap : ((head :: rest).map f).Nodup := by
      refine List.Nodup.map_on ?_ hnodup
      intro a ha a' ha' heq
      exact hunique a ha a' ha' (f a) (hf a ha).2 (heq ▸ (hf a' ha').2)
    have hsub : (head :: rest).map f ⊆ second := by
      intro b hb
      obtain ⟨a, ha, rfl⟩ := List.mem_map.mp hb
      exact (hf a ha).1
    rw [← List.length_map (f := f)]
    exact (List.subperm_of_subset hmap hsub).length_le

/-- The first occurrence of a separator splits a list in one way. -/
theorem append_cons_inj {α : Type} {separator : α} {first second rest rest' : List α}
    (hfirst : separator ∉ first) (hsecond : separator ∉ second)
    (h : first ++ separator :: rest = second ++ separator :: rest') : first = second ∧ rest = rest' := by
  induction first generalizing second with
  | nil =>
    cases second with
    | nil => exact ⟨rfl, (List.cons.inj h).2⟩
    | cons b second => exact absurd (by rw [(List.cons.inj h).1]; simp) hsecond
  | cons a first ih =>
    cases second with
    | nil => exact absurd (by rw [← (List.cons.inj h).1]; simp) hfirst
    | cons b second =>
      obtain ⟨hhead, htail⟩ := List.cons.inj h
      rw [List.mem_cons, not_or] at hfirst hsecond
      obtain ⟨hrest, heq⟩ := ih hfirst.2 hsecond.2 htail
      exact ⟨by rw [hhead, hrest], heq⟩

/-- The last occurrence of a separator splits a list in one way. -/
theorem append_cons_inj_last {α : Type} {separator : α} {first second rest rest' : List α}
    (hrest : separator ∉ rest) (hrest' : separator ∉ rest')
    (h : first ++ separator :: rest = second ++ separator :: rest') : first = second ∧ rest = rest' := by
  have hreverse : rest.reverse ++ separator :: first.reverse = rest'.reverse ++ separator :: second.reverse := by
    have := congrArg List.reverse h
    simpa using this
  obtain ⟨heq, heq'⟩ := append_cons_inj (by simpa using hrest) (by simpa using hrest') hreverse
  exact ⟨List.reverse_injective heq', List.reverse_injective heq⟩

theorem exists_mem_append_singleton {α : Type} {done : List α} {item : α} {p : α → Prop} :
    (∃ other ∈ done ++ [item], p other) ↔ (∃ other ∈ done, p other) ∨ p item := by
  simp only [List.mem_append, List.mem_singleton, or_and_right, exists_or, exists_eq_left]

/-- `set(first) == set(second)` -/
def sameElements {α : Type} [DecidableEq α] (first second : List α) : Bool := first ⊆ second ∧ second ⊆ first

theorem sameElements_iff {α : Type} [DecidableEq α] {first second : List α} :
    sameElements first second = true ↔ ∀ a, a ∈ first ↔ a ∈ second := by
  simp only [sameElements, decide_eq_true_eq]
  exact ⟨fun h a => ⟨fun ha => h.1 ha, fun ha => h.2 ha⟩, fun h => ⟨fun a => (h a).mp, fun a => (h a).mpr⟩⟩

/-- A mutable set: elements without repetition, whose order carries no meaning. -/
structure UniqueList (α : Type) where
  elems : List α
  nodup : elems.Nodup
  deriving DecidableEq

namespace UniqueList
variable {α β : Type}

instance : Membership α (UniqueList α) := ⟨fun s a => a ∈ s.elems⟩

theorem mem_def {s : UniqueList α} {a : α} : a ∈ s ↔ a ∈ s.elems := Iff.rfl

def empty : UniqueList α := ⟨[], List.nodup_nil⟩

def card (s : UniqueList α) : Nat := s.elems.length

/-- The elements in ascending key order. -/
def sorted [LE β] [DecidableLE β] (s : UniqueList α) (key : α → β) : List α :=
  sortOn key s.elems

@[simp] theorem not_mem_empty {a : α} : a ∉ (empty : UniqueList α) := by simp [mem_def, empty]

theorem card_le_length {s : UniqueList α} {items : List α} (hsub : ∀ a ∈ s, a ∈ items) :
    s.card ≤ items.length :=
  (List.subperm_of_subset s.nodup fun a ha => hsub a ha).length_le

theorem card_le_of_subset {s t : UniqueList α} (hsub : ∀ a ∈ s, a ∈ t) : s.card ≤ t.card :=
  card_le_length hsub

theorem card_congr {s t : UniqueList α} (hmem : ∀ a, a ∈ s ↔ a ∈ t) : s.card = t.card :=
  le_antisymm (card_le_of_subset fun a => (hmem a).mp) (card_le_of_subset fun a => (hmem a).mpr)

theorem one_lt_card_iff {s : UniqueList α} : 1 < s.card ↔ ∃ a ∈ s, ∃ b ∈ s, a ≠ b := by
  obtain ⟨elems, hnodup⟩ := s
  simp only [card, mem_def]
  constructor
  · intro hcard
    match elems, hnodup, hcard with
    | a :: b :: rest, hnodup, _ =>
      refine ⟨a, by simp, b, by simp, ?_⟩
      rintro rfl
      simp at hnodup
  · rintro ⟨a, ha, b, hb, hne⟩
    by_contra hcard
    match elems, ha, hb, hcard with
    | [c], ha, hb, _ =>
      rw [List.mem_singleton] at ha hb
      exact hne (ha.trans hb.symm)
    | c :: d :: rest, _, _, hcard => simp at hcard

section sorted
variable [LinearOrder β] {key : α → β}

@[simp] theorem mem_sorted {s : UniqueList α} {a : α} : a ∈ s.sorted key ↔ a ∈ s := by
  simp [sorted, mem_def]

@[simp] theorem length_sorted (s : UniqueList α) : (s.sorted key).length = s.card := by
  simp [sorted, card]

theorem sorted_nodup (s : UniqueList α) : (s.sorted key).Nodup :=
  (sortOn_perm s.elems).nodup_iff.mpr s.nodup

theorem sorted_pairwise (s : UniqueList α) : (s.sorted key).Pairwise (fun a b => key a ≤ key b) :=
  sortOn_pairwise s.elems

/-- Sorting forgets the insertion order: only membership matters. -/
theorem sorted_congr {s t : UniqueList α} (hinj : Function.Injective key)
    (hmem : ∀ a, a ∈ s ↔ a ∈ t) : s.sorted key = t.sorted key :=
  sortOn_eq_of_perm ((List.perm_ext_iff_of_nodup s.nodup t.nodup).mpr hmem)
    fun _ _ _ _ h => hinj h

end sorted

variable [DecidableEq α]

instance (s : UniqueList α) (a : α) : Decidable (a ∈ s) := inferInstanceAs (Decidable (a ∈ s.elems))

def insert (s : UniqueList α) (a : α) : UniqueList α :=
  ⟨s.elems.insert a, s.nodup.insert⟩

def update (s : UniqueList α) (items : List α) : UniqueList α := items.foldl insert s

def ofList (items : List α) : UniqueList α := empty.update items

@[simp] theorem mem_insert {s : UniqueList α} {a b : α} : b ∈ s.insert a ↔ b = a ∨ b ∈ s := by
  simp [mem_def, insert]

@[simp] theorem mem_update {s : UniqueList α} {items : List α} {a : α} :
    a ∈ s.update items ↔ a ∈ s ∨ a ∈ items := by
  unfold update
  induction items generalizing s with
  | nil => simp
  | cons b items ih => simp [ih, or_assoc, or_comm, or_left_comm]

@[simp] theorem mem_ofList {items : List α} {a : α} : a ∈ ofList items ↔ a ∈ items := by
  simp [ofList]

theorem card_insert_le (s : UniqueList α) (a : α) : (s.insert a).card ≤ s.card + 1 := by
  simp only [card, insert, List.insert]
  split <;> simp

theorem card_update_le (s : UniqueList α) (items : List α) : (s.update items).card ≤ s.card + items.length := by
  unfold update
  induction items generalizing s with
  | nil => simp
  | cons a items ih =>
    have hinsert := s.card_insert_le a
    have hrest := ih (s.insert a)
    rw [List.foldl_cons, List.length_cons]
    omega

end UniqueList

/-- An insertion-ordered dictionary: one value for each key. -/
structure OrderedDict (κ ν : Type) where
  items : List (κ × ν)
  nodup : (items.map Prod.fst).Nodup
  deriving DecidableEq

namespace OrderedDict
variable {κ ν : Type}

def empty : OrderedDict κ ν := ⟨[], List.nodup_nil⟩

def keys (d : OrderedDict κ ν) : List κ := d.items.map Prod.fst

def values (d : OrderedDict κ ν) : List ν := d.items.map Prod.snd

@[simp] theorem keys_empty : (empty : OrderedDict κ ν).keys = [] := rfl

theorem keys_nodup (d : OrderedDict κ ν) : d.keys.Nodup := d.nodup

@[simp] theorem length_keys (d : OrderedDict κ ν) : d.keys.length = d.items.length := by
  simp [keys]

variable [DecidableEq κ]

def get? (d : OrderedDict κ ν) (k : κ) : Option ν := d.items.lookup k

def getD (d : OrderedDict κ ν) (k : κ) (fallback : ν) : ν := (d.get? k).getD fallback

/-- Assignment keeps the position of a present key and appends a new one. -/
def assign (k : κ) (v : ν) : List (κ × ν) → List (κ × ν)
  | [] => [(k, v)]
  | entry :: items => if entry.1 = k then (k, v) :: items else entry :: assign k v items

theorem mem_keys_assign (items : List (κ × ν)) {k other : κ} {v : ν} :
    other ∈ (assign k v items).map Prod.fst ↔ other = k ∨ other ∈ items.map Prod.fst := by
  induction items with
  | nil => simp [assign]
  | cons entry items ih =>
    unfold assign
    split
    · next h => subst h; simp
    · rw [List.map_cons, List.mem_cons, ih, List.map_cons, List.mem_cons, or_left_comm]

theorem nodup_assign {items : List (κ × ν)} (k : κ) (v : ν) (hnodup : (items.map Prod.fst).Nodup) :
    ((assign k v items).map Prod.fst).Nodup := by
  induction items with
  | nil => simp [assign]
  | cons entry items ih =>
    rw [List.map_cons, List.nodup_cons] at hnodup
    unfold assign
    split
    · next h => subst h; simpa using hnodup
    · next h =>
      rw [List.map_cons, List.nodup_cons, mem_keys_assign]
      exact ⟨fun hmem => hmem.elim h hnodup.1, ih hnodup.2⟩

theorem lookup_assign (items : List (κ × ν)) (k : κ) (v : ν) (other : κ) :
    (assign k v items).lookup other = if other = k then some v else items.lookup other := by
  induction items with
  | nil => by_cases h : other = k <;> simp [assign, h]
  | cons entry items ih =>
    obtain ⟨k₀, v₀⟩ := entry
    unfold assign
    by_cases h₀ : k₀ = k
    · subst h₀
      by_cases h : other = k₀
      · simp [h]
      · have hbeq : (other == k₀) = false := by simpa using h
        simp [List.lookup_cons, hbeq, h]
    · by_cases h : other = k₀
      · subst h
        simp [h₀]
      · have hbeq : (other == k₀) = false := by simpa using h
        simp [List.lookup_cons, h₀, hbeq, ih]

theorem assign_of_not_mem {items : List (κ × ν)} {k : κ} (v : ν) (h : k ∉ items.map Prod.fst) :
    assign k v items = items ++ [(k, v)] := by
  induction items with
  | nil => rfl
  | cons entry items ih =>
    rw [List.map_cons, List.mem_cons, not_or] at h
    rw [assign, if_neg (Ne.symm h.1), ih h.2, List.cons_append]

def set (d : OrderedDict κ ν) (k : κ) (v : ν) : OrderedDict κ ν :=
  ⟨assign k v d.items, nodup_assign k v d.nodup⟩

def ofList (entries : List (κ × ν)) : OrderedDict κ ν :=
  entries.foldl (fun d entry => d.set entry.1 entry.2) empty

@[simp] theorem get?_empty (k : κ) : (empty : OrderedDict κ ν).get? k = none := rfl

theorem get?_set (d : OrderedDict κ ν) (k : κ) (v : ν) (other : κ) :
    (d.set k v).get? other = if other = k then some v else d.get? other :=
  lookup_assign d.items k v other

@[simp] theorem get?_set_self (d : OrderedDict κ ν) (k : κ) (v : ν) :
    (d.set k v).get? k = some v := by simp [get?_set]

theorem get?_set_ne (d : OrderedDict κ ν) {k other : κ} (v : ν) (hne : other ≠ k) :
    (d.set k v).get? other = d.get? other := by simp [get?_set, hne]

theorem mem_items_iff {d : OrderedDict κ ν} {k : κ} {v : ν} :
    (k, v) ∈ d.items ↔ d.get? k = some v := by
  unfold get?
  have hnodup := d.nodup
  generalize d.items = items at hnodup ⊢
  induction items with
  | nil => simp
  | cons entry items ih =>
    obtain ⟨k₀, v₀⟩ := entry
    rw [List.map_cons, List.nodup_cons] at hnodup
    rw [List.lookup_cons, List.mem_cons]
    by_cases hk : k = k₀
    · subst hk
      have hnot : (k, v) ∉ items := fun hmem => hnodup.1 (List.mem_map.mpr ⟨(k, v), hmem, rfl⟩)
      simp [hnot, eq_comm]
    · have hbeq : (k == k₀) = false := by simpa using hk
      simp [hbeq, hk, ih hnodup.2]

theorem mem_values_of_get? {d : OrderedDict κ ν} {k : κ} {v : ν} (h : d.get? k = some v) : v ∈ d.values :=
  List.mem_map_of_mem (f := Prod.snd) (mem_items_iff.mpr h)

theorem mem_keys_iff {d : OrderedDict κ ν} {k : κ} : k ∈ d.keys ↔ (d.get? k).isSome := by
  unfold keys
  constructor
  · intro hk
    obtain ⟨⟨k', v⟩, hmem, rfl⟩ := List.mem_map.mp hk
    simp [mem_items_iff.mp hmem]
  · intro hsome
    obtain ⟨v, hv⟩ := Option.isSome_iff_exists.mp hsome
    exact List.mem_map_of_mem (f := Prod.fst) (mem_items_iff.mpr hv)

@[simp] theorem mem_keys_set {d : OrderedDict κ ν} {k other : κ} {v : ν} :
    other ∈ (d.set k v).keys ↔ other = k ∨ other ∈ d.keys := by
  by_cases h : other = k <;> simp [mem_keys_iff, get?_set, h]

/-- Value equality of dictionaries, which ignores the insertion order. -/
def sameItems [DecidableEq ν] (d other : OrderedDict κ ν) : Bool :=
  d.keys.length = other.keys.length ∧ ∀ k ∈ d.keys, other.get? k = d.get? k

theorem sameItems_iff [DecidableEq ν] {d other : OrderedDict κ ν} :
    d.sameItems other = true ↔ ∀ k, d.get? k = other.get? k := by
  simp only [sameItems, decide_eq_true_eq]
  constructor
  · rintro ⟨hlength, hsame⟩ k
    by_cases hk : k ∈ d.keys
    · exact (hsame k hk).symm
    · have hsub : d.keys ⊆ other.keys := by
        intro k' hk'
        have hsome := mem_keys_iff.mp hk'
        exact mem_keys_iff.mpr (by rw [hsame k' hk']; exact hsome)
      have hperm : d.keys.Perm other.keys :=
        (List.subperm_of_subset d.keys_nodup hsub).perm_of_length_le hlength.ge
      have hk' : k ∉ other.keys := fun hmem => hk (hperm.mem_iff.mpr hmem)
      rw [mem_keys_iff, Bool.not_eq_true, Option.isSome_eq_false_iff, Option.isNone_iff_eq_none] at hk hk'
      rw [hk, hk']
  · intro hsame
    refine ⟨List.Perm.length_eq ((List.perm_ext_iff_of_nodup d.keys_nodup other.keys_nodup).mpr ?_),
      fun k _ => (hsame k).symm⟩
    intro k
    rw [mem_keys_iff, mem_keys_iff, hsame]

/-- A dictionary built from entries with distinct keys holds exactly them. -/
theorem get?_ofList {entries : List (κ × ν)} (hnodup : (entries.map Prod.fst).Nodup) (k : κ) :
    (ofList entries).get? k = entries.lookup k := by
  have hgeneral : ∀ (entries : List (κ × ν)) (d : OrderedDict κ ν),
      (entries.map Prod.fst).Nodup →
      (entries.foldl (fun d entry => d.set entry.1 entry.2) d).get? k =
        (entries.lookup k).or (d.get? k) := by
    intro entries
    induction entries with
    | nil => simp
    | cons entry entries ih =>
      intro d hnodup
      rw [List.map_cons, List.nodup_cons] at hnodup
      rw [List.foldl_cons, ih _ hnodup.2, List.lookup_cons, get?_set]
      by_cases hk : k = entry.1
      · have hnone : entries.lookup k = none := by
          rw [List.lookup_eq_none_iff]
          intro p hp
          simp only [bne_iff_ne, ne_eq]
          intro hkp
          exact hnodup.1 (hk ▸ hkp ▸ List.mem_map_of_mem hp)
        rw [hk] at hnone
        simp [hnone, hk]
      · have hbeq : (k == entry.1) = false := by simpa using hk
        simp [hbeq, hk]
  simpa [ofList] using hgeneral entries empty hnodup

theorem getD_set (d : OrderedDict κ ν) (k : κ) (v : ν) (other : κ) (fallback : ν) :
    (d.set k v).getD other fallback = if other = k then v else d.getD other fallback := by
  unfold getD
  rw [get?_set]
  split <;> rfl

/-- Collect the items under their keys, in order of arrival. -/
def groupBy {α : Type} (key : α → κ) (items : List α) : OrderedDict κ (List α) :=
  items.foldl (fun d item => d.set (key item) (d.getD (key item) [] ++ [item])) empty

theorem getD_groupBy {α : Type} (key : α → κ) (items : List α) (k : κ) :
    (groupBy key items).getD k [] = items.filter (fun item => key item = k) := by
  have hgeneral : ∀ (items : List α) (d : OrderedDict κ (List α)),
      (items.foldl (fun d item => d.set (key item) (d.getD (key item) [] ++ [item])) d).getD k [] =
        d.getD k [] ++ items.filter (fun item => key item = k) := by
    intro items
    induction items with
    | nil => simp
    | cons item items ih =>
      intro d
      rw [List.foldl_cons, ih, getD_set, List.filter_cons]
      by_cases hk : k = key item
      · simp [← hk]
      · simp [hk, Ne.symm hk]
  simpa [groupBy, getD] using hgeneral items empty

theorem mem_keys_groupBy {α : Type} {key : α → κ} {items : List α} {k : κ} :
    k ∈ (groupBy key items).keys ↔ ∃ item ∈ items, key item = k := by
  have hgeneral : ∀ (items : List α) (d : OrderedDict κ (List α)),
      k ∈ (items.foldl (fun d item => d.set (key item) (d.getD (key item) [] ++ [item])) d).keys ↔
        k ∈ d.keys ∨ ∃ item ∈ items, key item = k := by
    intro items
    induction items with
    | nil => simp
    | cons item items ih =>
      intro d
      rw [List.foldl_cons, ih, mem_keys_set]
      simp only [List.mem_cons, exists_eq_or_imp]
      rw [or_assoc, or_left_comm, eq_comm (a := key item)]
  simpa [groupBy] using hgeneral items empty

theorem getD_eq_of_not_mem {d : OrderedDict κ ν} {k : κ} (h : k ∉ d.keys) (fallback : ν) :
    d.getD k fallback = fallback := by
  rw [mem_keys_iff, Bool.not_eq_true, Option.isSome_eq_false_iff, Option.isNone_iff_eq_none] at h
  rw [getD, h, Option.getD_none]

theorem get?_eq_some_getD {d : OrderedDict κ ν} {k : κ} (h : k ∈ d.keys) (fallback : ν) :
    d.get? k = some (d.getD k fallback) := by
  obtain ⟨v, hv⟩ := Option.isSome_iff_exists.mp (mem_keys_iff.mp h)
  rw [getD, hv, Option.getD_some]

/-- Dictionaries with the same keys that count alike are equal as maps. -/
theorem get?_congr {d other : OrderedDict κ ν} {fallback : ν} (hkeys : ∀ k, k ∈ d.keys ↔ k ∈ other.keys)
    (hget : ∀ k, d.getD k fallback = other.getD k fallback) (k : κ) : d.get? k = other.get? k := by
  by_cases hk : k ∈ d.keys
  · rw [get?_eq_some_getD hk fallback, get?_eq_some_getD ((hkeys k).mp hk) fallback, hget]
  · have hk' : k ∉ other.keys := fun hmem => hk ((hkeys k).mpr hmem)
    rw [mem_keys_iff, Bool.not_eq_true, Option.isSome_eq_false_iff, Option.isNone_iff_eq_none] at hk hk'
    rw [hk, hk']

/-- `d[k] = d.get(k, 0) + n` -/
def addCount (d : OrderedDict κ Nat) (k : κ) (n : Nat) : OrderedDict κ Nat :=
  d.set k (d.getD k 0 + n)

theorem getD_addCount (d : OrderedDict κ Nat) (k : κ) (n : Nat) (other : κ) :
    (d.addCount k n).getD other 0 = d.getD other 0 + if other = k then n else 0 := by
  rw [addCount, getD_set]
  split
  · next h => rw [h]
  · rfl

@[simp] theorem mem_keys_addCount {d : OrderedDict κ Nat} {k other : κ} {n : Nat} :
    other ∈ (d.addCount k n).keys ↔ other = k ∨ other ∈ d.keys := mem_keys_set

/-- Add every count of the source to the target. -/
def mergeCounts (target source : OrderedDict κ Nat) : OrderedDict κ Nat :=
  source.items.foldl (fun d entry => d.addCount entry.1 entry.2) target

private theorem getD_foldl_addCount (entries : List (κ × Nat)) (d : OrderedDict κ Nat) (k : κ) :
    (entries.foldl (fun d entry => d.addCount entry.1 entry.2) d).getD k 0 =
      d.getD k 0 + ((entries.filter fun entry => entry.1 = k).map Prod.snd).sum := by
  induction entries generalizing d with
  | nil => simp
  | cons entry entries ih =>
    rw [List.foldl_cons, ih, getD_addCount, List.filter_cons]
    by_cases hk : k = entry.1
    · simp [← hk, Nat.add_assoc]
    · simp [hk, Ne.symm hk]

private theorem sum_filter_key {entries : List (κ × Nat)} (hnodup : (entries.map Prod.fst).Nodup) (k : κ) :
    ((entries.filter fun entry => entry.1 = k).map Prod.snd).sum = (entries.lookup k).getD 0 := by
  induction entries with
  | nil => rfl
  | cons entry entries ih =>
    rw [List.map_cons, List.nodup_cons] at hnodup
    rw [List.filter_cons, List.lookup_cons]
    by_cases hk : entry.1 = k
    · subst hk
      have hnone : entries.filter (fun other => other.1 = entry.1) = [] := by
        rw [List.filter_eq_nil_iff]
        intro other hother
        simp only [decide_eq_true_eq]
        intro heq
        exact hnodup.1 (heq ▸ List.mem_map_of_mem hother)
      simp [hnone]
    · have hbeq : (k == entry.1) = false := by simpa using Ne.symm hk
      simp [hk, hbeq, ih hnodup.2]

theorem getD_mergeCounts (target source : OrderedDict κ Nat) (k : κ) :
    (target.mergeCounts source).getD k 0 = target.getD k 0 + source.getD k 0 := by
  rw [mergeCounts, getD_foldl_addCount, sum_filter_key source.nodup]
  rfl

theorem mem_keys_mergeCounts {target source : OrderedDict κ Nat} {k : κ} :
    k ∈ (target.mergeCounts source).keys ↔ k ∈ target.keys ∨ k ∈ source.keys := by
  have hgeneral : ∀ (entries : List (κ × Nat)) (d : OrderedDict κ Nat),
      k ∈ (entries.foldl (fun d entry => d.addCount entry.1 entry.2) d).keys ↔
        k ∈ d.keys ∨ k ∈ entries.map Prod.fst := by
    intro entries
    induction entries with
    | nil => simp
    | cons entry entries ih =>
      intro d
      rw [List.foldl_cons, ih, mem_keys_addCount, List.map_cons, List.mem_cons, or_assoc, or_left_comm]
  exact hgeneral source.items target

/-- Count every item once. -/
def countAll (items : List κ) : OrderedDict κ Nat := items.foldl (fun d item => d.addCount item 1) empty

private theorem getD_foldl_countAll (items : List κ) (d : OrderedDict κ Nat) (k : κ) :
    (items.foldl (fun d item => d.addCount item 1) d).getD k 0 = d.getD k 0 + items.count k := by
  induction items generalizing d with
  | nil => rfl
  | cons item items ih =>
    rw [List.foldl_cons, ih, getD_addCount, List.count_cons]
    by_cases hk : k = item
    · simp only [hk, if_true, BEq.rfl]
      omega
    · simp [hk, Ne.symm hk]

theorem getD_countAll (items : List κ) (k : κ) : (countAll items).getD k 0 = items.count k := by
  rw [countAll, getD_foldl_countAll]
  exact Nat.zero_add _

theorem mem_keys_countAll {items : List κ} {k : κ} : k ∈ (countAll items).keys ↔ k ∈ items := by
  have hgeneral : ∀ (items : List κ) (d : OrderedDict κ Nat),
      k ∈ (items.foldl (fun d item => d.addCount item 1) d).keys ↔ k ∈ d.keys ∨ k ∈ items := by
    intro items
    induction items with
    | nil => simp
    | cons item items ih =>
      intro d
      rw [List.foldl_cons, ih, mem_keys_addCount, List.mem_cons, or_assoc, or_left_comm]
  simpa [countAll] using hgeneral items empty

/-- `dict(sorted(d.items()))` -/
def sortedByKey {ν : Type} [LinearOrder κ] (d : OrderedDict κ ν) : OrderedDict κ ν :=
  ⟨sortOn Prod.fst d.items, ((sortOn_perm d.items).map Prod.fst).nodup_iff.mpr d.nodup⟩

theorem get?_sortedByKey {ν : Type} [LinearOrder κ] (d : OrderedDict κ ν) (k : κ) :
    d.sortedByKey.get? k = d.get? k := by
  refine Option.ext fun v => ?_
  rw [← mem_items_iff, ← mem_items_iff]
  exact mem_sortOn

end OrderedDict

end collections
