import PiiEngine.Lib.Collections
import Mathlib.Data.List.Induction

open collections

namespace best
variable {α κ β : Type} [DecidableEq κ] [LinearOrder β] (key : α → κ) (score : α → β)

/-- Keep one item for each key: the first of the greatest score. -/
def keep (d : OrderedDict κ α) (item : α) : OrderedDict κ α :=
  match d.get? (key item) with
  | some kept => if score kept < score item then d.set (key item) item else d
  | none => d.set (key item) item

/-- An item is the best of some items when none under its key scores higher. -/
def IsBest (items : List α) (item : α) : Prop :=
  item ∈ items ∧ ∀ other ∈ items, key other = key item → score other ≤ score item

/-- A dictionary holds the best item of every key that occurs. -/
structure Holds (items : List α) (d : OrderedDict κ α) : Prop where
  sound : ∀ k item, d.get? k = some item → key item = k ∧ IsBest key score items item
  complete : ∀ item ∈ items, key item ∈ d.keys

variable {key score} {items : List α} {d : OrderedDict κ α}

theorem Holds.keep (h : Holds key score items d) (item : α) :
    Holds key score (items ++ [item]) (best.keep key score d item) := by
  have hkept : ∀ kept, IsBest key score items kept → (key item = key kept → score item ≤ score kept) →
      IsBest key score (items ++ [item]) kept := by
    rintro kept ⟨hmem, hbest⟩ hitem
    refine ⟨List.mem_append_left _ hmem, ?_⟩
    rw [List.forall_mem_append, List.forall_mem_singleton]
    exact ⟨hbest, hitem⟩
  have hset : (∀ other ∈ items, key other = key item → score other ≤ score item) →
      Holds key score (items ++ [item]) (d.set (key item) item) := by
    intro hlower
    constructor
    · intro k found hfound
      rw [OrderedDict.get?_set] at hfound
      split at hfound
      · next hk =>
        rw [Option.some.injEq] at hfound
        subst hfound
        refine ⟨hk.symm, by simp, ?_⟩
        rw [List.forall_mem_append, List.forall_mem_singleton]
        exact ⟨hlower, fun _ => le_refl _⟩
      · next hk =>
        obtain ⟨hkey, hbest⟩ := h.sound k found hfound
        exact ⟨hkey, hkept found hbest fun heq => absurd (hkey.symm.trans heq.symm) hk⟩
    · rw [List.forall_mem_append, List.forall_mem_singleton]
      exact ⟨fun other hother => OrderedDict.mem_keys_set.mpr (Or.inr (h.complete other hother)),
        OrderedDict.mem_keys_set.mpr (Or.inl rfl)⟩
  unfold best.keep
  cases hget : d.get? (key item) with
  | none =>
    refine hset fun other hother heq => ?_
    have hmem := OrderedDict.mem_keys_iff.mp (h.complete other hother)
    rw [heq, hget] at hmem
    cases hmem
  | some kept =>
    obtain ⟨hkey, hmem, hbest⟩ := h.sound _ kept hget
    dsimp only
    split
    · next hlt => exact hset fun other hother heq => (hbest other hother (heq.trans hkey.symm)).trans hlt.le
    · next hle =>
      constructor
      · intro k found hfound
        obtain ⟨hfound_key, hfound_best⟩ := h.sound k found hfound
        refine ⟨hfound_key, hkept found hfound_best fun heq => ?_⟩
        rw [heq, hfound_key, hfound, Option.some.injEq] at hget
        exact hget ▸ not_lt.mp hle
      · rw [List.forall_mem_append, List.forall_mem_singleton]
        exact ⟨h.complete, OrderedDict.mem_keys_iff.mpr (by simp [hget])⟩

theorem holds_foldl (key : α → κ) (score : α → β) (items : List α) :
    Holds key score items (items.foldl (best.keep key score) .empty) := by
  induction items using List.reverseRecOn with
  | nil => constructor <;> simp
  | append_singleton items item ih =>
    rw [List.foldl_append, List.foldl_cons, List.foldl_nil]
    exact ih.keep item

namespace Holds

theorem isBest_of_mem (h : Holds key score items d) {item : α} (hitem : item ∈ d.values) :
    IsBest key score items item := by
  obtain ⟨⟨k, _⟩, hentry, rfl⟩ := List.mem_map.mp hitem
  exact (h.sound k _ (OrderedDict.mem_items_iff.mp hentry)).2

/-- No two kept items share a key. -/
theorem nodup_keys (h : Holds key score items d) : (d.values.map key).Nodup := by
  have hkeys : d.values.map key = d.keys := by
    rw [OrderedDict.values, OrderedDict.keys, List.map_map]
    refine List.map_congr_left ?_
    rintro ⟨k, item⟩ hentry
    exact (h.sound k item (OrderedDict.mem_items_iff.mp hentry)).1
  rw [hkeys]
  exact d.keys_nodup

theorem exists_kept (h : Holds key score items d) {item : α} (hitem : item ∈ items) :
    ∃ kept ∈ d.values, key kept = key item := by
  obtain ⟨kept, hkept⟩ := Option.isSome_iff_exists.mp (OrderedDict.mem_keys_iff.mp (h.complete item hitem))
  exact ⟨kept, List.mem_map.mpr ⟨(key item, kept), OrderedDict.mem_items_iff.mpr hkept, rfl⟩,
    (h.sound _ kept hkept).1⟩

/-- Where key and score determine an item, exactly the best ones are kept. -/
theorem mem_values_iff (h : Holds key score items d)
    (hdetermined : ∀ a ∈ items, ∀ b ∈ items, key a = key b → score a = score b → a = b) {item : α} :
    item ∈ d.values ↔ IsBest key score items item := by
  constructor
  · exact h.isBest_of_mem
  · rintro ⟨hitem, hbest⟩
    obtain ⟨kept, hkept, hkey⟩ := h.exists_kept hitem
    obtain ⟨hmem, hkept_best⟩ := h.isBest_of_mem hkept
    have hscore := le_antisymm (hbest kept hmem hkey) (hkept_best item hitem hkey.symm)
    exact hdetermined kept hmem item hitem hkey hscore ▸ hkept

end Holds

variable {first second : List α}

omit [DecidableEq κ] in
theorem isBest_congr (h : ∀ item, item ∈ first ↔ item ∈ second) (item : α) :
    IsBest key score first item ↔ IsBest key score second item := by
  simp only [IsBest, h]

omit [DecidableEq κ] in
/-- A bound from below drops an item and everything its key loses to it, or nothing. -/
theorem isBest_filter {threshold : β} {item : α} :
    IsBest key score (items.filter fun other => threshold ≤ score other) item ↔
      IsBest key score items item ∧ threshold ≤ score item := by
  simp only [IsBest, List.mem_filter, decide_eq_true_eq]
  constructor
  · rintro ⟨⟨hitem, hlow⟩, hbest⟩
    refine ⟨⟨hitem, fun other hother hkey => ?_⟩, hlow⟩
    by_cases hother_low : threshold ≤ score other
    · exact hbest other ⟨hother, hother_low⟩ hkey
    · exact (not_le.mp hother_low).le.trans hlow
  · rintro ⟨⟨hitem, hbest⟩, hlow⟩
    exact ⟨⟨hitem, hlow⟩, fun other hother => hbest other hother.1⟩

omit [DecidableEq κ] in
/-- Items that are not needed to reach every score of every key can be left out. -/
theorem isBest_of_dominating (hsubset : first ⊆ second)
    (hdominates : ∀ a ∈ second, ∃ b ∈ first, key b = key a ∧ score a ≤ score b)
    (hdetermined : ∀ a ∈ second, ∀ b ∈ second, key a = key b → score a = score b → a = b) {item : α} :
    IsBest key score first item ↔ IsBest key score second item := by
  constructor
  · rintro ⟨hitem, hbest⟩
    refine ⟨hsubset hitem, fun other hother hkey => ?_⟩
    obtain ⟨found, hfound, hfound_key, hle⟩ := hdominates other hother
    exact hle.trans (hbest found hfound (hfound_key.trans hkey))
  · rintro ⟨hitem, hbest⟩
    obtain ⟨found, hfound, hkey, hle⟩ := hdominates item hitem
    have hscore := le_antisymm (hbest found (hsubset hfound) hkey) hle
    rw [← hdetermined found (hsubset hfound) item hitem hkey hscore]
    refine ⟨hfound, fun other hother hother_key => ?_⟩
    exact (hbest other (hsubset hother) (hother_key.trans hkey)).trans hle

variable (key score) in
/-- Key and score determine the item. -/
def Determined (items : List α) : Prop :=
  ∀ a ∈ items, ∀ b ∈ items, key a = key b → score a = score b → a = b

variable (key score) in
/-- The items that are kept of a list. -/
def kept (items : List α) : List α := (items.foldl (keep key score) .empty).values

theorem mem_kept_iff (h : Determined key score items) {item : α} :
    item ∈ kept key score items ↔ IsBest key score items item :=
  (holds_foldl key score items).mem_values_iff h

theorem nodup_keys_kept (items : List α) : ((kept key score items).map key).Nodup :=
  (holds_foldl key score items).nodup_keys

theorem kept_injective {a b : α} (ha : a ∈ kept key score items) (hb : b ∈ kept key score items)
    (hkey : key a = key b) : a = b :=
  List.inj_on_of_nodup_map (nodup_keys_kept items) ha hb hkey

/-- The order of the items does not show in what is kept of them. -/
theorem kept_perm (h : Determined key score first) (hmem : ∀ item, item ∈ first ↔ item ∈ second) :
    (kept key score first).Perm (kept key score second) := by
  have hsecond : Determined key score second := by
    intro a ha b hb
    exact h a ((hmem a).mpr ha) b ((hmem b).mpr hb)
  refine (List.perm_ext_iff_of_nodup (nodup_keys_kept first).of_map (nodup_keys_kept second).of_map).mpr ?_
  intro item
  rw [mem_kept_iff h, mem_kept_iff hsecond, isBest_congr hmem]

/-- It makes no difference whether low scores are dropped before the best items are kept
    or after. -/
theorem kept_filter_perm (h : Determined key score items) (threshold : β) :
    (kept key score (items.filter fun item => threshold ≤ score item)).Perm
      ((kept key score items).filter fun item => threshold ≤ score item) := by
  have hfilter : Determined key score (items.filter fun item => threshold ≤ score item) := by
    intro a ha b hb
    exact h a (List.mem_of_mem_filter ha) b (List.mem_of_mem_filter hb)
  refine (List.perm_ext_iff_of_nodup (nodup_keys_kept _).of_map
    (List.filter_sublist.nodup (nodup_keys_kept items).of_map)).mpr ?_
  intro item
  rw [mem_kept_iff hfilter, isBest_filter, List.mem_filter, mem_kept_iff h, decide_eq_true_eq]

end best
