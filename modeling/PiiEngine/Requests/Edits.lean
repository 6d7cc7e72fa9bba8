import PiiEngine.Requests.Rebuild

open checked collections prefixes

namespace pii_engine.request_segments

/-- Every object of a document has one value for each key. -/
def Distinct (value : JsonValue) : Prop :=
  ∀ path entries, Reaches value path (.dict entries) → (entries.map Prod.fst).Nodup

theorem Distinct.nodup {entries : List (String × JsonValue)} (h : Distinct (.dict entries)) :
    (entries.map Prod.fst).Nodup := h [] entries (.here _)

theorem Distinct.below {value item : JsonValue} {path : List PathPart} (h : Distinct value)
    (hitem : Reaches value path item) :
    Distinct item := fun rest entries hrest => h (path ++ rest) entries (hitem.trans hrest)

theorem Distinct.entry {entries : List (String × JsonValue)} {key : String} {item : JsonValue}
    (h : Distinct (.dict entries)) (hitem : (key, item) ∈ entries) : Distinct item := h.below (.key hitem (.here item))

theorem Distinct.item {items : List JsonValue} {n : Nat} {item : JsonValue} (h : Distinct (.list items))
    (hitem : items[n]? = some item) : Distinct item := h.below (.index hitem (.here item))

theorem Distinct.lookup {entries : List (String × JsonValue)} {key : String} {item : JsonValue}
    (h : Distinct (.dict entries)) (hitem : (key, item) ∈ entries) : entries.lookup key = some item :=
  OrderedDict.mem_items_iff (d := ⟨entries, h.nodup⟩).mp hitem

mutual

/-- Whether every object of a document has one value for each key. -/
def distinct_keys : JsonValue → Bool
  | .list items => items_distinct_keys items
  | .dict entries => decide (entries.map Prod.fst).Nodup && entries_distinct_keys entries
  | _ => true

def items_distinct_keys : List JsonValue → Bool
  | [] => true
  | item :: items => distinct_keys item && items_distinct_keys items

def entries_distinct_keys : List (String × JsonValue) → Bool
  | [] => true
  | (_, item) :: entries => distinct_keys item && entries_distinct_keys entries

end

theorem distinct_keys_item {items : List JsonValue} {item : JsonValue} (h : items_distinct_keys items = true)
    (hitem : item ∈ items) : distinct_keys item = true := by
  induction items with
  | nil => cases hitem
  | cons first items ih =>
    rw [items_distinct_keys, Bool.and_eq_true] at h
    cases List.mem_cons.mp hitem with
    | inl hfirst => exact hfirst ▸ h.1
    | inr hrest => exact ih h.2 hrest

theorem distinct_keys_entry {entries : List (String × JsonValue)} {entry : String × JsonValue}
    (h : entries_distinct_keys entries = true) (hentry : entry ∈ entries) : distinct_keys entry.2 = true := by
  induction entries with
  | nil => cases hentry
  | cons first entries ih =>
    rw [entries_distinct_keys, Bool.and_eq_true] at h
    cases List.mem_cons.mp hentry with
    | inl hfirst => exact hfirst ▸ h.1
    | inr hrest => exact ih h.2 hrest

theorem distinct_of_keys {value : JsonValue} (h : distinct_keys value = true) : Distinct value := by
  have hreaches : ∀ {value target : JsonValue} {path : List PathPart}, Reaches value path target →
      distinct_keys value = true → distinct_keys target = true := by
    intro value target path hpath hvalue
    induction hpath with
    | here value => exact hvalue
    | key hitem _ ih =>
      rw [distinct_keys, Bool.and_eq_true] at hvalue
      exact ih (distinct_keys_entry hvalue.2 hitem)
    | index hitem _ ih =>
      rw [distinct_keys] at hvalue
      exact ih (distinct_keys_item hvalue (List.mem_of_getElem? hitem))
  intro path entries hpath
  have hentries := hreaches hpath h
  rw [distinct_keys, Bool.and_eq_true, decide_eq_true_eq] at hentries
  exact hentries.1

section overwrite
variable {writes : Writes} {value target : JsonValue} {rest : List PathPart}

theorem get_of_reaches (h : Reaches value rest target) (hdistinct : Distinct value) : value.get rest = some target := by
  induction h with
  | here value => rw [JsonValue.get]
  | key hitem hrest ih =>
    rw [JsonValue.get, hdistinct.lookup hitem]
    exact ih (hdistinct.entry hitem)
  | index hitem hrest ih =>
    rw [JsonValue.get, hitem]
    exact ih (hdistinct.item hitem)

/-- What stands in a document stands there when it is written over. -/
theorem reaches_overwrite (writes : Writes) (h : Reaches value rest target) (path : List PathPart) :
    Reaches (overwrite writes path value) rest (overwrite writes (path ++ rest) target) := by
  induction h generalizing path with
  | here value =>
    rw [List.append_nil]
    exact .here _
  | @key entries name item target rest hitem hrest ih =>
    have hnext := ih (path ++ [.key name])
    rw [List.append_assoc] at hnext
    rw [overwrite, overwrite_entries_eq]
    exact .key (List.mem_map.mpr ⟨(name, item), hitem, rfl⟩) hnext
  | @index items n item target rest hitem hrest ih =>
    have hnext := ih (path ++ [.index n])
    rw [List.append_assoc] at hnext
    rw [overwrite_list]
    refine .index ?_ hnext
    rw [List.getElem?_mapIdx, hitem]
    rfl

/-- Nothing else stands in a document that is written over. -/
theorem reaches_of_overwrite {path : List PathPart} (h : Reaches (overwrite writes path value) rest target) :
    ∃ before, Reaches value rest before ∧ target = overwrite writes (path ++ rest) before := by
  induction rest generalizing value path with
  | nil =>
    have htarget : overwrite writes path value = target := by
      generalize overwrite writes path value = written at h
      cases h
      rfl
    refine ⟨value, .here value, ?_⟩
    rw [List.append_nil, htarget]
  | cons part rest ih =>
    cases value with
    | dict entries =>
      rw [overwrite, overwrite_entries_eq] at h
      cases h with
      | key hitem hrest =>
        obtain ⟨⟨key, item⟩, hentry, heq⟩ := List.mem_map.mp hitem
        cases heq
        obtain ⟨before, hbefore, htarget⟩ := ih hrest
        rw [List.append_assoc] at htarget
        exact ⟨before, .key hentry hbefore, htarget⟩
    | list items =>
      rw [overwrite_list] at h
      cases h with
      | index hitem hrest =>
        rw [List.getElem?_mapIdx, Option.map_eq_some_iff] at hitem
        obtain ⟨item, hentry, heq⟩ := hitem
        rw [← heq] at hrest
        obtain ⟨before, hbefore, htarget⟩ := ih hrest
        rw [List.append_assoc] at htarget
        exact ⟨before, .index hentry hbefore, htarget⟩
    | string text =>
      obtain hnull | ⟨text', htext⟩ := overwrite_string_cases writes path text
      · rw [hnull] at h
        cases h
      · rw [htext] at h
        cases h
    | _ => cases h

theorem Distinct.overwrite (h : Distinct value) (path : List PathPart) :
    Distinct (request_segments.overwrite writes path value) := by
  intro rest entries hrest
  obtain ⟨before, hbefore, heq⟩ := reaches_of_overwrite hrest
  cases before with
  | dict entries' =>
    rw [request_segments.overwrite] at heq
    cases heq
    rw [keys_overwrite_entries]
    exact h rest entries' hbefore
  | list items =>
    rw [request_segments.overwrite] at heq
    cases heq
  | string text =>
    obtain hnull | ⟨text', htext⟩ := overwrite_string_cases writes (path ++ rest) text
    · rw [hnull] at heq
      cases heq
    · rw [htext] at heq
      cases heq
  | _ => cases heq

end overwrite

section set
variable {path : List PathPart} {fill : Fill}

theorem single_self (path : List PathPart) (fill : Fill) : Writes.single path fill path = some fill := if_pos rfl

theorem single_apart {part other : PathPart} {rest : List PathPart} (hne : other ≠ part) (more : List PathPart) :
    Writes.single (path ++ part :: rest) fill (path ++ [other] ++ more) = none := by
  refine if_neg fun heq => ?_
  rw [List.append_assoc, List.append_cancel_left_eq, List.singleton_append, List.cons.injEq] at heq
  exact hne heq.1

/-- Assigning an entry that is written over writes over the entries. -/
theorem assign_overwrite (path rest : List PathPart) (fill : Fill) {entries : List (String × JsonValue)} {name : String}
    {item : JsonValue} (hnodup : (entries.map Prod.fst).Nodup) (hitem : (name, item) ∈ entries) :
    OrderedDict.assign name (overwrite (.single (path ++ .key name :: rest) fill) (path ++ [.key name]) item) entries =
      overwrite_entries (.single (path ++ .key name :: rest) fill) path entries := by
  induction entries with
  | nil => cases hitem
  | cons entry entries ih =>
    obtain ⟨key, value⟩ := entry
    rw [List.map_cons, List.nodup_cons] at hnodup
    rw [OrderedDict.assign, overwrite_entries]
    by_cases hkey : key = name
    · subst hkey
      have hvalue : item = value := by
        cases List.mem_cons.mp hitem with
        | inl heq => exact (Prod.mk.inj heq).2
        | inr hmem => exact absurd (List.mem_map.mpr ⟨_, hmem, rfl⟩) hnodup.1
      subst hvalue
      rw [if_pos rfl, overwrite_entries_eq]
      refine congrArg (_ :: ·) ?_
      conv_lhs => rw [← List.map_id entries]
      refine List.map_congr_left fun other hother => ?_
      have hne : PathPart.key other.1 ≠ .key key := by
        intro heq
        rw [PathPart.key.injEq] at heq
        exact hnodup.1 (heq ▸ List.mem_map.mpr ⟨other, hother, rfl⟩)
      rw [overwrite_of_none _ (single_apart hne)]
      rfl
    · have hrest : (name, item) ∈ entries := by
        cases List.mem_cons.mp hitem with
        | inl heq => exact absurd (Prod.mk.inj heq).1.symm hkey
        | inr hmem => exact hmem
      have hne : PathPart.key key ≠ .key name := fun heq => hkey (PathPart.key.inj heq)
      rw [if_neg hkey, ih hnodup.2 hrest, overwrite_of_none _ (single_apart hne)]

/-- Setting an item that is written over writes over the items. -/
theorem set_overwrite (path rest : List PathPart) (fill : Fill) {items : List JsonValue} {n : Nat} {item : JsonValue}
    (hitem : items[n]? = some item) :
    JsonValue.list (items.set n (overwrite (.single (path ++ .index n :: rest) fill) (path ++ [.index n]) item)) =
      overwrite (.single (path ++ .index n :: rest) fill) path (.list items) := by
  rw [overwrite_list]
  refine congrArg JsonValue.list (List.ext_getElem? fun index => ?_)
  rw [List.getElem?_mapIdx, List.getElem?_set]
  by_cases hindex : n = index
  · subst hindex
    have hlength : n < items.length := (List.getElem?_eq_some_iff.mp hitem).1
    rw [if_pos rfl, if_pos hlength, hitem]
    rfl
  · have hne : PathPart.index index ≠ .index n := fun heq => hindex (PathPart.index.inj heq).symm
    rw [if_neg hindex]
    cases items[index]? with
    | none => rfl
    | some other => rw [Option.map_some, overwrite_of_none _ (single_apart hne)]

/-- Setting a string writes over it. -/
theorem set_eq_overwrite {value target : JsonValue} {rest : List PathPart} {text : String}
    (h : Reaches value rest target)
    (htarget : target = .string text) (hdistinct : Distinct value) (hrest : rest ≠ []) (path : List PathPart)
    (fill : Fill) :
    value.set rest fill.value = some (overwrite (.single (path ++ rest) fill) path value) := by
  have hhere : ∀ path, overwrite (.single path fill) path (.string text) = fill.value := by
    intro path
    rw [overwrite, single_self]
    rfl
  induction h generalizing path with
  | here value => exact absurd rfl hrest
  | @key entries name item target rest hitem hreaches ih =>
    have hassign := assign_overwrite path rest fill hdistinct.nodup hitem
    cases rest with
    | nil =>
      cases hreaches
      rw [htarget, hhere] at hassign
      rw [JsonValue.set, hassign, overwrite]
    | cons part rest =>
      have hnext := ih htarget (hdistinct.entry hitem) (by simp) (path ++ [.key name])
      rw [List.append_assoc, List.singleton_append] at hnext
      rw [JsonValue.set, hdistinct.lookup hitem, Option.bind_eq_bind, Option.bind_some, hnext, Option.bind_some,
        hassign, overwrite]
  | @index items n item target rest hitem hreaches ih =>
    have hset := set_overwrite path rest fill hitem
    cases rest with
    | nil =>
      cases hreaches
      rw [htarget, hhere] at hset
      rw [JsonValue.set, if_pos (List.getElem?_eq_some_iff.mp hitem).1, hset]
    | cons part rest =>
      have hnext := ih htarget (hdistinct.item hitem) (by simp) (path ++ [.index n])
      rw [List.append_assoc, List.singleton_append] at hnext
      rw [JsonValue.set, hitem, Option.bind_eq_bind, Option.bind_some, hnext, Option.bind_some, hset]

end set

end pii_engine.request_segments
