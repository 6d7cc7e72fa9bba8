import PiiEngine.Lib.Collections

open collections

namespace documents

/-- Nested records with values of a type at their leaves. -/
inductive Document (V : Type) where
  | value (v : V)
  | record (entries : List (String × Document V))

/-- The entries of a record, in their order. -/
abbrev Entries (V : Type) := List (String × Document V)

namespace Document
variable {V α : Type}

mutual

/-- What an update makes of the entry that stands under its key. -/
def updated : Option (Document V) → Document V → Document V
  | some (.record current), .record updates => .record (deep_update current updates)
  | _, update => update

/-- Update a record entry by entry, and the records in it in the same way. -/
def deep_update (target : Entries V) : Entries V → Entries V
  | [] => target
  | (key, update) :: rest =>
    deep_update (OrderedDict.assign key (updated (target.lookup key) update) target) rest

end

/-- The entries of a dumped model. A field without a value is left out or dumped as a null. -/
def dumped (null : Option (Document V)) (fields : List (String × Option (Document V))) : Entries V :=
  fields.filterMap fun field => (field.2.or null).map (field.1, ·)

/-- The entry under a field's key, or else under its name. -/
def given (entries : Entries V) (key name : String) : Option (Document V) :=
  (entries.lookup key).or (entries.lookup name)

/-- A field's value in a record, or else its default. -/
def field (entries : Entries V) (key name : String) (fallback : Option α) (decode : Document V → Option α) : Option α :=
  (given entries key name).elim fallback decode

/-- Every entry stands under the key of a field, or under its name when the key is not used. -/
def Known (fields : List (String × String)) (entries : Entries V) : Prop :=
  ∀ entry ∈ entries, ∃ field ∈ fields, entry.1 = field.1 ∨ (entry.1 = field.2 ∧ field.1 ∉ entries.map Prod.fst)

instance (fields : List (String × String)) (entries : Entries V) : Decidable (Known fields entries) :=
  inferInstanceAs (Decidable (∀ _ ∈ _, _))

/-- How the values of a type stand at a leaf. -/
structure Codec (V α : Type) where
  encode : α → V
  decode : V → Option α
  decode_encode : ∀ a, decode (encode a) = some a

namespace Codec

def dump (codec : Codec V α) (a : α) : Document V := .value (codec.encode a)

def read (codec : Codec V α) : Document V → Option α
  | .value v => codec.decode v
  | .record _ => none

@[simp] theorem read_dump (codec : Codec V α) (a : α) : codec.read (codec.dump a) = some a := codec.decode_encode a

@[simp] theorem updated_dump (codec : Codec V α) (a : α) (update : Document V) :
    updated (some (codec.dump a)) update = update := by
  cases update <;> rw [dump, updated]
  all_goals
    intro current updates h
    cases h

end Codec

theorem lookup_absent {entries : List (String × α)} {key : String} (h : key ∉ entries.map Prod.fst) :
    entries.lookup key = none := by
  rw [List.lookup_eq_none_iff]
  intro entry hentry
  rw [bne_iff_ne]
  rintro rfl
  exact h (List.mem_map_of_mem hentry)

theorem lookup_dumped {null : Option (Document V)} {fields : List (String × Option (Document V))}
    (hkeys : (fields.map Prod.fst).Nodup) (key : String) :
    (dumped null fields).lookup key = (fields.lookup key).bind (·.or null) := by
  induction fields with
  | nil => rfl
  | cons field fields ih =>
    rw [List.map_cons, List.nodup_cons] at hkeys
    have hrest := ih hkeys.2
    rw [dumped] at hrest
    rw [dumped, List.filterMap_cons, List.lookup_cons]
    by_cases hkey : key = field.1
    · rw [hkey, beq_self_eq_true, Option.bind_some]
      have habsent := lookup_absent hkeys.1
      cases field.2.or null with
      | none =>
        rw [hkey, habsent] at hrest
        exact hrest
      | some document => simp
    · rw [beq_eq_false_iff_ne.mpr hkey]
      cases field.2.or null with
      | none => exact hrest
      | some document =>
        rw [← hrest]
        simp [List.lookup_cons, beq_eq_false_iff_ne.mpr hkey]

theorem keys_dumped {null : Option (Document V)} {fields : List (String × Option (Document V))} {key : String}
    (h : key ∈ (dumped null fields).map Prod.fst) : key ∈ fields.map Prod.fst := by
  obtain ⟨entry, hentry, rfl⟩ := List.mem_map.mp h
  obtain ⟨field, hfield, hdump⟩ := List.mem_filterMap.mp hentry
  obtain ⟨document, -, rfl⟩ := Option.map_eq_some_iff.mp hdump
  exact List.mem_map_of_mem hfield

theorem nodup_dumped {null : Option (Document V)} {fields : List (String × Option (Document V))}
    (hkeys : (fields.map Prod.fst).Nodup) : ((dumped null fields).map Prod.fst).Nodup := by
  induction fields with
  | nil => exact List.nodup_nil
  | cons field fields ih =>
    rw [List.map_cons, List.nodup_cons] at hkeys
    rw [dumped, List.filterMap_cons]
    cases field.2.or null with
    | none => exact ih hkeys.2
    | some document => exact List.nodup_cons.mpr ⟨fun h => hkeys.1 (keys_dumped h), ih hkeys.2⟩

/-- After an update there stands, under each key of it, what it makes of the entry there. -/
theorem lookup_deep_update {target updates : Entries V} (hkeys : (updates.map Prod.fst).Nodup) (key : String) :
    (deep_update target updates).lookup key =
      (updates.lookup key).elim (target.lookup key) fun update => some (updated (target.lookup key) update) := by
  induction updates generalizing target with
  | nil => rw [deep_update, List.lookup_nil, Option.elim_none]
  | cons update updates ih =>
    obtain ⟨name, document⟩ := update
    rw [List.map_cons, List.nodup_cons] at hkeys
    rw [deep_update, ih hkeys.2, OrderedDict.lookup_assign, List.lookup_cons]
    by_cases hkey : key = name
    · have habsent := lookup_absent hkeys.1
      simp [hkey, habsent]
    · simp [hkey, beq_eq_false_iff_ne.mpr hkey]

theorem keys_deep_update {target updates : Entries V} {key : String}
    (h : key ∈ (deep_update target updates).map Prod.fst) :
    key ∈ target.map Prod.fst ∨ key ∈ updates.map Prod.fst := by
  induction updates generalizing target with
  | nil =>
    rw [deep_update] at h
    exact .inl h
  | cons update updates ih =>
    obtain ⟨name, document⟩ := update
    rw [deep_update] at h
    rw [List.map_cons, List.mem_cons]
    cases ih h with
    | inr hrest => exact .inr (.inr hrest)
    | inl htarget =>
      rw [OrderedDict.mem_keys_assign] at htarget
      tauto

section merged
variable {null : Document V} {fields updates : List (String × Option (Document V))}
  (hfields : (fields.map Prod.fst).Nodup) (hupdates : (updates.map Prod.fst).Nodup)
include hfields hupdates

/-- The entry of a dumped model that is updated with a dump in which nulls are left out. -/
theorem lookup_merged (key : String) :
    (deep_update (dumped (some null) fields) (dumped none updates)).lookup key =
      ((updates.lookup key).bind id).elim ((fields.lookup key).map (·.getD null)) fun update =>
        some (updated ((fields.lookup key).map (·.getD null)) update) := by
  have hnull : ∀ value : Option (Option (Document V)), value.bind (·.or (some null)) = value.map (·.getD null) := by
    intro value
    cases value with
    | none => rfl
    | some document => cases document <;> rfl
  have hnone : ∀ value : Option (Option (Document V)), value.bind (·.or none) = value.bind id := by
    intro value
    cases value with
    | none => rfl
    | some document => cases document <;> rfl
  rw [lookup_deep_update (nodup_dumped hupdates), lookup_dumped hfields, lookup_dumped hupdates, hnull, hnone]

omit hfields hupdates in
/-- A model's record that is updated with another dump of the model has only its fields. -/
theorem known_merged {known : List (String × String)} (hknown : ∀ key ∈ fields.map Prod.fst, key ∈ known.map Prod.fst)
    (hupdated : ∀ key ∈ updates.map Prod.fst, key ∈ known.map Prod.fst) :
    Known known (deep_update (dumped (some null) fields) (dumped none updates)) := by
  intro entry hentry
  have hkey : entry.1 ∈ known.map Prod.fst := by
    cases keys_deep_update (List.mem_map_of_mem hentry) with
    | inl htarget => exact hknown _ (keys_dumped htarget)
    | inr hupdate => exact hupdated _ (keys_dumped hupdate)
  obtain ⟨field, hfield, heq⟩ := List.mem_map.mp hkey
  exact ⟨field, hfield, .inl heq.symm⟩

/-- A field that the first model has, in the updated record. -/
theorem field_merged {key name : String} {fallback : Option α} {decode : Document V → Option α}
    {value : Option (Document V)} (hvalue : fields.lookup key = some value) :
    field (deep_update (dumped (some null) fields) (dumped none updates)) key name fallback decode =
      decode (((updates.lookup key).bind id).elim (value.getD null) (updated (some (value.getD null)))) := by
  rw [field, given, lookup_merged hfields hupdates, hvalue, Option.map_some]
  cases (updates.lookup key).bind id <;> rfl

end merged

/-- A record that is updated with the dump of a model, if there is one. -/
theorem updated_section (entries : Entries V) (updates : Option (List (String × Option (Document V)))) :
    (updates.map fun fields => record (dumped none fields)).elim (record entries) (updated (some (record entries))) =
      record (deep_update entries (dumped none (updates.getD []))) := by
  cases updates with
  | none => rw [Option.map_none, Option.elim_none, Option.getD_none, dumped, List.filterMap_nil, deep_update]
  | some fields => rw [Option.map_some, Option.elim_some, updated, Option.getD_some]

end Document

end documents
