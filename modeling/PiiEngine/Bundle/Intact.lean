import PiiEngine.Bundle.Verified

open checked collections crashes files

namespace pii_engine.bundle

/-- The file or the link at a path. -/
def entryAt (tree : FileTree) (path : FilePath) : Option (Node Text Bytes) :=
  (tree.get? path).filter fun node => node ≠ .directory

section statement
variable (platform : Platform) (names : TemporaryNames) (reference_path : Option FilePath)
  (manifest_sha256 version : Text) (download : Text → Except BundleFailure Bytes) (missing_manifest_ok : Bool)

/-- Every cache directory that was accepted still is, with the same content. -/
def CachesKept (s t : FileTree) : Prop :=
  ∀ digest expected_version p, completed_cache platform s digest expected_version = some p →
    completed_cache platform t digest expected_version = some p ∧ Files.SameBelow p s t

def ReferenceKept (s t : FileTree) : Prop := ∀ path ∈ reference_path, entryAt t path = entryAt s path

/-- Whatever the desired reference can select is a verified bundle. -/
def DesiredVerified (t : FileTree) : Prop :=
  ∀ digest expected_version p, desired_cache platform t reference_path digest expected_version = some p →
    ∃ manifest_data checksum_data manifest files,
      Verified platform t p digest expected_version manifest_data checksum_data manifest files

/-- The bytes of the reference that a sync writes. -/
def referenceData : Option Bytes :=
  encode_ascii (DesiredBundleReference.model_dump_json ⟨1, version, lower manifest_sha256⟩ ++ ['\n'])

/-- The reference is the one that the sync writes, and it selects the requested bundle. -/
def Selected (t : FileTree) : Prop :=
  (∃ path ∈ reference_path, ∃ data ∈ referenceData manifest_sha256 version, entryAt t path = some (.file data)) ∧
    desired_cache platform t reference_path manifest_sha256 version = some (cache_directory manifest_sha256)

/-- No link stands at or below an accepted cache directory. -/
def UnlinkedCaches (s : FileTree) : Prop :=
  ∀ digest expected_version p, completed_cache platform s digest expected_version = some p → s.Unlinked p

/-- Wherever a sync is stopped, no accepted cache is lost, nothing but a verified bundle can be
    selected, and the reference is the old one or the new one. At its end the reference is the
    old one if nothing was synced, and it selects the directory that was returned. -/
def AtomicSync (s : FileTree) : Prop :=
  let sync := sync_bundle platform names reference_path manifest_sha256 version download missing_manifest_ok
  (∀ t, sync.Moment (Operation.effects Text Bytes BundleFailure) s t →
    CachesKept platform s t ∧ DesiredVerified platform reference_path t ∧
      (ReferenceKept reference_path s t ∨ Selected platform reference_path manifest_sha256 version t)) ∧
  ∀ outcome t, sync.Ends (Operation.effects Text Bytes BundleFailure) s outcome t →
    (outcome = .ok none → ReferenceKept reference_path s t) ∧
      ∀ p, outcome = .ok (some p) → desired_cache platform t reference_path manifest_sha256 version = some p

end statement

section entry
variable {s t : FileTree} {path : FilePath}

theorem entryAt_congr (h : t.get? path = s.get? path) : entryAt t path = entryAt s path := by
  rw [entryAt, entryAt, h]

theorem entryAt_file {content : Bytes} (h : t.get? path = some (.file content)) :
    entryAt t path = some (.file content) := by
  rw [entryAt, h]
  rfl

/-- Where a directory was or is, there is neither a file nor a link. -/
theorem entryAt_eq_none (h : t.get? path = none ∨ t.get? path = some .directory) : entryAt t path = none := by
  cases h with
  | inl hnone =>
    rw [entryAt, hnone]
    rfl
  | inr hdirectory =>
    rw [entryAt, hdirectory]
    rfl

end entry

section sync
variable {platform : Platform} {names : TemporaryNames} {reference_path : Option FilePath}
  {manifest_sha256 version : Text} {s : FileTree}

/-- The entries of the cache root that a sync leaves alone: the accepted cache directories, and
    where a reference below another entry is. -/
def LeftAlone (platform : Platform) (reference_path : Option FilePath) (s : FileTree) (name : Text) : Prop :=
  (∃ digest expected_version, (completed_cache platform s digest expected_version).isSome ∧ name = lower digest) ∨
    ∃ rest, rest ≠ [] ∧ reference_path = some (name :: rest)

/-- The state of a cache directory before its reference is replaced. -/
structure Intact (platform : Platform) (reference_path : Option FilePath) (s t : FileTree) : Prop where
  caches : ∀ name, LeftAlone platform reference_path s name → Files.SameBelow [name] s t
  reference : ∀ name, reference_path = some [name] → entryAt t [name] = entryAt s [name]

/-- What a moment of a sync meets. -/
structure Safe (platform : Platform) (reference_path : Option FilePath) (manifest_sha256 version : Text)
    (s t : FileTree) : Prop where
  caches : ∀ name, LeftAlone platform reference_path s name → Files.SameBelow [name] s t
  reference : Intact platform reference_path s t ∨ Selected platform reference_path manifest_sha256 version t

/-- The paths that a sync is given: the reference is an entry of the cache root, or lies below
    one that is no link, holds none, and is not the digest's; temporary names are new ones. -/
structure WellPlaced (names : TemporaryNames) (reference_path : Option FilePath) (manifest_sha256 : Text)
    (s : FileTree) : Prop where
  fresh : ∀ path ∈ reference_path, names.directory ∉ path ∧ names.reference ∉ path
  placed : ∀ path ∈ reference_path, ∃ name rest, path = name :: rest ∧
    (rest ≠ [] → name ≠ lower manifest_sha256 ∧ s.Unlinked [name])

theorem WellPlaced.directory_ne (h : WellPlaced names reference_path manifest_sha256 s) :
    reference_path ≠ some [names.directory] :=
  fun hpath => (h.fresh _ hpath).1 (List.mem_singleton_self _)

theorem WellPlaced.reference_ne (h : WellPlaced names reference_path manifest_sha256 s) :
    reference_path ≠ some [names.reference] :=
  fun hpath => (h.fresh _ hpath).2 (List.mem_singleton_self _)

theorem Intact.refl : Intact platform reference_path s s := ⟨fun _ _ _ _ => rfl, fun _ _ => rfl⟩

theorem Intact.safe {t : FileTree} (h : Intact platform reference_path s t) :
    Safe platform reference_path manifest_sha256 version s t := ⟨h.caches, .inl h⟩

theorem Intact.trans {t u : FileTree} (h : Intact platform reference_path s t)
    (hcaches : ∀ name, LeftAlone platform reference_path s name → Files.SameBelow [name] t u)
    (hreference : ∀ name, reference_path = some [name] → entryAt u [name] = entryAt t [name]) :
    Intact platform reference_path s u := by
  constructor
  · intro name hname p hp
    rw [hcaches name hname p hp, h.caches name hname p hp]
  · intro name hname
    rw [hreference name hname, h.reference name hname]

/-- Work at entries that are neither left alone nor the reference's. -/
theorem Intact.outside {t u : FileTree} (h : Intact platform reference_path s t) {other : Text}
    (hother : ¬ LeftAlone platform reference_path s other) (hreference : reference_path ≠ some [other])
    (hsame : ∀ name, other ≠ name → Files.SameBelow [name] t u) : Intact platform reference_path s u := by
  apply h.trans
  · intro name hname
    apply hsame
    intro hne
    rw [hne] at hother
    exact hother hname
  · intro name hname
    apply entryAt_congr
    refine hsame name ?_ [name] (List.prefix_refl _)
    intro hne
    rw [hne] at hreference
    exact hreference hname

variable (hlinks : UnlinkedCaches platform s)

section links
include hlinks

theorem accepted_congr {t : FileTree}
    (hcaches : ∀ name, LeftAlone platform reference_path s name → Files.SameBelow [name] s t) {digest : Text}
    {expected_version : Option Text} {p : FilePath}
    (haccepted : completed_cache platform s digest expected_version = some p) :
    completed_cache platform t digest expected_version = some p ∧ Files.SameBelow p s t := by
  have hunlinked := hlinks digest expected_version p haccepted
  obtain ⟨rfl, -⟩ := completed_cache_eq_some haccepted
  have hsame := hcaches (lower digest)
    (.inl ⟨digest, expected_version, Option.isSome_of_mem haccepted, rfl⟩)
  rw [completed_cache_congr hsame hunlinked]
  exact ⟨haccepted, hsame⟩

/-- An entry that is left alone is a directory, if it is not where the reference is. -/
theorem directory_of_leftAlone {t : FileTree} (h : Intact platform reference_path s t) {name : Text}
    (hname : LeftAlone platform reference_path s name) :
    t.get? [name] = some .directory ∨ ∃ rest, rest ≠ [] ∧ reference_path = some (name :: rest) := by
  cases hname with
  | inl haccepted =>
    obtain ⟨digest, expected_version, hsome, rfl⟩ := haccepted
    obtain ⟨p, hp⟩ := Option.isSome_iff_exists.mp hsome
    obtain ⟨ht, hsame⟩ := accepted_congr hlinks h.caches hp
    have hunlinked := (hlinks digest expected_version p hp).of_same hsame
    rw [(completed_cache_eq_some hp).1] at hunlinked
    exact .inl (directory_of_completed_cache ht hunlinked)
  | inr hreference => exact .inr hreference

/-- A new entry is not one of those that are left alone. -/
theorem not_leftAlone_of_new {t : FileTree} (h : Intact platform reference_path s t) {name : Text}
    (hfresh : ∀ path ∈ reference_path, name ∉ path) (hnew : t.get? [name] = none) :
    ¬ LeftAlone platform reference_path s name := by
  intro hname
  cases directory_of_leftAlone hlinks h hname with
  | inl hdirectory =>
    rw [hnew] at hdirectory
    cases hdirectory
  | inr hreference =>
    obtain ⟨rest, -, hpath⟩ := hreference
    exact hfresh (name :: rest) hpath List.mem_cons_self

end links

section temporary
variable {t u : FileTree} {other : Text} {operation : Operation Text Bytes}

theorem outside_of_paths (hpaths : ∀ path ∈ operation.paths, ∃ rest, path = other :: rest) {name : Text}
    (hne : other ≠ name) : operation.Outside name := by
  intro path hpath
  obtain ⟨rest, rfl⟩ := hpaths path hpath
  exact ⟨other, rest, rfl, hne⟩

theorem paths_singleton {rest : FilePath} (h : operation.paths = [other :: rest]) :
    ∀ path ∈ operation.paths, ∃ rest, path = other :: rest := by
  intro path hpath
  rw [h] at hpath
  exact ⟨rest, List.mem_singleton.mp hpath⟩

/-- An operation below an entry that is neither left alone nor the reference's. -/
theorem Intact.passes (h : Intact platform reference_path s t) (hother : ¬ LeftAlone platform reference_path s other)
    (hreference : reference_path ≠ some [other]) (hpaths : ∀ path ∈ operation.paths, ∃ rest, path = other :: rest)
    (hpasses : (Operation.effects Text Bytes BundleFailure).passes operation t u) :
    Intact platform reference_path s u :=
  h.outside hother hreference fun _ hne => Operation.same_below_of_passes hpasses (outside_of_paths hpaths hne)

theorem Intact.ends {outcome : Except BundleFailure Unit} (h : Intact platform reference_path s t)
    (hother : ¬ LeftAlone platform reference_path s other) (hreference : reference_path ≠ some [other])
    (hpaths : ∀ path ∈ operation.paths, ∃ rest, path = other :: rest)
    (hends : (Operation.effects Text Bytes BundleFailure).ends operation t outcome u) :
    Intact platform reference_path s u :=
  h.outside hother hreference fun _ hne => Operation.same_below_of_ends hends (outside_of_paths hpaths hne)

end temporary

section reference
variable {t : FileTree}

theorem Intact.referenceKept (hplaced : WellPlaced names reference_path manifest_sha256 s)
    (h : Intact platform reference_path s t) : ReferenceKept reference_path s t := by
  intro path hpath
  obtain ⟨name, rest, rfl, -⟩ := hplaced.placed path hpath
  by_cases hrest : rest = []
  · rw [hrest] at hpath ⊢
    exact h.reference name hpath
  · apply entryAt_congr
    exact h.caches name (.inr ⟨rest, hrest, hpath⟩) (name :: rest) (List.prefix_append [name] rest)

end reference

end sync

end pii_engine.bundle
