import PiiEngine.Bundle.Publication
import PiiEngine.Bundle.Selection

open checked collections crashes files

namespace pii_engine.bundle

section run
variable {platform : Platform} {names : TemporaryNames} {reference_path : Option FilePath}
  {manifest_sha256 version : Text} {s : FileTree}
variable {download : Text → Except BundleFailure Bytes} {missing_manifest_ok : Bool} {t : FileTree}

/-- What a sync ends with: nothing and the old reference, or a directory that is selected. -/
def Outcome (platform : Platform) (reference_path : Option FilePath) (manifest_sha256 version : Text) (s : FileTree)
    (outcome : Except BundleFailure (Option FilePath)) (t : FileTree) : Prop :=
  (outcome = .ok none → Intact platform reference_path s t) ∧ ∀ p, outcome = .ok (some p) →
    p = cache_directory manifest_sha256 ∧ Selected platform reference_path manifest_sha256 version t

theorem Outcome.failed {failure : BundleFailure} :
    Outcome platform reference_path manifest_sha256 version s (.error failure) t :=
  ⟨nofun, nofun⟩

variable (hlinks : UnlinkedCaches platform s) (hplaced : WellPlaced names reference_path manifest_sha256 s)
  (hround : RoundTrip platform manifest_sha256 version)
include hlinks hplaced hround

theorem selected_meets (hintact : Intact platform reference_path s t)
    (hunlinked : ∀ p, completed_cache platform t manifest_sha256 (some version) = some p → t.Unlinked p) :
    Program.Meets (Operation.effects Text Bytes BundleFailure)
      (Safe platform reference_path manifest_sha256 version s)
      (some <$> select_desired_bundle platform names reference_path manifest_sha256 version)
      (Outcome platform reference_path manifest_sha256 version s) t := by
  refine Program.Meets.map ((select_meets hlinks hplaced hround hintact hunlinked).mono ?_)
  intro outcome u hu
  cases outcome with
  | error failure => exact Outcome.failed
  | ok p =>
    refine ⟨nofun, ?_⟩
    intro found hfound
    cases hfound
    exact hu p rfl

theorem downloadAndSelect_meets :
    Program.Meets (Operation.effects Text Bytes BundleFailure)
      (Safe platform reference_path manifest_sha256 version s)
      (downloadAndSelect platform names reference_path manifest_sha256 version download missing_manifest_ok)
      (Outcome platform reference_path manifest_sha256 version s) s := by
  have hstart : Intact platform reference_path s s := Intact.refl
  have hnone : Outcome platform reference_path manifest_sha256 version s (.ok none) s :=
    ⟨fun _ => hstart, nofun⟩
  rw [downloadAndSelect]
  split
  case h_1 =>
    split
    case isTrue => exact ⟨hstart.safe, hnone⟩
    case isFalse => exact ⟨hstart.safe, Outcome.failed⟩
  case h_2 => exact ⟨hstart.safe, Outcome.failed⟩
  case h_3 root manifest_data hmanifest_data =>
    have hroot := downloadTo_unlinked empty_unlinked hmanifest_data
    refine Program.Meets.bind (Program.Meets.lift hstart.safe ?_)
    cases parse_manifest platform manifest_data manifest_sha256 version with
    | error failure => exact Outcome.failed
    | ok manifest =>
      refine Program.Meets.bind (Program.Meets.store hstart.safe ?_)
      dsimp only
      split
      case isTrue => exact selected_meets hlinks hplaced hround hstart (hlinks manifest_sha256 (some version))
      case isFalse =>
        refine Program.Meets.bind (Program.Meets.lift hstart.safe ?_)
        cases hindex : downloadTo download (version ++ '/' :: manifest.fields.checksum_file) root
            [manifest.fields.checksum_file] with
        | error failure => exact Outcome.failed
        | ok indexed =>
          have hindexed := downloadTo_unlinked hroot hindex
          refine Program.Meets.bind (Program.Meets.lift hstart.safe ?_)
          cases verify_checksum_index platform indexed.2 manifest with
          | error failure => exact Outcome.failed
          | ok _ =>
            refine Program.Meets.bind (Program.Meets.lift hstart.safe ?_)
            cases parse_checksums platform indexed.2 with
            | error failure => exact Outcome.failed
            | ok files =>
              refine Program.Meets.bind (Program.Meets.lift hstart.safe ?_)
              cases hfiles : _download_files download version files indexed.1 with
              | error failure => exact Outcome.failed
              | ok source =>
                have hsource := download_files_unlinked hindexed hfiles
                refine Program.Meets.bind (Program.Meets.lift hstart.safe ?_)
                cases verify_bundle platform source [] manifest files with
                | error failure => exact Outcome.failed
                | ok _ =>
                  refine Program.Meets.bind ((publish_meets hlinks hplaced hsource).mono ?_)
                  intro published t ht
                  cases published with
                  | error failure => exact Outcome.failed
                  | ok p =>
                    refine selected_meets hlinks hplaced hround ht.1 ?_
                    intro found hfound
                    rw [(completed_cache_eq_some hfound).1]
                    exact ht.2 p rfl

theorem sync_bundle_meets :
    Program.Meets (Operation.effects Text Bytes BundleFailure)
      (Safe platform reference_path manifest_sha256 version s)
      (sync_bundle platform names reference_path manifest_sha256 version download missing_manifest_ok)
      (Outcome platform reference_path manifest_sha256 version s) s := by
  have hstart : Intact platform reference_path s s := Intact.refl
  refine Program.Meets.bind (Program.Meets.store hstart.safe ?_)
  dsimp only
  split
  case isTrue => exact selected_meets hlinks hplaced hround hstart (hlinks manifest_sha256 (some version))
  case isFalse =>
    refine Program.Meets.bind (Program.Meets.run ?_ ?_)
    · intro t ht
      rw [show t = s from ht]
      exact hstart.safe
    · intro outcome t ht
      have hsame : t = s := by
        cases outcome <;> exact ht
      rw [hsame]
      refine ⟨hstart.safe, ?_⟩
      cases outcome with
      | error failure => exact Outcome.failed
      | ok _ =>
        refine Program.Meets.ensuring ((downloadAndSelect_meets hlinks hplaced hround).at_end.mono ?_)
        intro result u hu
        refine Program.Meets.run ?_ ?_
        · intro v hv
          rw [show v = u from hv]
          exact hu.1
        · intro cleaned v hv
          have hsame : v = u := by
            cases cleaned <;> exact hv
          rw [hsame]
          refine ⟨hu.1, ?_⟩
          cases cleaned with
          | error failure => exact Outcome.failed
          | ok _ => exact hu.2

end run


/-- A sync loses no good bundle and selects nothing but a verified one, wherever it stops. -/
theorem sync_bundle_atomic (platform : Platform) (names : TemporaryNames) (reference_path : Option FilePath)
    (manifest_sha256 version : Text) (download : Text → Except BundleFailure Bytes) (missing_manifest_ok : Bool)
    (s : FileTree) (hround : RoundTrip platform manifest_sha256 version)
    (hplaced : WellPlaced names reference_path manifest_sha256 s)
    (hlinks : UnlinkedCaches platform s) :
    AtomicSync platform names reference_path manifest_sha256 version download missing_manifest_ok s := by
  have hmeets : Program.Meets (Operation.effects Text Bytes BundleFailure) _
      (sync_bundle platform names reference_path manifest_sha256 version download missing_manifest_ok) _ s :=
    sync_bundle_meets hlinks hplaced hround
  constructor
  · intro t ht
    have hsafe := hmeets.moment ht
    refine ⟨?_, ?_, hsafe.reference.imp_left fun hintact => hintact.referenceKept hplaced⟩
    · intro digest expected_version p hp
      exact accepted_congr hlinks hsafe.caches hp
    · intro digest expected_version p hp
      exact (verified_of_desired_cache hp).2
  · intro outcome t ht
    obtain ⟨hnone, hsome⟩ := hmeets.ends ht
    refine ⟨fun h => (hnone h).referenceKept hplaced, ?_⟩
    intro p hp
    obtain ⟨rfl, hselected⟩ := hsome p hp
    exact hselected.2

section samples

/-- The manifest of a bundle with one model and one file. -/
def sampleFields (version : Text) : ManifestFields where
  schema_version := 2
  bundle_version := version
  models := [(['m'], ⟨['m'], ['m'], ['m'], ['m'], ['m'], ['m'], ['m'], [['e', 'n']]⟩)]
  runtime := ⟨[], ['s'], 0, [(['P'], ['P'])]⟩
  checksum_file := "checksums.sha256".toList
  checksum_sha256 := List.replicate 64 'c'
  checksum_size := 1
  file_count := 1
  total_model_bytes := 1

def acceptedDigest : Text := List.replicate 64 'a'

def syncedDigest : Text := List.replicate 64 'b'

/-- Two manifests, one checksum index and one model file, with digests of their own. -/
def samplePlatform : Platform where
  sha256 data := List.replicate 64
    (if data = [1] then 'a' else if data = [2] then 'b' else if data = [3] then 'c' else if data = [4] then 'd'
      else 'e')
  safe_load data :=
    if data = [1] then some ⟨some ['v'], some (sampleFields ['v'])⟩
    else if data = [2] then some ⟨some ['w'], some (sampleFields ['w'])⟩
    else none
  decode_utf8 data := if data = [3] then some (List.replicate 64 'd' ++ [' ', ' ', 'm', '/', 'f']) else none
  validate_reference_json data :=
    if some data = referenceData syncedDigest ['w'] then some ⟨1, ['w'], lower syncedDigest⟩
    else if some data = referenceData acceptedDigest ['v'] then some ⟨1, ['v'], lower acceptedDigest⟩
    else none

/-- The objects of the second bundle. -/
def sampleDownload (key : Text) : Except BundleFailure Bytes :=
  if key = "w/manifest.yaml".toList then .ok [2]
  else if key = "w/checksums.sha256".toList then .ok [3]
  else if key = "w/m/f".toList then .ok [4]
  else .error (.object_not_found key)

def sampleNames : TemporaryNames := ⟨['.', 'd'], ['.', 'r']⟩

def sampleReference : FilePath := ["desired-bundle.json".toList]

/-- A cache with the first bundle. -/
def completeTree (manifest : Node Text Bytes) : FileTree := .ofList
  [([acceptedDigest], .directory), ([acceptedDigest, manifestName], manifest),
    ([acceptedDigest, "checksums.sha256".toList], .file [3]), ([acceptedDigest, ['m']], .directory),
    ([acceptedDigest, ['m'], ['f']], .file [4]), ([acceptedDigest, completeName], .file (List.replicate 64 97))]

/-- The same cache with an incomplete directory for the second one. -/
def incompleteTree (manifest : Node Text Bytes) : FileTree :=
  ((completeTree manifest).set [syncedDigest] .directory).set [syncedDigest, ['x']] (.file [1])

theorem keys_completeTree (manifest : Node Text Bytes) : (completeTree manifest).keys =
    [[acceptedDigest], [acceptedDigest, manifestName], [acceptedDigest, "checksums.sha256".toList],
      [acceptedDigest, ['m']], [acceptedDigest, ['m'], ['f']], [acceptedDigest, completeName]] := rfl

/-- Only the first bundle's directory has entries. -/
theorem get?_completeTree (manifest : Node Text Bytes) {name : Text} (hname : name ≠ acceptedDigest) {p : FilePath}
    (hp : [name] <+: p) : (completeTree manifest).get? p = none := by
  obtain ⟨rest, rfl⟩ := hp
  cases hget : (completeTree manifest).get? ([name] ++ rest) with
  | none => rfl
  | some node =>
    have hkey := OrderedDict.mem_keys_iff.mpr (Option.isSome_of_mem hget)
    rw [keys_completeTree] at hkey
    simp [hname] at hkey

/-- The incomplete directory is removed before the reference's place is looked at. -/
theorem removed_moment (reference_path : Option FilePath) (manifest : Node Text Bytes) :
    Program.Moment (Operation.effects Text Bytes BundleFailure)
      (sync_bundle samplePlatform sampleNames reference_path syncedDigest ['w'] sampleDownload false)
      (incompleteTree manifest) (completeTree manifest) := by
  have hbeside : Files.SameBeside [syncedDigest] (incompleteTree manifest) (completeTree manifest) := by
    intro p hp
    rw [incompleteTree, OrderedDict.get?_set_ne, OrderedDict.get?_set_ne]
    · intro h
      rw [h] at hp
      exact hp (List.prefix_refl _)
    · intro h
      rw [h] at hp
      exact hp (List.prefix_append [syncedDigest] [['x']])
  have hremoving : Operation.Removing [syncedDigest] (incompleteTree manifest) (completeTree manifest) := by
    refine ⟨hbeside, ?_⟩
    intro p
    by_cases hp : [syncedDigest] <+: p
    · exact .inr (get?_completeTree manifest (by decide) hp)
    · exact .inl (hbeside p hp)
  refine .inr ⟨.ok (), incompleteTree manifest, rfl, Program.Moment.ensuring (fun _ => rfl) ?_⟩
  refine .inr ⟨.ok (), incompleteTree manifest, rfl, ?_⟩
  exact .inl (.inl ⟨rfl, hremoving⟩)

set_option maxRecDepth 4000 in
/-- The new reference is created before it is written. -/
theorem created_moment : Program.Moment (Operation.effects Text Bytes BundleFailure)
    (sync_bundle samplePlatform sampleNames (some [sampleNames.reference]) acceptedDigest ['v'] sampleDownload false)
    (completeTree (.file [1])) ((completeTree (.file [1])).set [sampleNames.reference] (.file [])) := by
  have hfree : ∀ p, [sampleNames.reference] <+: p → (completeTree (.file [1])).get? p = none :=
    fun p hp => get?_completeTree (.file [1]) (by decide) hp
  refine .inr ⟨.ok (), (completeTree (.file [1])).set [sampleNames.reference] (.file []), ⟨hfree, ?_, ?_⟩, ?_⟩
  · intro p hp
    apply OrderedDict.get?_set_ne
    intro heq
    rw [heq] at hp
    exact hp (List.prefix_refl _)
  · intro p hp
    rw [OrderedDict.get?_set, hfree p hp]
  · exact .inl fun p _ => rfl

/-- A reference below a directory that is removed, an accepted cache that links into it, and a
    reference under a temporary name are not safe. -/
theorem sync_bundle_not_atomic :
    ¬ AtomicSync samplePlatform sampleNames (some [syncedDigest, ['x']]) syncedDigest ['w'] sampleDownload false
      (incompleteTree (.file [1])) ∧
    ¬ AtomicSync samplePlatform sampleNames (some sampleReference) syncedDigest ['w'] sampleDownload false
      (incompleteTree (.link [syncedDigest, ['x']])) ∧
    ¬ AtomicSync samplePlatform sampleNames (some [sampleNames.reference]) acceptedDigest ['v'] sampleDownload false
      (completeTree (.file [1])) := by
  refine ⟨?_, ?_, ?_⟩
  · intro h
    have hgone : entryAt (completeTree (.file [1])) [syncedDigest, ['x']] = none := by decide +kernel
    have hbefore : entryAt (incompleteTree (.file [1])) [syncedDigest, ['x']] = some (.file [1]) := by decide +kernel
    cases (h.1 _ (removed_moment _ _)).2.2 with
    | inl hkept =>
      have hsame := hkept _ rfl
      rw [hgone, hbefore] at hsame
      cases hsame
    | inr hselected =>
      obtain ⟨path, hpath, data, -, hfile⟩ := hselected.1
      cases hpath
      rw [hgone] at hfile
      cases hfile
  · intro h
    have haccepted : completed_cache samplePlatform (incompleteTree (.link [syncedDigest, ['x']])) acceptedDigest none =
        some [acceptedDigest] := by decide +kernel
    have hlost : completed_cache samplePlatform (completeTree (.link [syncedDigest, ['x']])) acceptedDigest none =
        none := by decide +kernel
    have hkept := (h.1 _ (removed_moment _ _)).1 acceptedDigest none _ haccepted
    rw [hlost] at hkept
    cases hkept.1
  · intro h
    have hafter : entryAt ((completeTree (.file [1])).set [sampleNames.reference] (.file [])) [sampleNames.reference] =
        some (.file []) := by decide +kernel
    have hbefore : entryAt (completeTree (.file [1])) [sampleNames.reference] = none := by decide +kernel
    have hlong : referenceData acceptedDigest ['v'] ≠ some [] := by decide +kernel
    cases (h.1 _ created_moment).2.2 with
    | inl hkept =>
      have hsame := hkept _ rfl
      rw [hafter, hbefore] at hsame
      cases hsame
    | inr hselected =>
      obtain ⟨path, hpath, data, hdata, hfile⟩ := hselected.1
      cases hpath
      rw [hafter] at hfile
      cases hfile
      exact hlong hdata

/-- The whole run of a sync that publishes a second bundle. -/
theorem sync_bundle_atomic_publishes :
    AtomicSync samplePlatform sampleNames (some sampleReference) syncedDigest ['w'] sampleDownload false
      (incompleteTree (.file [1])) := by
  apply sync_bundle_atomic
  · intro _ data hdata
    dsimp only [samplePlatform]
    rw [if_pos hdata.symm]
  · constructor
    · intro path hpath
      cases hpath
      decide +kernel
    · intro path hpath
      cases hpath
      exact ⟨_, [], rfl, fun h => absurd rfl h⟩
  · intro digest expected_version p _ path target _ hlink
    have hfiles : ((incompleteTree (.file [1])).values.all fun node => node matches .file _ | .directory) = true := by
      decide +kernel
    have hmem : Node.link target ∈ (incompleteTree (.file [1])).values := OrderedDict.mem_values_of_get? hlink
    cases List.all_eq_true.mp hfiles _ hmem

end samples

end pii_engine.bundle
