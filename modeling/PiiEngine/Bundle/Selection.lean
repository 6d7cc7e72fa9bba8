import PiiEngine.Bundle.Intact

open checked collections crashes files

namespace pii_engine.bundle

section json

theorem length_jsonChar_le (c : Char) : (jsonChar c).length ≤ 6 := by
  unfold jsonChar
  split_ifs <;> simp

theorem length_jsonString_le (text : Text) : (jsonString text).length ≤ 6 * text.length + 2 := by
  have hchars : (text.flatMap jsonChar).length ≤ 6 * text.length := by
    induction text with
    | nil => exact Nat.le_refl 0
    | cons c text ih =>
      have hc := length_jsonChar_le c
      rw [List.flatMap_cons, List.length_append, List.length_cons]
      omega
  rw [jsonString, List.cons_append, List.length_cons, List.length_append, List.length_singleton]
  omega

theorem length_encode_ascii {text : Text} {data : Bytes} (h : encode_ascii text = some data) :
    data.length = text.length := by
  rw [encode_ascii] at h
  split at h
  case isTrue =>
    cases h
    exact List.length_map _
  case isFalse => cases h

theorem length_model_dump_json (reference : DesiredBundleReference) :
    reference.model_dump_json.length =
      35 + (jsonString reference.bundle_version).length + 18 + (jsonString reference.manifest_sha256).length + 1 := by
  have hopen : "\x7b\"schemaVersion\":1,\"bundleVersion\":".toList.length = 35 := rfl
  have hmiddle : ",\"manifestSha256\":".toList.length = 18 := rfl
  have hclose : "\x7d".toList.length = 1 := rfl
  unfold DesiredBundleReference.model_dump_json
  rewrite [List.length_append, List.length_append, List.length_append, List.length_append, hopen, hmiddle, hclose]
  exact rfl

/-- The reference that a sync writes is short enough to be read. -/
theorem length_referenceData_le {manifest_sha256 version : Text} {data : Bytes}
    (hvalid : DesiredBundleReference.valid ⟨1, version, lower manifest_sha256⟩ = true)
    (hdata : referenceData manifest_sha256 version = some data) : data.length ≤ 4096 := by
  simp only [DesiredBundleReference.valid, bounded, isDigest, Bool.and_eq_true, decide_eq_true_eq] at hvalid
  obtain ⟨⟨-, -, hversion⟩, hdigest, -⟩ := hvalid
  have hversion_json := length_jsonString_le version
  have hdigest_json := length_jsonString_le (lower manifest_sha256)
  have hlength := length_model_dump_json ⟨1, version, lower manifest_sha256⟩
  dsimp only at hlength
  have htext := length_encode_ascii hdata
  rw [List.length_append, List.length_singleton, hlength] at htext
  clear hlength hdata
  omega

end json

section sync
variable {platform : Platform} {names : TemporaryNames} {reference_path : Option FilePath}
  {manifest_sha256 version : Text} {s : FileTree}

section reference
variable {t : FileTree} {name : Text}

/-- The last names that a path cannot end in. -/
def dots : List Text := [[], ['.'], ['.', '.']]

theorem validate_entry (hname : name ∉ dots) : _validate_reference_path t (some [name]) = .ok [name] := by
  have hresolve : t.resolve [name].dropLast = some [] := rfl
  have hlast : [name].getLast? ∉ [some [], some ['.'], some ['.', '.']] := by
    simpa [dots] using hname
  exact if_pos ⟨List.cons_ne_nil name [], hresolve, hlast⟩

/-- An accepted reference path is an entry of the cache root. -/
theorem reference_of_validate (hplaced : WellPlaced names reference_path manifest_sha256 s)
    (hintact : Intact platform reference_path s t) {path : FilePath}
    (h : _validate_reference_path t reference_path = .ok path) :
    ∃ name, path = [name] ∧ reference_path = some [name] ∧ name ∉ dots := by
  cases reference_path with
  | none => cases h
  | some given =>
    obtain ⟨name, rest, rfl, hrest⟩ := hplaced.placed given rfl
    rw [_validate_reference_path] at h
    split at h
    case isFalse => cases h
    case isTrue hchecks =>
      cases h
      obtain ⟨-, hresolve, hlast⟩ := hchecks
      by_cases hnil : rest = []
      · rw [hnil] at hlast ⊢
        exact ⟨name, rfl, rfl, by simpa [dots] using hlast⟩
      · -- without links the parent of a deeper path is not the cache root
        have hsame := hintact.caches name (.inr ⟨rest, hnil, rfl⟩)
        rw [List.dropLast_cons_of_ne_nil hnil] at hresolve
        have hparent := Files.resolve_unlinked ((hrest hnil).2.of_same hsame) hresolve
        cases hparent

theorem resolve_file {content : Bytes} (hfile : t.get? [name] = some (.file content)) :
    t.resolve [name] = some [name] := by
  have hwalk : t.walk (Files.limit - 1 + 1) [] [name] = some [name] := by
    rw [Files.walk, List.nil_append, hfile]
    rfl
  exact hwalk

/-- A reference in the cache root is read as it is written. -/
theorem read_desired_reference_file (hname : name ∉ dots) {content : Bytes}
    (hfile : t.get? [name] = some (.file content)) (hlength : content.length ≤ 4096) :
    _read_desired_reference platform t (some [name]) = platform.validate_reference_json content := by
  have hlstat : t.lstat [name] = some (.file content) := hfile
  have hstat : t.stat [name] = some (.file content) := by
    rw [Files.stat, resolve_file hfile]
    exact hfile
  have hread : t.read_bytes [name] = some content := by
    rw [Files.read_bytes, hstat]
  have hlink : t.is_symlink [name] = false := by
    rw [Files.is_symlink, hlstat]
  rw [_read_desired_reference, validate_entry hname]
  simp only [hlink, Files.is_file, hread, Option.isSome_some, Bool.false_eq_true, not_true_eq_false, or_self,
    if_false, Option.bind_some]
  exact if_neg (Nat.not_lt.mpr hlength)

/-- What a reference validates to is what was written, if its fields are valid. -/
def RoundTrip (platform : Platform) (manifest_sha256 version : Text) : Prop :=
  DesiredBundleReference.valid ⟨1, version, lower manifest_sha256⟩ = true →
    ∀ data, referenceData manifest_sha256 version = some data →
      platform.validate_reference_json data = some ⟨1, version, lower manifest_sha256⟩

theorem selected_of_file (hround : RoundTrip platform manifest_sha256 version)
    (hvalid : DesiredBundleReference.valid ⟨1, version, lower manifest_sha256⟩ = true)
    (hreference : reference_path = some [name]) (hname : name ∉ dots) {data : Bytes}
    (hdata : referenceData manifest_sha256 version = some data) (hfile : t.get? [name] = some (.file data))
    (hcache : completed_cache platform t manifest_sha256 (some version) = some (cache_directory manifest_sha256)) :
    Selected platform reference_path manifest_sha256 version t := by
  rw [hreference]
  refine ⟨⟨[name], rfl, data, hdata, entryAt_file hfile⟩, ?_⟩
  have hmatches : desired_reference_matches platform t (some [name]) manifest_sha256 version = true := by
    rw [desired_reference_matches,
      read_desired_reference_file hname hfile (length_referenceData_le hvalid hdata), hround hvalid data hdata]
    simp
  rw [desired_cache, if_pos hmatches, hcache]

end reference

theorem build_eq_ok {bundle_version manifest_sha256 : Text} {reference : DesiredBundleReference}
    (h : DesiredBundleReference.build bundle_version manifest_sha256 = .ok reference) :
    reference = ⟨1, bundle_version, manifest_sha256⟩ ∧
      DesiredBundleReference.valid ⟨1, bundle_version, manifest_sha256⟩ = true := by
  dsimp only [DesiredBundleReference.build] at h
  split at h
  case isTrue hvalid =>
    cases h
    exact ⟨rfl, hvalid⟩
  case isFalse => cases h

section select
variable {t u : FileTree} (hlinks : UnlinkedCaches platform s)
include hlinks

/-- The new reference takes the place of the old one, and the selected cache is as it was. -/
theorem rename_reference {name : Text} {data : Bytes} (hintact : Intact platform reference_path s t)
    (hother : ¬ LeftAlone platform reference_path s names.reference)
    (hreference : reference_path = some [name]) (hfile : t.get? [names.reference] = some (.file data))
    (hreplaces : Operation.Replaces [names.reference] [name] t)
    (hmoved : Operation.Moved [names.reference] [name] t u) :
    u.get? [name] = some (.file data) ∧
      (∀ kept, LeftAlone platform reference_path s kept → Files.SameBelow [kept] t u) ∧
      ∀ kept, kept ≠ names.reference → t.get? [kept] = some .directory → Files.SameBelow [kept] t u := by
  have htarget : t.get? [name] ≠ some .directory := by
    cases hreplaces with
    | inl hdirectory =>
      rw [hfile] at hdirectory
      cases hdirectory.1
    | inr hfiles => exact hfiles.2.2
  have hsame : ∀ kept, kept ≠ names.reference → kept ≠ name → Files.SameBelow [kept] t u := by
    intro kept hne hne_target p hp
    rw [hmoved p, if_neg (Operation.not_prefix_of_ne hne_target.symm hp),
      if_neg (Operation.not_prefix_of_ne hne.symm hp)]
  refine ⟨?_, ?_, ?_⟩
  · rw [hmoved [name], if_pos (List.prefix_refl _)]
    exact hfile
  · intro kept hkept
    apply hsame
    · intro heq
      rw [heq] at hkept
      exact hother hkept
    · intro heq
      rw [heq] at hkept
      cases directory_of_leftAlone hlinks hintact hkept with
      | inl hdirectory => exact htarget hdirectory
      | inr hdeeper =>
        obtain ⟨rest, hrest, hpath⟩ := hdeeper
        rw [hreference] at hpath
        cases hpath
        exact hrest rfl
  · intro kept hne hdirectory
    apply hsame kept hne
    intro heq
    rw [heq] at hdirectory
    exact htarget hdirectory

/-- The temporary file becomes the reference, and is removed if it does not. -/
theorem replace_meets {name : Text} {data : Bytes} (hplaced : WellPlaced names reference_path manifest_sha256 s)
    (hround : RoundTrip platform manifest_sha256 version)
    (hvalid : DesiredBundleReference.valid ⟨1, version, lower manifest_sha256⟩ = true)
    (hintact : Intact platform reference_path s t) (hother : ¬ LeftAlone platform reference_path s names.reference)
    (hreference : reference_path = some [name]) (hname : name ∉ dots)
    (hdata : referenceData manifest_sha256 version = some data) (hfile : t.get? [names.reference] = some (.file data))
    (hcache : completed_cache platform t manifest_sha256 (some version) = some (cache_directory manifest_sha256))
    (hlinked : t.Unlinked (cache_directory manifest_sha256)) (hne : lower manifest_sha256 ≠ names.reference) :
    Program.Meets (Operation.effects Text Bytes BundleFailure)
      (Safe platform reference_path manifest_sha256 version s)
      (Program.ensuring (.run (.rename [names.reference] [name])) (.run (.unlink [names.reference])))
      (fun outcome t => outcome = .ok () → Selected platform reference_path manifest_sha256 version t) t := by
  have hdirectory := directory_of_completed_cache hcache hlinked
  have hne_name : names.reference ≠ name := by
    intro heq
    rw [← heq] at hreference
    exact hplaced.reference_ne hreference
  refine Program.Meets.ensuring (Program.Meets.run ?_ ?_)
  · intro u hu
    rw [show u = t from hu]
    exact hintact.safe
  · intro outcome u hu
    cases outcome with
    | error failure =>
      rw [show u = t from hu]
      refine ⟨hintact.safe, Program.Meets.run ?_ ?_⟩
      · intro v hv
        rw [show v = t from hv]
        exact hintact.safe
      · intro cleaned v hv
        have hcleaned := hintact.ends hother hplaced.reference_ne (paths_singleton rfl) hv
        refine ⟨hcleaned.safe, ?_⟩
        cases cleaned with
        | error e => exact nofun
        | ok _ => exact nofun
    | ok _ =>
      obtain ⟨hreplaced, hcaches, hkept⟩ := rename_reference hlinks hintact hother hreference hfile hu.1 hu.2
      have hselected : ∀ v, Files.SameBelow [lower manifest_sha256] t v → v.get? [name] = some (.file data) →
          Selected platform reference_path manifest_sha256 version v := by
        intro v hsame hv
        refine selected_of_file hround hvalid hreference hname hdata hv ?_
        rw [completed_cache_congr hsame hlinked, hcache]
      have hsame := hkept (lower manifest_sha256) hne hdirectory
      have hsafe : Safe platform reference_path manifest_sha256 version s u := by
        refine ⟨?_, .inr (hselected u hsame hreplaced)⟩
        intro kept hkept p hp
        rw [hcaches kept hkept p hp, hintact.caches kept hkept p hp]
      refine ⟨hsafe, Program.Meets.run ?_ ?_⟩
      · intro v hv
        rw [show v = u from hv]
        exact hsafe
      · intro cleaned v hv
        have houtside : ∀ kept, names.reference ≠ kept → Files.SameBelow [kept] u v :=
          fun kept hkept => Operation.same_below_of_ends hv (outside_of_paths (paths_singleton rfl) hkept)
        have hfinal : Selected platform reference_path manifest_sha256 version v := by
          apply hselected
          · intro p hp
            rw [houtside (lower manifest_sha256) hne.symm p hp, hsame p hp]
          · rw [houtside name hne_name [name] (List.prefix_refl _), hreplaced]
        refine ⟨⟨?_, .inr hfinal⟩, ?_⟩
        · intro kept hkept p hp
          have hne_kept : names.reference ≠ kept := by
            intro heq
            rw [← heq] at hkept
            exact hother hkept
          rw [houtside kept hne_kept p hp, hsafe.caches kept hkept p hp]
        · cases cleaned with
          | error e => exact nofun
          | ok _ => exact fun _ => hfinal

/-- A selection replaces the reference in one step, and only by one that selects an accepted
    cache without links. -/
theorem select_meets (hplaced : WellPlaced names reference_path manifest_sha256 s)
    (hround : RoundTrip platform manifest_sha256 version) (hintact : Intact platform reference_path s u)
    (hunlinked : ∀ p, completed_cache platform u manifest_sha256 (some version) = some p → u.Unlinked p) :
    Program.Meets (Operation.effects Text Bytes BundleFailure)
      (Safe platform reference_path manifest_sha256 version s)
      (select_desired_bundle platform names reference_path manifest_sha256 version)
      (fun outcome t => ∀ p, outcome = .ok p →
        p = cache_directory manifest_sha256 ∧ Selected platform reference_path manifest_sha256 version t) u := by
  refine Program.Meets.bind (Program.Meets.store hintact.safe ?_)
  refine Program.Meets.bind (Program.Meets.lift hintact.safe ?_)
  cases hpath : _validate_reference_path u reference_path with
  | error failure => exact fun p hp => by cases hp
  | ok path =>
    obtain ⟨name, rfl, hreference, hname⟩ := reference_of_validate hplaced hintact hpath
    dsimp only
    cases hcache : completed_cache platform u manifest_sha256 (some version) with
    | none => exact Program.Meets.lift hintact.safe fun p hp => by cases hp
    | some destination =>
      have hlinked := hunlinked destination hcache
      obtain ⟨rfl, -⟩ := completed_cache_eq_some hcache
      have hdirectory := directory_of_completed_cache hcache hlinked
      refine Program.Meets.bind (Program.Meets.lift hintact.safe ?_)
      cases hbuild : DesiredBundleReference.build version (lower manifest_sha256) with
      | error failure => exact fun p hp => by cases hp
      | ok reference =>
        obtain ⟨rfl, hvalid⟩ := build_eq_ok hbuild
        refine Program.Meets.bind (Program.Meets.run ?_ ?_)
        · intro t ht
          rw [show t = u from ht]
          exact hintact.safe
        · intro outcome t ht
          cases outcome with
          | error failure =>
            rw [show t = u from ht]
            exact ⟨hintact.safe, fun p hp => by cases hp⟩
          | ok _ =>
            have hnew := ht.1 [names.reference] (List.prefix_refl _)
            have hother := not_leftAlone_of_new hlinks hintact (fun path hpath => (hplaced.fresh path hpath).2) hnew
            have hne : lower manifest_sha256 ≠ names.reference := by
              intro heq
              rw [cache_directory, heq, hnew] at hdirectory
              cases hdirectory
            have hcreated := hintact.ends hother hplaced.reference_ne (paths_singleton rfl) ht
            refine ⟨hcreated.safe, ?_⟩
            cases hdata : referenceData manifest_sha256 version with
            | none =>
              rw [referenceData] at hdata
              dsimp only
              rw [hdata]
              exact Program.Meets.lift hcreated.safe fun p hp => by cases hp
            | some data =>
              have hencoded := hdata
              rw [referenceData] at hencoded
              dsimp only
              rw [hencoded]
              refine Program.Meets.bind (Program.Meets.run ?_ ?_)
              · exact fun v hv => (hcreated.passes hother hplaced.reference_ne (paths_singleton rfl) hv).safe
              · intro outcome v hv
                have hwritten := hcreated.ends hother hplaced.reference_ne (paths_singleton rfl) hv
                refine ⟨hwritten.safe, ?_⟩
                cases outcome with
                | error failure => exact fun p hp => by cases hp
                | ok _ =>
                  have hfile : v.get? [names.reference] = some (.file data) := by
                    rw [hv.2 [names.reference] (List.prefix_refl _), if_pos rfl]
                  have hsame : Files.SameBelow [lower manifest_sha256] u v := by
                    intro p hp
                    rw [Operation.same_below_of_ends hv (outside_of_paths (paths_singleton rfl) hne.symm) p hp,
                      Operation.same_below_of_ends ht (outside_of_paths (paths_singleton rfl) hne.symm) p hp]
                  have hcache_written := hcache
                  rw [← completed_cache_congr hsame hlinked] at hcache_written
                  refine Program.Meets.bind
                    ((replace_meets hlinks hplaced hround hvalid hwritten hother hreference hname
                    hdata hfile hcache_written (hlinked.of_same hsame) hne).at_end.mono ?_)
                  intro outcome w hw
                  cases outcome with
                  | error failure => exact fun p hp => by cases hp
                  | ok _ =>
                    refine ⟨hw.1, ?_⟩
                    intro p hp
                    cases hp
                    exact ⟨rfl, hw.2 rfl⟩

end select

end sync

end pii_engine.bundle
