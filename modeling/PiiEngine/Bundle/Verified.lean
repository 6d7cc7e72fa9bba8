import PiiEngine.Bundle.Sync

open checked collections crashes files

namespace pii_engine.bundle
variable {platform : Platform} {tree s t : FileTree} {root p : FilePath} {manifest_sha256 : Text}

/-- A directory that holds exactly a verified bundle: its manifest has the digest and the
    version, the checksum index and every listed file have theirs, and nothing else is found. -/
structure Verified (platform : Platform) (tree : FileTree) (root : FilePath) (manifest_sha256 version : Text)
    (manifest_data checksum_data : Bytes) (manifest : BundleManifest) (files : List ManifestFile) : Prop where
  manifest_read : tree.read_bytes (root ++ [manifestName]) = some manifest_data
  manifest_digest : platform.sha256 manifest_data = lower manifest_sha256
  manifest_loaded : (platform.safe_load manifest_data).bind (·.fields) = some manifest.fields
  manifest_version : manifest.fields.bundle_version = version
  checksum_read : tree.read_bytes (root ++ [manifest.fields.checksum_file]) = some checksum_data
  checksum_digest : platform.sha256 checksum_data = manifest.fields.checksum_sha256
  checksum_parsed : parse_checksums platform checksum_data = .ok files
  listed : ∀ entry ∈ files, ∃ parts content, _safe_relative_path entry.path = .ok parts ∧
    tree.is_symlink (root ++ parts) = false ∧ tree.read_bytes (root ++ parts) = some content ∧
    platform.sha256 content = entry.sha256
  nothing_else : ∀ path ∈ tree.rglob root, (tree.is_file (root ++ path) || tree.is_symlink (root ++ path)) = true →
    as_posix path ∈ files.map ManifestFile.path ++ [manifestName, manifest.fields.checksum_file, completeName]

theorem elim_eq_ok {ε α : Type} {value : Option α} {failure : ε} {result : α}
    (h : value.elim (.error failure) .ok = (.ok result : Except ε α)) : value = some result := by
  cases value with
  | none => cases h
  | some found =>
    cases h
    rfl

theorem read_of_readBytes {path : FilePath} {content : Bytes} (h : readBytes tree path = .ok content) :
    tree.read_bytes path = some content :=
  elim_eq_ok h

theorem parse_manifest_eq_ok {data : Bytes} {expected_version : Text} {manifest : BundleManifest}
    (h : parse_manifest platform data manifest_sha256 expected_version = .ok manifest) :
    platform.sha256 data = lower manifest_sha256 ∧ (platform.safe_load data).bind (·.fields) = some manifest.fields ∧
      manifest.fields.bundle_version = expected_version := by
  dsimp only [parse_manifest] at h
  rw [raiseIf_bind_eq_ok, bind_eq_ok] at h
  obtain ⟨hdigest, fields, hfields, h⟩ := h
  rw [bind_eq_ok] at h
  obtain ⟨found, hvalidate, h⟩ := h
  rw [raiseIf_bind_eq_ok] at h
  obtain ⟨hversion, h⟩ := h
  cases h
  refine ⟨not_not.mp hdigest, ?_, not_not.mp hversion⟩
  rw [elim_eq_ok hfields]
  dsimp only [BundleManifest.model_validate] at hvalidate
  split at hvalidate
  case isTrue hvalid =>
    cases hvalidate
    rfl
  case isFalse => cases hvalidate

theorem verifyFile_eq_ok {entry : ManifestFile} (h : verifyFile platform tree root entry = .ok ()) :
    ∃ parts content, _safe_relative_path entry.path = .ok parts ∧ tree.is_symlink (root ++ parts) = false ∧
      tree.read_bytes (root ++ parts) = some content ∧ platform.sha256 content = entry.sha256 := by
  dsimp only [verifyFile] at h
  rw [bind_eq_ok] at h
  obtain ⟨parts, hparts, h⟩ := h
  rw [raiseIf_bind_eq_ok, bind_eq_ok] at h
  obtain ⟨hsafe, content, hcontent, h⟩ := h
  rw [not_or, Bool.not_eq_true] at hsafe
  exact ⟨parts, content, hparts, hsafe.1, read_of_readBytes hcontent, not_not.mp (raiseIf_eq_ok.mp h)⟩

theorem verify_bundle_eq_ok {manifest : BundleManifest} {files : List ManifestFile}
    (h : verify_bundle platform tree root manifest files = .ok ()) :
    (∀ entry ∈ files, verifyFile platform tree root entry = .ok ()) ∧
      sameElements (actualFiles tree root) (expectedFiles tree root manifest files) = true := by
  dsimp only [verify_bundle] at h
  rw [raiseIf_bind_eq_ok, bind_eq_ok] at h
  obtain ⟨-, -, -, h⟩ := h
  rw [bind_eq_ok] at h
  obtain ⟨results, hfiles, h⟩ := h
  rw [bind_eq_ok] at h
  obtain ⟨sizes, -, h⟩ := h
  rw [raiseIf_bind_eq_ok, raiseIf_eq_ok, Bool.not_eq_false] at h
  refine ⟨?_, h.2⟩
  intro entry hentry
  obtain ⟨result, -, hresult⟩ := exists_right_of_forall₂ (mapM_eq_ok.mp hfiles) hentry
  exact hresult

/-- The reads and checks that a cache directory passed. -/
theorem readCache_eq_ok {expected_version : Option Text} {marker version : Text} :
    readCache platform tree manifest_sha256 expected_version = .ok (marker, version) ↔
      readMarker tree (cache_directory manifest_sha256 ++ [completeName]) = .ok marker ∧
      ∃ manifest_data, readBytes tree (cache_directory manifest_sha256 ++ [manifestName]) = .ok manifest_data ∧
      ((platform.safe_load manifest_data).elim (.error .yaml_error) .ok >>= fun document =>
        document.bundle_version.elim (.error .validation_error) .ok) = (.ok version : Except BundleFailure Text) ∧
      ∃ manifest, parse_manifest platform manifest_data manifest_sha256
        (if expected_version.getD [] = [] then version else expected_version.getD []) = .ok manifest ∧
      ∃ checksum_data, readBytes tree (cache_directory manifest_sha256 ++ [manifest.fields.checksum_file]) =
        .ok checksum_data ∧
      verify_checksum_index platform checksum_data manifest = .ok () ∧
      ∃ files, parse_checksums platform checksum_data = .ok files ∧
        verify_bundle platform tree (cache_directory manifest_sha256) manifest files = .ok () := by
  dsimp only [readCache]
  constructor
  · intro h
    rw [bind_eq_ok] at h
    obtain ⟨_, hmarker, h⟩ := h
    rw [bind_eq_ok] at h
    obtain ⟨manifest_data, hmanifest_data, h⟩ := h
    rw [bind_eq_ok] at h
    obtain ⟨document, hdocument, h⟩ := h
    rw [bind_eq_ok] at h
    obtain ⟨_, hversion, h⟩ := h
    rw [bind_eq_ok] at h
    obtain ⟨manifest, hmanifest, h⟩ := h
    rw [bind_eq_ok] at h
    obtain ⟨checksum_data, hchecksum_data, h⟩ := h
    rw [bind_eq_ok] at h
    obtain ⟨_, hindex, h⟩ := h
    rw [bind_eq_ok] at h
    obtain ⟨files, hfiles, h⟩ := h
    rw [bind_eq_ok] at h
    obtain ⟨_, hbundle, h⟩ := h
    cases h
    exact ⟨hmarker, manifest_data, hmanifest_data, bind_eq_ok.mpr ⟨document, hdocument, hversion⟩, manifest, hmanifest,
      checksum_data, hchecksum_data, hindex, files, hfiles, hbundle⟩
  · intro h
    obtain ⟨hmarker, manifest_data, hmanifest_data, hversion, manifest, hmanifest, checksum_data, hchecksum_data,
      hindex, files, hfiles, hbundle⟩ := h
    obtain ⟨document, hdocument, hversion⟩ := bind_eq_ok.mp hversion
    apply bind_eq_ok.mpr ⟨marker, hmarker, _⟩
    apply bind_eq_ok.mpr ⟨manifest_data, hmanifest_data, _⟩
    apply bind_eq_ok.mpr ⟨document, hdocument, _⟩
    apply bind_eq_ok.mpr ⟨version, hversion, _⟩
    apply bind_eq_ok.mpr ⟨manifest, hmanifest, _⟩
    apply bind_eq_ok.mpr ⟨checksum_data, hchecksum_data, _⟩
    apply bind_eq_ok.mpr ⟨(), hindex, _⟩
    apply bind_eq_ok.mpr ⟨files, hfiles, _⟩
    exact bind_eq_ok.mpr ⟨(), hbundle, rfl⟩

/-- What the checks of a cache directory found holds of it. -/
theorem verified_of_readCache {expected_version : Option Text} {marker version : Text}
    (h : readCache platform tree manifest_sha256 expected_version = .ok (marker, version)) :
    ∃ manifest_data checksum_data manifest files,
      Verified platform tree (cache_directory manifest_sha256) manifest_sha256
        (if expected_version.getD [] = [] then version else expected_version.getD [])
        manifest_data checksum_data manifest files := by
  obtain ⟨_, manifest_data, hmanifest_data, _, manifest, hmanifest, checksum_data, hchecksum_data, hindex, files,
    hfiles, hbundle⟩ := readCache_eq_ok.mp h
  obtain ⟨hdigest, hloaded, hversion⟩ := parse_manifest_eq_ok hmanifest
  obtain ⟨hlisted, hexact⟩ := verify_bundle_eq_ok hbundle
  dsimp only [verify_checksum_index] at hindex
  rw [raiseIf_bind_eq_ok, raiseIf_eq_ok, not_not, not_not] at hindex
  refine ⟨manifest_data, checksum_data, manifest, files, read_of_readBytes hmanifest_data, hdigest, hloaded, hversion,
    read_of_readBytes hchecksum_data, hindex.2, hfiles, fun entry hentry => verifyFile_eq_ok (hlisted entry hentry), ?_⟩
  intro path hpath hkind
  have hactual : as_posix path ∈ actualFiles tree (cache_directory manifest_sha256) :=
    List.mem_map_of_mem (List.mem_filter.mpr ⟨hpath, hkind⟩)
  have hexpected := (sameElements_iff.mp hexact (as_posix path)).mp hactual
  rw [expectedFiles, List.mem_append] at hexpected
  have hsplit : files.map ManifestFile.path ++ [manifestName, manifest.fields.checksum_file, completeName] =
      files.map ManifestFile.path ++ [manifestName, manifest.fields.checksum_file] ++ [completeName] := by
    rw [List.append_assoc]
    rfl
  rw [hsplit, List.mem_append]
  refine hexpected.imp_right ?_
  intro hmarker
  split at hmarker
  case isTrue => exact hmarker
  case isFalse => cases hmarker

theorem completed_cache_eq_some {expected_version : Option Text}
    (h : completed_cache platform tree manifest_sha256 expected_version = some p) :
    p = cache_directory manifest_sha256 ∧ ∃ version,
      readCache platform tree manifest_sha256 expected_version = .ok (lower manifest_sha256, version) ∧
      ∀ requested ∈ expected_version, requested = version := by
  rw [completed_cache] at h
  split at h
  case h_1 => cases h
  case h_2 marker version hread =>
    split at h
    case isTrue => cases h
    case isFalse hmarker =>
      split at h
      case isTrue => cases h
      case isFalse hversion =>
        rw [not_not] at hmarker
        rw [hmarker] at hread
        refine ⟨(Option.some.inj h).symm, version, hread, ?_⟩
        intro requested hrequested
        rw [Option.mem_def] at hrequested
        rw [hrequested, Option.isSome_some, eq_self_iff_true, true_and, not_not] at hversion
        exact Option.some.inj hversion

/-- A cache directory that the desired reference selects holds a verified bundle. -/
theorem verified_of_desired_cache {reference_path : Option FilePath} {version : Text}
    (h : desired_cache platform tree reference_path manifest_sha256 version = some p) :
    p = cache_directory manifest_sha256 ∧ ∃ manifest_data checksum_data manifest files,
      Verified platform tree p manifest_sha256 version manifest_data checksum_data manifest files := by
  rw [desired_cache] at h
  split at h
  case isFalse => cases h
  case isTrue =>
    obtain ⟨rfl, found, hread, hversion⟩ := completed_cache_eq_some h
    cases hversion version rfl
    have hverified := verified_of_readCache hread
    rw [Option.getD_some, ite_self] at hverified
    exact ⟨rfl, hverified⟩

section congr
variable {name : Text} (hsame : Files.SameBelow [name] s t) (hlinks : s.Unlinked [name])
include hsame hlinks

theorem readBytes_congr (rest : FilePath) : readBytes t (name :: rest) = readBytes s (name :: rest) := by
  rw [readBytes, readBytes, Files.read_bytes_congr hsame hlinks]

theorem verifyFile_congr (entry : ManifestFile) :
    verifyFile platform t [name] entry = verifyFile platform s [name] entry := by
  simp only [verifyFile, List.singleton_append, Files.is_symlink_congr hsame hlinks, Files.is_file_congr hsame hlinks,
    readBytes_congr hsame hlinks]

theorem fileSize_congr (entry : ManifestFile) : fileSize t [name] entry = fileSize s [name] entry := by
  simp only [fileSize, List.singleton_append, readBytes_congr hsame hlinks]

theorem mem_actualFiles_congr (path : Text) : path ∈ actualFiles t [name] ↔ path ∈ actualFiles s [name] := by
  simp only [actualFiles, List.singleton_append, List.mem_map, List.mem_filter,
    Files.mem_rglob_congr hsame hlinks, Files.is_file_congr hsame hlinks, Files.is_symlink_congr hsame hlinks]

theorem expectedFiles_congr (manifest : BundleManifest) (files : List ManifestFile) :
    expectedFiles t [name] manifest files = expectedFiles s [name] manifest files := by
  simp only [expectedFiles, List.singleton_append, Files.is_file_congr hsame hlinks]

theorem verify_bundle_congr (manifest : BundleManifest) (files : List ManifestFile) :
    verify_bundle platform t [name] manifest files = verify_bundle platform s [name] manifest files := by
  have hactual : sameElements (actualFiles t [name]) (expectedFiles s [name] manifest files) =
      sameElements (actualFiles s [name]) (expectedFiles s [name] manifest files) := by
    rw [Bool.eq_iff_iff, sameElements_iff, sameElements_iff]
    simp only [mem_actualFiles_congr hsame hlinks]
  simp only [verify_bundle, expectedFiles_congr hsame hlinks, hactual, verifyFile_congr hsame hlinks,
    fileSize_congr hsame hlinks]

end congr

/-- What `completed_cache` says of a directory without links depends on nothing else. -/
theorem completed_cache_congr {expected_version : Option Text}
    (hsame : Files.SameBelow (cache_directory manifest_sha256) s t)
    (hlinks : s.Unlinked (cache_directory manifest_sha256)) :
    completed_cache platform t manifest_sha256 expected_version =
      completed_cache platform s manifest_sha256 expected_version := by
  have hread : readCache platform t manifest_sha256 expected_version =
      readCache platform s manifest_sha256 expected_version := by
    dsimp only [readCache, readMarker, cache_directory] at hsame hlinks ⊢
    simp only [List.singleton_append, readBytes_congr hsame hlinks, verify_bundle_congr hsame hlinks]
  rw [completed_cache, completed_cache, hread]

/-- Digests that differ in case name one cache directory. -/
theorem completed_cache_lower {other : Text} (h : lower other = lower manifest_sha256)
    (expected_version : Option Text) :
    completed_cache platform tree other expected_version =
      completed_cache platform tree manifest_sha256 expected_version := by
  simp only [completed_cache, readCache, parse_manifest, cache_directory, h]

theorem completed_cache_of_readCache {version : Text}
    (h : readCache platform tree manifest_sha256 none = .ok (lower manifest_sha256, version)) :
    completed_cache platform tree manifest_sha256 none = some (cache_directory manifest_sha256) := by
  rw [completed_cache, h]
  exact if_neg (not_not.mpr rfl)

/-- A cache that is accepted for a version is accepted without one. -/
theorem completed_cache_none {expected_version : Option Text}
    (h : completed_cache platform tree manifest_sha256 expected_version = some p) :
    completed_cache platform tree manifest_sha256 none = some p := by
  obtain ⟨rfl, version, hread, hversion⟩ := completed_cache_eq_some h
  apply completed_cache_of_readCache
  have hrequested : (if expected_version.getD [] = [] then version else expected_version.getD []) = version := by
    cases expected_version with
    | none => rfl
    | some requested => rw [Option.getD_some, hversion requested rfl, ite_self]
  rw [readCache_eq_ok] at hread ⊢
  rw [hrequested] at hread
  exact hread

/-- An accepted cache directory without links is a directory. -/
theorem directory_of_completed_cache {expected_version : Option Text}
    (h : completed_cache platform tree manifest_sha256 expected_version = some p)
    (hlinks : tree.Unlinked (cache_directory manifest_sha256)) :
    tree.get? (cache_directory manifest_sha256) = some .directory := by
  obtain ⟨rfl, version, hread, -⟩ := completed_cache_eq_some h
  obtain ⟨manifest_data, _, _, _, hverified⟩ := verified_of_readCache hread
  exact (Files.directory_of_read_bytes hlinks hverified.manifest_read).1

end pii_engine.bundle
