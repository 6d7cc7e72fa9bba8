import PiiEngine.Lib.Files
import PiiEngine.Bundle.Manifest

open checked collections files

namespace pii_engine.bundle

/-- A path below a root directory, by its names. -/
abbrev FilePath := List Text

/-- The entries of a directory with everything below it. -/
abbrev FileTree := Files Text Bytes

/-- `path.as_posix()` of a relative path. -/
def as_posix (path : FilePath) : Text := ['/'].intercalate path

def manifestName : Text := "manifest.yaml".toList

def completeName : Text := ".complete".toList

def readBytes (tree : FileTree) (path : FilePath) : Except BundleFailure Bytes :=
  (tree.read_bytes path).elim (.error .os_error) .ok

section verify
variable (platform : Platform) (tree : FileTree) (root : FilePath)

/-- The check of `verify_bundle` for one model root. -/
def verifyModel (files : List ManifestFile) (model : ModelEntry) : Except BundleFailure Unit := do
  let parts ← _safe_relative_path model.path
  raiseIf (∀ entry ∈ files, ¬ (as_posix parts ++ ['/']) <+: entry.path)
    (.bundle_error ("model has no checksum-protected files: " ++ String.ofList model.path))

/-- The check of `verify_bundle` for one listed file. -/
def verifyFile (entry : ManifestFile) : Except BundleFailure Unit := do
  let parts ← _safe_relative_path entry.path
  raiseIf (tree.is_symlink (root ++ parts) ∨ ¬ tree.is_file (root ++ parts))
    (.bundle_error ("bundle file is missing or unsafe: " ++ String.ofList entry.path))
  let content ← readBytes tree (root ++ parts)
  raiseIf (platform.sha256 content ≠ entry.sha256)
    (.bundle_error ("bundle checksum mismatch: " ++ String.ofList entry.path))

/-- The size of one listed file. -/
def fileSize (entry : ManifestFile) : Except BundleFailure Nat := do
  let parts ← _safe_relative_path entry.path
  let content ← readBytes tree (root ++ parts)
  pure content.length

/-- The files and links that are found below a bundle's root. -/
def actualFiles : List Text :=
  ((tree.rglob root).filter fun path => tree.is_file (root ++ path) || tree.is_symlink (root ++ path)).map as_posix

/-- The files that a bundle has to hold. -/
def expectedFiles (manifest : BundleManifest) (files : List ManifestFile) : List Text :=
  files.map ManifestFile.path ++ [manifestName, manifest.fields.checksum_file] ++
    if tree.is_file (root ++ [completeName]) then [completeName] else []

/-- Verify model roots, every listed digest, and the absence of extra files. -/
def verify_bundle (manifest : BundleManifest) (files : List ManifestFile) : Except BundleFailure Unit := do
  raiseIf ((files.length : Int) ≠ manifest.fields.file_count)
    (.bundle_error "checksum file count does not match the manifest")
  let _ ← manifest.fields.models.mapM fun model => verifyModel files model.2
  let _ ← files.mapM fun entry => verifyFile platform tree root entry
  let sizes ← files.mapM fun entry => fileSize tree root entry
  raiseIf ((sizes.sum : Int) ≠ manifest.fields.total_model_bytes)
    (.bundle_error "bundle byte size does not match the manifest")
  raiseIf (sameElements (actualFiles tree root) (expectedFiles tree root manifest files) = false)
    (.bundle_error "bundle contains missing or unexpected files")

end verify

section cache
variable (platform : Platform) (tree : FileTree)

/-- Return the immutable digest-addressed cache directory. -/
def cache_directory (manifest_sha256 : Text) : FilePath := [lower manifest_sha256]

/-- An ASCII character that `str.strip` removes. -/
def isSpace (c : Char) : Bool := c ∈ [' ', '\t', '\n', '\r', '\x0b', '\x0c', '\x1c', '\x1d', '\x1e', '\x1f']

/-- `read_text(encoding="ascii").strip()` -/
def readMarker (path : FilePath) : Except BundleFailure Text := do
  let content ← readBytes tree path
  raiseIf (∃ byte ∈ content, 128 ≤ byte) .unicode_error
  let text := content.map fun byte => Char.ofNat byte.toNat
  pure ((text.dropWhile isSpace).reverse.dropWhile isSpace).reverse

/-- The reads and checks of `completed_cache`: the marker and the version that it finds. -/
def readCache (manifest_sha256 : Text) (expected_version : Option Text) : Except BundleFailure (Text × Text) := do
  let destination := cache_directory manifest_sha256
  let marker ← readMarker tree (destination ++ [completeName])
  let manifest_data ← readBytes tree (destination ++ [manifestName])
  let document ← (platform.safe_load manifest_data).elim (.error .yaml_error) .ok
  let version ← document.bundle_version.elim (.error .validation_error) .ok
  let requested := expected_version.getD []
  let manifest ← parse_manifest platform manifest_data manifest_sha256 (if requested = [] then version else requested)
  let checksum_data ← readBytes tree (destination ++ [manifest.fields.checksum_file])
  verify_checksum_index platform checksum_data manifest
  let files ← parse_checksums platform checksum_data
  verify_bundle platform tree destination manifest files
  pure (marker, version)

/-- Return a complete cache only after revalidating every model file. -/
def completed_cache (manifest_sha256 : Text) (expected_version : Option Text) : Option FilePath :=
  match readCache platform tree manifest_sha256 expected_version with
  | .error _ => none
  | .ok (marker, version) =>
    if marker ≠ lower manifest_sha256 then none
    else if expected_version.isSome ∧ expected_version ≠ some version then none
    else some (cache_directory manifest_sha256)

/-- Keep the mutable reference beside, never inside, immutable bundle directories. A
    reference that is not below the cache directory is `none`. -/
def _validate_reference_path (reference_path : Option FilePath) : Except BundleFailure FilePath :=
  match reference_path with
  | none => .error (.bundle_error "desired-bundle reference must be a file in the cache root")
  | some path =>
    if path ≠ [] ∧ tree.resolve path.dropLast = some [] ∧ path.getLast? ∉ [some [], some ['.'], some ['.', '.']] then
      .ok path
    else .error (.bundle_error "desired-bundle reference must be a file in the cache root")

/-- Read a bounded desired reference only from a safe cache path. -/
def _read_desired_reference (reference_path : Option FilePath) : Option DesiredBundleReference :=
  match _validate_reference_path tree reference_path with
  | .error _ => none
  | .ok path =>
    if tree.is_symlink path ∨ ¬ tree.is_file path then none
    else
      (tree.read_bytes path).bind fun data =>
        if data.length > 4096 then none else platform.validate_reference_json data

/-- Validate the bounded desired reference without rehashing the selected bundle. -/
def desired_reference_matches (reference_path : Option FilePath) (manifest_sha256 expected_version : Text) : Bool :=
  match _read_desired_reference platform tree reference_path with
  | none => false
  | some reference =>
    reference.bundle_version = expected_version ∧ reference.manifest_sha256 = lower manifest_sha256

/-- Return the complete cache selected by the atomic desired-bundle reference. -/
def desired_cache (reference_path : Option FilePath) (manifest_sha256 expected_version : Text) : Option FilePath :=
  if desired_reference_matches platform tree reference_path manifest_sha256 expected_version then
    completed_cache platform tree manifest_sha256 (some expected_version)
  else none

end cache

end pii_engine.bundle
