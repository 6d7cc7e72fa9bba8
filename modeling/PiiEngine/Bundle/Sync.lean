import PiiEngine.Bundle.Cache

open checked crashes files

namespace pii_engine.bundle

/-- A program on the cache directory. -/
abbrev CacheProgram (α : Type) := Program FileTree (Operation Text Bytes) BundleFailure α

/-- The names that `tempfile` draws in the cache directory. -/
structure TemporaryNames where
  directory : Text
  reference : Text

section reference

/-- One character of a JSON string. -/
def jsonChar (c : Char) : Text :=
  if c = '"' then ['\\', '"']
  else if c = '\\' then ['\\', '\\']
  else if c = '\x08' then ['\\', 'b']
  else if c = '\x0c' then ['\\', 'f']
  else if c = '\n' then ['\\', 'n']
  else if c = '\r' then ['\\', 'r']
  else if c = '\t' then ['\\', 't']
  else if c.toNat < 32 then
    ['\\', 'u', '0', '0', Nat.digitChar (c.toNat / 16), Nat.digitChar (c.toNat % 16)]
  else [c]

def jsonString (text : Text) : Text := '"' :: text.flatMap jsonChar ++ ['"']

namespace DesiredBundleReference

/-- The constraints of the single fields. -/
def valid (reference : DesiredBundleReference) : Bool :=
  (reference.schema_version = 1) && bounded 1 128 reference.bundle_version && isDigest reference.manifest_sha256

/-- The reference that `select_desired_bundle` builds. -/
def build (bundle_version manifest_sha256 : Text) : Except BundleFailure DesiredBundleReference :=
  let reference : DesiredBundleReference := ⟨1, bundle_version, manifest_sha256⟩
  if reference.valid then .ok reference else .error .validation_error

/-- `model_dump_json(by_alias=True)` of a reference whose schema version is one. -/
def model_dump_json (reference : DesiredBundleReference) : Text :=
  "\x7b\"schemaVersion\":1,\"bundleVersion\":".toList ++ jsonString reference.bundle_version ++
    ",\"manifestSha256\":".toList ++ jsonString reference.manifest_sha256 ++ "\x7d".toList

end DesiredBundleReference

def encode_ascii (text : Text) : Option Bytes :=
  if text.all fun c => c.toNat < 128 then some (text.map fun c => UInt8.ofNat c.toNat) else none

end reference

section program
variable (platform : Platform) (names : TemporaryNames) (reference_path : Option FilePath)
  (manifest_sha256 version : Text)

/-- Atomically select one fully revalidated immutable cache directory. -/
def select_desired_bundle : CacheProgram FilePath := do
  let tree ← .store
  let path ← .lift (_validate_reference_path tree reference_path)
  match completed_cache platform tree manifest_sha256 (some version) with
  | none => .lift (.error (.bundle_error "cannot select an incomplete or invalid model bundle"))
  | some destination =>
    let reference ← .lift (DesiredBundleReference.build version (lower manifest_sha256))
    .run (.create [names.reference] (.file []))
    match encode_ascii (reference.model_dump_json ++ ['\n']) with
    | none => .lift (.error .unicode_error)
    | some data =>
      .run (.write [names.reference] data)
      -- the parent of a validated reference path is the cache directory
      Program.ensuring (.run (.rename [names.reference] [path.getLastD []])) (.run (.unlink [names.reference]))
      pure destination

def bundleName : Text := "bundle".toList

/-- The statements of `atomic_publish` inside its temporary directory. -/
def publishStaged (source : FileTree) : CacheProgram FilePath := do
  let destination := cache_directory manifest_sha256
  .run (.copy source [names.directory, bundleName])
  let marker ← .lift ((encode_ascii (lower manifest_sha256)).elim (.error .unicode_error) .ok)
  .run (.write [names.directory, bundleName, completeName] marker)
  .run (.rename [names.directory, bundleName] destination)
  pure destination

/-- The end of `atomic_publish`, from the creation of its temporary directory. -/
def stage (source : FileTree) : CacheProgram FilePath := do
  .run (.create [names.directory] .directory)
  Program.ensuring (publishStaged names manifest_sha256 source)
    (do
      let left ← .store
      if left.exists [names.directory] then
        .run (.remove_tree [names.directory]))

/-- Publish a verified bundle without mutating any completed directory. -/
def atomic_publish (source : FileTree) : CacheProgram FilePath := do
  let destination := cache_directory manifest_sha256
  .run .elsewhere
  let tree ← .store
  match completed_cache platform tree manifest_sha256 none with
  | some existing => pure existing
  | none =>
    if tree.exists destination then
      .run (.remove_tree destination)
    stage names manifest_sha256 source

end program

section sync

/-- Create the missing directories on a path. -/
def makeDirectories (root : FileTree) (path : FilePath) : Except BundleFailure FileTree :=
  path.inits.tail.foldlM (fun tree directory =>
    match tree.get? directory with
    | none => .ok (tree.set directory .directory)
    | some .directory => .ok tree
    | some _ => .error .os_error) root

/-- Download one object into a local path. -/
def downloadTo (download : Text → Except BundleFailure Bytes) (key : Text) (root : FileTree) (path : FilePath) :
    Except BundleFailure (FileTree × Bytes) := do
  let root ← makeDirectories root path.dropLast
  let content ← download key
  raiseIf (root.get? path = some .directory) .os_error
  pure (root.set path (.file content), content)

/-- Download exactly the checksum-listed objects below the selected prefix. -/
def _download_files (download : Text → Except BundleFailure Bytes) (version : Text) (files : List ManifestFile)
    (root : FileTree) : Except BundleFailure FileTree :=
  files.foldlM (fun root entry => do
    let (root, _) ← downloadTo download (version ++ '/' :: entry.path) root (entry.path.splitOn '/')
    pure root) root

variable (platform : Platform) (names : TemporaryNames) (reference_path : Option FilePath)
  (manifest_sha256 version : Text) (download : Text → Except BundleFailure Bytes) (missing_manifest_ok : Bool)

/-- The statements of `sync_bundle` inside its temporary directory. -/
def downloadAndSelect : CacheProgram (Option FilePath) :=
  match downloadTo download (version ++ '/' :: manifestName) .empty [manifestName] with
  | .error (.object_not_found key) =>
    if missing_manifest_ok then pure none else .lift (.error (.object_not_found key))
  | .error failure => .lift (.error failure)
  | .ok (root, manifest_data) => do
    let manifest ← .lift (parse_manifest platform manifest_data manifest_sha256 version)
    let tree ← .store
    if (completed_cache platform tree manifest_sha256 (some version)).isSome then
      some <$> select_desired_bundle platform names reference_path manifest_sha256 version
    else do
      let (root, checksums_data) ← .lift
        (downloadTo download (version ++ '/' :: manifest.fields.checksum_file) root [manifest.fields.checksum_file])
      .lift (verify_checksum_index platform checksums_data manifest)
      let files ← .lift (parse_checksums platform checksums_data)
      let root ← .lift (_download_files download version files root)
      .lift (verify_bundle platform root [] manifest files)
      let _ ← atomic_publish platform names manifest_sha256 root
      some <$> select_desired_bundle platform names reference_path manifest_sha256 version

/-- Download only the selected bundle and publish it after full verification. -/
def sync_bundle : CacheProgram (Option FilePath) := do
  let tree ← .store
  if missing_manifest_ok = false ∧ (completed_cache platform tree manifest_sha256 (some version)).isSome then
    some <$> select_desired_bundle platform names reference_path manifest_sha256 version
  else do
    .run .elsewhere
    Program.ensuring
      (downloadAndSelect platform names reference_path manifest_sha256 version download missing_manifest_ok)
      (.run .elsewhere)

end sync

end pii_engine.bundle
