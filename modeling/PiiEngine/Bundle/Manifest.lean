import PiiEngine.Lib.Checked
import PiiEngine.Text

open checked

namespace pii_engine.bundle

/-- The exact bytes of an object. -/
abbrev Bytes := List UInt8

/-- Why a bundle is refused. -/
inductive BundleFailure where
  | bundle_error (message : String)
  | os_error
  | unicode_error
  | validation_error
  | yaml_error
  | object_not_found (key : Text)
  | download_failed
  deriving DecidableEq

/-- Describe one immutable model in the publisher manifest. -/
structure ModelEntry where
  catalog_id : Text
  variant_id : Text
  upstream : Text
  revision : Text
  path : Text
  license : Text
  license_url : Text
  supported_languages : List Text

/-- Describe the Presidio transformer settings pinned by the bundle. -/
structure RuntimeEntry where
  labels_to_ignore : List Text
  aggregation_strategy : Text
  stride : Int
  model_to_presidio_entity_mapping : List (Text × Text)

/-- The typed fields of a manifest, before their constraints. -/
structure ManifestFields where
  schema_version : Int
  bundle_version : Text
  models : List (Text × ModelEntry)
  runtime : RuntimeEntry
  checksum_file : Text
  checksum_sha256 : Text
  checksum_size : Int
  file_count : Int
  total_model_bytes : Int

/-- Describe one checksum-protected bundle file. -/
structure ManifestFile where
  path : Text
  sha256 : Text
  deriving DecidableEq

/-- Identify the verified bundle selected for the next runtime rollout. -/
structure DesiredBundleReference where
  schema_version : Int
  bundle_version : Text
  manifest_sha256 : Text
  deriving DecidableEq

/-- What `yaml.safe_load` makes of a manifest: its `bundleVersion` if that is a string, and the
    typed fields of a `BundleManifest` if it has them. -/
structure ManifestDocument where
  bundle_version : Option Text
  fields : Option ManifestFields

/-- The parts of the platform that a bundle is checked with: the hexadecimal SHA-256 digest,
    the YAML loader, the UTF-8 decoder and the validation of a reference's JSON. -/
structure Platform where
  sha256 : Bytes → Text
  safe_load : Bytes → Option ManifestDocument
  decode_utf8 : Bytes → Option Text
  validate_reference_json : Bytes → Option DesiredBundleReference

def bounded (low high : Nat) (text : Text) : Bool := low ≤ text.length ∧ text.length ≤ high

/-- The pattern `^[0-9a-f]{64}$` -/
def isDigest (text : Text) : Bool := text.length = 64 ∧ text.all isHexDigit

/-- `text.lower()` of a digest. -/
def lower (text : Text) : Text := text.map Char.toLower

/-- Return a normalized safe relative path. -/
def _safe_relative_path (value : Text) : Except BundleFailure (List Text) :=
  if ∀ part ∈ value.splitOn '/', part ∉ [[], ['.'], ['.', '.']] then .ok (value.splitOn '/')
  else .error (.bundle_error ("unsafe bundle path: " ++ String.ofList value))

def ModelEntry.valid (model : ModelEntry) : Bool :=
  bounded 1 128 model.catalog_id && bounded 1 128 model.variant_id && bounded 1 512 model.upstream &&
  bounded 1 128 model.revision && bounded 1 128 model.path && bounded 1 128 model.license &&
  bounded 1 1024 model.license_url && !model.supported_languages.isEmpty

def RuntimeEntry.valid (entry : RuntimeEntry) : Bool :=
  !entry.aggregation_strategy.isEmpty && (0 ≤ entry.stride && entry.stride ≤ 512) &&
  !entry.model_to_presidio_entity_mapping.isEmpty

/-- The pattern `^[A-Za-z0-9._-]+$` -/
def isPlainName (text : Text) : Bool :=
  !text.isEmpty && text.all fun c => c.isAlphanum || c ∈ ['.', '_', '-']

/-- The constraints of the single fields. -/
def ManifestFields.valid (fields : ManifestFields) : Bool :=
  bounded 1 128 fields.bundle_version &&
  (1 ≤ fields.models.length && fields.models.length ≤ 64 && fields.models.all (·.2.valid)) &&
  fields.runtime.valid && isPlainName fields.checksum_file && isDigest fields.checksum_sha256 &&
  (0 < fields.checksum_size && fields.checksum_size ≤ 1048576) &&
  (0 < fields.file_count && fields.file_count ≤ 100000) &&
  (0 < fields.total_model_bytes && fields.total_model_bytes ≤ 1099511627776)

/-- Require unique safe model roots and the portable checksum filename. -/
def ManifestFields.validate_paths (fields : ManifestFields) : Except BundleFailure Unit := do
  raiseIf (fields.schema_version ≠ 2) .validation_error
  raiseIf (fields.checksum_file ≠ "checksums.sha256".toList) .validation_error
  let roots ← fields.models.mapM fun model => _safe_relative_path model.2.path
  raiseIf (¬ roots.Nodup) .validation_error

/-- A manifest that meets its constraints. -/
structure BundleManifest where
  fields : ManifestFields
  valid : fields.valid = true
  paths : fields.validate_paths = .ok ()

def BundleManifest.model_validate (fields : ManifestFields) : Except BundleFailure BundleManifest :=
  if hvalid : fields.valid = true ∧ fields.validate_paths = .ok () then .ok ⟨fields, hvalid.1, hvalid.2⟩
  else .error .validation_error

variable (platform : Platform)

/-- Verify and parse the exact publisher manifest. -/
def parse_manifest (data : Bytes) (expected_sha256 expected_version : Text) : Except BundleFailure BundleManifest := do
  raiseIf (platform.sha256 data ≠ lower expected_sha256)
    (.bundle_error "manifest SHA-256 does not match the expected digest")
  let invalid := BundleFailure.bundle_error "manifest is invalid"
  let fields ← ((platform.safe_load data).bind (·.fields)).elim (.error invalid) .ok
  let manifest ← (BundleManifest.model_validate fields).mapError fun _ => invalid
  raiseIf (manifest.fields.bundle_version ≠ expected_version)
    (.bundle_error "manifest bundle version does not match the requested version")
  pure manifest

/-- Verify the manifest-bound exact checksum-index bytes before parsing them. -/
def verify_checksum_index (data : Bytes) (manifest : BundleManifest) : Except BundleFailure Unit := do
  raiseIf ((data.length : Int) ≠ manifest.fields.checksum_size)
    (.bundle_error "checksum file size does not match the manifest")
  raiseIf (platform.sha256 data ≠ manifest.fields.checksum_sha256)
    (.bundle_error "checksum file SHA-256 does not match the manifest")

/-- A character at which `str.splitlines` breaks a line. -/
def isLineBreak (c : Char) : Bool :=
  c ∈ ['\n', '\r', '\x0b', '\x0c', '\x1c', '\x1d', '\x1e', '\u0085', '\u2028', '\u2029']

/-- `str.splitlines`, with the line read so far. -/
def splitlines : Text → Text → List Text
  | [], [] => []
  | line, [] => [line]
  | line, '\r' :: '\n' :: rest => line :: splitlines [] rest
  | line, c :: rest => if isLineBreak c then line :: splitlines [] rest else splitlines (line ++ [c]) rest

/-- The groups of a checksum line: sixty-four hexadecimal digits, two blanks and a path. -/
def checksumLine (line : Text) : Option (Text × Text) :=
  if isDigest (line.take 64) ∧ (line.drop 64).take 2 = [' ', ' '] ∧ line.drop 66 ≠ [] then
    some (line.take 64, line.drop 66)
  else none

/-- The paths that a checksum file cannot list. -/
def reserved : List Text := ["manifest.yaml".toList, "checksums.sha256".toList, ".complete".toList]

/-- The loop of `parse_checksums` for one line. -/
def addChecksum (entries : List ManifestFile) (line : Text) : Except BundleFailure (List ManifestFile) := do
  let (sha256, path) ← (checksumLine line).elim
    (.error (.bundle_error "checksum file contains an invalid record")) .ok
  let _ ← _safe_relative_path path
  raiseIf (path ∈ entries.map ManifestFile.path ∨ path ∈ reserved)
    (.bundle_error "checksum file contains a duplicate or reserved path")
  raiseIf (bounded 1 1024 path = false) .validation_error
  pure (entries ++ [⟨path, sha256⟩])

/-- Parse the publisher's portable checksum file. -/
def parse_checksums (data : Bytes) : Except BundleFailure (List ManifestFile) := do
  let text ← (platform.decode_utf8 data).elim (.error (.bundle_error "checksum file is not UTF-8")) .ok
  let entries ← (splitlines [] text).foldlM addChecksum []
  raiseIf (entries = []) (.bundle_error "checksum file contains no model files")
  pure entries

end pii_engine.bundle
