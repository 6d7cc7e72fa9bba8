import PiiEngine.Requests.Legacy
import PiiEngine.Requests.Native

open checked collections

namespace JsonValue
open pii_engine.request_segments

/-- `_get`: the value at a path, none where the path is invalid. -/
def get : JsonValue → List PathPart → Option JsonValue
  | value, [] => some value
  | .dict entries, .key name :: rest => (entries.lookup name).bind fun item => item.get rest
  | .list items, .index n :: rest => items[n]?.bind fun item => item.get rest
  | _, _ :: _ => none

/-- `_set`: the document with another value at a path. -/
def set : JsonValue → List PathPart → JsonValue → Option JsonValue
  | .dict entries, [.key name], item => some (.dict (OrderedDict.assign name item entries))
  | .list items, [.index n], item => if n < items.length then some (.list (items.set n item)) else none
  | .dict entries, .key name :: part :: rest, item => do
    let child ← entries.lookup name
    let child ← child.set (part :: rest) item
    some (.dict (OrderedDict.assign name child entries))
  | .list items, .index n :: part :: rest, item => do
    let child ← items[n]?
    let child ← child.set (part :: rest) item
    some (.list (items.set n child))
  | _, _, _ => none

end JsonValue

namespace pii_engine.request_segments

/-- `json.dumps` without blanks. It has no value where it raises. -/
abbrev Dumps := JsonValue → Option Text

inductive ProtocolKind where
  | chat
  | responses
  | mcp
  | anthropic
  | google
  deriving DecidableEq

/-- A text of a request, and the root of the encoded document that it stands in. -/
structure RootedLeaf extends Leaf where
  json_root : Option (List PathPart)
  deriving DecidableEq

namespace Region

/-- Only call arguments that are given as a text encode a document. -/
def json_root (region : Region) : Option (List PathPart) :=
  match region.reader, region.value with
  | .arguments, .string _ => some region.path
  | _, _ => none

def leaves (loads : Loads) (max_depth : Nat) (region : Region) : Except AnalysisError (List RootedLeaf) := do
  let leaves ← region.read loads max_depth
  pure (leaves.map fun leaf => ⟨leaf, region.json_root⟩)

end Region

def regions : ProtocolKind → JsonValue → List Region
  | .chat => chat_regions
  | .responses => responses_regions
  | .mcp => mcp_regions
  | .anthropic => anthropic_regions
  | .google => google_regions

def attachments_present : ProtocolKind → JsonValue → Bool
  | .chat, data => (JsonValue.itemsOf (data.get? "messages")).any fun message => has_attachment (message.get? "content")
  | .responses, data => (JsonValue.itemsOf (data.get? "input")).any fun item =>
      isMessage item && has_attachment (item.get? "content")
  | _, _ => false

/-- Only an MCP request carries metadata. -/
def metadata : ProtocolKind → JsonValue → JsonValue
  | .mcp, data => ((data.get? "params").bind fun params => params.get? "_meta").getD .null
  | _, _ => .null

/-- A request, its texts and what is known about it. Protocol data never crosses the segment wire. -/
structure CanonicalExtraction where
  protocol_kind : ProtocolKind
  request : JsonValue
  leaves : List RootedLeaf
  attachments_present : Bool
  max_depth : Nat

/-- Traverse supported content, excluding IDs, schema enums and protocol controls. -/
def extract_request (loads : Loads) (max_depth : Nat) (kind : ProtocolKind) (request : JsonValue) :
    Except AnalysisError CanonicalExtraction := do
  validate_mcp_metadata max_depth (metadata kind request)
  let leaves ← (regions kind request).mapM (Region.leaves loads max_depth)
  pure {
    protocol_kind := kind, request, leaves := leaves.flatten
    attachments_present := attachments_present kind request, max_depth }

def invalid_path : AnalysisError := .runtime_error "invalid text path"

/-- A value of an operation that may have none. -/
def orRaise {α : Type} (value : Option α) (e : AnalysisError) : Except AnalysisError α :=
  match value with
  | some value => pure value
  | none => throw e

/-- `_loads` -/
def checked_loads (loads : Loads) (max_depth : Nat) (encoded : Text) : Except AnalysisError JsonValue := do
  check_encoded_depth max_depth {} encoded
  orRaise (loads encoded) invalid_extraction

/-- A request under reconstruction, with the documents that its encoded arguments decode to. -/
structure Rebuild where
  data : JsonValue
  encoded : List (List PathPart × JsonValue) := []

/-- `_loads(_get(data, root))` -/
def decoded_root (loads : Loads) (max_depth : Nat) (data : JsonValue) (root : List PathPart) :
    Except AnalysisError JsonValue :=
  match data.get root with
  | some (.string encoded) => checked_loads loads max_depth encoded.toList
  | _ => throw invalid_path

/-- The document at a root. It is decoded at its first leaf. -/
def root_document (loads : Loads) (max_depth : Nat) (s : Rebuild) (root : List PathPart) :
    Except AnalysisError JsonValue :=
  match s.encoded.lookup root with
  | some value => pure value
  | none => decoded_root loads max_depth s.data root

/-- Write over a leaf of a document, which may be the document itself. -/
def replace_nested (value : JsonValue) (nested : List PathPart) (fill : Fill) : Except AnalysisError JsonValue :=
  if nested = [] then pure fill.value else orRaise (value.set nested fill.value) invalid_path

def replace_leaf (loads : Loads) (max_depth : Nat) (s : Rebuild) (leaf : RootedLeaf) (fill : Fill) :
    Except AnalysisError Rebuild :=
  match leaf.json_root with
  | none => do
    let data ← orRaise (s.data.set leaf.path fill.value) invalid_path
    pure { s with data }
  | some root => do
    let value ← root_document loads max_depth s root
    let value ← replace_nested value (leaf.path.drop root.length) fill
    pure { s with encoded := OrderedDict.assign root value s.encoded }

/-- Write the documents that were changed back into their encoded arguments. -/
def encode_roots (dumps : Dumps) (s : Rebuild) : Except AnalysisError JsonValue :=
  s.encoded.foldlM (fun data (root, value) => do
    let encoded ← orRaise (dumps value) (.value_error "Out of range float values are not JSON compliant")
    orRaise (data.set root (.string (String.ofList encoded))) invalid_path) s.data

namespace CanonicalExtraction

/-- The identities and texts that leave the request. -/
def segments (extraction : CanonicalExtraction) : List (String × Text) :=
  extraction.leaves.zipIdx.map fun (leaf, index) => (ExtractedRequest.segment_id index, leaf.text)

/-- Require the exact IDs/order and replace only their authorized text. How a request is validated
    is given. -/
def rebuild {ρ : Type} (loads : Loads) (dumps : Dumps)
    (parse_request : ProtocolKind → JsonValue → Except AnalysisError ρ)
    (extraction : CanonicalExtraction) (segments : List (String × Text)) : Except AnalysisError ρ := do
  if segments.map Prod.fst ≠ extraction.segments.map Prod.fst then
    throw (.value_error "segment identities or order changed")
  let s ← (extraction.leaves.zip (segments.map Prod.snd)).foldlM (fun s (leaf, text) =>
    if leaf.text = text then pure s
    else replace_leaf loads extraction.max_depth s leaf (.text (String.ofList text))) { data := extraction.request }
  let data ← encode_roots dumps s
  parse_request extraction.protocol_kind data

/-- Normalize text, including encoded argument leaves, for mutation checks: the request with
    nulls for its texts, and the encoded documents with nulls for theirs. -/
def control_shape (loads : Loads) (extraction : CanonicalExtraction) : Except AnalysisError Rebuild := do
  let s ← extraction.leaves.foldlM (fun s leaf => replace_leaf loads extraction.max_depth s leaf .null)
    { data := extraction.request }
  -- an encoded document stands in place of its text, marked as such
  let data ← s.encoded.foldlM (fun data (root, _) => orRaise (data.set root .null) invalid_path) s.data
  pure { s with data }

end CanonicalExtraction

section leaves
variable {loads : Loads} {max_depth : Nat}

/-- Without their roots the leaves of a request are the leaves of its regions. -/
theorem toLeaf_leaves (regions : List Region) :
    (regions.mapM (Region.leaves loads max_depth)).map (fun groups => groups.flatten.map RootedLeaf.toLeaf) =
      Region.read_all loads max_depth regions := by
  have hleaf : ∀ (region : Region) (found : List Leaf),
      (found.map fun leaf => RootedLeaf.mk leaf region.json_root).map RootedLeaf.toLeaf = found := by
    intro region found
    rw [List.map_map]
    exact List.map_id found
  induction regions with
  | nil => rfl
  | cons region regions ih =>
    rw [List.mapM_cons, Region.leaves, Region.read_all, List.mapM_cons]
    cases Region.read loads max_depth region with
    | error e => rfl
    | ok found =>
      rw [Region.read_all] at ih
      cases hgroups : regions.mapM (Region.leaves loads max_depth) with
      | error e =>
        rw [hgroups] at ih
        cases hread : regions.mapM (Region.read loads max_depth) with
        | error e' =>
          rw [hread] at ih
          cases ih
          rfl
        | ok leaves =>
          rw [hread] at ih
          cases ih
      | ok groups =>
        rw [hgroups] at ih
        cases hread : regions.mapM (Region.read loads max_depth) with
        | error e =>
          rw [hread] at ih
          cases ih
        | ok leaves =>
          rw [hread] at ih
          have hflat : groups.flatten.map RootedLeaf.toLeaf = leaves.flatten := Except.ok.inj ih
          change Except.ok ((_ :: groups).flatten.map RootedLeaf.toLeaf) = .ok (found :: leaves).flatten
          rw [List.flatten_cons, List.map_append, hleaf, hflat, List.flatten_cons]

/-- What is extracted of a request, without the roots of its leaves. -/
theorem extract_request_map (kind : ProtocolKind) (data : JsonValue) :
    (extract_request loads max_depth kind data).map (fun extraction => extraction.leaves.map RootedLeaf.toLeaf) = (do
      validate_mcp_metadata max_depth (metadata kind data)
      Region.read_all loads max_depth (regions kind data)) := by
  rw [extract_request, ← toLeaf_leaves]
  cases validate_mcp_metadata max_depth (metadata kind data) with
  | error e => rfl
  | ok _ => cases (regions kind data).mapM (Region.leaves loads max_depth) <;> rfl

theorem extract_chat (data : JsonValue) : (extract_request loads max_depth .chat data).map
    (fun extraction => extraction.leaves.map RootedLeaf.toLeaf) = chat_leaves loads max_depth data := by
  rw [extract_request_map, ← read_all_chat]
  rfl

theorem extract_responses (data : JsonValue) : (extract_request loads max_depth .responses data).map
    (fun extraction => extraction.leaves.map RootedLeaf.toLeaf) = responses_leaves loads max_depth data := by
  rw [extract_request_map, ← read_all_responses]
  rfl

theorem extract_mcp (data : JsonValue) : (extract_request loads max_depth .mcp data).map
    (fun extraction => extraction.leaves.map RootedLeaf.toLeaf) = mcp_leaves max_depth data := by
  rw [extract_request_map, mcp_leaves, regions, read_all_mcp, metadata]
  cases data.get? "params" with
  | none => rfl
  | some params => rfl

end leaves

end pii_engine.request_segments
