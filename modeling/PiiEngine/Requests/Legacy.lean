import PiiEngine.Policy.Model
import PiiEngine.Requests.Extraction

open checked collections

namespace pii_engine.request_segments
open policy

/-- A provider request of the legacy boundary, as its validated JSON. -/
inductive SupportedRequest where
  | chat (data : JsonValue)
  | responses (data : JsonValue)
  | mcp (data : JsonValue)

def MAX_MCP_META_NODES : Nat := 4096

def MAX_ADMITTED_JSON_NODES : Nat := 2621440

def nesting_limit {measured maximum : Nat} (h : maximum < measured) : AnalysisError :=
  .request_too_large "request nesting exceeds the configured limit" (some {
    stage := .inspection, reason := .depth, measured, maximum, unit := .levels, exact := false, exceeded := h
    unit_eq := rfl })

/-- The walk over the containers of a document: the nodes and containers counted so far and the
    containers still to visit, the next one first. It returns the nodes counted. -/
def structure_walk (max_depth : Nat) : (fuel nodes containers : Nat) → List (JsonValue × Nat) →
    Except AnalysisError Nat
  | 0, nodes, _, _ => pure nodes
  | _, nodes, _, [] => pure nodes
  | fuel + 1, nodes, containers, (current, depth) :: pending =>
    if h : max_depth < depth then throw (nesting_limit h)
    else if isContainer current = false then structure_walk max_depth fuel nodes containers pending
    else if h : MAX_ADMITTED_JSON_NODES < containers + 1 then
      throw (nodes_exceeded "request structure exceeds the validation limit" .pii_engine false h)
    else if h : children current ≠ [] ∧ depth = max_depth then
      throw (nesting_limit (show max_depth < depth + 1 by omega))
    else structure_walk max_depth fuel (nodes + (children current).length) (containers + 1)
      ((((children current).filter isContainer).map (·, depth + 1)).reverse ++ pending)

def validate_json_structure (max_depth : Nat) (max_nodes : Option Nat) (value : Option JsonValue) :
    Except AnalysisError Unit := do
  match value with
  | none | some .null => pure ()
  | some value =>
    let nodes ← structure_walk max_depth (MAX_ADMITTED_JSON_NODES + 2) 1 0 [(value, 0)]
    match max_nodes with
    | none => pure ()
    | some maximum =>
      if h : maximum < nodes then
        throw (nodes_exceeded "MCP metadata contains too many JSON nodes" .pii_engine true h)
      else pure ()

/-- Bound legacy MCP control metadata before cache access or serialization. -/
def validate_request_structure (max_depth : Nat) : SupportedRequest → Except AnalysisError Unit
  | .mcp data => do
    let params := data.get? "params"
    validate_json_structure max_depth none (params.bind (·.get? "arguments"))
    validate_json_structure max_depth (some MAX_MCP_META_NODES) (params.bind (·.get? "_meta"))
  | _ => pure ()

/-- The texts of a request with the ways to them, and the tools whose envelope is nested. -/
structure ExtractedRequest where
  request_kind : SegmentKind
  leaves : List Leaf
  attachments_present : Bool
  nested_tools : List Nat := []

namespace ExtractedRequest

/-- The opaque identity of a leaf: its position. -/
def segment_id (index : Nat) : String := "s" ++ index.repr

/-- The identities and texts that leave the request. -/
def segments (extracted : ExtractedRequest) : List (String × Text) :=
  extracted.leaves.zipIdx.map fun (leaf, index) => (segment_id index, leaf.text)

/-- Restore the original nested tool path. -/
def original_path (extracted : ExtractedRequest) : List PathPart → List PathPart
  | .key "tools" :: .index index :: part :: rest =>
    if index ∈ extracted.nested_tools then .key "tools" :: .index index :: .key "function" :: part :: rest
    else .key "tools" :: .index index :: part :: rest
  | path => path

/-- The path of every segment, by its identity. -/
def paths (extracted : ExtractedRequest) : List (String × List PathPart) :=
  extracted.leaves.zipIdx.map fun (leaf, index) => (segment_id index, extracted.original_path leaf.path)

def diagnostic_path (extracted : ExtractedRequest) (id : String) : Option (List PathPart) := extracted.paths.lookup id

end ExtractedRequest

/-- Whether an item of a Responses input is a message. -/
def isMessage (item : JsonValue) : Bool :=
  match item.get? "type" with
  | none | some (.string "message") => true
  | _ => false

/-- Whether a Responses tool carries its function in an envelope. -/
def isNestedTool (tool : JsonValue) : Bool := (tool.get? "function").isSome

/-- A tool without its envelope. -/
def flat_tool (tool : JsonValue) : JsonValue :=
  match tool.get? "function" with
  | some (.dict entries) => .dict (("type", (tool.get? "type").getD .null) :: entries)
  | _ => tool

/-- A Responses request in its canonical form, with flat tools. -/
def canonical_responses (data : JsonValue) : JsonValue :=
  match data with
  | .dict entries => .dict (entries.map fun entry =>
      if entry.1 = "tools" then
        match entry.2 with
        | .list tools => (entry.1, .list (tools.map flat_tool))
        | _ => entry
      else entry)
  | _ => data

/-- Extract the texts of a request once its structure is checked. -/
def extract (loads : Loads) (max_depth : Nat) (request : SupportedRequest) : Except AnalysisError ExtractedRequest := do
  validate_request_structure max_depth request
  match request with
  | .chat data =>
    let leaves ← chat_leaves loads max_depth data
    let attachments := (JsonValue.itemsOf (data.get? "messages")).any fun message =>
      has_attachment (message.get? "content")
    pure { request_kind := .chat, leaves, attachments_present := attachments }
  | .responses data =>
    let leaves ← responses_leaves loads max_depth (canonical_responses data)
    let attachments := (JsonValue.itemsOf (data.get? "input")).any fun item =>
      isMessage item && has_attachment (item.get? "content")
    let nested := (JsonValue.itemsOf (data.get? "tools")).zipIdx.filterMap fun (tool, index) =>
      if isNestedTool tool then some index else none
    pure { request_kind := .responses, leaves, attachments_present := attachments, nested_tools := nested }
  | .mcp data =>
    let leaves ← mcp_leaves max_depth data
    pure { request_kind := .mcp, leaves, attachments_present := false }

def text_segment (entry : String × Text) : Except AnalysisError TextSegment :=
  if h : isSegmentId entry.1 then .ok ⟨entry.1, entry.2, h⟩
  else .error (.validation_error "TextSegment" "invalid field")

/-- Translate a provider request of Studio once at the legacy boundary. -/
def legacy_segments (loads : Loads) (max_depth : Nat) (request : SupportedRequest) :
    Except AnalysisError (SegmentRequest × ExtractedRequest) := do
  let extracted ← extract loads max_depth request
  let segments ← extracted.segments.mapM text_segment
  if h : (segments.map TextSegment.id).Nodup then
    pure (.ofTexts extracted.request_kind .request segments extracted.attachments_present h, extracted)
  else throw (.validation_error "SegmentRequest" "segment IDs must be unique")

/-- Evidence and the way to its text. -/
structure Located (α : Type) where
  item : α
  path : List PathPart

/-- A result with its rebuilt request and the paths of its evidence. -/
structure LegacyResult (ρ : Type) where
  request : Option ρ
  logical_detections : List (Located LogicalDetectionData)
  effective_regions : List (Located EffectiveRegionData)
  diagnostics_truncated : Bool

namespace PathPart

/-- `min(part, 10_000_000) if isinstance(part, int) else part[:128]` -/
def bounded : PathPart → PathPart
  | .index n => .index (min n 10000000)
  | .key name => .key (String.ofList (name.toList.take 128))

/-- The contract of Studio for one part of a path. -/
def Accepted : PathPart → Prop
  | .index n => n ≤ 10000000
  | .key name => 1 ≤ name.length ∧ name.length ≤ 128

instance : DecidablePred Accepted
  | .index _ => inferInstanceAs (Decidable (_ ≤ _))
  | .key _ => inferInstanceAs (Decidable (_ ∧ _))

end PathPart

def bounded_path (path : List PathPart) : List PathPart := (path.take 64).map PathPart.bounded

/-- The contract of Studio for a path. -/
def PathAccepted (path : List PathPart) : Prop := path.length ≤ 64 ∧ ∀ part ∈ path, part.Accepted

instance (path : List PathPart) : Decidable (PathAccepted path) := inferInstanceAs (Decidable (_ ∧ _))

/-- The path that is reported for a segment. -/
def located_path (extracted : ExtractedRequest) (id : String) : Except AnalysisError (List PathPart) :=
  match extracted.diagnostic_path id with
  | some path => pure path
  | none => throw (.runtime_error "KeyError")

/-- Give evidence its bounded path. -/
def locate {α : Type} (extracted : ExtractedRequest) (segment_id : α → String) (item : α) :
    Except AnalysisError (Located α) := do
  let path ← located_path extracted (segment_id item)
  pure ⟨item, bounded_path path⟩

/-- The segments that the evidence of a result is about. -/
def reported_ids (result : PolicyResult) : List String :=
  result.logical_detections.map (·.segment_id) ++ result.effective_regions.map (·.segment_id)

/-- Reconstruct legacy output and diagnostic paths locally. How a request is rebuilt from its
    transformed segments is given. -/
def restore_legacy_result {ρ : Type} (rebuild : List TextSegment → Except AnalysisError ρ) (result : PolicyResult)
    (extracted : ExtractedRequest) : Except AnalysisError (LegacyResult ρ) := do
  let request ← result.segments.mapM rebuild
  let reported ← (reported_ids result).mapM (located_path extracted)
  let logical_detections ← result.logical_detections.mapM (locate extracted (·.segment_id))
  let effective_regions ← result.effective_regions.mapM (locate extracted (·.segment_id))
  pure {
    request
    logical_detections
    effective_regions
    diagnostics_truncated := result.diagnostics_truncated || reported.any fun path => bounded_path path ≠ path }

/-- The evidence of a valid evaluation, once the paths meet their contract. -/
structure EvaluationDiagnostics where
  logical_detections : List (Located LogicalDetectionData)
  effective_regions : List (Located EffectiveRegionData)
  truncated : Bool

/-- Convert bounded domain diagnostics to the strict Studio contract of their paths. -/
def evaluation_diagnostics {ρ : Type} (result : LegacyResult ρ) : Except AnalysisError EvaluationDiagnostics := do
  forM result.logical_detections fun item =>
    raiseIf (¬ PathAccepted item.path) (.validation_error "LogicalDetection" "path")
  forM result.effective_regions fun item =>
    raiseIf (¬ PathAccepted item.path) (.validation_error "EffectiveRegion" "path")
  pure ⟨result.logical_detections, result.effective_regions, result.diagnostics_truncated⟩

end pii_engine.request_segments
