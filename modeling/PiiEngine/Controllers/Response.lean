import PiiEngine.Controllers.Simulation
import PiiEngine.Session

open checked collections regex
open pii_engine.config pii_engine.policy

namespace pii_engine.controllers

namespace analysis_metadata

/-- Analysis facts before validation. The single admitted overlap resolution is not a field. -/
structure Record where
  source : AnalysisSource
  scan_performed : Bool
  duration_ms : Option Nat
  overlap_count : Nat
  policy_version : String
  text_leaf_count : Nat
  cached_decision_applied : Bool
  deriving DecidableEq

def rejected (message : String) : AnalysisError := .validation_error "AnalysisMetadata" message

/-- Require scan timing and cache provenance to agree. -/
def validate (record : Record) : Except AnalysisError Unit := do
  raiseIf (∃ milliseconds ∈ record.duration_ms, milliseconds > 600000) (rejected "duration_ms")
  raiseIf (record.overlap_count > 10000000) (rejected "overlap_count")
  raiseIf (record.policy_version.length < 1 ∨ record.policy_version.length > 64) (rejected "policy_version")
  raiseIf (record.scan_performed ≠ record.duration_ms.isSome)
    (rejected "scan duration must exist exactly when a scan was performed")
  raiseIf (record.scan_performed ∧ record.source ≠ .current_request)
    (rejected "performed scans must describe the current request")
  raiseIf (record.source = .cached_decision ∧ record.cached_decision_applied = false)
    (rejected "cached analysis metadata must apply a cached decision")
  raiseIf (record.scan_performed = false ∧ record.source = .current_request ∧ record.overlap_count ≠ 0)
    (rejected "unscanned current requests cannot report overlaps")

end analysis_metadata

/-- Describe bounded analysis facts without prompt values. -/
abbrev AnalysisMetadata := Accepted analysis_metadata.validate

namespace pii_report

def rejected (message : String) : AnalysisError := .validation_error "PIIReport" message

/-- Require one row per entity in deterministic normalized order. -/
def validate (rows : List PIIReportRow) : Except AnalysisError Unit := do
  let entity_types := rows.map PIIReportRow.entity_type
  raiseIf (rows.length > 64) (rejected "rows")
  raiseIf (¬ entity_types.Nodup) (rejected "report rows must contain unique entity types")
  raiseIf (entity_types ≠ sortOn id entity_types) (rejected "report rows must be sorted by entity_type")

end pii_report

/-- Return bounded aggregate PII details safe for adapter transport. -/
abbrev PIIReport := Accepted pii_report.validate

/-- Policy-owned messages without operational prose. -/
structure Notices where
  request : List String
  response : List String
  request_ok : session_decision.notices_bounded request = true
  response_ok : session_decision.notices_bounded response = true

def Notices.create (request response : List String) : Except AnalysisError Notices :=
  if h : session_decision.notices_bounded request = true ∧ session_decision.notices_bounded response = true then
    .ok ⟨request, response, h.1, h.2⟩
  else .error (.validation_error "Notices" "request / response")

/-- The policy facts and the transformed segments of a response, before validation. -/
structure SegmentFields where
  decision : Decision
  remote_allowed : Bool
  entities : List String
  entity_counts : OrderedDict String Nat
  applied_actions : List ReportAction
  route_class : Option String
  segments : Option (List TextSegment)
  analysis : AnalysisMetadata
  notices : Notices
  safety_rule : Option String

namespace segment_analysis_response

def rejected (message : String) : AnalysisError := .validation_error "SegmentAnalysisResponse" message

def validate_fields (fields : SegmentFields) : Except AnalysisError Unit := do
  raiseIf (fields.entities.length > 64) (rejected "entities")
  raiseIf (fields.entity_counts.items.length > 64) (rejected "entity_counts")
  raiseIf (fields.applied_actions.length > 16) (rejected "applied_actions")
  raiseIf (∃ route ∈ fields.route_class, route.length > 128) (rejected "route_class")
  raiseIf (∃ rule ∈ fields.safety_rule, rule.length > 128) (rejected "safety_rule")

/-- Require a complete segment result exactly when forwarding is allowed. -/
def validate_forwarding (fields : SegmentFields) : Except AnalysisError Unit := do
  raiseIf (decide (fields.decision = .block) ≠ fields.segments.isNone)
    (rejected "blocked results must not contain segments")
  raiseIf (fields.remote_allowed ≠ decide (fields.decision ∉ [.block, .reroute]))
    (rejected "decision and remote permission disagree")
  raiseIf (fields.decision = .block ∧ fields.route_class ≠ none) (rejected "blocked results cannot select a route")
  raiseIf (fields.decision = .reroute ∧ (fields.route_class = none ∨ fields.route_class = some ""))
    (rejected "reroute requires a route")
  raiseIf (∃ segments ∈ fields.segments, ¬ (segments.map TextSegment.id).Nodup) (rejected "invalid result segment IDs")

end segment_analysis_response

/-- The fields of the adapter's response, before validation. -/
structure AdapterSegmentFields extends SegmentFields where
  report : PIIReport
  visual_findings : Option VisualFindings
  reversal : OrderedDict Text Text

namespace adapter_segment_analyze_response

def rejected (message : String) : AnalysisError := .validation_error "AdapterSegmentAnalyzeResponse" message

/-- `^<(?:REV|ENCRYPTED)_[A-Z][A-Z0-9_]*_[0-9a-f]{16}_[0-9a-f]{16}>$` -/
def isReversalKey (key : Text) : Bool := (REVERSIBLE_PLACEHOLDER.run key).any fun hit => hit.rest = []

def validate_reversal (reversal : OrderedDict Text Text) : Except AnalysisError Unit := do
  raiseIf (∃ entry ∈ reversal.items, entry.1.length < 3 ∨ entry.1.length > 256 ∨ isReversalKey entry.1 = false)
    (rejected "reversal")
  raiseIf (∃ entry ∈ reversal.items, entry.2.length < 1 ∨ entry.2.length > 4000000) (rejected "reversal")

/-- `{row.entity_type: row.detected_count for row in self.report.rows}` -/
def report_counts (rows : List PIIReportRow) : OrderedDict String Nat :=
  .ofList (rows.map fun row => (row.entity_type, row.detected_count))

/-- Check aggregate counts against their current or cached provenance. -/
def validate_counts (fields : AdapterSegmentFields) : Except AnalysisError Unit := do
  raiseIf (sameElements fields.entity_counts.keys fields.entities = false ∨
      ∃ count ∈ fields.entity_counts.values, count ≤ 0 ∨ count > 10000000)
    (rejected "adapter entity counts are inconsistent")
  if fields.analysis.val.cached_decision_applied then
    raiseIf (fields.decision ∉ [.block, .reroute] ∨ ∃ entry ∈ (report_counts fields.report.val).items,
        entry.1 ∉ fields.entity_counts.keys ∨ entry.2 > fields.entity_counts.getD entry.1 0)
      (rejected "cached reports require consistent terminal decisions")
  else
    raiseIf ((report_counts fields.report.val).sameItems fields.entity_counts = false)
      (rejected "current report rows must match adapter entity counts")

/-- Require the report and reversal state to agree with the effective decision. -/
def validate_actions (fields : AdapterSegmentFields) : Except AnalysisError Unit := do
  let rows := fields.report.val
  let actions := rows.map PIIReportRow.action
  raiseIf (fields.decision = .pass ∧ ∃ action ∈ actions, action ≠ .pii .pass)
    (rejected "pass decisions require pass report rows")
  raiseIf (fields.decision = .apply_actions ∧ ((.pii .block ∈ actions ∨ .pii .reroute ∈ actions) ∨
      ¬ ∃ row ∈ rows, row.transformed_count ≠ 0 ∨ row.action = .text_only))
    (rejected "action decisions require transformed non-terminal report rows")
  raiseIf (fields.decision = .reroute ∧ (.pii .block ∈ actions ∨ (.pii .reroute ∉ actions ∧
      ¬ (fields.analysis.val.source = .current_request ∧ fields.analysis.val.scan_performed ∧
        fields.analysis.val.cached_decision_applied))))
    (rejected "reroute decisions require reroute evidence")
  raiseIf (fields.decision = .block ∧ (fields.reversal.items ≠ [] ∨ (∃ row ∈ rows, row.transformed_count ≠ 0) ∨
      (rows ≠ [] ∧ .pii .block ∉ actions)))
    (rejected "blocked results cannot contain transformations")
  raiseIf (fields.analysis.val.scan_performed = false ∧ fields.reversal.items ≠ [])
    (rejected "reversal requires a current text scan")

/-- Validate current visual evidence without inferring text detections. -/
def validate_visual (fields : AdapterSegmentFields) : Except AnalysisError Unit := do
  match fields.visual_findings with
  | none => raiseIf ("FACE" ∈ fields.entity_counts.keys) (rejected "FACE requires current visual findings")
  | some visual =>
    raiseIf (fields.analysis.val.source ≠ .current_request ∨ fields.analysis.val.cached_decision_applied)
      (rejected "visual findings cannot use cached decisions")
    raiseIf (fields.entity_counts.getD "FACE" 0 ≠ visual.faces.count.getD 0)
      (rejected "FACE counts must match visual findings")
    raiseIf (visual.faces.scan_status = .failed ∧ fields.decision ≠ .block)
      (rejected "failed face inspection requires a block")
    raiseIf (fields.analysis.val.scan_performed = false ∧ ∃ e ∈ fields.entity_counts.keys, e ≠ "FACE")
      (rejected "unscanned visual results cannot claim text detections")
    let face_row := fields.report.val.find? fun row => row.entity_type = "FACE"
    raiseIf (∃ row ∈ face_row, row.action ∉ fields.applied_actions ∨
        (fields.decision = .block ∧ row.action ≠ .pii .block))
      (rejected "FACE must report its effective action")
  raiseIf (.text_only ∈ fields.applied_actions ∧ ¬ ∃ row ∈ fields.report.val, row.entity_type = "FACE")
    (rejected "text-only requires a FACE row")

/-- Retain report, visual and reversal provenance without provider models. -/
def validate (fields : AdapterSegmentFields) : Except AnalysisError Unit := do
  segment_analysis_response.validate_fields fields.toSegmentFields
  validate_reversal fields.reversal
  segment_analysis_response.validate_forwarding fields.toSegmentFields
  validate_counts fields
  validate_actions fields
  validate_visual fields

end adapter_segment_analyze_response

/-- Carry bounded reports and request-local reversal only to the trusted adapter. -/
abbrev AdapterSegmentAnalyzeResponse := Accepted adapter_segment_analyze_response.validate

/-- Build bounded analysis metadata without any request values. -/
def analysis (result : PolicyResult) (settings : Settings) : Except AnalysisError AnalysisMetadata :=
  accept analysis_metadata.validate {
    source := result.analysis_source
    scan_performed := result.scan_performed
    duration_ms := result.duration_ms
    overlap_count := result.overlap_count
    policy_version := settings.policy_version
    text_leaf_count := result.text_leaf_count
    cached_decision_applied := result.cached_decision_applied }

/-- An MCP call without text that passes as it is. -/
def NoTextPass (result : PolicyResult) (request : SegmentRequest) : Prop :=
  request.request_kind = .mcp ∧ request.segments = [] ∧ result.decision = .pass ∧ result.entities = [] ∧
    result.applied_actions = [] ∧ result.route_class = none ∧ result.request_notices = [] ∧
    result.response_notices = [] ∧ (result.safety_rule = none ∨ result.safety_rule = some "") ∧
    result.reversal.items = [] ∧ result.cached_decision_applied = false ∧ result.text_leaf_count = 0

instance (result : PolicyResult) (request : SegmentRequest) : Decidable (NoTextPass result request) :=
  inferInstanceAs (Decidable (_ ∧ _))

/-- Validate request correspondence before serializing any successful segment result. -/
def validate_correspondence (result : PolicyResult) (request : SegmentRequest) : Except AnalysisError Unit := do
  raiseIf (result.decision ≠ .block ∧
      result.segments.map (·.map TextSegment.id) ≠ some (request.segments.map TextSegment.id))
    (.value_error "analysis changed segment identity or order")
  raiseIf (result.decision ≠ .block ∧ result.scan_performed = false ∧ result.analysis_source = .current_request ∧
      request.visual_findings = none ∧ ¬ NoTextPass result request)
    (.value_error "unscanned success requires visual controls or no-text MCP")
  raiseIf (request.visual_findings ≠ none ∧ result.scan_performed ∧ request.text_pii_enabled = false)
    (.value_error "visual-only request performed text analysis")
  raiseIf (request.visual_findings ≠ none ∧ request.text_pii_enabled ∧ result.scan_performed = false ∧
      result.decision ≠ .block)
    (.value_error "visual request skipped required text analysis")
  raiseIf (request.visual_findings ≠ none ∧ request.text_pii_enabled = false ∧
      ∃ segments ∈ result.segments, segments ≠ request.segments)
    (.value_error "visual-only request changed text")
  raiseIf (request.request_kind = .mcp ∧ (result.decision = .reroute ∨ result.route_class ≠ none ∨
      result.request_notices ≠ [] ∨ result.response_notices ≠ []))
    (.value_error "MCP cannot carry model routing or notices")

abbrev fields_of (result : PolicyResult) (analysis : AnalysisMetadata) (notices : Notices) : SegmentFields where
  decision := result.decision
  remote_allowed := result.remote_allowed
  entities := result.entities
  entity_counts := result.entity_counts
  applied_actions := result.applied_actions
  route_class := result.route_class
  segments := result.segments
  analysis
  notices
  safety_rule := result.safety_rule

def segment_fields (settings : Settings) (result : PolicyResult) (request : SegmentRequest) :
    Except AnalysisError SegmentFields := do
  validate_correspondence result request
  let analysis ← analysis result settings
  let notices ← Notices.create result.request_notices result.response_notices
  pure (fields_of result analysis notices)

/-- The arguments of the adapter's response to a result. -/
abbrev adapter_fields (result : PolicyResult) (request : SegmentRequest) (report : PIIReport) (fields : SegmentFields) :
    AdapterSegmentFields where
  toSegmentFields := fields
  report
  visual_findings := request.visual_findings
  reversal := result.reversal

/-- The response that `analyze_adapter_segments` builds from a result. -/
def adapter_segment_response (settings : Settings) (result : PolicyResult) (request : SegmentRequest) :
    Except AnalysisError AdapterSegmentAnalyzeResponse := do
  let fields ← segment_fields settings result request
  let report ← accept pii_report.validate result.report_rows
  accept adapter_segment_analyze_response.validate (adapter_fields result request report fields)

end pii_engine.controllers
