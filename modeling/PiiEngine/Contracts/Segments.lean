import PiiEngine.Config.Policy
import PiiEngine.Text

open pii_engine.config

namespace pii_engine

/-- A word over ASCII letters, digits and `_`, `.`, `:` and `-`, of at most 128 characters. -/
def isSegmentId (id : String) : Bool :=
  1 ≤ id.length ∧ id.length ≤ 128 ∧ id.toList.all fun c =>
    isAsciiUpper c || isAsciiLower c || isAsciiDigit c || ['_', '.', ':', '-'].contains c

/-- One independently analyzed text under a caller-owned opaque id. -/
structure TextSegment where
  id : String
  text : Text
  id_ok : isSegmentId id := by decide
  deriving DecidableEq

inductive SegmentKind where
  | chat
  | responses
  | mcp
  deriving DecidableEq, Repr

inductive Scope where
  | session
  | request
  deriving DecidableEq, Repr

inductive ScanStatus where
  | complete
  | not_scanned
  | failed
  deriving DecidableEq, Repr

/-- Aggregate face detections of the current request. The count exists exactly when the
    inspection completed. -/
structure FaceFindings where
  scan_status : ScanStatus
  count : Option Nat
  count_le : ∀ n ∈ count, n ≤ 10000000 := by decide
  count_iff : scan_status = .complete ↔ count.isSome := by decide
  deriving DecidableEq

structure VisualFindings where
  faces : FaceFindings
  deriving DecidableEq

/-- Extracted text and trusted analysis controls, never provider JSON. -/
structure SegmentRequest where
  request_kind : SegmentKind
  scope : Scope
  segments : List TextSegment
  text_pii_enabled : Bool := true
  attachments_present : Bool := false
  visual_findings : Option VisualFindings := none
  ids_nodup : (segments.map TextSegment.id).Nodup := by decide
  visual_ok : visual_findings ≠ none →
    request_kind ≠ .mcp ∧ scope = .request ∧ attachments_present = false := by decide
  text_disabled_ok : text_pii_enabled = false → visual_findings ≠ none := by decide

/-- A request without visual findings. -/
def SegmentRequest.ofTexts (request_kind : SegmentKind) (scope : Scope) (segments : List TextSegment)
    (attachments_present : Bool) (ids_nodup : (segments.map TextSegment.id).Nodup) : SegmentRequest where
  request_kind
  scope
  segments
  attachments_present
  ids_nodup
  visual_ok := fun hvisual => absurd rfl hvisual
  text_disabled_ok := fun hdisabled => by cases hdisabled

/-- The number of faces a request reports, zero when there are none to report. -/
def SegmentRequest.faceCount (request : SegmentRequest) : Nat :=
  match request.visual_findings with
  | some visual => visual.faces.count.getD 0
  | none => 0

end pii_engine
