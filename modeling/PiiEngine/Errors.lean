import Mathlib.Tactic.Common

namespace pii_engine

set_option linter.dupNamespace false in
inductive LimitComponent where
  | pii_engine
  | extproc
  | request_segments
  deriving DecidableEq, Repr

inductive LimitStage where
  | admission
  | json
  | inspection
  | engine_request
  | engine_response
  | provider_response
  | output
  deriving DecidableEq, Repr

inductive LimitReason where
  | bytes
  | declared_bytes
  | encoded_bytes
  | decoded_bytes
  | transformed_bytes
  | depth
  | tokens
  | nodes
  | text_characters
  | segments
  | text_leaves
  | empty_chunks
  | reasoning_fingerprints
  deriving DecidableEq, Repr

inductive LimitUnit where
  | bytes
  | characters
  | items
  | levels
  deriving DecidableEq, Repr

def LimitReason.expected_unit : LimitReason → LimitUnit
  | .bytes | .declared_bytes | .encoded_bytes | .decoded_bytes | .transformed_bytes => .bytes
  | .depth => .levels
  | .text_characters => .characters
  | _ => .items

/-- A measurement from the boundary that rejected work. It exceeded its limit and
    is counted in the unit of its reason. -/
structure LimitDetail where
  component : LimitComponent := .pii_engine
  stage : LimitStage
  reason : LimitReason
  measured : Nat
  maximum : Nat
  unit : LimitUnit
  exact : Bool
  exceeded : maximum < measured
  unit_eq : unit = reason.expected_unit
  deriving DecidableEq

/-- The exceptions that leave the analysis pipeline. -/
inductive AnalysisError where
  | value_error (message : String)
  | runtime_error (message : String)
  | validation_error (model message : String)
  | invalid_request (message : String)
  | request_too_large (message : String) (limit : Option LimitDetail)
  | runtime_not_ready (message : String)
  /-- Analysis did not finish: the queue, the deadline or the analyzer itself failed. -/
  | analysis_failed
  /-- The session cache could not be reached. -/
  | store_unavailable
  deriving DecidableEq

end pii_engine
