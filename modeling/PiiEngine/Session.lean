import Mathlib.Data.String.Basic
import PiiEngine.Contracts.Report

open checked collections
open pii_engine.config

namespace pii_engine

/-- MCP requests and the requests to a model keep separate sessions. -/
inductive RequestKind where
  | model
  | mcp
  deriving DecidableEq, Repr

/-- The safe decision metadata of a session, before validation. -/
structure SessionRecord where
  request_kind : RequestKind
  decision : Decision
  entities : List String
  entity_counts : OrderedDict String Nat
  report_rows : List PIIReportRow
  overlap_count : Nat
  route_class : Option String := none
  remote_allowed : Bool
  request_notices : List String
  response_notices : List String
  deriving DecidableEq

namespace session_decision

def rejected (message : String) : AnalysisError := .validation_error "SessionDecision" message

/-- At most sixteen notices of at most 4000 characters. -/
def notices_bounded (notices : List String) : Bool := notices.length ≤ 16 ∧ notices.all (·.length ≤ 4000)

theorem notices_bounded_iff {notices : List String} :
    notices_bounded notices = true ↔ notices.length ≤ 16 ∧ ∀ notice ∈ notices, notice.length ≤ 4000 := by
  simp [notices_bounded]

/-- The constraints of the single fields. -/
def validate_fields (record : SessionRecord) : Except AnalysisError Unit := do
  raiseIf (record.decision ∉ [.block, .reroute]) (rejected "decision")
  raiseIf (record.entities.length > 64 ∨ ∃ e ∈ record.entities, isEntityType e = false) (rejected "entities")
  raiseIf (record.entity_counts.items.length > 64 ∨
      ∃ entry ∈ record.entity_counts.items, entry.2 < 1 ∨ entry.2 > 10000000)
    (rejected "entity_counts")
  raiseIf (record.report_rows.length > 64) (rejected "report_rows")
  raiseIf (record.overlap_count > 10000000) (rejected "overlap_count")
  raiseIf (∃ route ∈ record.route_class, route.length > 128 ∨ isRouteClass route = false) (rejected "route_class")
  raiseIf (notices_bounded record.request_notices = false) (rejected "request_notices")
  raiseIf (notices_bounded record.response_notices = false) (rejected "response_notices")

/-- Require routing fields to describe one fail-closed terminal decision. -/
def validate_routing (record : SessionRecord) : Except AnalysisError Unit := do
  raiseIf (record.request_notices ≠ []) (rejected "session request notices must remain empty")
  raiseIf record.remote_allowed (rejected "tainted session decisions cannot allow remote routing")
  raiseIf (record.decision = .block ∧ record.route_class ≠ none)
    (rejected "blocked session decisions cannot select a route")
  raiseIf (record.decision = .reroute ∧ record.route_class = none)
    (rejected "rerouted session decisions require a route")
  raiseIf (record.request_kind = .mcp ∧ (record.decision ≠ .block ∨ record.route_class ≠ none ∨
      record.request_notices ≠ [] ∨ record.response_notices ≠ [] ∨
      ∃ row ∈ record.report_rows, row.action = .pii .reroute))
    (rejected "MCP session decisions must contain only effective terminal blocks")

/-- Require bounded cached aggregates to remain internally consistent. -/
def validate_report_counts (record : SessionRecord) : Except AnalysisError Unit := do
  raiseIf ("FACE" ∈ record.entity_counts.keys) (rejected "visual findings cannot enter session state")
  raiseIf (¬ record.entities.Nodup ∨ sameElements record.entity_counts.keys record.entities = false)
    (rejected "session entity counts are inconsistent")
  let report_entities := record.report_rows.map PIIReportRow.entity_type
  raiseIf (¬ report_entities.Nodup) (rejected "session report rows must contain unique entity types")
  raiseIf (report_entities ≠ sortOn id report_entities)
    (rejected "session report rows must be sorted by entity_type")
  raiseIf (∃ row ∈ record.report_rows, row.entity_type ∉ record.entity_counts.keys ∨
      row.detected_count > record.entity_counts.getD row.entity_type 0)
    (rejected "session report rows exceed entity counts")

/-- Require cached report actions to agree with their terminal decision. -/
def validate_terminal_rows (record : SessionRecord) : Except AnalysisError Unit :=
  let actions := record.report_rows.map PIIReportRow.action
  if record.decision = .block then do
    raiseIf (∃ row ∈ record.report_rows, row.transformed_count ≠ 0)
      (rejected "blocked session decisions cannot claim transformations")
    raiseIf (record.report_rows ≠ [] ∧ .pii .block ∉ actions)
      (rejected "PII block session decisions require a block report row")
  else
    raiseIf (.pii .block ∈ actions ∨ .pii .reroute ∉ actions)
      (rejected "rerouted session decisions require reroute rows without block rows")

def validate (record : SessionRecord) : Except AnalysisError Unit := do
  validate_fields record
  validate_routing record
  validate_report_counts record
  validate_terminal_rows record

/-- The bounds of every field. -/
structure FieldsBounded (record : SessionRecord) : Prop where
  decision : record.decision = .block ∨ record.decision = .reroute
  entities : record.entities.length ≤ 64 ∧ ∀ e ∈ record.entities, isEntityType e = true
  entity_counts : record.entity_counts.items.length ≤ 64 ∧
    ∀ entry ∈ record.entity_counts.items, 1 ≤ entry.2 ∧ entry.2 ≤ 10000000
  report_rows : record.report_rows.length ≤ 64
  overlap_count : record.overlap_count ≤ 10000000
  route_class : ∀ route ∈ record.route_class, route.length ≤ 128 ∧ isRouteClass route = true
  request_notices : notices_bounded record.request_notices = true
  response_notices : notices_bounded record.response_notices = true

/-- A tainted session has no remote destination, and no route exactly when it is blocked. -/
structure RoutingAgrees (record : SessionRecord) : Prop where
  request_notices : record.request_notices = []
  local_only : record.remote_allowed = false
  block : record.decision = .block → record.route_class = none
  reroute : record.decision = .reroute → record.route_class ≠ none
  mcp : record.request_kind = .mcp → record.decision = .block ∧ record.route_class = none ∧
    record.response_notices = [] ∧ ∀ row ∈ record.report_rows, row.action ≠ .pii .reroute

/-- The rows of a session are sorted by type and within its entity counts. -/
structure CountsAgree (record : SessionRecord) : Prop where
  no_face : "FACE" ∉ record.entity_counts.keys
  entities_nodup : record.entities.Nodup
  keys : ∀ e, e ∈ record.entity_counts.keys ↔ e ∈ record.entities
  sorted : (record.report_rows.map PIIReportRow.entity_type).Pairwise (· < ·)
  counted : ∀ row ∈ record.report_rows, row.entity_type ∈ record.entity_counts.keys ∧
    row.detected_count ≤ record.entity_counts.getD row.entity_type 0

/-- The rows of a session give evidence for its decision. -/
structure RowsAgree (record : SessionRecord) : Prop where
  untransformed : record.decision = .block → ∀ row ∈ record.report_rows, row.transformed_count = 0
  block : record.decision = .block → record.report_rows ≠ [] →
    ∃ row ∈ record.report_rows, row.action = .pii .block
  reroute : record.decision ≠ .block → (∀ row ∈ record.report_rows, row.action ≠ .pii .block) ∧
    ∃ row ∈ record.report_rows, row.action = .pii .reroute

theorem validate_fields_eq_ok {record : SessionRecord} :
    validate_fields record = .ok () ↔ FieldsBounded record := by
  simp only [validate_fields, raiseIf_bind_eq_ok, raiseIf_eq_ok, not_or, not_exists, not_and, not_lt,
    Bool.not_eq_false, not_not, gt_iff_lt]
  constructor
  · intro h
    obtain ⟨hdecision, hentities, hcounts, hrows, hoverlap, hroute, hrequest, hresponse⟩ := h
    exact ⟨by simpa using hdecision, hentities, hcounts, hrows, hoverlap, hroute, hrequest, hresponse⟩
  · intro h
    exact ⟨by simpa using h.decision, h.entities, h.entity_counts, h.report_rows, h.overlap_count, h.route_class,
      h.request_notices, h.response_notices⟩

theorem validate_routing_eq_ok {record : SessionRecord} :
    validate_routing record = .ok () ↔ RoutingAgrees record := by
  simp only [validate_routing, raiseIf_bind_eq_ok, raiseIf_eq_ok, not_or, not_exists, not_and, not_not,
    Bool.not_eq_true]
  constructor
  · intro h
    obtain ⟨hrequest, hlocal, hblock, hreroute, hmcp⟩ := h
    refine ⟨hrequest, hlocal, hblock, hreroute, ?_⟩
    intro hkind
    obtain ⟨hdecision, hroute, -, hresponse, hrows⟩ := hmcp hkind
    exact ⟨hdecision, hroute, hresponse, hrows⟩
  · intro h
    refine ⟨h.request_notices, h.local_only, h.block, h.reroute, ?_⟩
    intro hkind
    obtain ⟨hdecision, hroute, hresponse, hrows⟩ := h.mcp hkind
    exact ⟨hdecision, hroute, h.request_notices, hresponse, hrows⟩

theorem eq_sortOn_iff {names : List String} :
    names.Nodup ∧ names = sortOn id names ↔ names.Pairwise (· < ·) := by
  constructor
  · intro h
    obtain ⟨hnodup, hsorted⟩ := h
    have hle : names.Pairwise (fun a b => id a ≤ id b) := by
      rw [hsorted]
      exact sortOn_pairwise names
    exact hle.imp₂ (fun _ _ hle hne => lt_of_le_of_ne hle hne) hnodup
  · intro h
    exact ⟨h.imp fun hlt => ne_of_lt hlt, (sortOn_eq_self (h.imp fun hlt => le_of_lt hlt)).symm⟩

theorem validate_report_counts_eq_ok {record : SessionRecord} :
    validate_report_counts record = .ok () ↔ CountsAgree record := by
  simp only [validate_report_counts, raiseIf_bind_eq_ok, raiseIf_eq_ok, not_or, not_exists, not_and, not_not,
    not_lt, gt_iff_lt, ne_eq, Bool.not_eq_false, sameElements_iff]
  constructor
  · intro h
    obtain ⟨hface, ⟨hnodup, hkeys⟩, hunique, hsorted, hcounted⟩ := h
    exact ⟨hface, hnodup, hkeys, eq_sortOn_iff.mp ⟨hunique, hsorted⟩, hcounted⟩
  · intro h
    obtain ⟨hunique, hsorted⟩ := eq_sortOn_iff.mpr h.sorted
    exact ⟨h.no_face, ⟨h.entities_nodup, h.keys⟩, hunique, hsorted, h.counted⟩

theorem validate_terminal_rows_eq_ok {record : SessionRecord} :
    validate_terminal_rows record = .ok () ↔ RowsAgree record := by
  unfold validate_terminal_rows
  split
  · next hblock =>
    rw [raiseIf_bind_eq_ok, raiseIf_eq_ok, not_and, not_not]
    constructor
    · intro h
      obtain ⟨huntransformed, hrow⟩ := h
      refine ⟨fun _ row hmem => ?_, fun _ hne => List.mem_map.mp (hrow hne), fun hne => absurd hblock hne⟩
      by_contra hcount
      exact huntransformed ⟨row, hmem, hcount⟩
    · intro h
      refine ⟨?_, fun hne => List.mem_map.mpr (h.block hblock hne)⟩
      intro hexists
      obtain ⟨row, hmem, hcount⟩ := hexists
      exact hcount (h.untransformed hblock row hmem)
  · next hblock =>
    rw [raiseIf_eq_ok, not_or, not_not]
    constructor
    · intro h
      obtain ⟨hnone, hsome⟩ := h
      refine ⟨fun heq => absurd heq hblock, fun heq => absurd heq hblock, fun _ => ⟨?_, List.mem_map.mp hsome⟩⟩
      intro row hmem haction
      exact hnone (List.mem_map.mpr ⟨row, hmem, haction⟩)
    · intro h
      obtain ⟨hnone, hsome⟩ := h.reroute hblock
      refine ⟨?_, List.mem_map.mpr hsome⟩
      intro hmem
      obtain ⟨row, hrow, haction⟩ := List.mem_map.mp hmem
      exact hnone row hrow haction

theorem validate_eq_ok {record : SessionRecord} :
    validate record = .ok () ↔
      FieldsBounded record ∧ RoutingAgrees record ∧ CountsAgree record ∧ RowsAgree record := by
  rw [← validate_fields_eq_ok, ← validate_routing_eq_ok, ← validate_report_counts_eq_ok,
    ← validate_terminal_rows_eq_ok, validate]
  simp only [bind_eq_ok]
  constructor
  · intro h
    obtain ⟨⟨⟩, hfields, ⟨⟩, hrouting, ⟨⟩, hcounts, hrows⟩ := h
    exact ⟨hfields, hrouting, hcounts, hrows⟩
  · intro h
    obtain ⟨hfields, hrouting, hcounts, hrows⟩ := h
    exact ⟨(), hfields, (), hrouting, (), hcounts, hrows⟩

end session_decision

/-- A block or reroute that a session remembers. Nothing its validators reject can be built. -/
structure SessionDecision extends SessionRecord where
  validated : session_decision.validate toSessionRecord = .ok () := by decide
  deriving DecidableEq

namespace SessionDecision

def create (record : SessionRecord) : Except AnalysisError SessionDecision :=
  match h : session_decision.validate record with
  | .ok () => .ok ⟨record, h⟩
  | .error e => .error e

theorem create_eq_ok {record : SessionRecord} {stored : SessionDecision} :
    create record = .ok stored ↔ stored.toSessionRecord = record := by
  unfold create
  split
  · next h =>
    rw [Except.ok.injEq]
    constructor
    · intro heq
      rw [← heq]
    · intro heq
      cases stored
      cases heq
      rfl
  · next e h =>
    simp only [reduceCtorEq, false_iff]
    intro heq
    have hvalid := stored.validated
    rw [heq, h] at hvalid
    cases hvalid

variable (stored : SessionDecision)

theorem fields : session_decision.FieldsBounded stored.toSessionRecord :=
  (session_decision.validate_eq_ok.mp stored.validated).1

theorem routing : session_decision.RoutingAgrees stored.toSessionRecord :=
  (session_decision.validate_eq_ok.mp stored.validated).2.1

theorem counts : session_decision.CountsAgree stored.toSessionRecord :=
  (session_decision.validate_eq_ok.mp stored.validated).2.2.1

theorem rows : session_decision.RowsAgree stored.toSessionRecord :=
  (session_decision.validate_eq_ok.mp stored.validated).2.2.2

end SessionDecision

end pii_engine
