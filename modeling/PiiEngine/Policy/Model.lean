import PiiEngine.Config.Settings
import PiiEngine.Contracts.Report
import PiiEngine.Contracts.Segments
import PiiEngine.Planner.Model
import PiiEngine.Safety

open checked collections
open pii_engine.config pii_engine.planner

namespace pii_engine.policy

def MAX_DIAGNOSTICS_PER_KIND : Nat := 2048

inductive AnalysisSource where
  | current_request
  | cached_decision
  deriving DecidableEq, Repr

inductive DetectionSource where
  | deterministic
  | spacy
  | transformer
  | policy_regex
  deriving DecidableEq, Repr

/-- Safe logical detection evidence for the Studio response. -/
structure LogicalDetectionData where
  segment_id : String
  start : Int
  stop : Int
  entity_type : String
  score : Option ℚ
  source : DetectionSource
  configured_action : PIIAction
  resolved_action : PIIAction
  deriving DecidableEq

/-- Safe effective overlap evidence for the Studio response. -/
structure EffectiveRegionData where
  segment_id : String
  start : Int
  stop : Int
  entity_type : String
  action : PIIAction
  source : DetectionSource
  score : Option ℚ
  member_entity_types : List String
  overlap : Bool
  deriving DecidableEq

/-- A fully evaluated request. -/
structure PolicyResult where
  decision : Decision
  remote_allowed : Bool
  segments : Option (List TextSegment) := none
  entities : List String := []
  entity_counts : OrderedDict String Nat := .empty
  applied_actions : List ReportAction := []
  report_rows : List PIIReportRow := []
  analysis_source : AnalysisSource := .current_request
  scan_performed : Bool := false
  duration_ms : Option Nat := none
  overlap_count : Nat := 0
  cached_decision_applied : Bool := false
  route_class : Option String := none
  reversal : OrderedDict Text Text := .empty
  safety_rule : Option String := none
  request_notices : List String := []
  response_notices : List String := []
  text_leaf_count : Nat := 0
  logical_detections : List LogicalDetectionData := []
  effective_regions : List EffectiveRegionData := []
  diagnostics_truncated : Bool := false

structure TextLeaf where
  id : String
  text : Text
  deriving DecidableEq

/-- What one request observes of the world: the analyzer's answer on each leaf, the fresh
    nonce, and the seconds read when a match of a leaf is rewritten. -/
structure Environment where
  analyze : TextLeaf → Except AnalysisError (List EntityMatch)
  request_nonce : Text
  clock : String → EntityMatch → Nat

/-- The built-in rules that are switched on, then the custom ones. -/
def compile_safety_rules (policy : PolicySettings) : Except AnalysisError (List SafetyRule) := do
  let enabled ← policy.safety.enabled.mapM fun name =>
    match SAFETY_BY_NAME name with
    | some rule => .ok rule
    | none => .error (.value_error s!"unknown safety rule: {name}")
  pure (enabled ++ policy.safety.custom.map fun entry => ⟨entry.name, entry.pattern, entry.message⟩)

/-- The service over one validated policy. Its safety rules are the compiled ones. -/
structure PolicyService where
  settings : Settings
  planner : ActionPlanner
  re : RegexEngine
  safety_rules : List SafetyRule
  compiled : compile_safety_rules planner.policy = .ok safety_rules

namespace PolicyService

set_option linter.dupNamespace false in
def policy (service : PolicyService) : PolicySettings := service.planner.policy

def create (settings : Settings) (planner : ActionPlanner) (re : RegexEngine) :
    Except AnalysisError PolicyService :=
  match h : compile_safety_rules planner.policy with
  | .ok safety_rules => .ok ⟨settings, planner, re, safety_rules, h⟩
  | .error e => .error e

/-- Enforce measured semantic bounds before cache access or analysis. -/
def validate_segment_limits (service : PolicyService) (leaves : List TextLeaf) :
    Except AnalysisError Unit :=
  let characters := (leaves.map (·.text.length)).sum
  if hleaves : service.settings.max_text_leaves < leaves.length then
    .error (.request_too_large "request contains too many text segments" (some {
      stage := .inspection, reason := .segments, measured := leaves.length
      maximum := service.settings.max_text_leaves, unit := .items, exact := true
      exceeded := hleaves, unit_eq := rfl }))
  else if hcharacters : service.settings.max_text_characters < characters then
    .error (.request_too_large "request contains too many text characters" (some {
      stage := .inspection, reason := .text_characters, measured := characters
      maximum := service.settings.max_text_characters, unit := .characters, exact := true
      exceeded := hcharacters, unit_eq := rfl }))
  else .ok ()

def validate_bounds (service : PolicyService) (leaves : List TextLeaf) : Except AnalysisError Unit := do
  raiseIf (leaves = []) (.invalid_request "request contains no model-visible text")
  service.validate_segment_limits leaves

def safety_match (service : PolicyService) (leaves : List TextLeaf) : Option SafetyRule :=
  service.safety_rules.find? fun rule => leaves.any fun leaf => rule.matches_text service.re leaf.text

/-- A request of attachments alone has no text to bound. -/
def validate_visible_text (service : PolicyService) (request : SegmentRequest) (leaves : List TextLeaf) :
    Except AnalysisError Unit :=
  if leaves ≠ [] ∨ request.attachments_present = false then service.validate_bounds leaves else .ok ()

/-- The block of an attachment or of a safety rule. -/
def preflight_block (service : PolicyService) (request : SegmentRequest) (leaves : List TextLeaf) :
    Option PolicyResult :=
  if request.attachments_present then
    some {
      decision := .block
      remote_allowed := false
      applied_actions := [.pii .block]
      response_notices := if request.request_kind = .mcp then []
        else ["Attachments are blocked by the configured policy."]
      text_leaf_count := leaves.length }
  else match service.safety_match leaves with
    | some safety => some {
        decision := .block
        remote_allowed := false
        applied_actions := [.pii .block]
        safety_rule := some safety.name
        response_notices := if request.request_kind = .mcp then [] else [safety.message]
        text_leaf_count := leaves.length }
    | none => none

/-- Apply bounds, attachment policy and original-text safety before any PII work. -/
def preflight (service : PolicyService) (request : SegmentRequest) (leaves : List TextLeaf) :
    Except AnalysisError (Option PolicyResult) := do
  if request.request_kind = .mcp ∧ leaves = [] ∧ request.attachments_present = false then
    return some { segments := some [], decision := .pass, remote_allowed := true }
  service.validate_visible_text request leaves
  return service.preflight_block request leaves

def custom_matches (service : PolicyService) (text : Text) : List EntityMatch :=
  service.policy.pii.entity_policies.flatMap fun entry => entry.patterns.flatMap fun pattern =>
    (service.re.finditer pattern text).map fun span =>
      ⟨entry.entity_type, span.1, span.2, some (95 / 100), "policy-regex"⟩

/-- Every leaf analyzed and decided before any transformation. -/
structure PreparedLeaves where
  prepared : List (TextLeaf × LeafPlan) := []
  entities : UniqueList String := .empty
  counts : OrderedDict String Nat := .empty
  route_classes : List String := []
  reroute_entities : UniqueList String := .empty
  overlap_count : Nat := 0

def prepare_leaf_plan (service : PolicyService) (env : Environment) (reroute_as_block : Bool)
    (acc : PreparedLeaves) (leaf : TextLeaf) : Except AnalysisError PreparedLeaves := do
  let analyzed ← env.analyze leaf
  let plan ← service.planner.prepare leaf.text (analyzed ++ service.custom_matches leaf.text)
    reroute_as_block
  pure {
    prepared := acc.prepared ++ [(leaf, plan)]
    entities := acc.entities.update plan.entities.elems
    counts := acc.counts.mergeCounts plan.entity_counts
    route_classes := acc.route_classes ++ plan.route_class.toList.filter (· ≠ "")
    reroute_entities := acc.reroute_entities.update plan.reroute_entities.elems
    overlap_count := acc.overlap_count + plan.overlap_count }

def prepare_leaf_plans (service : PolicyService) (env : Environment) (leaves : List TextLeaf)
    (reroute_as_block : Bool) : Except AnalysisError PreparedLeaves :=
  leaves.foldlM (service.prepare_leaf_plan env reroute_as_block) {}

/-- Add the reversal entries of one leaf to those of the request. -/
def merge_reversal (target source : OrderedDict Text Text) : Except AnalysisError (OrderedDict Text Text) :=
  source.items.foldlM (fun target entry => do
    raiseIf (∃ existing ∈ target.get? entry.1, existing ≠ entry.2)
      (.value_error "one placeholder maps to multiple plaintext values")
    pure (target.set entry.1 entry.2)) target

structure TransformedLeaves where
  prepared : List (TextLeaf × LeafPlan) := []
  replacements : OrderedDict String Text := .empty
  actions : UniqueList PIIAction := .empty
  reversal : OrderedDict Text Text := .empty

def transform_leaf_plan (service : PolicyService) (env : Environment) (nonce : Text)
    (acc : TransformedLeaves) (entry : TextLeaf × LeafPlan) : Except AnalysisError TransformedLeaves := do
  let (leaf, plan) := entry
  let plan ← service.planner.transform plan nonce (env.clock leaf.id)
  let reversal ← merge_reversal acc.reversal plan.reversal
  pure {
    prepared := acc.prepared ++ [(leaf, plan)]
    actions := acc.actions.update plan.applied_actions.elems
    reversal
    replacements :=
      if plan.text ≠ leaf.text then acc.replacements.set leaf.id plan.text else acc.replacements }

/-- Transform prepared plans only after global block resolution. -/
def transform_plans (service : PolicyService) (env : Environment) (request : SegmentRequest)
    (prepared : List (TextLeaf × LeafPlan)) (nonce : Text) :
    Except AnalysisError (List TextSegment × TransformedLeaves) := do
  let transformed ← prepared.foldlM (service.transform_leaf_plan env nonce) {}
  pure (request.segments.map fun segment =>
    { segment with text := transformed.replacements.getD segment.id segment.text }, transformed)

/-- The transient leaf details gathered for a report. -/
structure ReportTotals where
  actions : OrderedDict String PIIAction := .empty
  detected : OrderedDict String Nat := .empty
  transformed : OrderedDict String Nat := .empty
  transformed_values : OrderedDict String (UniqueList Text) := .empty

def report_entity (plan : LeafPlan) (acc : ReportTotals) (entry : String × Nat) :
    Except AnalysisError ReportTotals := do
  let (entity_type, count) := entry
  let action ← match plan.entity_actions.get? entity_type with
    | some action => pure action
    | none => throw (.value_error "detected entity has no resolved action")
  raiseIf (∃ existing ∈ acc.actions.get? entity_type, existing ≠ action)
    (.value_error "one entity type resolved to inconsistent actions")
  pure {
    actions := acc.actions.set entity_type action
    detected := acc.detected.addCount entity_type count
    transformed := acc.transformed.addCount entity_type (plan.transformed_counts.getD entity_type 0)
    transformed_values := acc.transformed_values.set entity_type
      ((acc.transformed_values.getD entity_type .empty).update
        (plan.transformed_values.getD entity_type .empty).elems) }

/-- Collapse transient leaf details into safe deterministic aggregate rows. -/
def report_rows (prepared : List (TextLeaf × LeafPlan)) : Except AnalysisError (List PIIReportRow) := do
  let totals ← prepared.foldlM (fun acc entry => entry.2.entity_counts.items.foldlM
    (report_entity entry.2) acc) {}
  (sortOn id totals.detected.keys).mapM fun entity_type =>
    match totals.actions.get? entity_type with
    | some action => PIIReportRow.create entity_type (.pii action) (totals.detected.getD entity_type 0)
        (totals.transformed.getD entity_type 0) (totals.transformed_values.getD entity_type .empty).card
    | none => .error (.value_error "detected entity has no resolved action")

/-- The configured entity action or the policy default. -/
def entity_action (service : PolicyService) (entity_type : String) : PIIAction :=
  match service.policy.pii.entity_policies.find? (·.entity_type = entity_type) with
  | some entry => entry.action
  | none => service.policy.pii.default_action

/-- Collapse internal recognizer names into the fixed Studio taxonomy. -/
def normalized_source (source : String) : DetectionSource :=
  if source = "policy-regex" then .policy_regex
  else if source = "spacy" then .spacy
  else if source = "transformer" then .transformer
  else .deterministic

structure Diagnostics where
  logical_detections : List LogicalDetectionData := []
  effective_regions : List EffectiveRegionData := []
  truncated : Bool := false

def overlapping (first second : EntityMatch) : Bool := first.start < second.stop ∧ first.stop > second.start

def diagnose_logical (service : PolicyService) (leaf : TextLeaf) (plan : LeafPlan) (acc : Diagnostics)
    (item : EntityMatch) : Except AnalysisError Diagnostics := do
  let some region := plan.effective_matches.find? (overlapping · item)
    | throw (.runtime_error "StopIteration")
  if acc.logical_detections.length < MAX_DIAGNOSTICS_PER_KIND then
    let some resolved_action := plan.entity_actions.get? region.entity_type
      | throw (.runtime_error "KeyError")
    pure { acc with logical_detections := acc.logical_detections ++ [{
      segment_id := leaf.id
      start := item.start
      stop := item.stop
      entity_type := item.entity_type
      score := item.score
      source := normalized_source item.source
      configured_action := service.entity_action item.entity_type
      resolved_action }] }
  else pure { acc with truncated := true }

def diagnose_region (leaf : TextLeaf) (plan : LeafPlan) (acc : Diagnostics) (region : EntityMatch) :
    Except AnalysisError Diagnostics := do
  let members := (UniqueList.ofList
    ((plan.logical_matches.filter (overlapping · region)).map (·.entity_type))).sorted id
  if acc.effective_regions.length < MAX_DIAGNOSTICS_PER_KIND then
    let some action := plan.entity_actions.get? region.entity_type
      | throw (.runtime_error "KeyError")
    pure { acc with effective_regions := acc.effective_regions ++ [{
      segment_id := leaf.id
      start := region.start
      stop := region.stop
      entity_type := region.entity_type
      action
      source := normalized_source region.source
      score := region.score
      member_entity_types := members
      overlap := 1 < members.length }] }
  else pure { acc with truncated := true }

/-- Deterministic bounded diagnostics from original leaf-local plans. -/
def diagnostics (service : PolicyService) (prepared : List (TextLeaf × LeafPlan)) :
    Except AnalysisError Diagnostics :=
  prepared.foldlM (fun acc entry => do
    let acc ← entry.2.logical_matches.foldlM (service.diagnose_logical entry.1 entry.2) acc
    entry.2.effective_matches.foldlM (diagnose_region entry.1 entry.2) acc) {}

/-- The diagnostics of a request that asked for them. -/
def requested_diagnostics (service : PolicyService) (include_diagnostics : Bool)
    (prepared : List (TextLeaf × LeafPlan)) : Except AnalysisError Diagnostics :=
  if include_diagnostics then service.diagnostics prepared else .ok {}

def resolve_route_class (service : PolicyService) (reroute_entities : UniqueList String)
    (detected : List String) : Option String :=
  match detected with
  | [] => none
  | first :: _ =>
    match service.policy.pii.entity_policies.find? fun entry =>
        entry.entity_type ∈ reroute_entities ∧ entry.action = .reroute with
    | some entry => some (orDefault entry.route_class service.policy.routing.default_target)
    | none => some first

def face_route_conflicts (service : PolicyService) (face_route : Option String)
    (reroute_entities : UniqueList String) : Bool :=
  match face_route with
  | none => false
  | some route => reroute_entities.elems.any fun entity =>
      service.resolve_route_class (.ofList [entity]) [service.policy.routing.default_target] ≠ some route

def classify (service : PolicyService) (segments : List TextSegment) : String :=
  let text := Text.joinLines (segments.map (·.text))
  match service.policy.classifier.classes.find? fun item =>
      item.patterns.any fun pattern => service.re.search pattern text with
  | some item => item.name
  | none => service.policy.classifier.default_class

def response_notices (service : PolicyService) (decision : Decision) (has_entities : Bool)
    (actions : UniqueList PIIAction) : List String :=
  if decision = .reroute then [service.policy.notice.rerouted]
  else if has_entities ∧ actions.elems ≠ [] ∧ ∀ action ∈ actions.elems, action = .pass then
    ["Sensitive data was detected and passed through by policy."]
  else if has_entities then [service.policy.notice.masked]
  else if service.policy.notice.show_when_no_pii_detected then
    ["No sensitive data was detected by the configured policy."]
  else []

def sortedActions (actions : UniqueList ReportAction) : List ReportAction := actions.sorted ReportAction.name

def piiActions (actions : UniqueList PIIAction) : UniqueList ReportAction :=
  .ofList (actions.elems.map .pii)

/-- The decision of a request whose plans are not blocked. -/
def text_decision (route_class : Option String) (actions : UniqueList PIIAction) : Decision :=
  if route_class.isSome then .reroute
  else if ∃ action ∈ actions.elems, action ≠ .pass then .apply_actions
  else .pass

/-- The nonce of a request: the given namespace or a fresh one. -/
def request_namespace (env : Environment) (placeholder_namespace : Option Text) : Text :=
  match placeholder_namespace with
  | some name => if name = [] then env.request_nonce else name
  | none => env.request_nonce

/-- Resolve text and face routing conflicts before transforming any text. -/
def analyze_text (service : PolicyService) (env : Environment) (request : SegmentRequest)
    (leaves : List TextLeaf) (include_diagnostics : Bool) (placeholder_namespace : Option Text)
    (face_route : Option String) : Except AnalysisError PolicyResult := do
  let nonce := request_namespace env placeholder_namespace
  let plans ← service.prepare_leaf_plans env leaves (request.request_kind = .mcp)
  let details ← service.requested_diagnostics include_diagnostics plans.prepared
  let original_text := Text.joinLines (leaves.map (·.text))
  if (plans.prepared.any (·.2.blocked)) ∨ service.face_route_conflicts face_route plans.reroute_entities then
    let rows ← report_rows plans.prepared
    return {
      decision := .block
      remote_allowed := false
      entities := plans.entities.sorted id
      entity_counts := plans.counts
      applied_actions := [.pii .block]
      report_rows := rows
      scan_performed := true
      overlap_count := plans.overlap_count
      text_leaf_count := leaves.length
      logical_detections := details.logical_detections
      effective_regions := details.effective_regions
      diagnostics_truncated := details.truncated }
  let route_class := face_route.or (service.resolve_route_class plans.reroute_entities plans.route_classes)
  let (segments, transformed) ← service.transform_plans env request plans.prepared nonce
  raiseIf (∃ placeholder ∈ transformed.reversal.keys, placeholder <:+: original_text)
    (.value_error "generated reversal placeholder already existed in request")
  let decision := text_decision route_class transformed.actions
  let route_class :=
    if route_class = none ∧ request.request_kind ≠ .mcp then some (service.classify segments) else route_class
  let rows ← report_rows transformed.prepared
  return {
    segments := some segments
    decision
    remote_allowed := decision ≠ .reroute
    entities := plans.entities.sorted id
    entity_counts := plans.counts
    applied_actions := sortedActions (piiActions transformed.actions)
    report_rows := rows
    scan_performed := true
    overlap_count := plans.overlap_count
    route_class
    reversal := transformed.reversal
    response_notices := if request.request_kind = .mcp then []
      else service.response_notices decision (plans.entities.elems ≠ []) transformed.actions
    text_leaf_count := leaves.length
    logical_detections := details.logical_detections
    effective_regions := details.effective_regions
    diagnostics_truncated := details.truncated }

def face_action : FaceAction → ReportAction
  | .block => .pii .block
  | .text_only => .text_only
  | .reroute => .pii .reroute

/-- The action that a face row reports. -/
def visual_action (service : PolicyService) (result : PolicyResult) : ReportAction :=
  if result.decision = .block then .pii .block else face_action service.policy.attachments.faces.action

/-- Add one face row and its count to a result. -/
def add_face_evidence (result : PolicyResult) (action : ReportAction) (count : Nat) (row : PIIReportRow) :
    PolicyResult :=
  let entity_counts := result.entity_counts.set "FACE" count
  { result with
    response_notices :=
      if result.decision = .pass ∧ result.entities = [] then [] else result.response_notices
    entity_counts
    entities := sortOn id entity_counts.keys
    report_rows := sortOn PIIReportRow.entity_type (result.report_rows ++ [row])
    applied_actions := sortedActions (.ofList (result.applied_actions ++ [action])) }

/-- Let the face action decide over a result. -/
def apply_face_action (service : PolicyService) (result : PolicyResult) (action : ReportAction)
    (face_route : Option String) : PolicyResult :=
  if action = .pii .reroute then
    { result with
      decision := .reroute
      remote_allowed := false
      route_class := face_route
      response_notices := [service.policy.notice.rerouted] }
  else if action = .text_only then
    { result with
      decision := if result.decision = .pass then .apply_actions else result.decision
      response_notices := result.response_notices ++ ["Faces were detected; images must be withheld."] }
  else result

/-- Add aggregate face evidence without inventing text spans or transformations. -/
def apply_visual_result (service : PolicyService) (result : PolicyResult) (request : SegmentRequest)
    (face_route : Option String) : Except AnalysisError PolicyResult := do
  let count := request.faceCount
  if count = 0 then return result
  let action := service.visual_action result
  let row ← PIIReportRow.create "FACE" action count 0 0
  return service.apply_face_action (add_face_evidence result action count row) action face_route

/-- The route of a request whose faces are rerouted. -/
def face_route (service : PolicyService) (request : SegmentRequest) : Option String :=
  if request.faceCount ≠ 0 ∧ service.policy.attachments.faces.action = .reroute then
    some (orDefault service.policy.attachments.faces.route_class service.policy.routing.default_target)
  else none

/-- A result that the visual findings decide before any text analysis. -/
def visual_decision (service : PolicyService) (request : SegmentRequest) (leaves : List TextLeaf) :
    Option PolicyResult :=
  match request.visual_findings with
  | none => none
  | some visual =>
    if visual.faces.scan_status = .failed ∨
        (request.faceCount ≠ 0 ∧ service.policy.attachments.faces.action = .block) then
      some {
        decision := .block
        remote_allowed := false
        applied_actions := [.pii .block]
        text_leaf_count := leaves.length }
    else if request.text_pii_enabled = false then
      some {
        segments := some request.segments
        decision := .pass
        remote_allowed := true
        text_leaf_count := leaves.length }
    else none

def text_leaves (request : SegmentRequest) : List TextLeaf :=
  request.segments.map fun segment => ⟨segment.id, segment.text⟩

/-- The result that preflight or the visual findings settle, else that of the text. -/
def settled_or_text (service : PolicyService) (env : Environment) (request : SegmentRequest)
    (include_diagnostics : Bool) (placeholder_namespace : Option Text) (settled : Option PolicyResult) :
    Except AnalysisError PolicyResult :=
  match settled with
  | some result => .ok result
  | none => service.analyze_text env request (text_leaves request) include_diagnostics placeholder_namespace
      (service.face_route request)

/-- Run safety and global policy decisions over independent caller segments. -/
def analyze_segments (service : PolicyService) (env : Environment) (request : SegmentRequest)
    (include_diagnostics : Bool) (placeholder_namespace : Option Text) :
    Except AnalysisError PolicyResult := do
  let leaves := text_leaves request
  let preflight ← service.preflight request leaves
  let result ← service.settled_or_text env request include_diagnostics placeholder_namespace
    (preflight.or (service.visual_decision request leaves))
  if request.visual_findings.isSome then
    service.apply_visual_result result request (service.face_route request)
  else pure result

/-- The service of the unit-test runtime, over an expression engine that finds nothing. -/
def test_service : PolicyService where
  settings := {}
  planner := ActionPlanner.test_planner
  re := ⟨fun _ => true, fun _ _ => false, fun _ _ => []⟩
  safety_rules := SAFETY_RULES
  compiled := rfl

/-- An environment in which the analyzer answers the same on every leaf. -/
def test_environment (found : List EntityMatch) : Environment :=
  ⟨fun _ => .ok found, "0123456789abcdef".toList, fun _ _ => 0⟩

end PolicyService

end pii_engine.policy
