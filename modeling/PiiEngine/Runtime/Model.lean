import PiiEngine.Policy.Model
import PiiEngine.Session

open checked collections
open pii_engine.config pii_engine.policy

namespace pii_engine

/-- How a write to the session cache ends. A failed one may still have reached it. -/
inductive WriteOutcome where
  | stored
  | lost
  | unconfirmed
  deriving DecidableEq, Repr

namespace SessionStore

/-- `SessionStore.get` on the value kept under one key. -/
def get (reachable : Bool) (store : Option SessionDecision) : Except AnalysisError (Option SessionDecision) :=
  if reachable then .ok store else .error .store_unavailable

/-- `SessionStore.set`: the outcome of the call and the value kept afterwards. -/
def set (write : WriteOutcome) (store : Option SessionDecision) (decision : SessionDecision) :
    Except AnalysisError Unit × Option SessionDecision :=
  if decision.decision ∉ [.block, .reroute] then
    (.error (.value_error "only tainted decisions may enter the session cache"), store)
  else match write with
    | .stored => (.ok (), some decision)
    | .lost => (.error .store_unavailable, store)
    | .unconfirmed => (.error .store_unavailable, some decision)

end SessionStore

namespace runtime

inductive Caller where
  | adapter
  | studio
  deriving DecidableEq, Repr

/-- What a request meets besides the analyzer: whether the runtime is ready, whether the
    queue and the deadline let its analysis finish, and the milliseconds that took. -/
structure Observation extends Environment where
  ready : Bool := true
  admission : Except AnalysisError Unit := .ok ()
  elapsed_ms : Nat := 0

/-- One call of the runtime without a policy override. -/
structure Call where
  caller : Caller
  request : SegmentRequest
  session_key : Option Text
  observation : Observation

namespace Call

def request_kind (call : Call) : RequestKind := if call.request.request_kind = .mcp then .mcp else .model

def request_scoped (call : Call) : Bool := call.request.scope = .request

end Call

def validate_segment_caller (caller : Caller) (request : SegmentRequest) : Except AnalysisError Unit := do
  raiseIf (caller = .studio ∧ request.scope ≠ .request)
    (.invalid_request "Studio analysis must be request-scoped")
  raiseIf (request.visual_findings.isSome ∧ caller ≠ .adapter)
    (.invalid_request "visual findings require document adapter analysis")

def validated_session_key (value : Option Text) : Except AnalysisError (Option Text) := do
  raiseIf (∃ key ∈ value, key.length ≠ 64 ∨ key.all isHexDigit = false)
    (.invalid_request "invalid trusted session key")
  pure value

/-- The runtime over one policy service. It has a session store when the policy enables
    sessions. -/
structure EngineRuntime where
  policy : PolicyService

namespace EngineRuntime

def policy_settings (runtime : EngineRuntime) : PolicySettings := runtime.policy.policy

def session_enabled (runtime : EngineRuntime) : Bool := runtime.policy_settings.session.enabled

/-- Derive an unlinkable stable namespace for one trusted model conversation. -/
def conversation_placeholder_namespace (runtime : EngineRuntime) (session_key : Text) : Text :=
  (runtime.policy.planner.hmac.hexdigest ("pii-engine:v1:conversation-placeholder:".toList ++
    runtime.policy.settings.policy_version.toList ++ [':'] ++ session_key)).take 16

/-- The namespace of a call that belongs to a model conversation. -/
def placeholder_namespace (runtime : EngineRuntime) (call : Call) (session_key : Option Text) : Option Text :=
  if call.caller = .adapter ∧ call.request.request_kind = .chat ∧ call.request_scoped = false then
    session_key.map runtime.conversation_placeholder_namespace
  else none

/-- The checks before the session cache is read, and the placeholder namespace. -/
def check_call (runtime : EngineRuntime) (call : Call) : Except AnalysisError (Option Text) := do
  validate_segment_caller call.caller call.request
  runtime.policy.validate_segment_limits (PolicyService.text_leaves call.request)
  raiseIf (call.observation.ready = false) (.runtime_not_ready "policy runtime is not ready")
  let session_key ← validated_session_key (if call.request_scoped then none else call.session_key)
  pure (runtime.placeholder_namespace call session_key)

def cached_decision (runtime : EngineRuntime) (call : Call) (reachable : Bool)
    (store : Option SessionDecision) : Except AnalysisError (Option SessionDecision) := do
  if call.caller ≠ .adapter ∨ runtime.session_enabled = false then return none
  let key ← validated_session_key call.session_key
  raiseIf (key = none) (.invalid_request "adapter requests require a trusted session key")
  let cached ← SessionStore.get reachable store
  raiseIf (∃ decision ∈ cached, decision.request_kind ≠ call.request_kind)
    (.runtime_error "session cache request kind does not match the current request")
  return cached

/-- A request-scoped call never looks at the session. -/
def read_session (runtime : EngineRuntime) (call : Call) (reachable : Bool)
    (store : Option SessionDecision) : Except AnalysisError (Option SessionDecision) :=
  if call.request_scoped then .ok none else runtime.cached_decision call reachable store

/-- The action that bears the name of a terminal decision. -/
def terminal_action (decision : Decision) : ReportAction :=
  if decision = .block then .pii .block else .pii .reroute

/-- Return a safe cached block or unmasked trusted-local reroute. -/
def result_from_cache (request : SegmentRequest) (cached : SessionDecision) : PolicyResult where
  segments := if cached.decision = .block then none else some request.segments
  decision := cached.decision
  remote_allowed := cached.remote_allowed
  entities := cached.entities
  entity_counts := cached.entity_counts
  applied_actions := [terminal_action cached.decision]
  report_rows := cached.report_rows
  analysis_source := .cached_decision
  overlap_count := cached.overlap_count
  cached_decision_applied := true
  route_class := cached.route_class
  request_notices := cached.request_notices
  response_notices := cached.response_notices

/-- Whether a cached decision needs no transformation of the current request. -/
def is_final (runtime : EngineRuntime) (request : SegmentRequest) (cached : SessionDecision) : Bool :=
  if cached.decision = .block then true
  else if request.attachments_present then false
  else !runtime.policy_settings.pii.mask_on_reroute

def final_cached_result (runtime : EngineRuntime) (request : SegmentRequest)
    (cached : Option SessionDecision) : Option PolicyResult :=
  (cached.filter (runtime.is_final request)).map (result_from_cache request)

/-- Analyze within the limits of the queue and the deadline. -/
def run_analysis (runtime : EngineRuntime) (call : Call) (placeholder_namespace : Option Text) :
    Except AnalysisError PolicyResult := do
  call.observation.admission
  let result ← runtime.policy.analyze_segments call.observation.toEnvironment call.request false
    placeholder_namespace
  pure (if result.scan_performed then
    { result with duration_ms := some (min 600000 call.observation.elapsed_ms) } else result)

/-- Raise a count to the cached one. -/
def raise_count (counts : OrderedDict String Nat) (entry : String × Nat) : OrderedDict String Nat :=
  counts.set entry.1 (max (counts.getD entry.1 0) entry.2)

/-- A result under a sticky reroute. -/
def apply_cached_reroute (result : PolicyResult) (cached : SessionDecision) : PolicyResult :=
  { result with
    decision := .reroute
    remote_allowed := false
    route_class := cached.route_class
    entities := (UniqueList.ofList (result.entities ++ cached.entities)).sorted id
    entity_counts := cached.entity_counts.items.foldl raise_count result.entity_counts
    applied_actions := PolicyService.sortedActions (.ofList (result.applied_actions ++ [.pii .reroute]))
    request_notices := cached.request_notices
    response_notices := cached.response_notices
    cached_decision_applied := true }

/-- Apply sticky routing after current-request masking has completed. -/
def apply_cached_decision (result : PolicyResult) (cached : Option SessionDecision) : PolicyResult :=
  match cached with
  | none => result
  | some cached =>
    if cached.decision = .reroute ∧ result.decision ≠ .block then apply_cached_reroute result cached
    else result

/-- Fail closed if MCP ever escapes its terminal routing and notice contract. -/
def validate_result_kind (result : PolicyResult) (request_kind : RequestKind) : Except AnalysisError Unit :=
  raiseIf (request_kind = .mcp ∧ (result.decision = .reroute ∨ result.route_class ≠ none ∨
      result.request_notices ≠ [] ∨ result.response_notices ≠ [] ∨
      ∃ row ∈ result.report_rows, row.action = .pii .reroute))
    (.value_error "MCP analysis produced model-only routing state")

/-- The report rows and the overlap count that a record keeps: those of the request that
    first tainted the session. -/
def taint_evidence (result : PolicyResult) (cached : Option SessionDecision) :
    Except AnalysisError (List PIIReportRow × Nat) :=
  if result.cached_decision_applied then
    match cached with
    | some cached => .ok (cached.report_rows, cached.overlap_count)
    | none => .error (.value_error "cache-applied result is missing its session decision")
  else .ok (result.report_rows, result.overlap_count)

def taint_record (request_kind : RequestKind) (result : PolicyResult) (evidence : List PIIReportRow × Nat) :
    SessionRecord where
  request_kind
  decision := result.decision
  entities := result.entities
  entity_counts := result.entity_counts
  report_rows := evidence.1
  overlap_count := evidence.2
  route_class := result.route_class
  remote_allowed := result.remote_allowed
  request_notices := result.request_notices
  response_notices := result.response_notices

/-- Whether a result taints the session of its call. -/
def taints (runtime : EngineRuntime) (call : Call) (result : PolicyResult) : Bool :=
  call.request_scoped = false ∧ call.caller = .adapter ∧ runtime.session_enabled ∧
    (result.decision = .block ∨ result.decision = .reroute)

/-- The record that a result leaves in the session. -/
def taint_session (runtime : EngineRuntime) (call : Call) (result : PolicyResult)
    (cached : Option SessionDecision) : Except AnalysisError (Option SessionDecision) := do
  if runtime.taints call result = false then return none
  let key ← validated_session_key call.session_key
  raiseIf (key = none) (.invalid_request "tainted adapter decisions require a trusted session key")
  let evidence ← taint_evidence result cached
  let record ← SessionDecision.create (taint_record call.request_kind result evidence)
  return some record

/-- The result of a call that analyzes, and the record that it writes. -/
def analyze_current (runtime : EngineRuntime) (call : Call) (placeholder_namespace : Option Text)
    (cached : Option SessionDecision) : Except AnalysisError (PolicyResult × Option SessionDecision) := do
  let analyzed ← runtime.run_analysis call placeholder_namespace
  let result := apply_cached_decision analyzed cached
  validate_result_kind result call.request_kind
  let record ← runtime.taint_session call result cached
  pure (result, record)

/-- What a call does after it has read the session: its result and the record it writes. -/
def respond (runtime : EngineRuntime) (call : Call) (placeholder_namespace : Option Text)
    (cached : Option SessionDecision) : Except AnalysisError (PolicyResult × Option SessionDecision) :=
  match runtime.final_cached_result call.request cached with
  | some result => do
    validate_result_kind result call.request_kind
    pure (result, none)
  | none => runtime.analyze_current call placeholder_namespace cached

/-- Write the record of a response, if it has one, before the result is returned. -/
def commit (write : WriteOutcome) (store : Option SessionDecision) (result : PolicyResult)
    (record : Option SessionDecision) : Except AnalysisError PolicyResult × Option SessionDecision :=
  match record with
  | none => (.ok result, store)
  | some decision =>
    let (outcome, store) := SessionStore.set write store decision
    (outcome.map fun _ => result, store)

/-- The first half of a call: the checks and the read of the session. -/
def receive (runtime : EngineRuntime) (call : Call) (reachable : Bool) (store : Option SessionDecision) :
    Except AnalysisError (Option Text × Option SessionDecision) := do
  let placeholder_namespace ← runtime.check_call call
  let cached ← runtime.read_session call reachable store
  pure (placeholder_namespace, cached)

/-- One whole call with no other call between its read and its write. -/
def analyze_segments (runtime : EngineRuntime) (call : Call) (reachable : Bool) (write : WriteOutcome)
    (store : Option SessionDecision) : Except AnalysisError PolicyResult × Option SessionDecision :=
  match runtime.receive call reachable store with
  | .error e => (.error e, store)
  | .ok (placeholder_namespace, cached) =>
    match runtime.respond call placeholder_namespace cached with
    | .error e => (.error e, store)
    | .ok (result, record) => commit write store result record

/-- The policy of the unit tests with sessions. -/
def session_policy (mask_on_reroute : Bool) : PolicySettings :=
  { test_policy with
    pii := { test_policy.pii with mask_on_reroute }
    session := { test_policy.session with enabled := true } }

/-- The runtime of the unit tests with sessions. -/
def session_runtime (mask_on_reroute : Bool) : EngineRuntime where
  policy := { PolicyService.test_service with
    planner := { planner.ActionPlanner.test_planner with policy := session_policy mask_on_reroute }
    compiled := rfl }

/-- The runtime of the unit tests with another default action. -/
def default_runtime (default_action : PIIAction) : EngineRuntime where
  policy := { PolicyService.test_service with
    planner := { planner.ActionPlanner.test_planner with
      policy := { test_policy with pii := { test_policy.pii with default_action } } }
    compiled := rfl }

end EngineRuntime

end runtime

end pii_engine
