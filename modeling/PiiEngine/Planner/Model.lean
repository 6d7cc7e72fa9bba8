import PiiEngine.Anonymizer
import PiiEngine.Planner.Matches

open checked collections slices
open pii_engine.config

namespace pii_engine.planner

structure ActionPlanner where
  policy : PolicySettings
  anonymizer : Anonymizer
  hmac : KeyedHash
  policy_scope : Text

/-- One leaf's decision, transformation and request-scoped reversals. -/
structure LeafPlan where
  text : Text
  entities : UniqueList String := .empty
  entity_counts : OrderedDict String Nat := .empty
  entity_actions : OrderedDict String PIIAction := .empty
  transformed_counts : OrderedDict String Nat := .empty
  applied_actions : UniqueList PIIAction := .empty
  reversal : OrderedDict Text Text := .empty
  blocked : Bool := false
  route_class : Option String := none
  overlap_count : Nat := 0
  reroute_entities : UniqueList String := .empty
  logical_matches : List EntityMatch := []
  effective_matches : List EntityMatch := []
  transformed_values : OrderedDict String (UniqueList Text) := .empty

abbrev PlaceholderCache := OrderedDict (String × String × Text) Text

namespace ActionPlanner

def by_entity (planner : ActionPlanner) : OrderedDict String EntityPolicy :=
  .ofList (planner.policy.pii.entity_policies.map fun entry => (entry.entity_type, entry))

def resolve (planner : ActionPlanner) (entity_type : String) : PIIAction × Option EntityPolicy :=
  match planner.by_entity.get? entity_type with
  | some entry => (entry.action, some entry)
  | none => (planner.policy.pii.default_action, none)

/-- Normalize reroute where the destination protocol has no safe route. -/
def effective_action (planner : ActionPlanner) (entity_type : String) (reroute_as_block : Bool) :
    PIIAction × Option EntityPolicy :=
  let (action, entry) := planner.resolve entity_type
  if reroute_as_block ∧ action = .reroute then (.block, entry) else (action, entry)

def resolve_matches (planner : ActionPlanner) (items : List EntityMatch) (text_length : Nat)
    (reroute_as_block : Bool) : Except AnalysisError (List EntityMatch × List EntityMatch × Nat) :=
  pii_engine.planner.resolve_matches (fun entity_type =>
    (planner.effective_action entity_type reroute_as_block).1.strictness) items text_length

/-- Collect one logical detection independently from effective actions. -/
def summarize_detection (planner : ActionPlanner) (reroute_as_block : Bool) (plan : LeafPlan)
    (item : EntityMatch) : Except AnalysisError LeafPlan := do
  let action := (planner.effective_action item.entity_type reroute_as_block).1
  raiseIf (∃ existing ∈ plan.entity_actions.get? item.entity_type, existing ≠ action)
    (.value_error "one entity type resolved to inconsistent actions")
  pure { plan with
    entity_actions := plan.entity_actions.set item.entity_type action
    entities := plan.entities.insert item.entity_type
    entity_counts := plan.entity_counts.addCount item.entity_type 1 }

/-- Record one action selected to execute after overlap resolution. -/
def summarize_effective_action (planner : ActionPlanner) (reroute_as_block : Bool) (plan : LeafPlan)
    (item : EntityMatch) : LeafPlan :=
  let (action, entry) := planner.effective_action item.entity_type reroute_as_block
  match action with
  | .pass => { plan with applied_actions := plan.applied_actions.insert .pass }
  | .block => { plan with blocked := true, applied_actions := plan.applied_actions.insert .block }
  | .reroute => { plan with
      applied_actions := plan.applied_actions.insert .reroute
      reroute_entities := plan.reroute_entities.insert item.entity_type
      route_class := some (plan.route_class.getD
        (orDefault (entry.bind (·.route_class)) planner.policy.routing.default_target)) }
  | _ => plan

/-- Validate spans and resolve actions without mutating text. -/
def prepare (planner : ActionPlanner) (text : Text) (items : List EntityMatch)
    (reroute_as_block : Bool) : Except AnalysisError LeafPlan := do
  let (logical, effective, overlap_count) ←
    planner.resolve_matches items text.length reroute_as_block
  let plan : LeafPlan :=
    { text, logical_matches := logical, effective_matches := effective, overlap_count }
  let plan ← logical.foldlM (planner.summarize_detection reroute_as_block) plan
  pure (effective.foldl (planner.summarize_effective_action reroute_as_block) plan)

def operator_params (planner : ActionPlanner) (action : PIIAction) (entry : Option EntityPolicy)
    (entity_type : String) : OperatorArguments :=
  match entry with
  | none =>
    let defaults := planner.policy.pii.default_operator
    match action with
    | .replace => { new_value := some (orDefault defaults.new_value s!"<{entity_type}>").toList }
    | .redact => {}
    | _ => {
        masking_char := some defaults.masking_char
        chars_to_mask := some defaults.chars_to_mask
        from_end := some defaults.from_end }
  | some entry =>
    match action with
    | .replace =>
      let value := orDefault entry.new_value "<ENTITY>"
      { new_value :=
          some (Text.replaceAll "<ENTITY>".toList s!"<{entity_type}>".toList 0 value.toList) }
    | .redact => {}
    | _ => {
        masking_char := some entry.masking_char
        chars_to_mask := some entry.chars_to_mask
        from_end := some entry.from_end }

def rolling_hash (planner : ActionPlanner) (now : Nat) (entity_type : String) (value : Text) : Text :=
  let bucket := now / (planner.policy.pii.hash_window_hours * 3600)
  planner.hmac.hexdigest ("pii-engine:v1:rolling-hash:".toList ++ planner.policy_scope ++ [':'] ++
    Text.ofNat bucket ++ [':'] ++ entity_type.toList ++ [':'] ++ value)

/-- The 16-digit digest that names a value inside one placeholder namespace. -/
def placeholder_digest (planner : ActionPlanner) (entity_type : String) (value nonce : Text) : Text :=
  (planner.hmac.hexdigest ("pii-engine:v1:placeholder:".toList ++ nonce ++ [':'] ++
    entity_type.toList ++ [':'] ++ value)).take 16

/-- `<PREFIX_TYPE_NONCE_DIGEST>` -/
def placeholder_text (kind : String) (entity_type : String) (nonce digest : Text) : Text :=
  ['<'] ++ kind.toList ++ ['_'] ++ entity_type.toList ++ ['_'] ++ nonce ++ ['_'] ++ digest ++ ['>']

def placeholder (planner : ActionPlanner) (entity_type : String) (value nonce : Text) (kind : String)
    (cache : PlaceholderCache) : Text × PlaceholderCache :=
  match cache.get? (kind, entity_type, value) with
  | some cached => (cached, cache)
  | none =>
    let digest := planner.placeholder_digest entity_type value nonce
    let created := placeholder_text kind entity_type nonce digest
    (created, cache.set (kind, entity_type, value) created)

def add_reversal (reversal : OrderedDict Text Text) (placeholder value : Text) :
    Except AnalysisError (OrderedDict Text Text) := do
  raiseIf (∃ existing ∈ reversal.get? placeholder, existing ≠ value)
    (.value_error "one placeholder maps to multiple plaintext values")
  pure (reversal.set placeholder value)

structure TransformState where
  result : Text
  plan : LeafPlan
  placeholders : PlaceholderCache

/-- `result[:start] + replacement + result[end:]` -/
def splice (result : Text) (item : EntityMatch) (replacement : Text) : Text :=
  sliceTo result item.start ++ replacement ++ sliceFrom result item.stop

/-- Put a placeholder over a span and remember the value it stands for. -/
def insert_placeholder (planner : ActionPlanner) (nonce : Text) (kind : String) (value : Text)
    (s : TransformState) (item : EntityMatch) : Except AnalysisError TransformState := do
  let original := slice s.result item.start item.stop
  let created := planner.placeholder item.entity_type value nonce kind s.placeholders
  let reversal ← add_reversal s.plan.reversal created.1 original
  pure {
    result := splice s.result item created.1
    plan := { s.plan with reversal }
    placeholders := created.2 }

/-- Rewrite the span of one match in the current text. -/
def rewrite_match (planner : ActionPlanner) (nonce : Text) (now : Nat) (effective : PIIAction)
    (entry : Option EntityPolicy) (s : TransformState) (item : EntityMatch) :
    Except AnalysisError TransformState := do
  let original := slice s.result item.start item.stop
  match effective with
  | .reversible_replace => planner.insert_placeholder nonce "REV" original s item
  | .hash => pure { s with result := splice s.result item (planner.rolling_hash now item.entity_type original) }
  | .encrypt =>
    let encrypted ← planner.anonymizer.apply s.result item .encrypt {}
    let cipher := slice encrypted item.start (encrypted.length - (s.result.length - item.stop))
    planner.insert_placeholder nonce "ENCRYPTED" cipher s item
  | _ =>
    let result ← planner.anonymizer.apply s.result item effective
      (planner.operator_params effective entry item.entity_type)
    pure { s with result }

/-- Count one executed transformation. A masked reroute stays a reroute. -/
def record_transformation (plan : LeafPlan) (action : PIIAction) (entity_type : String)
    (original : Text) : LeafPlan :=
  { plan with
    applied_actions :=
      if action ≠ .reroute then plan.applied_actions.insert action else plan.applied_actions
    transformed_counts := plan.transformed_counts.addCount entity_type 1
    transformed_values := plan.transformed_values.set entity_type
      ((plan.transformed_values.getD entity_type .empty).insert original) }

/-- Whether the action of a region changes its text. -/
def executes (planner : ActionPlanner) (entity_type : String) : Bool :=
  let action := (planner.resolve entity_type).1
  ¬ (action = .pass ∨ action = .block) ∧ ¬ (action = .reroute ∧ ¬ planner.policy.pii.mask_on_reroute)

def transform_match (planner : ActionPlanner) (nonce : Text) (clock : EntityMatch → Nat)
    (s : TransformState) (item : EntityMatch) : Except AnalysisError TransformState := do
  let (action, entry) := planner.resolve item.entity_type
  if planner.executes item.entity_type then
    let effective := if action = .reroute then .mask else action
    let original := slice s.result item.start item.stop
    let s ← planner.rewrite_match nonce (clock item) effective entry s item
    pure { s with plan := record_transformation s.plan action item.entity_type original }
  else pure s

def descending_key (item : EntityMatch) : ℤ ×ₗ ℤ := toLex (-item.start, -item.stop)

/-- Apply a prepared non-blocking plan from right to left. The clock gives the seconds
    read when a match is rewritten. -/
def transform (planner : ActionPlanner) (plan : LeafPlan) (nonce : Text) (clock : EntityMatch → Nat) :
    Except AnalysisError LeafPlan := do
  raiseIf plan.blocked (.value_error "blocked plans cannot be transformed")
  let s ← (sortOn descending_key plan.effective_matches).foldlM (planner.transform_match nonce clock)
    { result := plan.text, plan, placeholders := .empty }
  pure { s.plan with text := s.result }

/-- The planner of the unit-test runtime. -/
def test_planner : ActionPlanner := ⟨test_policy, TestAnonymizer, .checksum, "test".toList⟩

end ActionPlanner

end pii_engine.planner
