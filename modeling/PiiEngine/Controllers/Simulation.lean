import PiiEngine.Lib.Regex
import PiiEngine.Policy.Model

open checked collections regex
open pii_engine.config pii_engine.policy

namespace pii_engine.controllers

def SIMULATION_PREFIX : Text := "[SIMULATED - NO MODEL CALLED]".toList

/-- `[A-Z][A-Z0-9_]*` -/
def entity_word : Pattern := .seq (.char isAsciiUpper) (.many isEntityChar)

/-- The placeholders that the planner inserts: a prefix, the entity type and two words of
    sixteen hexadecimal digits. -/
def REVERSIBLE_PLACEHOLDER : Pattern :=
  .seq (literal ['<']) <|
  .seq (.group "prefix" (.alt (literal "REV".toList) (literal "ENCRYPTED".toList))) <|
  .seq (literal ['_']) <|
  .seq (.group "entity" entity_word) <|
  .seq (literal ['_']) <|
  .seq (times isHexDigit 16) <|
  .seq (literal ['_']) <|
  .seq (times isHexDigit 16) (literal ['>'])

inductive SimulationStatus where
  | completed
  | skipped
  deriving DecidableEq, Repr

inductive SimulationReason where
  | request_blocked
  deriving DecidableEq, Repr

namespace evaluation_simulation

def max_response : Nat := 10485760

/-- Keep skipped and completed simulation fields unambiguous and bounded. -/
def validate (status : SimulationStatus) (reason : Option SimulationReason)
    (model_response user_response : Option Text) (restored_entity_counts : OrderedDict String Nat) :
    Except AnalysisError Unit := do
  raiseIf (∃ text ∈ model_response, text.length > max_response)
    (.validation_error "EvaluationSimulation" "model_response")
  raiseIf (∃ text ∈ user_response, text.length > max_response)
    (.validation_error "EvaluationSimulation" "user_response")
  raiseIf (restored_entity_counts.keys.length > 64)
    (.validation_error "EvaluationSimulation" "restored_entity_counts")
  raiseIf (status = .skipped ∧ (reason ≠ some .request_blocked ∨ (∃ text ∈ model_response, text ≠ []) ∨
      ∃ text ∈ user_response, text ≠ []))
    (.validation_error "EvaluationSimulation" "skipped simulations require only a block reason")
  raiseIf (status = .completed ∧ (reason ≠ none ∨ model_response = none ∨ user_response = none))
    (.validation_error "EvaluationSimulation" "completed simulations require both response texts")
  raiseIf (∃ count ∈ restored_entity_counts.values, count ≤ 0 ∨ count > 10000000)
    (.validation_error "EvaluationSimulation" "restored entity counts are invalid")

end evaluation_simulation

/-- A local deterministic echo. One that its validator rejects cannot be built. -/
structure EvaluationSimulation where
  status : SimulationStatus
  reason : Option SimulationReason
  model_response : Option Text
  user_response : Option Text
  restored_entity_counts : OrderedDict String Nat
  validated : evaluation_simulation.validate status reason model_response user_response
    restored_entity_counts = .ok ()

def EvaluationSimulation.create (status : SimulationStatus) (reason : Option SimulationReason)
    (model_response user_response : Option Text) (restored_entity_counts : OrderedDict String Nat) :
    Except AnalysisError EvaluationSimulation :=
  match h : evaluation_simulation.validate status reason model_response user_response restored_entity_counts with
  | .ok () => .ok ⟨status, reason, model_response, user_response, restored_entity_counts, h⟩
  | .error e => .error e

/-- What the user sees in the place of a piece of the model response. -/
def restored_text (reversal : OrderedDict Text Text) : Piece → Text
  | .copy c => [c]
  | .hit h => reversal.getD h.taken h.taken

/-- The entity type that a piece counts for. Only authoritative placeholders count. -/
def restored_entity (reversal : OrderedDict Text Text) : Piece → Option String
  | .copy _ => none
  | .hit h =>
    if (reversal.get? h.taken).isSome then some (String.ofList ((h.groups.lookup "entity").getD [])) else none

/-- `_REVERSIBLE_PLACEHOLDER.sub(restore, text)` with the counts that `restore` keeps. -/
def restore (reversal : OrderedDict Text Text) (text : Text) : Text × OrderedDict String Nat :=
  let pieces := REVERSIBLE_PLACEHOLDER.scan 0 text
  (pieces.flatMap (restored_text reversal), .countAll (pieces.filterMap (restored_entity reversal)))

/-- Echo model-visible transformed text and reverse only authoritative placeholders. -/
def simulation (result : PolicyResult) : Except AnalysisError EvaluationSimulation :=
  if result.decision = .block then EvaluationSimulation.create .skipped (some .request_blocked) none none .empty
  else match result.segments with
    | none => .error (.value_error "non-blocking evaluation is missing its transformed segments")
    | some segments =>
      let text := Text.joinLines (segments.map (·.text))
      let model_response := SIMULATION_PREFIX ++ ['\n'] ++ text
      let (user_response, restored_counts) := restore result.reversal model_response
      EvaluationSimulation.create .completed none (some model_response) (some user_response) restored_counts.sortedByKey

end pii_engine.controllers
