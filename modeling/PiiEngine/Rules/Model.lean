import Mathlib.Data.Prod.Lex
import Mathlib.Data.String.Basic
import PiiEngine.Analyzer
import PiiEngine.Lib.Best
import PiiEngine.Rules.Context
import PiiEngine.Selection

open checked collections

namespace pii_engine.rules
open config

def NORMALIZED : List (String × String) := [
  ("CREDIT_CARD", "CREDIT_CARD_NUMBER"), ("IBAN_CODE", "IBAN"), ("US_BANK_NUMBER", "BANK_ACCOUNT"),
  ("US_DRIVER_LICENSE", "DRIVERS_LICENSE_NUMBER"), ("US_ITIN", "TAX_ID"), ("US_PASSPORT", "PASSPORT_NUMBER"),
  ("US_SSN", "NATIONAL_ID_NUMBER"), ("UK_NHS", "HEALTH_INSURANCE_ID")]

def normalize (entity : String) : String := (NORMALIZED.lookup entity).getD entity

/-- One finding of a recognizer. A score that is not a finite number is `none`. -/
structure RuleResult where
  entity_type : String
  start : Int
  stop : Int
  score : Option ℚ
  deriving DecidableEq

/-- A recognizer of the registry: what it finds in a text of the requested entities. -/
structure Recognizer where
  supported_entities : List String
  context : Option (List String) := none
  analyze : Text → List String → List RuleResult

/-- Reject malformed evidence before offset use or numeric coercion. -/
def validated_score (result : RuleResult) (text_length : Nat) (entities : List String) :
    Except AnalysisError ℚ := do
  let some score := result.score | throw (.value_error "rule recognizer returned an invalid result")
  raiseIf (¬ (0 ≤ result.start ∧ result.start < result.stop ∧ result.stop ≤ text_length) ∨
      ¬ (0 ≤ score ∧ score ≤ 1) ∨ result.entity_type ∉ entities)
    (.value_error "rule recognizer returned an invalid result")
  pure score

/-- What a scan over one text knows: how floats add up, the text, the policy and the words
    around every position. -/
structure Scan where
  unicode : Unicode
  add : ℚ → ℚ → ℚ
  text : Text
  policy : PolicySettings

namespace Scan

def context (scan : Scan) : Context :=
  Context.ofText scan.unicode scan.text scan.policy.pii.analyzer_languages

/-- `min(1.0, max(0.4, score + 0.35))` -/
def boost (scan : Scan) (score : ℚ) : ℚ := min 1 (max (2 / 5) (scan.add score (7 / 20)))

end Scan

/-- A recognizer and whether the policy defines it. -/
structure Rule where
  recognizer : Recognizer
  custom : Bool

namespace Rule

/-- The policy's name of an entity that a rule reports. -/
def entity_name (rule : Rule) (entity : String) : String :=
  if rule.custom then entity else normalize entity

/-- The supported entities that a policy selects. -/
def entities (rule : Rule) (policy : PolicySettings) : List String :=
  rule.recognizer.supported_entities.filter fun entity => rule.entity_name entity ∈ selected_entities policy

end Rule

/-- The entity and the characters a match is about. -/
def match_key (item : EntityMatch) : String × Int × Int := (item.entity_type, item.start, item.stop)

def match_score (item : EntityMatch) : ℚ := item.score.getD 0

/-- Add one result of a rule to the best matches so far. -/
def add_result (scan : Scan) (rule : Rule) (found : OrderedDict (String × Int × Int) EntityMatch)
    (result : RuleResult) : Except AnalysisError (OrderedDict (String × Int × Int) EntityMatch) := do
  let score ← validated_score result scan.text.length (rule.entities scan.policy)
  let entity := rule.entity_name result.entity_type
  -- A zero score is a checksum that failed and is never revived.
  if score ≤ 0 then return found
  let supported := !rule.custom &&
    scan.context.supports scan.unicode result.start rule.recognizer.context entity
  let score := if supported then scan.boost score else score
  if scan.policy.pii.score_threshold ≤ score then
    return best.keep match_key match_score found ⟨entity, result.start, result.stop, some score, "deterministic"⟩
  return found

def analyze_rule (scan : Scan) (found : OrderedDict (String × Int × Int) EntityMatch) (rule : Rule) :
    Except AnalysisError (OrderedDict (String × Int × Int) EntityMatch) :=
  let entities := rule.entities scan.policy
  if entities ≠ [] then
    (rule.recognizer.analyze scan.text entities).foldlM (add_result scan rule) found
  else pure found

set_option linter.dupNamespace false in
/-- The loaded rules, and one recognizer for each definition of the policy. -/
structure RulesAnalyzer where
  unicode : Unicode
  add : ℚ → ℚ → ℚ
  policy : PolicySettings
  rules : List Recognizer
  custom : List (CustomRecognizer × Recognizer)

def validate_policy (policy : PolicySettings) : Except AnalysisError Unit := do
  validate_policy_selection policy
  raiseIf (¬ policy.pii.supported_languages ⊆ ["en", "de", "nl"])
    (.value_error "configured language has no rule context support")

def span_key (item : EntityMatch) : ℤ ×ₗ ℤ ×ₗ String := toLex (item.start, toLex (item.stop, item.entity_type))

namespace RulesAnalyzer

/-- The rules that a policy's languages turn on, in the order in which they run. -/
def active_rules (self : RulesAnalyzer) (active : PolicySettings) : List Rule :=
  self.rules.map (Rule.mk · false) ++
    (self.custom.filter fun entry =>
      entry.1.supported_languages.any (· ∈ active.pii.analyzer_languages)).map fun entry => ⟨entry.2, true⟩

def scan (self : RulesAnalyzer) (text : Text) (active : PolicySettings) : Scan :=
  ⟨self.unicode, self.add, text, active⟩

/-- Preserve original offsets, validation, context boosts and selection. -/
def analyze (self : RulesAnalyzer) (text : Text) (policy : Option PolicySettings) :
    Except AnalysisError (List EntityMatch) := do
  let active := policy.getD self.policy
  validate_policy active
  raiseIf (active.pii.custom_recognizers ≠ self.policy.pii.custom_recognizers ∨
      ¬ active.pii.analyzer_languages ⊆ self.policy.pii.supported_languages)
    (.value_error "request policy changes loaded rule configuration")
  let found ← (self.active_rules active).foldlM (analyze_rule (self.scan text active)) .empty
  pure (sortOn span_key found.values)

end RulesAnalyzer

end pii_engine.rules
