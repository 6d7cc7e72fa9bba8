import Mathlib.Data.Prod.Lex
import Mathlib.Data.String.Basic
import Mathlib.Order.WithBot
import PiiEngine.Lib.Best
import PiiEngine.Ner.Config

open checked collections

namespace pii_engine.ner
open config

inductive AnalyzerBackend where
  | «local»
  | remote_gliner
  | remote_kserve
  deriving DecidableEq, Repr

/-- What a deployment configures: the canonical selection, or the endpoints of one backend. -/
inductive RemoteSetup where
  | canonical (ner : NerConfig)
  | legacy (backend : AnalyzerBackend) (models : List RemoteContract)

structure RemoteAnalyzer where
  language_models : Option (OrderedDict String String)
  models : List RemoteContract
  policy : PolicySettings

/-- The endpoints of a setup and, of a canonical one, the model of every language. -/
def load_models (urlsplit : String → Option UrlParts) :
    RemoteSetup → Except AnalysisError (Option (OrderedDict String String) × List RemoteContract)
  | .canonical ner => do
    ner.validate_selection urlsplit
    let models ← ner.models.keys.mapM (ner.remote_model urlsplit)
    let models ← remote_config models
    pure (some ner.language_models, models)
  | .legacy backend models => do
    let models ← models.mapM (RemoteContract.validate_contract urlsplit)
    let models ← remote_config models
    let expected := if backend = .remote_gliner then RemoteKind.gliner else .kserve
    raiseIf (∃ model ∈ models, model.kind ≠ expected)
      (.value_error "remote models do not match the selected analyzer backend")
    raiseIf (expected = .gliner ∧ models.length ≠ 1)
      (.value_error "multilingual GLiNER requires exactly one endpoint")
    raiseIf (expected = .kserve ∧ ¬ (models.flatMap (·.languages)).Nodup)
      (.value_error "KServe language assignments overlap")
    pure (none, models)

/-- One call of a recognizer and what it found before any selection. -/
structure Call where
  model : RemoteContract
  answer : Except RemoteError (List EntityMatch)

/-- A missing score is below every other. -/
def confidence (item : EntityMatch) : WithBot ℚ := item.score

def unique_key (item : EntityMatch) : String × Int × Int × String :=
  (item.entity_type, item.start, item.stop, item.source)

def unique_order (item : EntityMatch) : ℤ ×ₗ ℤ ×ₗ String :=
  toLex (item.start, toLex (item.stop, item.entity_type))

/-- Deduplicate identical overlap evidence, preserving its strongest confidence. -/
def unique (items : List EntityMatch) : List EntityMatch :=
  sortOn unique_order (best.kept unique_key confidence items)

/-- Validate all findings, then apply the caller's entity selection. -/
def recognized (entities : List String) (findings : List EntityMatch) : List EntityMatch :=
  (unique findings).filter fun item => item.entity_type ∈ entities

namespace RemoteAnalyzer

def supported (self : RemoteAnalyzer) : List String :=
  match self.language_models with
  | some assignments => assignments.keys
  | none => self.models.flatMap (·.languages)

/-- The models that the languages of a policy select by name. -/
def selected_names (self : RemoteAnalyzer) (policy : PolicySettings) : Option (List String) :=
  self.language_models.map fun assignments => policy.pii.analyzer_languages.filterMap assignments.get?

def shares_language (model : RemoteContract) (policy : PolicySettings) : Bool :=
  model.languages.any fun language => language ∈ policy.pii.analyzer_languages

/-- Whether neither condition of the loop passes over an endpoint. -/
def is_called (self : RemoteAnalyzer) (policy : PolicySettings) (model : RemoteContract) : Bool :=
  (self.selected_names policy).all (fun names => model.name ∈ names) && shares_language model policy

/-- The models whose floor the threshold of a policy is compared with. -/
def floor_applies (self : RemoteAnalyzer) (policy : PolicySettings) (model : RemoteContract) : Bool :=
  match self.selected_names policy with
  | some names => model.name ∈ names
  | none => shares_language model policy

def validate_languages (self : RemoteAnalyzer) (policy : PolicySettings) : Except AnalysisError Unit := do
  raiseIf (¬ policy.pii.analyzer_languages ⊆ self.supported)
    (.value_error "remote model selection does not cover all analysis languages")
  raiseIf (∃ model ∈ self.models, (∃ floor ∈ model.inference_threshold, policy.pii.score_threshold < floor) ∧
      self.floor_applies policy model)
    (.value_error "policy threshold is below the remote detector's configured floor")

def init (urlsplit : String → Option UrlParts) (setup : RemoteSetup) (policy : PolicySettings) :
    Except AnalysisError RemoteAnalyzer := do
  let (language_models, models) ← load_models urlsplit setup
  let self : RemoteAnalyzer := ⟨language_models, models, policy⟩
  self.validate_languages policy
  pure self

/-- The results of one call that reach the threshold, under the source they are returned with. -/
def accepted (active : PolicySettings) (findings : List EntityMatch) : List EntityMatch :=
  ((recognized (selected_entities active) findings).filter fun item =>
    (active.pii.score_threshold : WithBot ℚ) ≤ confidence item).map fun item => { item with source := "transformer" }

/-- How the endpoints detect entities in a text, given the calls made before. -/
abbrev Detection := List Call → RemoteContract → Text → Except RemoteError (List EntityMatch)

/-- Call the remaining models in turn. The calls made are returned even when one fails. -/
def call_models (detect : Detection) (self : RemoteAnalyzer) (active : PolicySettings) (text : Text) :
    List RemoteContract → List Call → List EntityMatch → List Call × Except RemoteError (List EntityMatch)
  | [], calls, found => (calls, .ok (unique found))
  | model :: models, calls, found =>
    if self.is_called active model then
      match detect calls model text with
      | .ok findings =>
        call_models detect self active text models (calls ++ [⟨model, .ok findings⟩])
          (found ++ accepted active findings)
      | .error e => (calls ++ [⟨model, .error e⟩], .error e)
    else call_models detect self active text models calls found

/-- Validate full remote coverage before returning policy-filtered matches. The left errors
    reject the policy, the right ones come from an endpoint. -/
def analyze (detect : Detection) (self : RemoteAnalyzer) (text : Text) (policy : Option PolicySettings) :
    List Call × Except (AnalysisError ⊕ RemoteError) (List EntityMatch) :=
  let active := policy.getD self.policy
  match self.validate_languages active with
  | .error e => ([], .error (.inl e))
  | .ok () =>
    if text = [] then ([], .ok [])
    else
      let (calls, outcome) := call_models detect self active text self.models [] []
      (calls, outcome.mapError .inr)

end RemoteAnalyzer

end pii_engine.ner
