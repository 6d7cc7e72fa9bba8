import PiiEngine.Ner.Profiles

open checked collections

namespace pii_engine.ner

inductive NerMode where
  | disabled
  | «local»
  | remote
  deriving DecidableEq, Repr

/-- The identity of one deployed model. The set fields are those the configuration names. -/
structure NerModel where
  profile : String
  endpoint : Option String := none
  model_name : String := "ner-multilingual"
  upstream : Option String := none
  revision : Option String := none
  inference_threshold : Option ℚ := none
  allow_private_http : Bool := false
  tokenizer_path : Option String := none
  fields_set : List String
  upstream_ok : ∀ value ∈ upstream, 1 ≤ value.length ∧ value.length ≤ 256 := by decide
  revision_ok : ∀ value ∈ revision, 1 ≤ value.length ∧ value.length ≤ 128 := by decide
  inference_threshold_ok : ∀ value ∈ inference_threshold, 0 ≤ value ∧ value ≤ 1

/-- Exactly one deployment-level mode, with the model of every language. -/
structure NerConfig where
  mode : NerMode
  language_models : OrderedDict String String := .empty
  models : OrderedDict String NerModel := .empty
  capacity_set : Bool := false
  models_le : models.items.length ≤ 3 := by decide

namespace NerConfig
variable (urlsplit : String → Option UrlParts)

/-- Keep local resources and immutable identities unambiguous. -/
def validate_local (self : NerConfig) (model : NerModel) (profile : NerProfile) : Except AnalysisError Unit := do
  raiseIf self.capacity_set (.value_error "local NER cannot configure remote capacity")
  let remote_fields :=
    ["endpoint", "model_name", "inference_threshold", "allow_private_http", "api_key_file", "tokenizer_path"]
  raiseIf (∃ field ∈ remote_fields, field ∈ model.fields_set)
    (.value_error "local NER cannot configure remote resources")
  raiseIf (model.upstream.getD profile.upstream ≠ profile.upstream ∨
    model.revision.or profile.revision ≠ profile.revision)
    (.value_error "local NER identity conflicts with its profile")

/-- Resolve reviewed profile data into the transport contract. -/
def remote_model (self : NerConfig) (name : String) : Except AnalysisError RemoteContract := do
  let some model := self.models.get? name | throw (.value_error "NER model ID is invalid")
  let some profile := PROFILES.lookup model.profile
    | throw (.value_error "NER profile does not support its assigned language")
  let some endpoint := model.endpoint | throw (.value_error "remote NER requires an endpoint")
  let .remote kind := profile.kind | throw (.value_error "remote NER requires an endpoint")
  raiseIf (kind = .kserve ∧ "model_name" ∉ model.fields_set) (.value_error "KServe requires an explicit modelName")
  raiseIf (kind = .gliner ∧ model.tokenizer_path ≠ none)
    (.value_error "GLiNER uses server-managed tokenization")
  raiseIf (profile.revision ≠ none ∧ model.revision.or profile.revision ≠ profile.revision)
    (.value_error "NER revision conflicts with its profile")
  raiseIf (model.upstream.getD profile.upstream ≠ profile.upstream)
    (.value_error "NER upstream conflicts with its profile")
  RemoteContract.validate_contract urlsplit {
    name := name
    kind := kind
    url := endpoint
    model_name := model.model_name
    languages := profile.languages
    label_mapping := profile.label_mapping
    upstream := some profile.upstream
    revision := model.revision.or profile.revision
    allow_private_http := model.allow_private_http
    tokenizer_path := model.tokenizer_path
    tokenizer_sha256 := profile.tokenizer_sha256
    inference_threshold := model.inference_threshold
    profile := some model.profile }

/-- Whether a name is a model identifier: a lower-case letter, then letters, digits and hyphens. -/
def isModelId (name : String) : Bool :=
  name.toList.head?.any config.isAsciiLower && name.length ≤ 64 &&
    name.toList.all fun c => config.isAsciiLower c || config.isAsciiDigit c || c == '-'

/-- Check the model that one language is assigned to. -/
def validate_assignment (self : NerConfig) (assignment : String × String) : Except AnalysisError Unit := do
  let (language, name) := assignment
  raiseIf (isModelId name = false) (.value_error "NER model ID is invalid")
  let some model := self.models.get? name | throw (.value_error "NER model ID is invalid")
  let some profile := PROFILES.lookup model.profile
    | throw (.value_error "NER profile does not support its assigned language")
  raiseIf (language ∉ profile.languages) (.value_error "NER profile does not support its assigned language")
  raiseIf (decide (profile.kind = .spacy) ≠ decide (self.mode = .local))
    (.value_error "NER profile does not match its mode")
  if profile.kind = .spacy then self.validate_local model profile
  else
    let _ ← self.remote_model urlsplit name
    pure ()

/-- Reject missing references, unsupported languages and mixed local modes. -/
def validate_selection (self : NerConfig) : Except AnalysisError Unit := do
  if self.mode = .disabled then
    raiseIf (self.models.items ≠ [] ∨ self.language_models.items ≠ [] ∨ self.capacity_set)
      (.value_error "disabled NER cannot select models or capacity")
  else
    raiseIf (self.models.items = [] ∨ ¬ sameElements self.language_models.values self.models.keys)
      (.value_error "NER model references must be complete and all models referenced")
    forM self.language_models.items (self.validate_assignment urlsplit)

end NerConfig

end pii_engine.ner
