import PiiEngine.Lib.Documents
import PiiEngine.Config.Policy

open collections documents
open documents.Document (Codec Known deep_update dumped field given)

namespace pii_engine.config

/-- A value at a leaf of a policy document. A list of models stands for itself: dumped and
    validated once more it is the same list. -/
inductive Value where
  | null
  | flag (value : Bool)
  | number (value : ℚ)
  | text (value : String)
  | texts (values : List String)
  | model_names (names : OrderedDict String String)
  | entity_policies (items : List EntityPolicy)
  | custom_recognizers (items : List CustomRecognizer)
  | safety_rules (items : List SafetyRuleEntry)
  | classifier_classes (items : List ClassifierClass)
  | routing_targets (items : List RoutingTarget)

abbrev PolicyEntries := Entries Value

namespace codecs

def flag : Codec Value Bool where
  encode := .flag
  decode
    | .flag value => some value
    | _ => none
  decode_encode _ := rfl

def number : Codec Value ℚ where
  encode := .number
  decode
    | .number value => some value
    | _ => none
  decode_encode _ := rfl

/-- A number without a fraction or a sign. -/
def count : Codec Value Nat where
  encode n := .number n
  decode
    | .number value => if (value.num.toNat : ℚ) = value then some value.num.toNat else none
    | _ => none
  decode_encode n := by simp

def text : Codec Value String where
  encode := .text
  decode
    | .text value => some value
    | _ => none
  decode_encode _ := rfl

def texts : Codec Value (List String) where
  encode := .texts
  decode
    | .texts values => some values
    | _ => none
  decode_encode _ := rfl

def character : Codec Value Char where
  encode c := .text (String.ofList [c])
  decode
    | .text value => if value.length = 1 then value.toList.head? else none
    | _ => none
  decode_encode c := by simp

/-- A field whose values have names. -/
def named {α : Type} (name : α → String) (named? : String → Option α) (h : ∀ a, named? (name a) = some a) :
    Codec Value α where
  encode a := .text (name a)
  decode
    | .text value => named? value
    | _ => none
  decode_encode := h

def model_names : Codec Value (OrderedDict String String) where
  encode := .model_names
  decode
    | .model_names names => some names
    | _ => none
  decode_encode _ := rfl

def entity_policies : Codec Value (List EntityPolicy) where
  encode := .entity_policies
  decode
    | .entity_policies items => some items
    | _ => none
  decode_encode _ := rfl

def custom_recognizers : Codec Value (List CustomRecognizer) where
  encode := .custom_recognizers
  decode
    | .custom_recognizers items => some items
    | _ => none
  decode_encode _ := rfl

def safety_rules : Codec Value (List SafetyRuleEntry) where
  encode := .safety_rules
  decode
    | .safety_rules items => some items
    | _ => none
  decode_encode _ := rfl

def classifier_classes : Codec Value (List ClassifierClass) where
  encode := .classifier_classes
  decode
    | .classifier_classes items => some items
    | _ => none
  decode_encode _ := rfl

def routing_targets : Codec Value (List RoutingTarget) where
  encode := .routing_targets
  decode
    | .routing_targets items => some items
    | _ => none
  decode_encode _ := rfl

def action : Codec Value PIIAction := named PIIAction.name PIIAction.ofName? PIIAction.ofName?_name

def operator_type : Codec Value OperatorType :=
  named (fun type => match type with | .mask => "mask" | .replace => "replace" | .redact => "redact")
    (fun value => if value = "mask" then some .mask else if value = "replace" then some .replace
      else if value = "redact" then some .redact else none)
    (fun type => by cases type <;> rfl)

def strategy : Codec Value NerStrategy :=
  named (fun strategy => match strategy with | .multilingual => "multilingual" | .perLanguage => "perLanguage")
    (fun value => if value = "multilingual" then some .multilingual
      else if value = "perLanguage" then some .perLanguage else none)
    (fun strategy => by cases strategy <;> rfl)

def face_action : Codec Value FaceAction :=
  named (fun action => match action with | .block => "block" | .text_only => "text-only" | .reroute => "reroute")
    (fun value => if value = "block" then some .block else if value = "text-only" then some .text_only
      else if value = "reroute" then some .reroute else none)
    (fun action => by cases action <;> rfl)

def log_format : Codec Value LogFormat :=
  named (fun format => match format with | .text => "text" | .json => "json")
    (fun value => if value = "text" then some .text else if value = "json" then some .json else none)
    (fun format => by cases format <;> rfl)

end codecs

/-- A null, or what another reading makes of it. -/
def nullable {α : Type} (read : Document Value → Option α) : Document Value → Option (Option α)
  | .value .null => some none
  | document => (read document).map some

section models
variable (null : Option (Document Value))

namespace OperatorParams

def FIELDS : List (String × String) :=
  [("type", "type"), ("masking_char", "masking_char"), ("chars_to_mask", "chars_to_mask"), ("from_end", "from_end"),
    ("new_value", "new_value")]

def fields (operator : OperatorParams) : List (String × Option (Document Value)) :=
  [("type", some (codecs.operator_type.dump operator.type)),
    ("masking_char", some (codecs.character.dump operator.masking_char)),
    ("chars_to_mask", some (codecs.count.dump operator.chars_to_mask)),
    ("from_end", some (codecs.flag.dump operator.from_end)), ("new_value", operator.new_value.map codecs.text.dump)]

/-- `model_dump(mode="json", by_alias=True)`. What a null is dumped as tells whether it is excluded. -/
def model_dump (operator : OperatorParams) : Document Value := .record (dumped null operator.fields)

def model_validate : Document Value → Option OperatorParams
  | .value _ => none
  | .record entries => do
    let type ← field entries "type" "type" (some .mask) codecs.operator_type.read
    let masking_char ← field entries "masking_char" "masking_char" (some '*') codecs.character.read
    let chars_to_mask ← field entries "chars_to_mask" "chars_to_mask" (some 100) codecs.count.read
    let from_end ← field entries "from_end" "from_end" (some true) codecs.flag.read
    let new_value ← field entries "new_value" "new_value" (some none) (nullable codecs.text.read)
    if h : Known FIELDS entries ∧ chars_to_mask ≤ 100000 ∧ ∀ v ∈ new_value, v.length ≤ 1000 then
      some ⟨type, masking_char, chars_to_mask, from_end, new_value, h.2.1, h.2.2⟩
    else none

end OperatorParams

namespace NerSettings

def FIELDS : List (String × String) :=
  [("strategy", "strategy"), ("generalModel", "general_model"), ("perLanguage", "per_language")]

def fields (ner : NerSettings) : List (String × Option (Document Value)) :=
  [("strategy", some (codecs.strategy.dump ner.strategy)), ("generalModel", some (codecs.text.dump ner.general_model)),
    ("perLanguage", some (codecs.model_names.dump ner.per_language))]

def model_dump (ner : NerSettings) : Document Value := .record (dumped null ner.fields)

def model_validate : Document Value → Option NerSettings
  | .value _ => none
  | .record entries => do
    let strategy ← field entries "strategy" "strategy" (some .perLanguage) codecs.strategy.read
    let general_model ← field entries "generalModel" "general_model" (some "multilingual-pii") codecs.text.read
    let per_language ← field entries "perLanguage" "per_language"
      (some default_ner.per_language) codecs.model_names.read
    if Known FIELDS entries then some ⟨strategy, general_model, per_language⟩ else none

end NerSettings

namespace PiiSettings

def FIELDS : List (String × String) :=
  [("analyzerLanguages", "analyzer_languages"), ("supportedLanguages", "supported_languages"),
    ("scoreThreshold", "score_threshold"), ("timeout", "timeout"), ("defaultAction", "default_action"),
    ("defaultOperator", "default_operator"), ("analyzerEntities", "analyzer_entities"),
    ("maskOnReroute", "mask_on_reroute"), ("hashWindowHours", "hash_window_hours"),
    ("entityPolicies", "entity_policies"), ("ner", "ner"), ("customRecognizers", "custom_recognizers")]

def fields (pii : PiiSettings) : List (String × Option (Document Value)) :=
  [("analyzerLanguages", some (codecs.texts.dump pii.analyzer_languages)),
    ("supportedLanguages", some (codecs.texts.dump pii.supported_languages)),
    ("scoreThreshold", some (codecs.number.dump pii.score_threshold)),
    ("timeout", some (codecs.number.dump pii.timeout)),
    ("defaultAction", some (codecs.action.dump pii.default_action)),
    ("defaultOperator", some (pii.default_operator.model_dump null)),
    ("analyzerEntities", some (codecs.texts.dump pii.analyzer_entities)),
    ("maskOnReroute", some (codecs.flag.dump pii.mask_on_reroute)),
    ("hashWindowHours", some (codecs.count.dump pii.hash_window_hours)),
    ("entityPolicies", some (codecs.entity_policies.dump pii.entity_policies)),
    ("ner", some (pii.ner.model_dump null)),
    ("customRecognizers", some (codecs.custom_recognizers.dump pii.custom_recognizers))]

def model_dump (pii : PiiSettings) : Document Value := .record (dumped null (pii.fields null))

def model_validate : Document Value → Option PiiSettings
  | .value _ => none
  | .record entries => do
    let analyzer_languages ← field entries "analyzerLanguages" "analyzer_languages" none codecs.texts.read
    let supported_languages ← field entries "supportedLanguages" "supported_languages" (some ["en", "de", "nl"])
      codecs.texts.read
    let score_threshold ← field entries "scoreThreshold" "score_threshold" (some (45 / 100)) codecs.number.read
    let timeout ← field entries "timeout" "timeout" (some 600) codecs.number.read
    let default_action ← field entries "defaultAction" "default_action" (some .block) codecs.action.read
    let default_operator ← field entries "defaultOperator" "default_operator" (some default_operator_params)
      OperatorParams.model_validate
    let analyzer_entities ← field entries "analyzerEntities" "analyzer_entities" (some []) codecs.texts.read
    let mask_on_reroute ← field entries "maskOnReroute" "mask_on_reroute" (some true) codecs.flag.read
    let hash_window_hours ← field entries "hashWindowHours" "hash_window_hours" (some 24) codecs.count.read
    let entity_policies ← field entries "entityPolicies" "entity_policies" (some []) codecs.entity_policies.read
    let ner ← field entries "ner" "ner" (some default_ner) NerSettings.model_validate
    let custom_recognizers ← field entries "customRecognizers" "custom_recognizers" (some [])
      codecs.custom_recognizers.read
    if h : Known FIELDS entries ∧ analyzer_languages ≠ [] ∧ (0 ≤ score_threshold ∧ score_threshold ≤ 1) ∧
        (0 < timeout ∧ timeout ≤ 600) ∧ (1 ≤ hash_window_hours ∧ hash_window_hours ≤ 720) ∧
        "FACE" ∉ analyzer_entities ∧ analyzer_languages ⊆ supported_languages ∧ supported_languages.Nodup ∧
        analyzer_languages.Nodup ∧ (entity_policies.map (·.entity_type)).Nodup ∧
        (custom_recognizers.map (·.entity)).Nodup ∧
        ∀ item ∈ custom_recognizers, item.supported_languages ⊆ supported_languages then
      some ⟨analyzer_languages, supported_languages, score_threshold, timeout, default_action, default_operator,
        analyzer_entities, mask_on_reroute, hash_window_hours, entity_policies, ner, custom_recognizers, h.2.1, h.2.2.1,
        h.2.2.2.1, h.2.2.2.2.1, h.2.2.2.2.2.1, h.2.2.2.2.2.2.1, h.2.2.2.2.2.2.2.1, h.2.2.2.2.2.2.2.2.1,
        h.2.2.2.2.2.2.2.2.2.1, h.2.2.2.2.2.2.2.2.2.2.1, h.2.2.2.2.2.2.2.2.2.2.2⟩
    else none

end PiiSettings

namespace FaceSettings

def FIELDS : List (String × String) := [("action", "action"), ("routeClass", "route_class")]

def fields (faces : FaceSettings) : List (String × Option (Document Value)) :=
  [("action", some (codecs.face_action.dump faces.action)), ("routeClass", faces.route_class.map codecs.text.dump)]

def model_dump (faces : FaceSettings) : Document Value := .record (dumped null faces.fields)

def model_validate : Document Value → Option FaceSettings
  | .value _ => none
  | .record entries => do
    let action ← field entries "action" "action" (some .block) codecs.face_action.read
    let route_class ← field entries "routeClass" "route_class" (some none) (nullable codecs.text.read)
    if h : Known FIELDS entries ∧ (∀ route ∈ route_class, isRouteClass route ∧ route.length ≤ 128) ∧
        (route_class ≠ none → action = .reroute) then
      some ⟨action, route_class, h.2.1, h.2.2⟩
    else none

end FaceSettings

namespace AttachmentsSettings

def FIELDS : List (String × String) := [("policy", "policy"), ("faces", "faces")]

def fields (attachments : AttachmentsSettings) : List (String × Option (Document Value)) :=
  [("policy", some (codecs.text.dump "block")), ("faces", some (attachments.faces.model_dump null))]

def model_dump (attachments : AttachmentsSettings) : Document Value := .record (dumped null (attachments.fields null))

def model_validate : Document Value → Option AttachmentsSettings
  | .value _ => none
  | .record entries => do
    let policy ← field entries "policy" "policy" (some "block") codecs.text.read
    let faces ← field entries "faces" "faces" (some default_faces) FaceSettings.model_validate
    if Known FIELDS entries ∧ policy = "block" then some ⟨faces⟩ else none

end AttachmentsSettings

namespace SafetySettings

def FIELDS : List (String × String) := [("enabled", "enabled"), ("custom", "custom")]

def fields (safety : SafetySettings) : List (String × Option (Document Value)) :=
  [("enabled", some (codecs.texts.dump safety.enabled)), ("custom", some (codecs.safety_rules.dump safety.custom))]

def model_dump (safety : SafetySettings) : Document Value := .record (dumped null safety.fields)

def model_validate : Document Value → Option SafetySettings
  | .value _ => none
  | .record entries => do
    let enabled ← field entries "enabled" "enabled" (some []) codecs.texts.read
    let custom ← field entries "custom" "custom" (some []) codecs.safety_rules.read
    if Known FIELDS entries then some ⟨enabled, custom⟩ else none

end SafetySettings

namespace ClassifierSettings

def FIELDS : List (String × String) := [("defaultClass", "default_class"), ("classes", "classes")]

def fields (classifier : ClassifierSettings) : List (String × Option (Document Value)) :=
  [("defaultClass", some (codecs.text.dump classifier.default_class)),
    ("classes", some (codecs.classifier_classes.dump classifier.classes))]

def model_dump (classifier : ClassifierSettings) : Document Value := .record (dumped null classifier.fields)

def model_validate : Document Value → Option ClassifierSettings
  | .value _ => none
  | .record entries => do
    let default_class ← field entries "defaultClass" "default_class" (some "general") codecs.text.read
    let classes ← field entries "classes" "classes" (some []) codecs.classifier_classes.read
    if Known FIELDS entries then some ⟨default_class, classes⟩ else none

end ClassifierSettings

namespace SessionSettings

def FIELDS : List (String × String) := [("enabled", "enabled"), ("ttlHours", "ttl_hours")]

def fields (session : SessionSettings) : List (String × Option (Document Value)) :=
  [("enabled", some (codecs.flag.dump session.enabled)), ("ttlHours", some (codecs.number.dump session.ttl_hours))]

def model_dump (session : SessionSettings) : Document Value := .record (dumped null session.fields)

def model_validate : Document Value → Option SessionSettings
  | .value _ => none
  | .record entries => do
    let enabled ← field entries "enabled" "enabled" (some true) codecs.flag.read
    let ttl_hours ← field entries "ttlHours" "ttl_hours" (some 24) codecs.number.read
    if h : Known FIELDS entries ∧ 0 < ttl_hours ∧ ttl_hours ≤ 720 then some ⟨enabled, ttl_hours, h.2⟩ else none

end SessionSettings

namespace NoticeSettings

def FIELDS : List (String × String) :=
  [("rerouted", "rerouted"), ("masked", "masked"), ("showWhenNoPiiDetected", "show_when_no_pii_detected")]

def fields (notice : NoticeSettings) : List (String × Option (Document Value)) :=
  [("rerouted", some (codecs.text.dump notice.rerouted)), ("masked", some (codecs.text.dump notice.masked)),
    ("showWhenNoPiiDetected", some (codecs.flag.dump notice.show_when_no_pii_detected))]

def model_dump (notice : NoticeSettings) : Document Value := .record (dumped null notice.fields)

def model_validate : Document Value → Option NoticeSettings
  | .value _ => none
  | .record entries => do
    let rerouted ← field entries "rerouted" "rerouted" none codecs.text.read
    let masked ← field entries "masked" "masked" none codecs.text.read
    let show_when_no_pii_detected ← field entries "showWhenNoPiiDetected" "show_when_no_pii_detected" (some true)
      codecs.flag.read
    if h : Known FIELDS entries ∧ rerouted.length ≤ 4000 ∧ masked.length ≤ 4000 then
      some ⟨rerouted, masked, show_when_no_pii_detected, h.2.1, h.2.2⟩
    else none

end NoticeSettings

namespace RoutingSettings

def FIELDS : List (String × String) := [("defaultTarget", "default_target"), ("targets", "targets")]

def fields (routing : RoutingSettings) : List (String × Option (Document Value)) :=
  [("defaultTarget", some (codecs.text.dump routing.default_target)),
    ("targets", some (codecs.routing_targets.dump routing.targets))]

def model_dump (routing : RoutingSettings) : Document Value := .record (dumped null routing.fields)

def model_validate : Document Value → Option RoutingSettings
  | .value _ => none
  | .record entries => do
    let default_target ← field entries "defaultTarget" "default_target" none codecs.text.read
    let targets ← field entries "targets" "targets" (some []) codecs.routing_targets.read
    if h : Known FIELDS entries ∧ isRouteClass default_target ∧ targets.length ≤ 64 ∧
        (targets.map RoutingTarget.selector).Nodup ∧ (targets ≠ [] → default_target ∈ targets.map (·.name)) then
      some ⟨default_target, targets, h.2.1, h.2.2.1, h.2.2.2.1, h.2.2.2.2⟩
    else none

end RoutingSettings

namespace PolicySettings

def FIELDS : List (String × String) :=
  [("pii", "pii"), ("attachments", "attachments"), ("safety", "safety"), ("classifier", "classifier"),
    ("session", "session"), ("notice", "notice"), ("routing", "routing"), ("debug", "debug"),
    ("logFormat", "log_format")]

def fields (policy : PolicySettings) : List (String × Option (Document Value)) :=
  [("pii", some (policy.pii.model_dump null)), ("attachments", some (policy.attachments.model_dump null)),
    ("safety", some (policy.safety.model_dump null)), ("classifier", some (policy.classifier.model_dump null)),
    ("session", some (policy.session.model_dump null)), ("notice", some (policy.notice.model_dump null)),
    ("routing", some (policy.routing.model_dump null)), ("debug", some (codecs.flag.dump policy.debug)),
    ("logFormat", some (codecs.log_format.dump policy.log_format))]

def model_validate : Document Value → Option PolicySettings
  | .value _ => none
  | .record entries => do
    let pii ← field entries "pii" "pii" none PiiSettings.model_validate
    let attachments ← field entries "attachments" "attachments" (some default_attachments)
      AttachmentsSettings.model_validate
    let safety ← field entries "safety" "safety" none SafetySettings.model_validate
    let classifier ← field entries "classifier" "classifier" none ClassifierSettings.model_validate
    let session ← field entries "session" "session" none SessionSettings.model_validate
    let notice ← field entries "notice" "notice" none NoticeSettings.model_validate
    let routing ← field entries "routing" "routing" none RoutingSettings.model_validate
    let debug ← field entries "debug" "debug" (some false) codecs.flag.read
    let log_format ← field entries "logFormat" "log_format" (some .text) codecs.log_format.read
    if Known FIELDS entries then
      some ⟨pii, attachments, safety, classifier, session, notice, routing, debug, log_format⟩
    else none

end PolicySettings

end models

/-- The pattern `^[a-z]{2,3}$` -/
def isLanguage (name : String) : Bool := (2 ≤ name.length && name.length ≤ 3) && name.toList.all isAsciiLower

/-- Allow Studio to preview policy behavior without changing model selection. -/
structure PiiOverride where
  analyzer_languages : Option (List String) := none
  score_threshold : Option ℚ := none
  timeout : Option ℚ := none
  default_action : Option String := none
  default_operator : Option OperatorParams := none
  analyzer_entities : Option (List String) := none
  mask_on_reroute : Option Bool := none
  hash_window_hours : Option Nat := none
  entity_policies : Option (List EntityPolicy) := none
  analyzer_languages_ok : ∀ languages ∈ analyzer_languages,
    (1 ≤ languages.length ∧ languages.length ≤ 16) ∧ languages.all isLanguage := by simp
  score_threshold_ok : ∀ score ∈ score_threshold, 0 ≤ score ∧ score ≤ 1 := by simp
  timeout_ok : ∀ seconds ∈ timeout, 0 < seconds ∧ seconds ≤ 600 := by simp
  analyzer_entities_ok : ∀ entities ∈ analyzer_entities, entities.length ≤ 64 ∧ entities.all isEntityType := by simp
  hash_window_ok : ∀ hours ∈ hash_window_hours, 1 ≤ hours ∧ hours ≤ 720 := by simp
  entity_policies_ok : ∀ entries ∈ entity_policies, entries.length ≤ 64 := by simp

/-- Allow a request-local selection of built-in and custom safety rules. -/
structure SafetyOverride where
  enabled : Option (List String) := none
  custom : Option (List SafetyRuleEntry) := none
  enabled_ok : ∀ names ∈ enabled, names.length ≤ 16 ∧ ∀ name ∈ names, 1 ≤ name.length ∧ name.length ≤ 128 := by simp
  custom_ok : ∀ rules ∈ custom, rules.length ≤ 16 := by simp

/-- Allow request-local transformed-content classification settings. -/
structure ClassifierOverride where
  default_class : Option String := none
  classes : Option (List ClassifierClass) := none
  classes_ok : ∀ items ∈ classes, items.length ≤ 64 := by simp

/-- Represent the bounded policy fields Studio may override for one request. -/
structure PolicyOverride where
  pii : Option PiiOverride := none
  attachments : Option AttachmentsSettings := none
  safety : Option SafetyOverride := none
  classifier : Option ClassifierOverride := none
  session : Option SessionSettings := none
  notice : Option NoticeSettings := none
  routing : Option RoutingSettings := none
  debug : Option Bool := none
  log_format : Option LogFormat := none

section overrides
variable (null : Option (Document Value))

namespace PiiOverride

def FIELDS : List (String × String) :=
  [("analyzerLanguages", "analyzer_languages"), ("scoreThreshold", "score_threshold"), ("timeout", "timeout"),
    ("defaultAction", "default_action"), ("defaultOperator", "default_operator"),
    ("analyzerEntities", "analyzer_entities"), ("maskOnReroute", "mask_on_reroute"),
    ("hashWindowHours", "hash_window_hours"), ("entityPolicies", "entity_policies")]

def fields (pii : PiiOverride) : List (String × Option (Document Value)) :=
  [("analyzerLanguages", pii.analyzer_languages.map codecs.texts.dump),
    ("scoreThreshold", pii.score_threshold.map codecs.number.dump), ("timeout", pii.timeout.map codecs.number.dump),
    ("defaultAction", pii.default_action.map codecs.text.dump),
    ("defaultOperator", pii.default_operator.map (·.model_dump null)),
    ("analyzerEntities", pii.analyzer_entities.map codecs.texts.dump),
    ("maskOnReroute", pii.mask_on_reroute.map codecs.flag.dump),
    ("hashWindowHours", pii.hash_window_hours.map codecs.count.dump),
    ("entityPolicies", pii.entity_policies.map codecs.entity_policies.dump)]

def model_dump (pii : PiiOverride) : Document Value := .record (dumped null (pii.fields null))

def model_validate : Document Value → Option PiiOverride
  | .value _ => none
  | .record entries => do
    let analyzer_languages ← field entries "analyzerLanguages" "analyzer_languages" (some none)
      (nullable codecs.texts.read)
    let score_threshold ← field entries "scoreThreshold" "score_threshold" (some none) (nullable codecs.number.read)
    let timeout ← field entries "timeout" "timeout" (some none) (nullable codecs.number.read)
    let default_action ← field entries "defaultAction" "default_action" (some none) (nullable codecs.text.read)
    let default_operator ← field entries "defaultOperator" "default_operator" (some none)
      (nullable OperatorParams.model_validate)
    let analyzer_entities ← field entries "analyzerEntities" "analyzer_entities" (some none)
      (nullable codecs.texts.read)
    let mask_on_reroute ← field entries "maskOnReroute" "mask_on_reroute" (some none) (nullable codecs.flag.read)
    let hash_window_hours ← field entries "hashWindowHours" "hash_window_hours" (some none) (nullable codecs.count.read)
    let entity_policies ← field entries "entityPolicies" "entity_policies" (some none)
      (nullable codecs.entity_policies.read)
    if h : Known FIELDS entries ∧
        (∀ languages ∈ analyzer_languages,
          (1 ≤ languages.length ∧ languages.length ≤ 16) ∧ languages.all isLanguage) ∧
        (∀ score ∈ score_threshold, 0 ≤ score ∧ score ≤ 1) ∧ (∀ seconds ∈ timeout, 0 < seconds ∧ seconds ≤ 600) ∧
        (∀ entities ∈ analyzer_entities, entities.length ≤ 64 ∧ entities.all isEntityType) ∧
        (∀ hours ∈ hash_window_hours, 1 ≤ hours ∧ hours ≤ 720) ∧ ∀ items ∈ entity_policies, items.length ≤ 64 then
      some ⟨analyzer_languages, score_threshold, timeout, default_action, default_operator, analyzer_entities,
        mask_on_reroute, hash_window_hours, entity_policies, h.2.1, h.2.2.1, h.2.2.2.1, h.2.2.2.2.1, h.2.2.2.2.2.1,
        h.2.2.2.2.2.2⟩
    else none

end PiiOverride

namespace SafetyOverride

def fields (safety : SafetyOverride) : List (String × Option (Document Value)) :=
  [("enabled", safety.enabled.map codecs.texts.dump), ("custom", safety.custom.map codecs.safety_rules.dump)]

def model_dump (safety : SafetyOverride) : Document Value := .record (dumped null safety.fields)

def model_validate : Document Value → Option SafetyOverride
  | .value _ => none
  | .record entries => do
    let enabled ← field entries "enabled" "enabled" (some none) (nullable codecs.texts.read)
    let custom ← field entries "custom" "custom" (some none) (nullable codecs.safety_rules.read)
    if h : Known SafetySettings.FIELDS entries ∧
        (∀ names ∈ enabled, names.length ≤ 16 ∧ ∀ name ∈ names, 1 ≤ name.length ∧ name.length ≤ 128) ∧
        ∀ rules ∈ custom, rules.length ≤ 16 then
      some ⟨enabled, custom, h.2.1, h.2.2⟩
    else none

end SafetyOverride

namespace ClassifierOverride

def fields (classifier : ClassifierOverride) : List (String × Option (Document Value)) :=
  [("defaultClass", classifier.default_class.map codecs.text.dump),
    ("classes", classifier.classes.map codecs.classifier_classes.dump)]

def model_dump (classifier : ClassifierOverride) : Document Value := .record (dumped null classifier.fields)

def model_validate : Document Value → Option ClassifierOverride
  | .value _ => none
  | .record entries => do
    let default_class ← field entries "defaultClass" "default_class" (some none) (nullable codecs.text.read)
    let classes ← field entries "classes" "classes" (some none) (nullable codecs.classifier_classes.read)
    if h : Known ClassifierSettings.FIELDS entries ∧ ∀ items ∈ classes, items.length ≤ 64 then
      some ⟨default_class, classes, h.2⟩
    else none

end ClassifierOverride

namespace PolicyOverride

def fields (override : PolicyOverride) : List (String × Option (Document Value)) :=
  [("pii", override.pii.map (·.model_dump null)), ("attachments", override.attachments.map (·.model_dump null)),
    ("safety", override.safety.map (·.model_dump null)), ("classifier", override.classifier.map (·.model_dump null)),
    ("session", override.session.map (·.model_dump null)), ("notice", override.notice.map (·.model_dump null)),
    ("routing", override.routing.map (·.model_dump null)), ("debug", override.debug.map codecs.flag.dump),
    ("logFormat", override.log_format.map codecs.log_format.dump)]

def model_validate : Document Value → Option PolicyOverride
  | .value _ => none
  | .record entries => do
    let pii ← field entries "pii" "pii" (some none) (nullable PiiOverride.model_validate)
    let attachments ← field entries "attachments" "attachments" (some none)
      (nullable AttachmentsSettings.model_validate)
    let safety ← field entries "safety" "safety" (some none) (nullable SafetyOverride.model_validate)
    let classifier ← field entries "classifier" "classifier" (some none) (nullable ClassifierOverride.model_validate)
    let session ← field entries "session" "session" (some none) (nullable SessionSettings.model_validate)
    let notice ← field entries "notice" "notice" (some none) (nullable NoticeSettings.model_validate)
    let routing ← field entries "routing" "routing" (some none) (nullable RoutingSettings.model_validate)
    let debug ← field entries "debug" "debug" (some none) (nullable codecs.flag.read)
    let log_format ← field entries "logFormat" "log_format" (some none) (nullable codecs.log_format.read)
    if Known PolicySettings.FIELDS entries then
      some ⟨pii, attachments, safety, classifier, session, notice, routing, debug, log_format⟩
    else none

end PolicyOverride

end overrides

/-- Deep-merge and fully revalidate a Studio request-local policy preview. -/
def apply_policy_override (base : PolicySettings) (override : PolicyOverride) : Option PolicySettings :=
  let null : Document Value := .value .null
  let merged := dumped (some null) (base.fields (some null))
  let updates := dumped none (override.fields none)
  PolicySettings.model_validate (.record (deep_update merged updates))

end pii_engine.config
