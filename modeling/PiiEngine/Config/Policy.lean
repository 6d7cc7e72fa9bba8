import Mathlib.Algebra.Order.Ring.Rat
import Mathlib.Data.List.Nodup
import PiiEngine.Actions
import PiiEngine.Lib.Collections

open collections

namespace pii_engine.config

def isAsciiUpper (c : Char) : Bool := 'A' ≤ c && c ≤ 'Z'

def isAsciiLower (c : Char) : Bool := 'a' ≤ c && c ≤ 'z'

def isAsciiDigit (c : Char) : Bool := '0' ≤ c && c ≤ '9'

/-- The class `[A-Z0-9_]`. -/
def isEntityChar (c : Char) : Bool := isAsciiUpper c || isAsciiDigit c || c == '_'

/-- `[A-Z][A-Z0-9_]*` -/
def isEntityWord : List Char → Bool
  | [] => false
  | first :: rest => isAsciiUpper first && rest.all isEntityChar

/-- `^[A-Z][A-Z0-9_]{0,63}$` -/
def isEntityType (name : String) : Bool := isEntityWord name.toList && name.length ≤ 64

/-- A non-empty word over ASCII letters, digits and `_`, `.`, `:`, `/` and `-`. -/
def isRouteClass (name : String) : Bool :=
  name.toList ≠ [] ∧ name.toList.all fun c =>
    isAsciiUpper c || isAsciiLower c || isAsciiDigit c || ['_', '.', ':', '/', '-'].contains c

theorem isRouteClass_ne_empty {name : String} (h : isRouteClass name) : name ≠ "" := by
  rintro rfl
  simp [isRouteClass] at h

inductive OperatorType where
  | mask
  | replace
  | redact
  deriving DecidableEq, Repr

structure OperatorParams where
  type : OperatorType := .mask
  masking_char : Char := '*'
  chars_to_mask : Nat := 100
  from_end : Bool := true
  new_value : Option String := none
  chars_to_mask_le : chars_to_mask ≤ 100000 := by decide
  new_value_le : ∀ v ∈ new_value, v.length ≤ 1000 := by decide
  deriving DecidableEq

/-- One configured entity. The single admitted `hash_type` is not a field. -/
structure EntityPolicy where
  entity_type : String
  action : PIIAction
  patterns : List String := []
  route_class : Option String := none
  masking_char : Char := '*'
  chars_to_mask : Nat := 100
  from_end : Bool := true
  new_value : Option String := none
  entity_type_ok : isEntityType entity_type := by decide
  not_face : entity_type ≠ "FACE" := by decide
  patterns_le : patterns.length ≤ 64 := by decide
  route_class_ok : ∀ route ∈ route_class, isRouteClass route ∧ route.length ≤ 128 := by decide
  route_class_reroute : route_class ≠ none → action = .reroute := by decide
  chars_to_mask_le : chars_to_mask ≤ 100000 := by decide
  new_value_le : ∀ v ∈ new_value, v.length ≤ 1000 := by decide
  deriving DecidableEq

/-- The same entry under another action, without a route. -/
def EntityPolicy.withAction (entry : EntityPolicy) (action : PIIAction) : EntityPolicy :=
  { entry with
    action
    route_class := none
    route_class_ok := by simp
    route_class_reroute := by simp }

inductive NerStrategy where
  | multilingual
  | perLanguage
  deriving DecidableEq, Repr

structure NerSettings where
  strategy : NerStrategy := .perLanguage
  general_model : String := "multilingual-pii"
  per_language : OrderedDict String String :=
    ⟨[("en", "english-pii"), ("de", "german-pii"), ("nl", "dutch-pii")], by decide⟩
  deriving DecidableEq

structure CustomRecognizer where
  name : String
  entity : String
  regex : String
  score : ℚ := 85 / 100
  supported_languages : List String
  name_ok : 1 ≤ name.length ∧ name.length ≤ 128
  entity_ok : isEntityType entity ∧ entity ≠ "FACE"
  regex_ok : 1 ≤ regex.length ∧ regex.length ≤ 4000
  score_ok : 0 < score ∧ score ≤ 1
  supported_languages_ok : supported_languages ≠ []
  deriving DecidableEq

structure PiiSettings where
  analyzer_languages : List String
  supported_languages : List String := ["en", "de", "nl"]
  score_threshold : ℚ := 45 / 100
  timeout : ℚ := 600
  default_action : PIIAction := .block
  default_operator : OperatorParams := {}
  analyzer_entities : List String := []
  mask_on_reroute : Bool := true
  hash_window_hours : Nat := 24
  entity_policies : List EntityPolicy := []
  ner : NerSettings := {}
  custom_recognizers : List CustomRecognizer := []
  analyzer_languages_ne : analyzer_languages ≠ [] := by decide
  score_threshold_ok : 0 ≤ score_threshold ∧ score_threshold ≤ 1 := by decide +kernel
  timeout_ok : 0 < timeout ∧ timeout ≤ 600 := by decide +kernel
  hash_window_ok : 1 ≤ hash_window_hours ∧ hash_window_hours ≤ 720 := by decide
  not_face : "FACE" ∉ analyzer_entities := by decide
  languages_supported : analyzer_languages ⊆ supported_languages := by decide
  supported_nodup : supported_languages.Nodup := by decide
  analyzer_nodup : analyzer_languages.Nodup := by decide
  entity_nodup : (entity_policies.map (·.entity_type)).Nodup := by decide
  custom_nodup : (custom_recognizers.map (·.entity)).Nodup := by decide
  custom_supported : ∀ item ∈ custom_recognizers,
    item.supported_languages ⊆ supported_languages := by decide
  deriving DecidableEq

inductive FaceAction where
  | block
  | text_only
  | reroute
  deriving DecidableEq, Repr

structure FaceSettings where
  action : FaceAction := .block
  route_class : Option String := none
  route_class_ok : ∀ route ∈ route_class, isRouteClass route ∧ route.length ≤ 128 := by decide
  route_class_reroute : route_class ≠ none → action = .reroute := by decide
  deriving DecidableEq

/-- The single admitted attachment `policy` is `block` and is not a field. -/
structure AttachmentsSettings where
  faces : FaceSettings := {}
  deriving DecidableEq

/-- One additional blocking expression. The single admitted `action` is not a field. -/
structure SafetyRuleEntry where
  name : String
  pattern : String
  message : String := "Content blocked by safety rule"
  name_ok : 1 ≤ name.length ∧ name.length ≤ 128
  pattern_ok : 1 ≤ pattern.length ∧ pattern.length ≤ 4000
  message_le : message.length ≤ 1000
  deriving DecidableEq

structure SafetySettings where
  enabled : List String := []
  custom : List SafetyRuleEntry := []
  deriving DecidableEq

structure ClassifierClass where
  name : String
  patterns : List String
  name_ok : 1 ≤ name.length ∧ name.length ≤ 128 ∧ isRouteClass name := by decide
  patterns_ok : 1 ≤ patterns.length ∧ patterns.length ≤ 64 := by decide
  deriving DecidableEq

structure ClassifierSettings where
  default_class : String := "general"
  classes : List ClassifierClass := []
  deriving DecidableEq

structure SessionSettings where
  enabled : Bool := true
  ttl_hours : ℚ := 24
  ttl_hours_ok : 0 < ttl_hours ∧ ttl_hours ≤ 720 := by decide +kernel
  deriving DecidableEq

structure NoticeSettings where
  rerouted : String
  masked : String
  show_when_no_pii_detected : Bool := true
  rerouted_le : rerouted.length ≤ 4000 := by decide
  masked_le : masked.length ≤ 4000 := by decide
  deriving DecidableEq

structure RoutingTarget where
  name : String
  class_prefix : Option String := none
  name_ok : isRouteClass name
  class_prefix_ok : ∀ route ∈ class_prefix, isRouteClass route ∧ route.length ≤ 128
  deriving DecidableEq

/-- `target.class_prefix or target.name` -/
def RoutingTarget.selector (target : RoutingTarget) : String := target.class_prefix.getD target.name

structure RoutingSettings where
  default_target : String
  targets : List RoutingTarget := []
  default_target_ok : isRouteClass default_target := by decide
  targets_le : targets.length ≤ 64 := by decide
  selectors_nodup : (targets.map RoutingTarget.selector).Nodup := by decide
  default_present : targets ≠ [] → default_target ∈ targets.map (·.name) := by decide
  deriving DecidableEq

inductive LogFormat where
  | text
  | json
  deriving DecidableEq, Repr

/-- The complete policy. Every field validator of the source is carried by the
    structures, so an invalid policy cannot be built. -/
structure PolicySettings where
  pii : PiiSettings
  attachments : AttachmentsSettings := {}
  safety : SafetySettings
  classifier : ClassifierSettings
  session : SessionSettings
  notice : NoticeSettings
  routing : RoutingSettings
  debug : Bool := false
  log_format : LogFormat := .text
  deriving DecidableEq

def mail_entry : EntityPolicy := { entity_type := "EMAIL_ADDRESS", action := .mask }

def iban_entry : EntityPolicy := { entity_type := "IBAN", action := .reroute, route_class := some "local" }

def test_pii : PiiSettings where
  analyzer_languages := ["en"]
  supported_languages := ["en"]
  default_action := .pass
  entity_policies := [mail_entry, { entity_type := "PHONE_NUMBER", action := .mask }, iban_entry,
    { entity_type := "PASSWORD_OR_SECRET", action := .block }]

/-- The explicit policy of isolated unit tests. -/
def test_policy : PolicySettings where
  pii := test_pii
  safety := {
    enabled := ["promptInjection", "jailbreak", "systemPromptExtraction", "harmfulContent",
      "encodingEvasion", "selfHarm"] }
  classifier := { default_class := "general", classes := [] }
  session := { enabled := false, ttl_hours := 24 }
  notice := {
    rerouted := "Request rerouted because sensitive data was detected."
    masked := "Sensitive data was anonymized."
    show_when_no_pii_detected := true }
  routing := { default_target := "local", targets := [] }

/-- `OperatorParams()` -/
def default_operator_params : OperatorParams := {}

/-- `NerSettings()` -/
def default_ner : NerSettings := {}

/-- `FaceSettings()` -/
def default_faces : FaceSettings := {}

/-- `AttachmentsSettings()` -/
def default_attachments : AttachmentsSettings := {}

end pii_engine.config
