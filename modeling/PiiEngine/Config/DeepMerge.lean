import PiiEngine.Config.Merge

open collections documents
open documents.Document (Codec Known deep_update dumped field given)

namespace pii_engine.config

namespace PolicySettings

theorem model_validate_eq_some {entries : PolicyEntries} {policy : PolicySettings} :
    model_validate (.record entries) = some policy ↔
      Known FIELDS entries ∧ field entries "pii" "pii" none PiiSettings.model_validate = some policy.pii ∧
      field entries "attachments" "attachments" (some default_attachments) AttachmentsSettings.model_validate =
        some policy.attachments ∧
      field entries "safety" "safety" none SafetySettings.model_validate = some policy.safety ∧
      field entries "classifier" "classifier" none ClassifierSettings.model_validate = some policy.classifier ∧
      field entries "session" "session" none SessionSettings.model_validate = some policy.session ∧
      field entries "notice" "notice" none NoticeSettings.model_validate = some policy.notice ∧
      field entries "routing" "routing" none RoutingSettings.model_validate = some policy.routing ∧
      field entries "debug" "debug" (some false) codecs.flag.read = some policy.debug ∧
      field entries "logFormat" "log_format" (some .text) codecs.log_format.read = some policy.log_format := by
  rw [model_validate]
  constructor
  · intro h
    obtain ⟨_, hpii, h⟩ := Option.bind_eq_some_iff.mp h
    obtain ⟨_, hattachments, h⟩ := Option.bind_eq_some_iff.mp h
    obtain ⟨_, hsafety, h⟩ := Option.bind_eq_some_iff.mp h
    obtain ⟨_, hclassifier, h⟩ := Option.bind_eq_some_iff.mp h
    obtain ⟨_, hsession, h⟩ := Option.bind_eq_some_iff.mp h
    obtain ⟨_, hnotice, h⟩ := Option.bind_eq_some_iff.mp h
    obtain ⟨_, hrouting, h⟩ := Option.bind_eq_some_iff.mp h
    obtain ⟨_, hdebug, h⟩ := Option.bind_eq_some_iff.mp h
    obtain ⟨_, hlog_format, h⟩ := Option.bind_eq_some_iff.mp h
    split at h
    case isTrue hknown =>
      cases h
      exact ⟨hknown, hpii, hattachments, hsafety, hclassifier, hsession, hnotice, hrouting, hdebug, hlog_format⟩
    case isFalse => cases h
  · rintro ⟨hknown, hpii, hattachments, hsafety, hclassifier, hsession, hnotice, hrouting, hdebug, hlog_format⟩
    rw [hpii, hattachments, hsafety, hclassifier, hsession, hnotice, hrouting, hdebug, hlog_format]
    exact if_pos hknown

/-- What becomes of a policy under an override. -/
structure Updated (base : PolicySettings) (override : PolicyOverride) (result : PolicySettings) : Prop where
  pii : PiiSettings.Updated base.pii override.pii result.pii
  face_action : (override.attachments.map (·.faces.action)).getD base.attachments.faces.action =
    result.attachments.faces.action
  face_route_class : (override.attachments.bind (·.faces.route_class)).or base.attachments.faces.route_class =
    result.attachments.faces.route_class
  safety_enabled : (override.safety.bind (·.enabled)).getD base.safety.enabled = result.safety.enabled
  safety_custom : (override.safety.bind (·.custom)).getD base.safety.custom = result.safety.custom
  default_class : (override.classifier.bind (·.default_class)).getD base.classifier.default_class =
    result.classifier.default_class
  classes : (override.classifier.bind (·.classes)).getD base.classifier.classes = result.classifier.classes
  session_enabled : (override.session.map (·.enabled)).getD base.session.enabled = result.session.enabled
  ttl_hours : (override.session.map (·.ttl_hours)).getD base.session.ttl_hours = result.session.ttl_hours
  rerouted : (override.notice.map (·.rerouted)).getD base.notice.rerouted = result.notice.rerouted
  masked : (override.notice.map (·.masked)).getD base.notice.masked = result.notice.masked
  shown : (override.notice.map (·.show_when_no_pii_detected)).getD base.notice.show_when_no_pii_detected =
    result.notice.show_when_no_pii_detected
  default_target : (override.routing.map (·.default_target)).getD base.routing.default_target =
    result.routing.default_target
  targets : (override.routing.map (·.targets)).getD base.routing.targets = result.routing.targets
  debug : override.debug.getD base.debug = result.debug
  log_format : override.log_format.getD base.log_format = result.log_format

theorem overrides (base : PolicySettings) : Overrides FIELDS (base.fields (some null)) (PolicyOverride.fields none) :=
  ⟨by decide, rfl, fun _ => List.Sublist.refl _⟩

end PolicySettings

/-- The merged policy has, leaf by leaf, the value of the override or else that of the base. -/
theorem apply_policy_override_eq_some {base result : PolicySettings} {override : PolicyOverride} :
    apply_policy_override base override = some result ↔ PolicySettings.Updated base override result := by
  have h := base.overrides
  change PolicySettings.model_validate (.record (merged (base.fields (some null))
    ((some override).map (PolicyOverride.fields none)))) = some result ↔ _
  rw [PolicySettings.model_validate_eq_some,
    h.field_section (g := (·.pii)) (i := PiiOverride.fields none) rfl fun _ => rfl, PiiSettings.validate_merged,
    h.field_section (g := (·.attachments)) (i := AttachmentsSettings.fields none) rfl fun _ => rfl,
    AttachmentsSettings.validate_merged,
    h.field_section (g := (·.safety)) (i := SafetyOverride.fields) rfl fun _ => rfl, SafetySettings.validate_merged,
    h.field_section (g := (·.classifier)) (i := ClassifierOverride.fields) rfl fun _ => rfl,
    ClassifierSettings.validate_merged,
    h.field_section (g := (·.session)) (i := SessionSettings.fields) rfl fun _ => rfl,
    SessionSettings.validate_merged,
    h.field_section (g := (·.notice)) (i := NoticeSettings.fields) rfl fun _ => rfl, NoticeSettings.validate_merged,
    h.field_section (g := (·.routing)) (i := RoutingSettings.fields) rfl fun _ => rfl,
    RoutingSettings.validate_merged, h.field_optional rfl fun _ => rfl, h.field_optional rfl fun _ => rfl]
  simp only [Option.bind_some, Option.some.injEq]
  constructor
  · rintro ⟨-, hpii, ⟨h1, h2⟩, ⟨h3, h4⟩, ⟨h5, h6⟩, ⟨h7, h8⟩, ⟨h9, h10, h11⟩, ⟨h12, h13⟩, h14, h15⟩
    exact ⟨hpii, h1, h2, h3, h4, h5, h6, h7, h8, h9, h10, h11, h12, h13, h14, h15⟩
  · rintro ⟨hpii, h1, h2, h3, h4, h5, h6, h7, h8, h9, h10, h11, h12, h13, h14, h15⟩
    exact ⟨h.known (some override), hpii, ⟨h1, h2⟩, ⟨h3, h4⟩, ⟨h5, h6⟩, ⟨h7, h8⟩, ⟨h9, h10, h11⟩, ⟨h12, h13⟩, h14, h15⟩

section leaves
variable {α : Type}

/-- A leaf has the value that a document gives, and keeps the value of the base where it gives none. -/
def Follows (read : Document Value → Option α) (leaf : Option (Document Value)) (base result : α) : Prop :=
  leaf.elim (result = base) fun document => read document = some result

/-- The field of an override model's own that a document gives. There a null is the default and
    overrides nothing. -/
def overridden (entries : PolicyEntries) (key name : String) : Option (Document Value) :=
  match given entries key name with
  | some (.value .null) => none
  | leaf => leaf

/-- The record that a document gives under a key. -/
def inner (entries : PolicyEntries) (key name : String) : Option PolicyEntries :=
  match given entries key name with
  | some (.record entries) => some entries
  | _ => none

variable {entries : PolicyEntries} {key name : String} {base result fallback : α} {read : Document Value → Option α}

theorem follows_none : Follows read none result result := rfl

/-- A leaf that takes its default where a document leaves it out. -/
theorem follows_default (h : field entries key name (some fallback) read = some result) :
    Follows read (given entries key name) base result ↔ (given entries key name = none → base = fallback) := by
  rw [field] at h
  cases hgiven : given entries key name with
  | none =>
    rw [hgiven] at h
    cases h
    exact ⟨fun h _ => h.symm, fun h => (h rfl).symm⟩
  | some document =>
    rw [hgiven] at h
    exact iff_of_true h fun h => by cases h

theorem follows_required (h : field entries key name none read = some result) :
    Follows read (given entries key name) base result := by
  rw [field] at h
  cases hgiven : given entries key name with
  | none =>
    rw [hgiven] at h
    cases h
  | some document =>
    rw [hgiven] at h
    exact h

theorem nullable_eq {document : Document Value} (h : document ≠ null) :
    nullable read document = (read document).map some := by
  rw [nullable]
  exact h

/-- A leaf that may be null, where a null in the override is left out. -/
theorem follows_nullable {value old new : Option α}
    (h : field entries key name (some none) (nullable read) = some value) (hnew : value.or old = new) :
    Follows (nullable read) (given entries key name) old new ↔ (given entries key name = some null → old = none) := by
  rw [field] at h
  cases hgiven : given entries key name with
  | none =>
    rw [hgiven] at h
    cases h
    rw [Option.none_or] at hnew
    exact iff_of_true hnew.symm fun h => by cases h
  | some document =>
    rw [hgiven, Option.elim_some] at h
    change nullable read document = some new ↔ _
    rw [h]
    by_cases hnull : document = null
    · rw [hnull] at h ⊢
      cases h
      rw [Option.none_or] at hnew
      rw [hnew]
      exact ⟨fun h _ => (Option.some.inj h).symm, fun h => by rw [h rfl]⟩
    · rw [nullable_eq hnull] at h
      obtain ⟨found, -, rfl⟩ := Option.map_eq_some_iff.mp h
      refine iff_of_true (by rw [← hnew, Option.some_or]) ?_
      intro hsame
      exact absurd (Option.some.inj hsame) hnull

/-- A leaf that an override model may leave out is there when the document gives it. -/
theorem overridden_cases {value : Option α} (h : field entries key name (some none) (nullable read) = some value) :
    (overridden entries key name = none ∧ value = none) ∨
      ∃ leaf found, overridden entries key name = some leaf ∧ value = some found ∧ read leaf = some found := by
  rw [field] at h
  rw [overridden]
  split
  case h_1 hgiven =>
    rw [hgiven] at h
    cases h
    exact .inl ⟨rfl, rfl⟩
  case h_2 leaf hleaf =>
    cases hgiven : given entries key name with
    | none =>
      rw [hgiven] at h
      cases h
      exact .inl ⟨rfl, rfl⟩
    | some document =>
      rw [hgiven, Option.elim_some, nullable_eq (fun h => hleaf (by rw [hgiven, h]))] at h
      obtain ⟨found, hfound, rfl⟩ := Option.map_eq_some_iff.mp h
      exact .inr ⟨document, found, rfl, rfl, hfound⟩

theorem follows_overridden {value : Option α} (h : field entries key name (some none) (nullable read) = some value)
    (hresult : value.getD base = result) : Follows read (overridden entries key name) base result := by
  obtain ⟨hleaf, rfl⟩ | ⟨leaf, found, hleaf, rfl, hfound⟩ := overridden_cases h
  · rw [hleaf]
    exact hresult.symm
  · rw [hleaf]
    cases hresult
    exact hfound

/-- A section that an override model may leave out. -/
theorem inner_cases (hvalue : ∀ v, read (.value v) = none) {update : Option α}
    (h : field entries key name (some none) (nullable read) = some update) :
    (update = none ∧ inner entries key name = none) ∨
      ∃ found model, update = some model ∧ inner entries key name = some found ∧ read (.record found) = some model := by
  rw [field] at h
  rw [inner]
  cases hgiven : given entries key name with
  | none =>
    rw [hgiven] at h
    cases h
    exact .inl ⟨rfl, rfl⟩
  | some document =>
    rw [hgiven, Option.elim_some] at h
    cases document with
    | value v =>
      by_cases hnull : Document.value v = null
      · rw [hnull] at h ⊢
        cases h
        exact .inl ⟨rfl, rfl⟩
      · rw [nullable_eq hnull, hvalue] at h
        cases h
    | record found =>
      rw [nullable_eq (fun h => by cases h)] at h
      obtain ⟨model, hmodel, rfl⟩ := Option.map_eq_some_iff.mp h
      exact .inr ⟨found, model, rfl, rfl, hmodel⟩

end leaves

/-- The leaf that a document gives in a section, if it gives the section. -/
abbrev leafOf (entries : Option PolicyEntries) (key name : String) : Option (Document Value) :=
  entries.bind (given · key name)

namespace OperatorParams

/-- Every leaf follows the document. -/
structure Merges (entries : Option PolicyEntries) (base result : OperatorParams) : Prop where
  type : Follows codecs.operator_type.read (leafOf entries "type" "type") base.type result.type
  masking_char : Follows codecs.character.read (leafOf entries "masking_char" "masking_char") base.masking_char
    result.masking_char
  chars_to_mask : Follows codecs.count.read (leafOf entries "chars_to_mask" "chars_to_mask") base.chars_to_mask
    result.chars_to_mask
  from_end : Follows codecs.flag.read (leafOf entries "from_end" "from_end") base.from_end result.from_end
  new_value :
    Follows (nullable codecs.text.read) (leafOf entries "new_value" "new_value") base.new_value result.new_value

/-- The base has the default at every leaf that the document leaves out, and nothing where the
    document has a null. -/
structure Defaulted (entries : PolicyEntries) (base : OperatorParams) : Prop where
  type : given entries "type" "type" = none → base.type = .mask
  masking_char : given entries "masking_char" "masking_char" = none → base.masking_char = '*'
  chars_to_mask : given entries "chars_to_mask" "chars_to_mask" = none → base.chars_to_mask = 100
  from_end : given entries "from_end" "from_end" = none → base.from_end = true
  new_value : given entries "new_value" "new_value" = some null → base.new_value = none

theorem merges_iff {entries : PolicyEntries} {update base result : OperatorParams}
    (hupdate : model_validate (.record entries) = some update)
    (hresult : model_validate (.record (merged base.fields ((some update).map fields))) = some result) :
    Merges (some entries) base result ↔ Defaulted entries base := by
  obtain ⟨-, htype, hmasking_char, hchars_to_mask, hfrom_end, hnew_value⟩ := model_validate_eq_some.mp hupdate
  obtain ⟨rtype, rmasking_char, rchars_to_mask, rfrom_end, rnew_value⟩ := validate_merged.mp hresult
  simp only [Option.map_some, Option.getD_some, Option.bind_some]
    at rtype rmasking_char rchars_to_mask rfrom_end rnew_value
  rw [rtype] at htype
  rw [rmasking_char] at hmasking_char
  rw [rchars_to_mask] at hchars_to_mask
  rw [rfrom_end] at hfrom_end
  constructor
  · intro h
    exact ⟨(follows_default htype).mp h.type, (follows_default hmasking_char).mp h.masking_char,
      (follows_default hchars_to_mask).mp h.chars_to_mask, (follows_default hfrom_end).mp h.from_end,
      (follows_nullable hnew_value rnew_value).mp h.new_value⟩
  · intro h
    exact ⟨(follows_default htype).mpr h.type, (follows_default hmasking_char).mpr h.masking_char,
      (follows_default hchars_to_mask).mpr h.chars_to_mask, (follows_default hfrom_end).mpr h.from_end,
      (follows_nullable hnew_value rnew_value).mpr h.new_value⟩

end OperatorParams

/-- The fields of an accepted override, each read from the document. -/
structure PiiOverride.ReadFrom (entries : PolicyEntries) (pii : PiiOverride) : Prop where
  analyzer_languages : field entries "analyzerLanguages" "analyzer_languages" (some none) (nullable codecs.texts.read) =
    some pii.analyzer_languages
  score_threshold : field entries "scoreThreshold" "score_threshold" (some none) (nullable codecs.number.read) =
    some pii.score_threshold
  timeout : field entries "timeout" "timeout" (some none) (nullable codecs.number.read) = some pii.timeout
  default_action : field entries "defaultAction" "default_action" (some none) (nullable codecs.text.read) =
    some pii.default_action
  default_operator : field entries "defaultOperator" "default_operator" (some none)
    (nullable OperatorParams.model_validate) = some pii.default_operator
  analyzer_entities : field entries "analyzerEntities" "analyzer_entities" (some none) (nullable codecs.texts.read) =
    some pii.analyzer_entities
  mask_on_reroute : field entries "maskOnReroute" "mask_on_reroute" (some none) (nullable codecs.flag.read) =
    some pii.mask_on_reroute
  hash_window_hours : field entries "hashWindowHours" "hash_window_hours" (some none) (nullable codecs.count.read) =
    some pii.hash_window_hours
  entity_policies : field entries "entityPolicies" "entity_policies" (some none)
    (nullable codecs.entity_policies.read) = some pii.entity_policies

theorem PiiOverride.readFrom_of_validate {entries : PolicyEntries} {pii : PiiOverride}
    (h : PiiOverride.model_validate (.record entries) = some pii) : pii.ReadFrom entries := by
  rw [PiiOverride.model_validate] at h
  obtain ⟨_, hanalyzer_languages, h⟩ := Option.bind_eq_some_iff.mp h
  obtain ⟨_, hscore_threshold, h⟩ := Option.bind_eq_some_iff.mp h
  obtain ⟨_, htimeout, h⟩ := Option.bind_eq_some_iff.mp h
  obtain ⟨_, hdefault_action, h⟩ := Option.bind_eq_some_iff.mp h
  obtain ⟨_, hdefault_operator, h⟩ := Option.bind_eq_some_iff.mp h
  obtain ⟨_, hanalyzer_entities, h⟩ := Option.bind_eq_some_iff.mp h
  obtain ⟨_, hmask_on_reroute, h⟩ := Option.bind_eq_some_iff.mp h
  obtain ⟨_, hhash_window_hours, h⟩ := Option.bind_eq_some_iff.mp h
  obtain ⟨_, hentity_policies, h⟩ := Option.bind_eq_some_iff.mp h
  split at h
  case isTrue =>
    cases h
    exact ⟨hanalyzer_languages, hscore_threshold, htimeout, hdefault_action, hdefault_operator, hanalyzer_entities,
      hmask_on_reroute, hhash_window_hours, hentity_policies⟩
  case isFalse => cases h

theorem SafetyOverride.readFrom_of_validate {entries : PolicyEntries} {safety : SafetyOverride}
    (h : SafetyOverride.model_validate (.record entries) = some safety) :
    field entries "enabled" "enabled" (some none) (nullable codecs.texts.read) = some safety.enabled ∧
      field entries "custom" "custom" (some none) (nullable codecs.safety_rules.read) = some safety.custom := by
  rw [SafetyOverride.model_validate] at h
  obtain ⟨_, henabled, h⟩ := Option.bind_eq_some_iff.mp h
  obtain ⟨_, hcustom, h⟩ := Option.bind_eq_some_iff.mp h
  split at h
  case isTrue =>
    cases h
    exact ⟨henabled, hcustom⟩
  case isFalse => cases h

theorem ClassifierOverride.readFrom_of_validate {entries : PolicyEntries} {classifier : ClassifierOverride}
    (h : ClassifierOverride.model_validate (.record entries) = some classifier) :
    field entries "defaultClass" "default_class" (some none) (nullable codecs.text.read) =
        some classifier.default_class ∧
      field entries "classes" "classes" (some none) (nullable codecs.classifier_classes.read) =
        some classifier.classes := by
  rw [ClassifierOverride.model_validate] at h
  obtain ⟨_, hdefault_class, h⟩ := Option.bind_eq_some_iff.mp h
  obtain ⟨_, hclasses, h⟩ := Option.bind_eq_some_iff.mp h
  split at h
  case isTrue =>
    cases h
    exact ⟨hdefault_class, hclasses⟩
  case isFalse => cases h

/-- The fields of an accepted override, each read from the document. -/
structure PolicyOverride.ReadFrom (entries : PolicyEntries) (override : PolicyOverride) : Prop where
  pii : field entries "pii" "pii" (some none) (nullable PiiOverride.model_validate) = some override.pii
  attachments : field entries "attachments" "attachments" (some none) (nullable AttachmentsSettings.model_validate) =
    some override.attachments
  safety : field entries "safety" "safety" (some none) (nullable SafetyOverride.model_validate) = some override.safety
  classifier : field entries "classifier" "classifier" (some none) (nullable ClassifierOverride.model_validate) =
    some override.classifier
  session : field entries "session" "session" (some none) (nullable SessionSettings.model_validate) =
    some override.session
  notice : field entries "notice" "notice" (some none) (nullable NoticeSettings.model_validate) = some override.notice
  routing : field entries "routing" "routing" (some none) (nullable RoutingSettings.model_validate) =
    some override.routing
  debug : field entries "debug" "debug" (some none) (nullable codecs.flag.read) = some override.debug
  log_format : field entries "logFormat" "log_format" (some none) (nullable codecs.log_format.read) =
    some override.log_format

theorem PolicyOverride.readFrom_of_validate {entries : PolicyEntries} {override : PolicyOverride}
    (h : PolicyOverride.model_validate (.record entries) = some override) : override.ReadFrom entries := by
  rw [PolicyOverride.model_validate] at h
  obtain ⟨_, hpii, h⟩ := Option.bind_eq_some_iff.mp h
  obtain ⟨_, hattachments, h⟩ := Option.bind_eq_some_iff.mp h
  obtain ⟨_, hsafety, h⟩ := Option.bind_eq_some_iff.mp h
  obtain ⟨_, hclassifier, h⟩ := Option.bind_eq_some_iff.mp h
  obtain ⟨_, hsession, h⟩ := Option.bind_eq_some_iff.mp h
  obtain ⟨_, hnotice, h⟩ := Option.bind_eq_some_iff.mp h
  obtain ⟨_, hrouting, h⟩ := Option.bind_eq_some_iff.mp h
  obtain ⟨_, hdebug, h⟩ := Option.bind_eq_some_iff.mp h
  obtain ⟨_, hlog_format, h⟩ := Option.bind_eq_some_iff.mp h
  split at h
  case isTrue =>
    cases h
    exact ⟨hpii, hattachments, hsafety, hclassifier, hsession, hnotice, hrouting, hdebug, hlog_format⟩
  case isFalse => cases h

/-- Every leaf of the PII settings follows the document. -/
structure PiiSettings.Merges (entries : Option PolicyEntries) (base result : PiiSettings) : Prop where
  analyzer_languages : Follows codecs.texts.read
    (entries.bind (overridden · "analyzerLanguages" "analyzer_languages")) base.analyzer_languages
      result.analyzer_languages
  supported_languages : result.supported_languages = base.supported_languages
  score_threshold : Follows codecs.number.read (entries.bind (overridden · "scoreThreshold" "score_threshold"))
    base.score_threshold result.score_threshold
  timeout : Follows codecs.number.read (entries.bind (overridden · "timeout" "timeout")) base.timeout result.timeout
  default_action : Follows codecs.action.read (entries.bind (overridden · "defaultAction" "default_action"))
    base.default_action result.default_action
  default_operator : OperatorParams.Merges (entries.bind (inner · "defaultOperator" "default_operator"))
    base.default_operator result.default_operator
  analyzer_entities : Follows codecs.texts.read (entries.bind (overridden · "analyzerEntities" "analyzer_entities"))
    base.analyzer_entities result.analyzer_entities
  mask_on_reroute : Follows codecs.flag.read (entries.bind (overridden · "maskOnReroute" "mask_on_reroute"))
    base.mask_on_reroute result.mask_on_reroute
  hash_window_hours : Follows codecs.count.read (entries.bind (overridden · "hashWindowHours" "hash_window_hours"))
    base.hash_window_hours result.hash_window_hours
  entity_policies : Follows codecs.entity_policies.read (entries.bind (overridden · "entityPolicies" "entity_policies"))
    base.entity_policies result.entity_policies
  ner : result.ner = base.ner
  custom_recognizers : result.custom_recognizers = base.custom_recognizers

/-- Every leaf of the policy follows the document: where the document gives it, it has that
    value, and everywhere else the value of the base. -/
structure DeepMerge (document : PolicyEntries) (base result : PolicySettings) : Prop where
  pii : PiiSettings.Merges (inner document "pii" "pii") base.pii result.pii
  face_action : Follows codecs.face_action.read
    (leafOf ((inner document "attachments" "attachments").bind (inner · "faces" "faces")) "action" "action")
    base.attachments.faces.action result.attachments.faces.action
  face_route_class : Follows (nullable codecs.text.read)
    (leafOf ((inner document "attachments" "attachments").bind (inner · "faces" "faces")) "routeClass" "route_class")
    base.attachments.faces.route_class result.attachments.faces.route_class
  safety_enabled :
    Follows codecs.texts.read ((inner document "safety" "safety").bind (overridden · "enabled" "enabled"))
    base.safety.enabled result.safety.enabled
  safety_custom : Follows codecs.safety_rules.read
    ((inner document "safety" "safety").bind (overridden · "custom" "custom")) base.safety.custom result.safety.custom
  default_class : Follows codecs.text.read
    ((inner document "classifier" "classifier").bind (overridden · "defaultClass" "default_class"))
    base.classifier.default_class result.classifier.default_class
  classes : Follows codecs.classifier_classes.read
    ((inner document "classifier" "classifier").bind (overridden · "classes" "classes"))
    base.classifier.classes result.classifier.classes
  session_enabled : Follows codecs.flag.read (leafOf (inner document "session" "session") "enabled" "enabled")
    base.session.enabled result.session.enabled
  ttl_hours : Follows codecs.number.read (leafOf (inner document "session" "session") "ttlHours" "ttl_hours")
    base.session.ttl_hours result.session.ttl_hours
  rerouted : Follows codecs.text.read (leafOf (inner document "notice" "notice") "rerouted" "rerouted")
    base.notice.rerouted result.notice.rerouted
  masked : Follows codecs.text.read (leafOf (inner document "notice" "notice") "masked" "masked")
    base.notice.masked result.notice.masked
  shown : Follows codecs.flag.read
    (leafOf (inner document "notice" "notice") "showWhenNoPiiDetected" "show_when_no_pii_detected")
    base.notice.show_when_no_pii_detected result.notice.show_when_no_pii_detected
  default_target :
    Follows codecs.text.read (leafOf (inner document "routing" "routing") "defaultTarget" "default_target")
    base.routing.default_target result.routing.default_target
  targets : Follows codecs.routing_targets.read (leafOf (inner document "routing" "routing") "targets" "targets")
    base.routing.targets result.routing.targets
  debug : Follows codecs.flag.read (overridden document "debug" "debug") base.debug result.debug
  log_format : Follows codecs.log_format.read (overridden document "logFormat" "log_format") base.log_format
    result.log_format

/-- The base has the default at every leaf that the document leaves out of a section it gives
    and that a whole model stands for, and nothing where the document has a null. -/
structure Defaulted (document : PolicyEntries) (base : PolicySettings) : Prop where
  default_operator : ∀ pii ∈ inner document "pii" "pii", ∀ operator ∈ inner pii "defaultOperator" "default_operator",
    OperatorParams.Defaulted operator base.pii.default_operator
  face_action : ∀ attachments ∈ inner document "attachments" "attachments",
    leafOf (inner attachments "faces" "faces") "action" "action" = none → base.attachments.faces.action = .block
  face_route_class : ∀ attachments ∈ inner document "attachments" "attachments",
    leafOf (inner attachments "faces" "faces") "routeClass" "route_class" = some null →
      base.attachments.faces.route_class = none
  session_enabled : ∀ session ∈ inner document "session" "session",
    given session "enabled" "enabled" = none → base.session.enabled = true
  ttl_hours : ∀ session ∈ inner document "session" "session",
    given session "ttlHours" "ttl_hours" = none → base.session.ttl_hours = 24
  shown : ∀ notice ∈ inner document "notice" "notice",
    given notice "showWhenNoPiiDetected" "show_when_no_pii_detected" = none →
      base.notice.show_when_no_pii_detected = true
  targets : ∀ routing ∈ inner document "routing" "routing",
    given routing "targets" "targets" = none → base.routing.targets = []

/-- The name of a default action is looked up only in the merged policy. -/
theorem follows_default_action {entries : PolicyEntries} {key name : String} {value : Option String}
    {base result : PIIAction} (h : field entries key name (some none) (nullable codecs.text.read) = some value)
    (hresult : value.elim (some base) PIIAction.ofName? = some result) :
    Follows codecs.action.read (overridden entries key name) base result := by
  obtain ⟨hleaf, rfl⟩ | ⟨leaf, found, hleaf, rfl, hfound⟩ := overridden_cases h
  · rw [hleaf]
    exact (Option.some.inj hresult).symm
  · rw [hleaf]
    cases leaf with
    | record entries => cases hfound
    | value v =>
      cases v with
      | text text =>
        cases hfound
        exact hresult
      | _ => cases hfound

namespace PiiSettings
variable {base result : PiiSettings}

theorem merges_none (h : Updated base none result) : Merges none base result := by
  refine ⟨h.analyzer_languages.symm, h.supported_languages.symm, h.score_threshold.symm, h.timeout.symm,
    (Option.some.inj h.default_action).symm, ?_, h.analyzer_entities.symm, h.mask_on_reroute.symm,
    h.hash_window_hours.symm, h.entity_policies.symm, h.ner.symm, h.custom_recognizers.symm⟩
  exact ⟨h.operator_type.symm, h.masking_char.symm, h.chars_to_mask.symm, h.from_end.symm, h.new_value.symm⟩

theorem merges_iff {entries : PolicyEntries} {pii : PiiOverride} (hread : pii.ReadFrom entries)
    (h : Updated base (some pii) result) :
    Merges (some entries) base result ↔ ∀ operator ∈ inner entries "defaultOperator" "default_operator",
      OperatorParams.Defaulted operator base.default_operator := by
  have hoperator : OperatorParams.Merges (inner entries "defaultOperator" "default_operator") base.default_operator
      result.default_operator ↔ ∀ operator ∈ inner entries "defaultOperator" "default_operator",
        OperatorParams.Defaulted operator base.default_operator := by
    have hmerged := OperatorParams.validate_merged.mpr
      ⟨h.operator_type, h.masking_char, h.chars_to_mask, h.from_end, h.new_value⟩
    obtain ⟨hnone, hinner⟩ | ⟨found, operator, hsome, hinner, hvalid⟩ :=
      inner_cases (fun _ => rfl) hread.default_operator
    · rw [hinner]
      refine iff_of_true ?_ fun operator hoperator => absurd hoperator (Option.not_mem_none operator)
      obtain ⟨htype, hmasking_char, hchars_to_mask, hfrom_end, hnew_value⟩ := OperatorParams.validate_merged.mp hmerged
      rw [Option.bind_some, hnone] at htype hmasking_char hchars_to_mask hfrom_end hnew_value
      exact ⟨htype.symm, hmasking_char.symm, hchars_to_mask.symm, hfrom_end.symm, hnew_value.symm⟩
    · rw [Option.bind_some, hsome] at hmerged
      rw [hinner, OperatorParams.merges_iff hvalid hmerged]
      simp only [Option.mem_some_iff, forall_eq']
  constructor
  · intro hmerges
    exact hoperator.mp hmerges.default_operator
  · intro hdefaulted
    exact ⟨follows_overridden hread.analyzer_languages h.analyzer_languages, h.supported_languages.symm,
      follows_overridden hread.score_threshold h.score_threshold, follows_overridden hread.timeout h.timeout,
      follows_default_action hread.default_action h.default_action, hoperator.mpr hdefaulted,
      follows_overridden hread.analyzer_entities h.analyzer_entities,
      follows_overridden hread.mask_on_reroute h.mask_on_reroute,
      follows_overridden hread.hash_window_hours h.hash_window_hours,
      follows_overridden hread.entity_policies h.entity_policies, h.ner.symm, h.custom_recognizers.symm⟩

theorem merges_document_iff {document : PolicyEntries} {update : Option PiiOverride}
    (hread : field document "pii" "pii" (some none) (nullable PiiOverride.model_validate) = some update)
    (h : Updated base update result) :
    Merges (inner document "pii" "pii") base result ↔ ∀ pii ∈ inner document "pii" "pii",
      ∀ operator ∈ inner pii "defaultOperator" "default_operator",
        OperatorParams.Defaulted operator base.default_operator := by
  obtain ⟨rfl, hinner⟩ | ⟨found, pii, rfl, hinner, hvalid⟩ := inner_cases (fun _ => rfl) hread
  · rw [hinner]
    exact iff_of_true (merges_none h) fun pii hpii => absurd hpii (Option.not_mem_none pii)
  · rw [hinner, merges_iff (PiiOverride.readFrom_of_validate hvalid) h]
    simp only [Option.mem_some_iff, forall_eq']

end PiiSettings

section sections
variable {α β : Type} {document : PolicyEntries} {key name : String} {read : Document Value → Option α}
  {update : Option α} (hvalue : ∀ v, read (.value v) = none)
  (hread : field document key name (some none) (nullable read) = some update)
include hvalue hread

/-- A leaf of a whole model that the document may leave out, with the model's section. -/
theorem follows_section_default {decode : Document Value → Option β} {leaf leaf_name : String} {get : α → β}
    {fallback base result : β}
    (hget : ∀ {entries model}, read (.record entries) = some model →
      field entries leaf leaf_name (some fallback) decode = some (get model))
    (hresult : (update.map get).getD base = result) :
    Follows decode (leafOf (inner document key name) leaf leaf_name) base result ↔
      ∀ entries ∈ inner document key name, given entries leaf leaf_name = none → base = fallback := by
  obtain ⟨rfl, hinner⟩ | ⟨found, model, rfl, hinner, hvalid⟩ := inner_cases hvalue hread
  · rw [hinner]
    cases hresult
    exact iff_of_true follows_none fun entries hentries => absurd hentries (Option.not_mem_none entries)
  · rw [hinner]
    cases hresult
    simp only [Option.mem_some_iff, forall_eq']
    exact follows_default (hget hvalid)

/-- A leaf of a whole model that the document has to give with the model's section. -/
theorem follows_section_required {decode : Document Value → Option β} {leaf leaf_name : String} {get : α → β}
    {base result : β}
    (hget : ∀ {entries model}, read (.record entries) = some model →
      field entries leaf leaf_name none decode = some (get model))
    (hresult : (update.map get).getD base = result) :
    Follows decode (leafOf (inner document key name) leaf leaf_name) base result := by
  obtain ⟨rfl, hinner⟩ | ⟨found, model, rfl, hinner, hvalid⟩ := inner_cases hvalue hread
  · rw [hinner]
    exact hresult.symm
  · rw [hinner]
    cases hresult
    exact follows_required (hget hvalid)

/-- A leaf of an override model, with the model's section. -/
theorem follows_section_overridden {decode : Document Value → Option β} {leaf leaf_name : String} {get : α → Option β}
    {base result : β}
    (hget : ∀ {entries model}, read (.record entries) = some model →
      field entries leaf leaf_name (some none) (nullable decode) = some (get model))
    (hresult : (update.bind get).getD base = result) :
    Follows decode ((inner document key name).bind (overridden · leaf leaf_name)) base result := by
  obtain ⟨rfl, hinner⟩ | ⟨found, model, rfl, hinner, hvalid⟩ := inner_cases hvalue hread
  · rw [hinner]
    exact hresult.symm
  · rw [hinner]
    exact follows_overridden (hget hvalid) hresult

end sections

/-- Attachment settings have the default face settings or those of the document. -/
theorem faces_cases {entries : PolicyEntries} {attachments : AttachmentsSettings}
    (h : AttachmentsSettings.model_validate (.record entries) = some attachments) :
    (inner entries "faces" "faces" = none ∧ attachments.faces = default_faces) ∨
      ∃ found, inner entries "faces" "faces" = some found ∧
        FaceSettings.model_validate (.record found) = some attachments.faces := by
  obtain ⟨-, -, hfaces⟩ := AttachmentsSettings.model_validate_eq_some.mp h
  rw [field] at hfaces
  rw [inner]
  cases hgiven : given entries "faces" "faces" with
  | none =>
    rw [hgiven] at hfaces
    exact .inl ⟨rfl, (Option.some.inj hfaces).symm⟩
  | some document =>
    rw [hgiven] at hfaces
    cases document with
    | value v => cases hfaces
    | record found => exact .inr ⟨found, rfl, hfaces⟩

section faces
variable {document : PolicyEntries} {update : Option AttachmentsSettings}
  (hread : field document "attachments" "attachments" (some none) (nullable AttachmentsSettings.model_validate) =
    some update)
include hread

theorem follows_face_action {base result : FaceAction} (hresult : (update.map (·.faces.action)).getD base = result) :
    Follows codecs.face_action.read
        (leafOf ((inner document "attachments" "attachments").bind (inner · "faces" "faces")) "action" "action")
        base result ↔
      ∀ attachments ∈ inner document "attachments" "attachments",
        leafOf (inner attachments "faces" "faces") "action" "action" = none → base = .block := by
  obtain ⟨rfl, hinner⟩ | ⟨found, attachments, rfl, hinner, hvalid⟩ := inner_cases (fun _ => rfl) hread
  · rw [hinner]
    exact iff_of_true hresult.symm fun entries hentries => absurd hentries (Option.not_mem_none entries)
  · rw [hinner]
    rw [Option.map_some, Option.getD_some] at hresult
    simp only [Option.mem_some_iff, forall_eq', Option.bind_some]
    rw [← hresult]
    obtain ⟨hfaces, hdefault⟩ | ⟨faces, hfaces, hface⟩ := faces_cases hvalid
    · rw [hfaces, hdefault]
      exact ⟨fun h _ => h.symm, fun h => (h rfl).symm⟩
    · rw [hfaces]
      exact follows_default (FaceSettings.model_validate_eq_some.mp hface).2.1

theorem follows_face_route_class {base result : Option String}
    (hresult : (update.bind (·.faces.route_class)).or base = result) :
    Follows (nullable codecs.text.read)
        (leafOf ((inner document "attachments" "attachments").bind (inner · "faces" "faces")) "routeClass"
          "route_class")
        base result ↔
      ∀ attachments ∈ inner document "attachments" "attachments",
        leafOf (inner attachments "faces" "faces") "routeClass" "route_class" = some null → base = none := by
  obtain ⟨rfl, hinner⟩ | ⟨found, attachments, rfl, hinner, hvalid⟩ := inner_cases (fun _ => rfl) hread
  · rw [hinner]
    exact iff_of_true hresult.symm fun entries hentries => absurd hentries (Option.not_mem_none entries)
  · rw [hinner]
    simp only [Option.mem_some_iff, forall_eq', Option.bind_some]
    rw [Option.bind_some] at hresult
    obtain ⟨hfaces, hdefault⟩ | ⟨faces, hfaces, hface⟩ := faces_cases hvalid
    · have hroute_class : default_faces.route_class = none := rfl
      rw [hdefault, hroute_class, Option.none_or] at hresult
      rw [hfaces]
      exact iff_of_true hresult.symm fun h => by cases h
    · rw [hfaces]
      exact follows_nullable (FaceSettings.model_validate_eq_some.mp hface).2.2 hresult

end faces

/-- An override that is applied to its own result changes nothing. -/
theorem apply_policy_override_idempotent {base result : PolicySettings} {override : PolicyOverride}
    (h : apply_policy_override base override = some result) : apply_policy_override result override = some result := by
  rw [apply_policy_override_eq_some] at h ⊢
  have hgetD : ∀ {α : Type} {value : Option α} {a b : α}, value.getD a = b → value.getD b = b := by
    intro α value a b hb
    cases value with
    | none => rfl
    | some c => exact hb
  have hor : ∀ {α : Type} {value a b : Option α}, value.or a = b → value.or b = b := by
    intro α value a b hb
    cases value with
    | none => rw [Option.none_or]
    | some c =>
      rw [← hb, Option.some_or]
      rfl
  have haction : ∀ {value : Option String} {a b : PIIAction},
      value.elim (some a) PIIAction.ofName? = some b → value.elim (some b) PIIAction.ofName? = some b := by
    intro value a b hb
    cases value with
    | none => rfl
    | some name => exact hb
  obtain ⟨hpii, h1, h2, h3, h4, h5, h6, h7, h8, h9, h10, h11, h12, h13, h14, h15⟩ := h
  obtain ⟨p1, -, p2, p3, p4, p5, p6, p7, p8, p9, p10, p11, p12, p13, -, -⟩ := hpii
  refine ⟨?_, hgetD h1, hor h2, hgetD h3, hgetD h4, hgetD h5, hgetD h6, hgetD h7, hgetD h8, hgetD h9, hgetD h10,
    hgetD h11, hgetD h12, hgetD h13, hgetD h14, hgetD h15⟩
  exact ⟨hgetD p1, rfl, hgetD p2, hgetD p3, haction p4, hgetD p5, hgetD p6, hgetD p7, hgetD p8, hor p9, hgetD p10,
    hgetD p11, hgetD p12, hgetD p13, rfl, rfl⟩

theorem deepMerge_iff {base result : PolicySettings} {document : PolicyEntries}
    {override : PolicyOverride} (hoverride : PolicyOverride.model_validate (.record document) = some override)
    (happly : apply_policy_override base override = some result) :
    DeepMerge document base result ↔ Defaulted document base := by
  have hread := PolicyOverride.readFrom_of_validate hoverride
  have h := apply_policy_override_eq_some.mp happly
  have hpii := PiiSettings.merges_document_iff hread.pii h.pii
  have haction := follows_face_action hread.attachments h.face_action
  have hroute_class := follows_face_route_class hread.attachments h.face_route_class
  have henabled := follows_section_default (fun _ => rfl) hread.session
    (fun hvalid => (SessionSettings.model_validate_eq_some.mp hvalid).2.1) h.session_enabled
  have httl_hours := follows_section_default (fun _ => rfl) hread.session
    (fun hvalid => (SessionSettings.model_validate_eq_some.mp hvalid).2.2) h.ttl_hours
  have hshown := follows_section_default (fun _ => rfl) hread.notice
    (fun hvalid => (NoticeSettings.model_validate_eq_some.mp hvalid).2.2.2) h.shown
  have htargets := follows_section_default (fun _ => rfl) hread.routing
    (fun hvalid => (RoutingSettings.model_validate_eq_some.mp hvalid).2.2) h.targets
  constructor
  · intro hmerge
    exact ⟨hpii.mp hmerge.pii, haction.mp hmerge.face_action, hroute_class.mp hmerge.face_route_class,
      henabled.mp hmerge.session_enabled, httl_hours.mp hmerge.ttl_hours, hshown.mp hmerge.shown,
      htargets.mp hmerge.targets⟩
  · intro hdefaulted
    exact {
      pii := hpii.mpr hdefaulted.default_operator
      face_action := haction.mpr hdefaulted.face_action
      face_route_class := hroute_class.mpr hdefaulted.face_route_class
      safety_enabled := follows_section_overridden (fun _ => rfl) hread.safety
        (fun hvalid => (SafetyOverride.readFrom_of_validate hvalid).1) h.safety_enabled
      safety_custom := follows_section_overridden (fun _ => rfl) hread.safety
        (fun hvalid => (SafetyOverride.readFrom_of_validate hvalid).2) h.safety_custom
      default_class := follows_section_overridden (fun _ => rfl) hread.classifier
        (fun hvalid => (ClassifierOverride.readFrom_of_validate hvalid).1) h.default_class
      classes := follows_section_overridden (fun _ => rfl) hread.classifier
        (fun hvalid => (ClassifierOverride.readFrom_of_validate hvalid).2) h.classes
      session_enabled := henabled.mpr hdefaulted.session_enabled
      ttl_hours := httl_hours.mpr hdefaulted.ttl_hours
      rerouted := follows_section_required (fun _ => rfl) hread.notice
        (fun hvalid => (NoticeSettings.model_validate_eq_some.mp hvalid).2.1) h.rerouted
      masked := follows_section_required (fun _ => rfl) hread.notice
        (fun hvalid => (NoticeSettings.model_validate_eq_some.mp hvalid).2.2.1) h.masked
      shown := hshown.mpr hdefaulted.shown
      default_target := follows_section_required (fun _ => rfl) hread.routing
        (fun hvalid => (RoutingSettings.model_validate_eq_some.mp hvalid).2.1) h.default_target
      targets := htargets.mpr hdefaulted.targets
      debug := follows_overridden hread.debug h.debug
      log_format := follows_overridden hread.log_format h.log_format }

/-- The policy that an accepted override document leads to follows the document leaf by leaf
    exactly when the base has the defaults at what the document leaves out of the models it
    gives. The same override changes nothing more. -/
theorem apply_policy_override_deep_merge_iff {base result : PolicySettings} {document : PolicyEntries}
    {override : PolicyOverride} (hoverride : PolicyOverride.model_validate (.record document) = some override)
    (happly : apply_policy_override base override = some result) :
    (DeepMerge document base result ↔ Defaulted document base) ∧
      apply_policy_override result override = some result :=
  ⟨deepMerge_iff hoverride happly, apply_policy_override_idempotent happly⟩

section samples

/-- A preview with another lifetime of a session. -/
def lifetimeDocument : PolicyEntries := [("session", .record [("ttlHours", .value (.number 5))])]

def lifetimeOverride : PolicyOverride := { session := some { ttl_hours := 5 } }

/-- The preview enables the sessions that the policy disables. -/
theorem apply_policy_override_deep_merge_lifetime :
    ¬ DeepMerge lifetimeDocument test_policy { test_policy with session := { ttl_hours := 5 } } := by
  have hoverride : PolicyOverride.model_validate (.record lifetimeDocument) = some lifetimeOverride := by rfl
  have happly : apply_policy_override test_policy lifetimeOverride =
      some { test_policy with session := { ttl_hours := 5 } } := by
    rw [apply_policy_override_eq_some]
    exact ⟨⟨rfl, rfl, rfl, rfl, rfl, rfl, rfl, rfl, rfl, rfl, rfl, rfl, rfl, rfl, rfl, rfl⟩, rfl, rfl, rfl, rfl, rfl,
      rfl, rfl, rfl, rfl, rfl, rfl, rfl, rfl, rfl, rfl⟩
  intro hmerge
  have hdefaulted := (apply_policy_override_deep_merge_iff hoverride happly).1.mp hmerge
  exact absurd (hdefaulted.session_enabled _ rfl rfl) (by decide)

end samples

end pii_engine.config
