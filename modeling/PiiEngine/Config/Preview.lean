import Mathlib.Tactic.FinCases
import PiiEngine.Config.DeepMerge

open collections documents
open documents.Document (field given)

namespace pii_engine.config

section sent
variable {R : Type} (read : List String → R → Value)

mutual

/-- A document with each leaf read at the keys that lead to it. -/
def sent (path : List String) : Document R → Document Value
  | .value leaf => .value (read path leaf)
  | .record entries => .record (sent_entries path entries)

def sent_entries (path : List String) : Entries R → PolicyEntries
  | [] => []
  | (key, document) :: rest => (key, sent (path ++ [key]) document) :: sent_entries path rest

end

/-- `PolicyOverride.model_validate` of a document as it is sent. What Pydantic makes of a leaf at
    its field is the argument: a number or a flag may stand as a text, and a list of records
    for a list of models. -/
def PolicyOverride.validate_sent (document : Entries R) : Option PolicyOverride :=
  model_validate (.record (sent_entries read [] document))

end sent

/-- The previewed policy is the deep merge, and the same override leads from it to itself. The
    base stays as it is: the update is made in its dump. -/
structure Previews (document : PolicyEntries) (override : PolicyOverride) (base result : PolicySettings) : Prop where
  merged : DeepMerge document base result
  again : apply_policy_override result override = some result

/-- A leaf that a document gives has its value in the result, also where the value is a null. -/
def Taken {α : Type} (read : Document Value → Option α) (leaf : Option (Document Value)) (result : α) : Prop :=
  ∀ document ∈ leaf, read document = some result

theorem taken_given_iff {α : Type} {read : Document Value → Option α} {entries : PolicyEntries} {key name : String}
    {base result : α} (hnull : read null = none) (h : Follows read (overridden entries key name) base result) :
    Taken read (given entries key name) result ↔ given entries key name ≠ some null := by
  rw [overridden] at h
  constructor
  · intro htaken hgiven
    have hread := htaken null hgiven
    rw [hnull] at hread
    cases hread
  · intro hne document hdocument
    cases hgiven : given entries key name with
    | none =>
      rw [hgiven] at hdocument
      cases hdocument
    | some leaf =>
      rw [hgiven] at hdocument h hne
      cases hdocument
      split at h
      case h_1 heq => exact absurd heq hne
      case h_2 => exact h

/-- The leaf that a document gives in a section is taken unless it is a null. -/
theorem taken_section_iff {α : Type} {read : Document Value → Option α} {entries : Option PolicyEntries}
    {key name : String} {base result : α} (hnull : read null = none)
    (h : Follows read (entries.bind (overridden · key name)) base result) :
    Taken read (leafOf entries key name) result ↔ leafOf entries key name ≠ some null := by
  cases entries with
  | none => exact iff_of_true (fun document hdocument => by cases hdocument) (fun h => by cases h)
  | some entries => exact taken_given_iff hnull h

/-- Every field of an override model's own that the document gives has its value in the result,
    where a null counts as given. -/
structure NullsTaken (document : PolicyEntries) (result : PolicySettings) : Prop where
  analyzer_languages : Taken codecs.texts.read
    (leafOf (inner document "pii" "pii") "analyzerLanguages" "analyzer_languages") result.pii.analyzer_languages
  score_threshold : Taken codecs.number.read
    (leafOf (inner document "pii" "pii") "scoreThreshold" "score_threshold") result.pii.score_threshold
  timeout : Taken codecs.number.read (leafOf (inner document "pii" "pii") "timeout" "timeout") result.pii.timeout
  default_action : Taken codecs.action.read
    (leafOf (inner document "pii" "pii") "defaultAction" "default_action") result.pii.default_action
  analyzer_entities : Taken codecs.texts.read
    (leafOf (inner document "pii" "pii") "analyzerEntities" "analyzer_entities") result.pii.analyzer_entities
  mask_on_reroute : Taken codecs.flag.read
    (leafOf (inner document "pii" "pii") "maskOnReroute" "mask_on_reroute") result.pii.mask_on_reroute
  hash_window_hours : Taken codecs.count.read
    (leafOf (inner document "pii" "pii") "hashWindowHours" "hash_window_hours") result.pii.hash_window_hours
  entity_policies : Taken codecs.entity_policies.read
    (leafOf (inner document "pii" "pii") "entityPolicies" "entity_policies") result.pii.entity_policies
  safety_enabled : Taken codecs.texts.read (leafOf (inner document "safety" "safety") "enabled" "enabled")
    result.safety.enabled
  safety_custom : Taken codecs.safety_rules.read (leafOf (inner document "safety" "safety") "custom" "custom")
    result.safety.custom
  default_class : Taken codecs.text.read
    (leafOf (inner document "classifier" "classifier") "defaultClass" "default_class") result.classifier.default_class
  classes : Taken codecs.classifier_classes.read
    (leafOf (inner document "classifier" "classifier") "classes" "classes") result.classifier.classes
  debug : Taken codecs.flag.read (given document "debug" "debug") result.debug
  log_format : Taken codecs.log_format.read (given document "logFormat" "log_format") result.log_format

/-- The fields of the override models in the sections of a document, each with its section. -/
def OVERRIDE_LEAVES : List ((String × String) × (String × String)) :=
  (PiiOverride.FIELDS.filter (·.1 ≠ "defaultOperator")).map (("pii", "pii"), ·) ++
    SafetySettings.FIELDS.map (("safety", "safety"), ·) ++
    ClassifierSettings.FIELDS.map (("classifier", "classifier"), ·)

/-- No field of an override model's own is given as a null. -/
structure WithoutNulls (document : PolicyEntries) : Prop where
  sections : ∀ leaf ∈ OVERRIDE_LEAVES, leafOf (inner document leaf.1.1 leaf.1.2) leaf.2.1 leaf.2.2 ≠ some null
  debug : given document "debug" "debug" ≠ some null
  log_format : given document "logFormat" "log_format" ≠ some null

/-- A null has no value in the result, since only the override models admit one at these fields. -/
theorem nullsTaken_iff {document : PolicyEntries} {base result : PolicySettings} (h : DeepMerge document base result) :
    NullsTaken document result ↔ WithoutNulls document := by
  have hlanguages := taken_section_iff rfl h.pii.analyzer_languages
  have hthreshold := taken_section_iff rfl h.pii.score_threshold
  have htimeout := taken_section_iff rfl h.pii.timeout
  have haction := taken_section_iff rfl h.pii.default_action
  have hentities := taken_section_iff rfl h.pii.analyzer_entities
  have hmask := taken_section_iff rfl h.pii.mask_on_reroute
  have hwindow := taken_section_iff rfl h.pii.hash_window_hours
  have hpolicies := taken_section_iff rfl h.pii.entity_policies
  have henabled := taken_section_iff rfl h.safety_enabled
  have hcustom := taken_section_iff rfl h.safety_custom
  have hclass := taken_section_iff rfl h.default_class
  have hclasses := taken_section_iff rfl h.classes
  have hdebug := taken_given_iff rfl h.debug
  have hformat := taken_given_iff rfl h.log_format
  constructor
  · intro htaken
    refine ⟨?_, hdebug.mp htaken.debug, hformat.mp htaken.log_format⟩
    intro leaf hleaf
    simp only [OVERRIDE_LEAVES, PiiOverride.FIELDS, SafetySettings.FIELDS, ClassifierSettings.FIELDS] at hleaf
    fin_cases hleaf
    · exact hlanguages.mp htaken.analyzer_languages
    · exact hthreshold.mp htaken.score_threshold
    · exact htimeout.mp htaken.timeout
    · exact haction.mp htaken.default_action
    · exact hentities.mp htaken.analyzer_entities
    · exact hmask.mp htaken.mask_on_reroute
    · exact hwindow.mp htaken.hash_window_hours
    · exact hpolicies.mp htaken.entity_policies
    · exact henabled.mp htaken.safety_enabled
    · exact hcustom.mp htaken.safety_custom
    · exact hclass.mp htaken.default_class
    · exact hclasses.mp htaken.classes
  · intro hfree
    have hsection := hfree.sections
    exact ⟨hlanguages.mpr (hsection (("pii", "pii"), ("analyzerLanguages", "analyzer_languages")) (by decide)),
      hthreshold.mpr (hsection (("pii", "pii"), ("scoreThreshold", "score_threshold")) (by decide)),
      htimeout.mpr (hsection (("pii", "pii"), ("timeout", "timeout")) (by decide)),
      haction.mpr (hsection (("pii", "pii"), ("defaultAction", "default_action")) (by decide)),
      hentities.mpr (hsection (("pii", "pii"), ("analyzerEntities", "analyzer_entities")) (by decide)),
      hmask.mpr (hsection (("pii", "pii"), ("maskOnReroute", "mask_on_reroute")) (by decide)),
      hwindow.mpr (hsection (("pii", "pii"), ("hashWindowHours", "hash_window_hours")) (by decide)),
      hpolicies.mpr (hsection (("pii", "pii"), ("entityPolicies", "entity_policies")) (by decide)),
      henabled.mpr (hsection (("safety", "safety"), ("enabled", "enabled")) (by decide)),
      hcustom.mpr (hsection (("safety", "safety"), ("custom", "custom")) (by decide)),
      hclass.mpr (hsection (("classifier", "classifier"), ("defaultClass", "default_class")) (by decide)),
      hclasses.mpr (hsection (("classifier", "classifier"), ("classes", "classes")) (by decide)),
      hdebug.mpr hfree.debug, hformat.mpr hfree.log_format⟩

/-- However Pydantic reads the leaves of an accepted document, its preview is the deep merge
    exactly when the base has the defaults at what the document leaves out of the whole models
    it gives. Where a null in an override model counts as given, it must not occur either. -/
theorem apply_policy_override_previews_iff {R : Type} {read : List String → R → Value} {document : Entries R}
    {base result : PolicySettings} {override : PolicyOverride}
    (hoverride : PolicyOverride.validate_sent read document = some override)
    (happly : apply_policy_override base override = some result) :
    (Previews (sent_entries read [] document) override base result ↔
        Defaulted (sent_entries read [] document) base) ∧
      (Previews (sent_entries read [] document) override base result ∧
          NullsTaken (sent_entries read [] document) result ↔
        Defaulted (sent_entries read [] document) base ∧ WithoutNulls (sent_entries read [] document)) := by
  have hmerge := deepMerge_iff hoverride happly
  have hagain := apply_policy_override_idempotent happly
  constructor
  · constructor
    · intro hpreviews
      exact hmerge.mp hpreviews.merged
    · intro hdefaulted
      exact ⟨hmerge.mpr hdefaulted, hagain⟩
  · constructor
    · rintro ⟨hpreviews, htaken⟩
      exact ⟨hmerge.mp hpreviews.merged, (nullsTaken_iff hpreviews.merged).mp htaken⟩
    · rintro ⟨hdefaulted, hfree⟩
      have hmerged := hmerge.mpr hdefaulted
      exact ⟨⟨hmerged, hagain⟩, (nullsTaken_iff hmerged).mpr hfree⟩

section samples

/-- A number of hours that is sent as a text. -/
def readHours : List String → Value → Value
  | _, .text "6" => .number 6
  | _, value => value

def hoursDocument : PolicyEntries := [("session", .record [("ttlHours", .value (.text "6"))])]

def hoursOverride : PolicyOverride := { session := some { ttl_hours := 6 } }

def enabledPolicy : PolicySettings := { test_policy with session := { ttl_hours := 12 } }

/-- Over a policy whose sessions are enabled as by default, the lifetime alone changes. -/
theorem apply_policy_override_previews_hours :
    Previews (sent_entries readHours [] hoursDocument) hoursOverride enabledPolicy
      { test_policy with session := { ttl_hours := 6 } } := by
  have hoverride : PolicyOverride.validate_sent readHours hoursDocument = some hoursOverride := by rfl
  have happly : apply_policy_override enabledPolicy hoursOverride =
      some { test_policy with session := { ttl_hours := 6 } } := by
    rw [apply_policy_override_eq_some]
    exact ⟨⟨rfl, rfl, rfl, rfl, rfl, rfl, rfl, rfl, rfl, rfl, rfl, rfl, rfl, rfl, rfl, rfl⟩, rfl, rfl, rfl, rfl, rfl,
      rfl, rfl, rfl, rfl, rfl, rfl, rfl, rfl, rfl, rfl⟩
  refine (apply_policy_override_previews_iff hoverride happly).1.mpr ?_
  have hsession : inner (sent_entries readHours [] hoursDocument) "session" "session" =
      some [("ttlHours", .value (.number 6))] := by rfl
  refine ⟨fun _ h => (by cases h), fun _ h => (by cases h), fun _ h => (by cases h), fun _ _ _ => rfl, ?_,
    fun _ h => (by cases h), fun _ h => (by cases h)⟩
  intro session hgiven hleaf
  rw [hsession] at hgiven
  cases hgiven
  cases hleaf

/-- Another masking character for the default operator. -/
def maskingDocument : PolicyEntries :=
  [("pii", .record [("defaultOperator", .record [("masking_char", .value (.text "#"))])])]

def maskingOverride : PolicyOverride where
  pii := some { default_operator := some { default_operator_params with masking_char := '#' } }

/-- A policy that masks each value from its start. -/
def startPolicy : PolicySettings :=
  { test_policy with pii := { test_pii with default_operator := { default_operator_params with from_end := false } } }

def maskedPolicy : PolicySettings :=
  { test_policy with pii := { test_pii with default_operator := { default_operator_params with masking_char := '#' } } }

/-- The preview of another masking character masks from the other end as well. -/
theorem apply_policy_override_masks_end :
    PolicyOverride.validate_sent (fun _ leaf => leaf) maskingDocument = some maskingOverride ∧
      apply_policy_override startPolicy maskingOverride = some maskedPolicy ∧
      ¬ Previews (sent_entries (fun _ leaf => leaf) [] maskingDocument) maskingOverride startPolicy maskedPolicy := by
  refine ⟨rfl, ?_, ?_⟩
  · rw [apply_policy_override_eq_some]
    exact ⟨⟨rfl, rfl, rfl, rfl, rfl, rfl, rfl, rfl, rfl, rfl, rfl, rfl, rfl, rfl, rfl, rfl⟩, rfl, rfl, rfl, rfl, rfl,
      rfl, rfl, rfl, rfl, rfl, rfl, rfl, rfl, rfl, rfl⟩
  · intro hpreviews
    have hkept : true = false := hpreviews.merged.pii.default_operator.from_end
    cases hkept

end samples

end pii_engine.config
