import PiiEngine.Config.Policy
import PiiEngine.Errors
import PiiEngine.Lib.Checked

open checked

namespace pii_engine

def ENTITY_CATALOG : List String := [
  "SENSITIVE_TEXT", "PRIVATE", "PERSON_NAME", "EMAIL_ADDRESS", "PHONE_NUMBER", "STREET_ADDRESS", "POSTAL_CODE",
  "CITY", "DATE_OF_BIRTH", "PLACE_OF_BIRTH", "IP_ADDRESS", "BANK_ACCOUNT", "IBAN", "CREDIT_CARD_NUMBER",
  "PASSPORT_NUMBER", "DRIVERS_LICENSE_NUMBER", "NATIONAL_ID_NUMBER", "BSN", "TAX_ID", "STEUERNUMMER", "VAT_NUMBER",
  "HEALTH_INSURANCE_ID", "MEDICAL_RECORD_ID", "USERNAME", "PASSWORD_OR_SECRET", "VEHICLE_REGISTRATION", "SIGNATURE"]

open config

def custom_entities (policy : PolicySettings) : List String := policy.pii.custom_recognizers.map (·.entity)

/-- Reject entities which are outside the normalized and custom catalogs. -/
def validate_policy_selection (policy : PolicySettings) : Except AnalysisError Unit :=
  raiseIf (∃ entity ∈ policy.pii.analyzer_entities, entity ∉ ENTITY_CATALOG ∧ entity ∉ custom_entities policy)
    (.value_error "policy selects an unknown entity")

/-- The explicit or complete normalized entity selection of a policy, as the elements of a set. -/
def selected_entities (policy : PolicySettings) : List String :=
  if policy.pii.analyzer_entities ≠ [] then policy.pii.analyzer_entities
  else ENTITY_CATALOG ++ custom_entities policy

/-- No selection contains the type that is reserved for visual findings. -/
theorem face_not_selected (policy : PolicySettings) : "FACE" ∉ selected_entities policy := by
  unfold selected_entities
  split
  · exact policy.pii.not_face
  · rw [List.mem_append, not_or]
    refine ⟨by decide, ?_⟩
    intro hmem
    obtain ⟨item, -, heq⟩ := List.mem_map.mp hmem
    exact item.entity_ok.2 heq

end pii_engine
