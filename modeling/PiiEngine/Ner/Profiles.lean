import PiiEngine.Ner.Model
import PiiEngine.Selection

open checked collections

namespace pii_engine.ner

inductive RemoteKind where
  | gliner
  | kserve
  deriving DecidableEq, Repr

inductive ModelKind where
  | spacy
  | remote (kind : RemoteKind)
  deriving DecidableEq, Repr

def KSERVE_MODEL_PINS : List (String × String × String) := [
  ("en", "ai4privacy/llama-ai4privacy-english-anonymiser-openpii",
    "1efb619f6d9f5a84b5d6ccf65f1f45df961a2167"),
  ("de", "OpenMed/OpenMed-PII-German-SuperClinical-Large-434M-v1",
    "fa8d9c0186635e1ad74f667d320b9d90955523ad")]

def KSERVE_TOKENIZER_SHA256 : List (String × OrderedDict String String) := [
  ("en", .ofList [
    ("config.json",
      "c0dc3681d2633dcca592c449a75f188f15a9c5c834951202ce9e46c3a27126f7"),
    ("special_tokens_map.json",
      "ea97ecdbcc73713039d8d64dbb05e3689495c96657fbd9a18f5bed381be81049"),
    ("tokenizer.json",
      "6c8aaa9a542084f2457eab775d4eeb51f92a70c0fd9de28d5edb0ddec3c08d30"),
    ("tokenizer_config.json",
      "292edffb55c1afeaad5bd7cf21bae69563c7b7d0cf7f72dfce24132b4267f003")]),
  ("de", .ofList [
    ("added_tokens.json",
      "dc046d04c9b0ada7ae6f1dc89c465801799acdf0c9a6aab8c15a1b2d5ca4e91f"),
    ("config.json",
      "3e36050544bff921a90874052b19bea430f21e7f27f55dc6459de808d19a100c"),
    ("special_tokens_map.json",
      "9463f61e1b109a8eb4688b829260d7c6b1e6dff04c98ff7269bb89e2b92369b9"),
    ("spm.model",
      "c679fbf93643d19aab7ee10c0b99e460bdbc02fedf34b92b05af343b4af586fd"),
    ("tokenizer.json",
      "b10b7a38aab2e62572ac50a805095f1fb9d7096d9a9384f5ca2d9b4457c84b33"),
    ("tokenizer_config.json",
      "e6c4c771911c211618a2d46488dc7e9e499f051773cd4ff4faeca6fe55fdf569")])]

def GLINER_LABEL_MAPPING : OrderedDict String String := .ofList [
  ("person", "PERSON_NAME"), ("email", "EMAIL_ADDRESS"), ("phone number", "PHONE_NUMBER"),
  ("address", "STREET_ADDRESS"), ("date of birth", "DATE_OF_BIRTH"), ("iban", "IBAN"),
  ("credit card number", "CREDIT_CARD_NUMBER"), ("passport number", "PASSPORT_NUMBER"),
  ("medical condition", "SENSITIVE_TEXT"), ("medication", "SENSITIVE_TEXT")]

/-- Labels without an exact normalized category keep their evidence as `SENSITIVE_TEXT`. -/
def GERMAN_SENSITIVE_LABELS : List String := [
  "ACCOUNTNAME", "AGE", "AMOUNT", "BIC", "BITCOINADDRESS", "COUNTY", "CREDITCARDISSUER", "CURRENCY",
  "CURRENCYCODE", "CURRENCYNAME", "CURRENCYSYMBOL", "DATE", "ETHEREUMADDRESS", "EYECOLOR", "GENDER",
  "GPSCOORDINATES", "HEIGHT", "IMEI", "JOBDEPARTMENT", "JOBTITLE", "LITECOINADDRESS", "MACADDRESS", "MASKEDNUMBER",
  "OCCUPATION", "ORDINALDIRECTION", "ORGANIZATION", "SEX", "STATE", "TIME", "URL", "USERAGENT", "VIN"]

def GERMAN_LABEL_MAPPING : OrderedDict String String := .ofList (GERMAN_SENSITIVE_LABELS.map (·, "SENSITIVE_TEXT") ++ [
  ("CITY", "CITY"), ("BANKACCOUNT", "BANK_ACCOUNT"), ("BUILDINGNUMBER", "STREET_ADDRESS"),
  ("CREDITCARD", "CREDIT_CARD_NUMBER"), ("CVV", "PASSWORD_OR_SECRET"), ("DATEOFBIRTH", "DATE_OF_BIRTH"),
  ("EMAIL", "EMAIL_ADDRESS"), ("FIRSTNAME", "PERSON_NAME"), ("IBAN", "IBAN"), ("IPADDRESS", "IP_ADDRESS"),
  ("LASTNAME", "PERSON_NAME"), ("MIDDLENAME", "PERSON_NAME"), ("PASSWORD", "PASSWORD_OR_SECRET"),
  ("PHONE", "PHONE_NUMBER"), ("PIN", "PASSWORD_OR_SECRET"), ("PREFIX", "PERSON_NAME"),
  ("SECONDARYADDRESS", "STREET_ADDRESS"), ("SSN", "NATIONAL_ID_NUMBER"), ("STREET", "STREET_ADDRESS"),
  ("USERNAME", "USERNAME"), ("VRM", "VEHICLE_REGISTRATION"), ("ZIPCODE", "POSTAL_CODE")])

/-- Model-specific metadata, independent of the adapter that runs the model. -/
structure NerProfile extends ModelProfile where
  kind : ModelKind
  languages : List String
  upstream : String
  revision : Option String := none
  label_mapping : OrderedDict String String := .empty
  tokenizer_sha256 : OrderedDict String String := .empty

def spacy_profile (language model : String) : NerProfile where
  kind := .spacy
  languages := [language]
  upstream := model
  revision := some "3.8.0"
  label_mapping := .ofList [("PER", "PERSON_NAME"), ("PERSON", "PERSON_NAME"), ("LOC", "CITY"), ("GPE", "CITY")]
  max_characters := 900000
  overlap_characters := 10000

def kserve_profile (language : String) (label_mapping : OrderedDict String String) : NerProfile where
  kind := .remote .kserve
  languages := [language]
  upstream := ((KSERVE_MODEL_PINS.lookup language).map Prod.fst).getD ""
  revision := (KSERVE_MODEL_PINS.lookup language).map Prod.snd
  label_mapping := label_mapping
  tokenizer_sha256 := (KSERVE_TOKENIZER_SHA256.lookup language).getD .empty
  max_tokens := some 512

def PRIVATE_LABEL_MAPPING : OrderedDict String String := .ofList [("PRIVATE", "PRIVATE")]

def PROFILES : List (String × NerProfile) := [
  ("spacy-en-sm-v1", spacy_profile "en" "en_core_web_sm"),
  ("spacy-de-sm-v1", spacy_profile "de" "de_core_news_sm"),
  ("spacy-nl-sm-v1", spacy_profile "nl" "nl_core_news_sm"),
  ("gliner-multilingual-pii-v1", {
    kind := .remote .gliner, languages := ["en", "de"], upstream := "urchade/gliner_multi_pii-v1",
    label_mapping := GLINER_LABEL_MAPPING, max_tokens := some 512 }),
  ("kserve-en-openpii-v1", kserve_profile "en" PRIVATE_LABEL_MAPPING),
  ("kserve-de-superclinical-v1", kserve_profile "de" GERMAN_LABEL_MAPPING)]

/-- The parts of an address that `urlsplit` yields. -/
structure UrlParts where
  scheme : String
  hostname : Option String
  username : Option String
  password : Option String
  query : String
  fragment : String
  path : String

/-- One endpoint and its explicit label contract, as it is configured. -/
structure RemoteContract where
  name : String
  kind : RemoteKind
  url : String
  model_name : String
  languages : List String
  label_mapping : OrderedDict String String := .empty
  allow_private_http : Bool := false
  tokenizer_path : Option String := none
  tokenizer_sha256 : OrderedDict String String := .empty
  upstream : Option String := none
  revision : Option String := none
  inference_threshold : Option ℚ := none
  profile : Option String := none

/-- A value that is present and not empty. -/
def given (value : Option String) : Bool := value.any (· ≠ "")

/-- `^[a-z][a-z0-9-]{0,63}$` -/
def isModelName (name : String) : Bool :=
  match name.toList with
  | [] => false
  | first :: rest => config.isAsciiLower first && name.length ≤ 64 &&
    rest.all fun c => config.isAsciiLower c || config.isAsciiDigit c || c == '-'

namespace RemoteContract
variable (urlsplit : String → Option UrlParts)

/-- The endpoint as the detection code sees it. -/
def model (self : RemoteContract) : RemoteModel where
  name := self.name
  model_name := self.model_name
  label_mapping := self.label_mapping
  profile := (self.profile.bind fun name => PROFILES.lookup name).map NerProfile.toModelProfile

/-- Compare an endpoint that names a profile with it. -/
def check_profile (self : RemoteContract) : Except AnalysisError Unit :=
  match self.profile with
  | none => pure ()
  | some name =>
    match PROFILES.lookup name with
    | none => throw (.value_error "remote model does not match its reviewed profile")
    | some profile =>
      raiseIf (ModelKind.remote self.kind ≠ profile.kind ∨ self.languages ≠ profile.languages ∨
          self.upstream ≠ some profile.upstream ∨ (profile.revision ≠ none ∧ self.revision ≠ profile.revision) ∨
          self.label_mapping.sameItems profile.label_mapping = false ∨
          self.tokenizer_sha256.sameItems profile.tokenizer_sha256 = false)
        (.value_error "remote model does not match its reviewed profile")

/-- Pin a KServe model that names no profile. -/
def pin_kserve (self : RemoteContract) : Except AnalysisError RemoteContract := do
  let [language] := self.languages | throw (.value_error "KServe requires one supported English or German model")
  let some (upstream, revision) := KSERVE_MODEL_PINS.lookup language
    | throw (.value_error "KServe requires one supported English or German model")
  raiseIf (orDefault self.upstream upstream ≠ upstream ∨ orDefault self.revision revision ≠ revision)
    (.value_error "KServe model must match its supported immutable pin")
  let digests := if self.tokenizer_sha256.items = [] then (KSERVE_TOKENIZER_SHA256.lookup language).getD .empty
    else self.tokenizer_sha256
  pure { self with upstream := some upstream, revision := some revision, tokenizer_sha256 := digests }

def pinned (self : RemoteContract) : Except AnalysisError RemoteContract :=
  if self.kind = .kserve ∧ self.profile = none then self.pin_kserve else pure self

/-- An endpoint without a label mapping takes the one of its kind and languages. -/
def mapped (self : RemoteContract) : RemoteContract :=
  if self.label_mapping.items = [] then
    { self with label_mapping := match self.kind with
      | .gliner => GLINER_LABEL_MAPPING
      | .kserve => if self.languages = ["en"] then PRIVATE_LABEL_MAPPING else GERMAN_LABEL_MAPPING }
  else self

def apply_profile (self : RemoteContract) : Except AnalysisError RemoteContract := do
  self.check_profile
  let pinned ← self.pinned
  let result := pinned.mapped
  raiseIf (∃ target ∈ result.label_mapping.get? "PRIVATE", target ≠ "PRIVATE")
    (.value_error "PRIVATE must remain an independent policy entity")
  pure result

def validate_url (self : RemoteContract) : Except AnalysisError Unit := do
  let some url := urlsplit self.url
    | throw (.value_error "remote endpoint requires HTTPS or explicit private HTTP approval")
  raiseIf (url.scheme ∉ ["http", "https"] ∨ given url.hostname = false ∨ given url.username ∨ given url.password ∨
      url.query ≠ "" ∨ url.fragment ≠ "" ∨ (url.scheme = "http" ∧ ¬ self.allow_private_http))
    (.value_error "remote endpoint requires HTTPS or explicit private HTTP approval")
  let expected := match self.kind with
    | .gliner => "/extract"
    | .kserve => "/v1/models/" ++ self.model_name ++ ":predict"
  raiseIf (url.path ≠ expected) (.value_error "remote endpoint path does not match its protocol and model")

/-- Reject ambiguous endpoints, entities and incomplete tokenizer pins. -/
def validate_contract (self : RemoteContract) : Except AnalysisError RemoteContract := do
  raiseIf (isModelName self.name = false ∨ isModelName self.model_name = false ∨ 2048 < self.url.length ∨
      self.languages = [] ∨ ¬ self.languages ⊆ ["en", "de", "nl"] ∨ 100 < self.label_mapping.items.length ∨
      ∃ threshold ∈ self.inference_threshold, ¬ (0 ≤ threshold ∧ threshold ≤ 1))
    (.validation_error "RemoteModel" "invalid field")
  let self ← self.apply_profile
  self.validate_url urlsplit
  raiseIf (¬ self.languages.Nodup) (.value_error "remote model languages are duplicated")
  raiseIf (self.kind = .gliner ∧ self.inference_threshold = none)
    (.value_error "GLiNER requires its configured server-side detection threshold")
  raiseIf (∃ value ∈ self.label_mapping.values, value ∉ ENTITY_CATALOG)
    (.value_error "remote label mapping selects an unknown policy entity")
  raiseIf (self.kind = .kserve ∧ (self.tokenizer_path = none ∨ self.tokenizer_sha256.items = []))
    (.value_error "KServe requires an exact offline tokenizer and file digest pins")
  pure self

end RemoteContract

/-- One multilingual service or independently configured language services. -/
def remote_config (models : List RemoteContract) : Except AnalysisError (List RemoteContract) := do
  raiseIf (¬ (1 ≤ models.length ∧ models.length ≤ 3)) (.validation_error "RemoteConfig" "invalid field")
  raiseIf (¬ (models.map (·.name)).Nodup) (.value_error "remote model names are duplicated")
  pure models

end pii_engine.ner
