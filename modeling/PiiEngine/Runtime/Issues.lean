import Mathlib.Data.List.DropRight
import PiiEngine.Config.Policy
import PiiEngine.Requests.Legacy

open checked collections
open pii_engine.config pii_engine.request_segments

namespace pii_engine.runtime

def MAX_EVALUATION_ISSUES : Nat := 128

def POLICY_PATH_COMPONENTS : List String := [
  "pii", "attachments", "faces", "safety", "classifier", "session", "notice", "routing", "debug", "logFormat",
  "analyzerLanguages", "scoreThreshold", "timeout", "defaultAction", "defaultOperator", "analyzerEntities",
  "maskOnReroute", "hashWindowHours", "entityPolicies", "enabled", "custom", "defaultClass", "classes", "policy",
  "type", "masking_char", "chars_to_mask", "from_end", "new_value", "entityType", "action", "patterns", "routeClass",
  "hash_type", "name", "pattern", "message", "ttlHours", "rerouted", "masked", "showWhenNoPiiDetected",
  "defaultTarget", "targets", "classPrefix"]

inductive EvaluationIssueStage where
  | schema
  | merge
  | compile
  deriving DecidableEq

/-- A part of the location of a validation error. -/
inductive LocationPart where
  | key (name : String)
  | index (n : Int)
  deriving DecidableEq

/-- One entry of `exc.errors()`. -/
structure ErrorDetails where
  loc : List LocationPart
  type : Text

/-- The class `[a-z0-9]`. -/
def isCodeCharacter (c : Char) : Bool := isAsciiLower c || isAsciiDigit c

/-- `^[a-z][a-z0-9_]*$` -/
def isIssueCode : Text → Bool
  | [] => false
  | first :: rest => isAsciiLower first && rest.all fun c => isCodeCharacter c || c == '_'

/-- Describe one sanitized candidate failure without rejected values. -/
structure PolicyEvaluationIssue where
  stage : EvaluationIssueStage
  path : List PathPart
  code : Text
  message : String
  path_ok : path.length ≤ 16 ∧ ∀ part ∈ path, part.Accepted
  code_ok : isIssueCode code = true ∧ code.length ≤ 64
  message_ok : 1 ≤ message.length ∧ message.length ≤ 256

def PolicyEvaluationIssue.validate (stage : EvaluationIssueStage) (path : List PathPart) (code : Text)
    (message : String) :
    Except AnalysisError PolicyEvaluationIssue :=
  if hpath : path.length ≤ 16 ∧ ∀ part ∈ path, part.Accepted then
    if hcode : isIssueCode code = true ∧ code.length ≤ 64 then
      if hmessage : 1 ≤ message.length ∧ message.length ≤ 256 then
        .ok ⟨stage, path, code, message, hpath, hcode, hmessage⟩
      else .error (.validation_error "PolicyEvaluationIssue" "message")
    else .error (.validation_error "PolicyEvaluationIssue" "code")
  else .error (.validation_error "PolicyEvaluationIssue" "path")

/-- The sanitized issues of a candidate that could not be evaluated. -/
structure PolicyEvaluationResult where
  issues : List PolicyEvaluationIssue
  issues_truncated : Bool

def issue_part : LocationPart → PathPart
  | .index n => .index (min (max n 0) 10000000).toNat
  | .key name => if name ∈ POLICY_PATH_COMPONENTS then .key name else .key "field"

/-- Expose only recognized field names and bounded list indexes. -/
def safe_issue_path (location : List LocationPart) : List PathPart := (location.take 16).map issue_part

def code_character (c : Char) : Char := if isCodeCharacter c then c else '_'

/-- `text.strip("_")` -/
def strip_underscores (text : Text) : Text := (text.dropWhile (· == '_')).rdropWhile (· == '_')

section code
variable (lower : Text → Text)

/-- Normalize a Pydantic error type into the bounded stable code grammar. How `str.lower` maps a
    text is given. -/
def safe_issue_code (error_type : Text) : Text :=
  let normalized := strip_underscores ((lower error_type).map code_character)
  (if normalized = [] then "invalid_policy".toList else normalized).take 64

/-- Return a fixed safe explanation for common candidate schema failures. -/
def issue_message (error_type : Text) : String :=
  if error_type = "extra_forbidden".toList then "Field is not allowed."
  else if error_type = "missing".toList then "Required field is missing."
  else if "too_long".toList <:+: error_type then "Value exceeds the allowed size."
  else "Policy field is invalid."

/-- Convert Pydantic errors to fixed messages without input or context. -/
def invalid_evaluation (stage : EvaluationIssueStage) (errors : List ErrorDetails) :
    Except AnalysisError PolicyEvaluationResult := do
  let issues ← (errors.take MAX_EVALUATION_ISSUES).mapM fun error =>
    PolicyEvaluationIssue.validate stage (safe_issue_path error.loc) (safe_issue_code lower error.type)
      (issue_message error.type)
  pure { issues, issues_truncated := MAX_EVALUATION_ISSUES < errors.length }

/-- The first character of an error type that its code keeps is a digit. -/
def DigitFirst (error_type : Text) : Prop :=
  ∃ c, (lower error_type).find? isCodeCharacter = some c ∧ isAsciiDigit c = true

end code

/-- A part of a path that tells nothing of the candidate: an index, a field of the policy or
    a stand-in. -/
def FromVocabulary : PathPart → Prop
  | .index _ => True
  | .key name => name ∈ POLICY_PATH_COMPONENTS ∨ name = "field"

def ISSUE_MESSAGES : List String :=
  ["Field is not allowed.", "Required field is missing.", "Value exceeds the allowed size.", "Policy field is invalid."]

theorem components_accepted : ∀ name ∈ POLICY_PATH_COMPONENTS, (PathPart.key name).Accepted := by decide

theorem issue_part_accepted (part : LocationPart) : (issue_part part).Accepted := by
  cases part with
  | index n =>
    change (min (max n 0) 10000000).toNat ≤ 10000000
    omega
  | key name =>
    rw [issue_part]
    split
    case isTrue hmem => exact components_accepted name hmem
    case isFalse => decide

theorem issue_part_vocabulary (part : LocationPart) : FromVocabulary (issue_part part) := by
  cases part with
  | index n => trivial
  | key name =>
    rw [issue_part]
    split
    case isTrue hmem => exact Or.inl hmem
    case isFalse => exact Or.inr rfl

theorem safe_issue_path_ok (location : List LocationPart) :
    (safe_issue_path location).length ≤ 16 ∧ ∀ part ∈ safe_issue_path location, part.Accepted := by
  rw [safe_issue_path, List.length_map]
  exact ⟨List.length_take_le 16 location, List.forall_mem_map.mpr fun part _ => issue_part_accepted part⟩

theorem issue_message_mem (error_type : Text) : issue_message error_type ∈ ISSUE_MESSAGES := by
  unfold issue_message
  split
  · decide
  · split
    · decide
    · split <;> decide

theorem issue_messages_ok : ∀ message ∈ ISSUE_MESSAGES, 1 ≤ message.length ∧ message.length ≤ 256 := by decide

theorem not_isAsciiDigit_of_isAsciiLower {c : Char} (h : isAsciiLower c = true) : isAsciiDigit c = false := by
  simp only [isAsciiLower, Bool.and_eq_true, decide_eq_true_eq] at h
  simp only [isAsciiDigit, Bool.and_eq_false_iff, decide_eq_false_iff_not]
  exact Or.inr fun hle => absurd (h.1.trans hle) (by decide)

theorem underscore_not_kept {c : Char} (h : isCodeCharacter c = true) : c ≠ '_' := by
  rintro rfl
  exact absurd h (by decide)

theorem code_character_eq_underscore (c : Char) : (code_character c == '_') = !isCodeCharacter c := by
  rw [code_character]
  cases hcode : isCodeCharacter c with
  | true => simpa using underscore_not_kept hcode
  | false => rfl

/-- Every character of a normalized type is in the grammar. -/
theorem code_character_ok (c : Char) : (isCodeCharacter (code_character c) || code_character c == '_') = true := by
  rw [code_character]
  cases hcode : isCodeCharacter c with
  | true => simp [hcode]
  | false => rfl

section code
variable {lower : Text → Text} {error_type : Text}

/-- A type without letters and digits normalizes to nothing, any other to a text that starts
    with the first of them. -/
theorem strip_normalized (text : Text) :
    (text.find? isCodeCharacter = none ∧ strip_underscores (text.map code_character) = []) ∨
      ∃ c rest, text.find? isCodeCharacter = some c ∧ strip_underscores (text.map code_character) = c :: rest ∧
        ∀ other ∈ rest, (isCodeCharacter other || other == '_') = true := by
  have hstripped : (text.map code_character).dropWhile (· == '_') =
      (text.dropWhile fun c => !isCodeCharacter c).map code_character := by
    rw [List.dropWhile_map]
    congr 2
    funext c
    exact code_character_eq_underscore c
  have hfind := text.find?_eq_head?_dropWhile_not isCodeCharacter
  rw [strip_underscores, hstripped]
  cases hkept : text.dropWhile fun c => !isCodeCharacter c with
  | nil =>
    rw [hkept] at hfind
    exact Or.inl ⟨hfind, rfl⟩
  | cons c kept =>
    rw [hkept, List.head?_cons] at hfind
    have hcode : isCodeCharacter c = true := List.find?_some hfind
    have hsame : code_character c = c := if_pos hcode
    rw [List.map_cons, hsame]
    obtain ⟨suffix, hprefix⟩ := List.rdropWhile_prefix (· == '_') (c :: kept.map code_character)
    cases hresult : (c :: kept.map code_character).rdropWhile (· == '_') with
    | nil =>
      have hall := List.rdropWhile_eq_nil_iff.mp hresult c List.mem_cons_self
      exact absurd (beq_iff_eq.mp hall) (underscore_not_kept hcode)
    | cons first rest =>
      rw [hresult, List.cons_append, List.cons.injEq] at hprefix
      obtain ⟨rfl, hrest⟩ := hprefix
      refine Or.inr ⟨first, rest, hfind, rfl, fun other hother => ?_⟩
      have hmem : other ∈ kept.map code_character := by
        rw [← hrest]
        exact List.mem_append_left suffix hother
      obtain ⟨original, -, rfl⟩ := List.mem_map.mp hmem
      exact code_character_ok original

/-- A code is in its grammar unless the type's first letter or digit is a digit. -/
theorem safe_issue_code_ok_iff : (isIssueCode (safe_issue_code lower error_type) = true ∧
    (safe_issue_code lower error_type).length ≤ 64) ↔ ¬ DigitFirst lower error_type := by
  have hlength : (safe_issue_code lower error_type).length ≤ 64 := List.length_take_le 64 _
  rw [and_iff_left hlength, safe_issue_code, DigitFirst]
  cases strip_normalized (lower error_type) with
  | inl hempty =>
    rw [hempty.1, hempty.2, if_pos rfl]
    refine iff_of_true (by decide) ?_
    rintro ⟨c, hnone, -⟩
    cases hnone
  | inr hkept =>
    obtain ⟨c, rest, hfind, hnormalized, hrest⟩ := hkept
    have hcode : isCodeCharacter c = true := List.find?_some hfind
    rw [isCodeCharacter, Bool.or_eq_true] at hcode
    rw [hfind, hnormalized, if_neg (List.cons_ne_nil c rest), List.take_succ_cons, isIssueCode, Bool.and_eq_true,
      and_iff_left (List.all_eq_true.mpr fun other hother => hrest other (List.mem_of_mem_take hother))]
    constructor
    · rintro hlower ⟨other, hsome, hdigit⟩
      cases hsome
      rw [not_isAsciiDigit_of_isAsciiLower hlower] at hdigit
      cases hdigit
    · intro hnot
      exact hcode.resolve_right fun hdigit => hnot ⟨c, rfl, hdigit⟩

end code

/-- An issue stands for an error. -/
structure PolicyEvaluationIssue.Describes (lower : Text → Text) (stage : EvaluationIssueStage) (error : ErrorDetails)
    (issue : PolicyEvaluationIssue) : Prop where
  stage_eq : issue.stage = stage
  path_eq : issue.path = safe_issue_path error.loc
  code_eq : issue.code = safe_issue_code lower error.type
  message_eq : issue.message = issue_message error.type
  path_vocabulary : ∀ part ∈ issue.path, FromVocabulary part
  message_fixed : issue.message ∈ ISSUE_MESSAGES

/-- Parts of locations that agree unless neither is a recognized field. -/
def SamePart (part other : LocationPart) : Prop :=
  part = other ∨ ∃ name name', part = .key name ∧ other = .key name' ∧ name ∉ POLICY_PATH_COMPONENTS ∧
    name' ∉ POLICY_PATH_COMPONENTS

/-- Errors that differ in unrecognized location strings alone. -/
def SameError (error other : ErrorDetails) : Prop :=
  error.type = other.type ∧ List.Forall₂ SamePart error.loc other.loc

theorem issue_part_eq {part other : LocationPart} (h : SamePart part other) : issue_part part = issue_part other := by
  obtain rfl | ⟨name, name', rfl, rfl, hname, hname'⟩ := h
  · rfl
  · rw [issue_part, issue_part, if_neg hname, if_neg hname']

theorem safe_issue_path_eq {location other : List LocationPart} (h : List.Forall₂ SamePart location other) :
    safe_issue_path location = safe_issue_path other := by
  have hparts : location.map issue_part = other.map issue_part := by
    induction h with
    | nil => rfl
    | cons hpart _ ih => rw [List.map_cons, List.map_cons, issue_part_eq hpart, ih]
  rw [safe_issue_path, safe_issue_path, List.map_take, List.map_take, hparts]

section evaluation
variable {lower : Text → Text} {stage : EvaluationIssueStage} {errors : List ErrorDetails}

theorem validate_issue_ok {error : ErrorDetails} (h : ¬ DigitFirst lower error.type) :
    ∃ issue, PolicyEvaluationIssue.validate stage (safe_issue_path error.loc) (safe_issue_code lower error.type)
      (issue_message error.type) = .ok issue ∧ issue.Describes lower stage error := by
  have hpath := safe_issue_path_ok error.loc
  have hcode := safe_issue_code_ok_iff.mpr h
  have hmem := issue_message_mem error.type
  have hmessage := issue_messages_ok _ hmem
  refine ⟨⟨stage, _, _, _, hpath, hcode, hmessage⟩, ?_, rfl, rfl, rfl, rfl, ?_, hmem⟩
  · rw [PolicyEvaluationIssue.validate, dif_pos hpath, dif_pos hcode, dif_pos hmessage]
  · exact List.forall_mem_map.mpr fun part _ => issue_part_vocabulary part

theorem validate_issue_error {error : ErrorDetails} (h : DigitFirst lower error.type) :
    PolicyEvaluationIssue.validate stage (safe_issue_path error.loc) (safe_issue_code lower error.type)
      (issue_message error.type) = .error (.validation_error "PolicyEvaluationIssue" "code") := by
  rw [PolicyEvaluationIssue.validate, dif_pos (safe_issue_path_ok error.loc),
    dif_neg fun hcode => safe_issue_code_ok_iff.mp hcode h]

theorem validate_issue_describes {error : ErrorDetails} {issue : PolicyEvaluationIssue}
    (h : PolicyEvaluationIssue.validate stage (safe_issue_path error.loc) (safe_issue_code lower error.type)
      (issue_message error.type) = .ok issue) : issue.Describes lower stage error := by
  by_cases hdigit : DigitFirst lower error.type
  · rw [validate_issue_error hdigit] at h
    cases h
  · obtain ⟨described, hdescribed, hdescribes⟩ := @validate_issue_ok lower stage error hdigit
    rw [h] at hdescribed
    cases hdescribed
    exact hdescribes

/-- Errors that differ in unrecognized location strings alone are reported alike. -/
theorem invalid_evaluation_congr {others : List ErrorDetails} (h : List.Forall₂ SameError errors others) :
    invalid_evaluation lower stage errors = invalid_evaluation lower stage others := by
  have hissues : (errors.take MAX_EVALUATION_ISSUES).mapM (fun error =>
      PolicyEvaluationIssue.validate stage (safe_issue_path error.loc) (safe_issue_code lower error.type)
        (issue_message error.type)) =
      (others.take MAX_EVALUATION_ISSUES).mapM fun error =>
        PolicyEvaluationIssue.validate stage (safe_issue_path error.loc) (safe_issue_code lower error.type)
          (issue_message error.type) := by
    generalize MAX_EVALUATION_ISSUES = count
    induction h generalizing count with
    | nil => rfl
    | @cons error other errors others hsame _ ih =>
      obtain ⟨htype, hlocation⟩ := hsame
      cases count with
      | zero => rfl
      | succ count =>
        rw [List.take_succ_cons, List.take_succ_cons, List.mapM_cons, List.mapM_cons, ih count,
          safe_issue_path_eq hlocation, htype]
  rw [invalid_evaluation, invalid_evaluation, hissues, h.length_eq]

/-- Candidate errors are always reported, in order and up to the limit, without what the
    candidate says, exactly when no reported type starts with a digit. -/
theorem invalid_evaluation_reports_iff (lower : Text → Text) (stage : EvaluationIssueStage)
    (errors : List ErrorDetails) :
    ((∃ result, invalid_evaluation lower stage errors = .ok result ∧
        List.Forall₂ (fun error issue => PolicyEvaluationIssue.Describes lower stage error issue)
          (errors.take MAX_EVALUATION_ISSUES) result.issues ∧
        (result.issues_truncated = true ↔ MAX_EVALUATION_ISSUES < errors.length)) ∧
      ∀ others, List.Forall₂ SameError errors others →
        invalid_evaluation lower stage others = invalid_evaluation lower stage errors) ↔
      ∀ error ∈ errors.take MAX_EVALUATION_ISSUES, ¬ DigitFirst lower error.type := by
  rw [and_iff_left fun others h => (invalid_evaluation_congr h).symm]
  constructor
  · rintro ⟨result, hresult, -⟩ error herror hdigit
    obtain ⟨issues, hissues, -⟩ := bind_eq_ok.mp hresult
    obtain ⟨issue, -, hissue⟩ := exists_right_of_forall₂ (mapM_eq_ok.mp hissues) herror
    rw [validate_issue_error hdigit] at hissue
    cases hissue
  · intro hletters
    obtain ⟨issues, hissues⟩ := mapM_total fun error herror =>
      (@validate_issue_ok lower stage error (hletters error herror)).imp fun _ h => h.1
    exact ⟨⟨issues, decide (MAX_EVALUATION_ISSUES < errors.length)⟩, bind_eq_ok.mpr ⟨issues, hissues, rfl⟩,
      (mapM_eq_ok.mp hissues).imp fun _ _ h => validate_issue_describes h, decide_eq_true_iff⟩

/-- A type that starts with a digit, which the grammar of codes excludes. -/
def digit_error : ErrorDetails := ⟨[.key "pii", .key "timeout"], "2fa_required".toList⟩

theorem invalid_evaluation_rejects_digit : invalid_evaluation (List.map Char.toLower) .schema [digit_error] =
    .error (.validation_error "PolicyEvaluationIssue" "code") := by
  have hdigit : DigitFirst (List.map Char.toLower) digit_error.type := ⟨'2', by decide, by decide⟩
  rw [invalid_evaluation, MAX_EVALUATION_ISSUES, List.take_succ_cons, List.mapM_cons, validate_issue_error hdigit]
  rfl

end evaluation

end pii_engine.runtime
