import PiiEngine.Config.Policy
import PiiEngine.Errors
import PiiEngine.Lib.Checked

open checked
open pii_engine.config

namespace pii_engine

/-- The actions a report can name: those of the registry and the visual `text-only`. -/
inductive ReportAction where
  | pii (action : PIIAction)
  | text_only
  deriving DecidableEq, Repr

namespace ReportAction

def name : ReportAction → String
  | pii action => action.name
  | text_only => "text-only"

theorem name_injective : Function.Injective name := by
  intro first second h
  cases first with
  | text_only =>
    cases second with
    | text_only => rfl
    | pii second => cases second <;> exact absurd h (by decide)
  | pii first =>
    cases second with
    | text_only => cases first <;> exact absurd h (by decide)
    | pii second => rw [PIIAction.name_injective h]

end ReportAction

namespace report_row

def face_actions : List ReportAction := [.pii .block, .text_only, .pii .reroute]

/-- The field constraints and the count rules of a report row. -/
def validate (entity_type : String) (action : ReportAction)
    (detected_count transformed_count unique_transformed_count : Nat) : Except AnalysisError Unit := do
  raiseIf (isEntityType entity_type = false) (.validation_error "PIIReportRow" "entity_type")
  raiseIf (detected_count < 1 ∨ detected_count > 10000000)
    (.validation_error "PIIReportRow" "detected_count")
  raiseIf (transformed_count > 10000000) (.validation_error "PIIReportRow" "transformed_count")
  raiseIf (unique_transformed_count > 10000000)
    (.validation_error "PIIReportRow" "unique_transformed_count")
  raiseIf (entity_type = "FACE" ∧ (action ∉ face_actions ∨ transformed_count ≠ 0))
    (.validation_error "PIIReportRow" "FACE rows require a visual action without transformations")
  raiseIf (entity_type ≠ "FACE" ∧ action = .text_only)
    (.validation_error "PIIReportRow" "text-only is reserved for FACE rows")
  raiseIf (transformed_count > detected_count)
    (.validation_error "PIIReportRow" "transformed_count cannot exceed detected_count")
  raiseIf (unique_transformed_count > transformed_count)
    (.validation_error "PIIReportRow" "unique_transformed_count cannot exceed transformed_count")
  raiseIf ((action = .pii .pass ∨ action = .pii .block) ∧ transformed_count ≠ 0)
    (.validation_error "PIIReportRow" "pass and block rows cannot claim transformations")

end report_row

/-- One entity action of a report. A row that its validator rejects cannot be built. -/
structure PIIReportRow where
  entity_type : String
  action : ReportAction
  detected_count : Nat
  transformed_count : Nat
  unique_transformed_count : Nat
  validated : report_row.validate entity_type action detected_count transformed_count
    unique_transformed_count = .ok () := by decide
  deriving DecidableEq

namespace PIIReportRow

def create (entity_type : String) (action : ReportAction)
    (detected_count transformed_count unique_transformed_count : Nat) : Except AnalysisError PIIReportRow :=
  match h : report_row.validate entity_type action detected_count transformed_count
      unique_transformed_count with
  | .ok () => .ok ⟨entity_type, action, detected_count, transformed_count, unique_transformed_count, h⟩
  | .error e => .error e

/-- What every row guarantees. -/
structure Counts (row : PIIReportRow) : Prop where
  entity_type : isEntityType row.entity_type
  detected : 1 ≤ row.detected_count ∧ row.detected_count ≤ 10000000
  face : row.entity_type = "FACE" → row.action ∈ report_row.face_actions ∧ row.transformed_count = 0
  text_only : row.action = .text_only → row.entity_type = "FACE"
  transformed : row.transformed_count ≤ row.detected_count
  unique : row.unique_transformed_count ≤ row.transformed_count
  untouched : row.action = .pii .pass ∨ row.action = .pii .block → row.transformed_count = 0

theorem validate_eq_ok {entity_type : String} {action : ReportAction}
    {detected transformed unique : Nat} :
    report_row.validate entity_type action detected transformed unique = .ok () ↔
      isEntityType entity_type = true ∧ (1 ≤ detected ∧ detected ≤ 10000000) ∧
      (entity_type = "FACE" → action ∈ report_row.face_actions ∧ transformed = 0) ∧
      (action = .text_only → entity_type = "FACE") ∧ transformed ≤ detected ∧ unique ≤ transformed ∧
      (action = .pii .pass ∨ action = .pii .block → transformed = 0) := by
  simp only [report_row.validate, raiseIf_bind_eq_ok, raiseIf_eq_ok, not_and, not_or, not_lt,
    Bool.not_eq_false, not_not, gt_iff_lt]
  constructor
  · rintro ⟨hentity, hdetected, -, -, hface, htext, hle, hunique, huntouched⟩
    refine ⟨hentity, by omega, hface, ?_, hle, hunique, huntouched⟩
    intro haction
    by_contra hne
    exact htext hne haction
  · rintro ⟨hentity, hdetected, hface, htext, hle, hunique, huntouched⟩
    refine ⟨hentity, by omega, by omega, by omega, hface, ?_, hle, hunique, huntouched⟩
    intro hne haction
    exact hne (htext haction)

theorem counts (row : PIIReportRow) : row.Counts := by
  obtain ⟨hentity, hdetected, hface, htext, hle, hunique, huntouched⟩ := validate_eq_ok.mp row.validated
  exact ⟨hentity, hdetected, hface, htext, hle, hunique, huntouched⟩

theorem create_eq_ok {entity_type : String} {action : ReportAction} {detected transformed unique : Nat}
    {row : PIIReportRow} :
    create entity_type action detected transformed unique = .ok row ↔
      row.entity_type = entity_type ∧ row.action = action ∧ row.detected_count = detected ∧
        row.transformed_count = transformed ∧ row.unique_transformed_count = unique := by
  unfold create
  split
  · next h =>
    rw [Except.ok.injEq]
    constructor
    · rintro rfl
      exact ⟨rfl, rfl, rfl, rfl, rfl⟩
    · rintro ⟨rfl, rfl, rfl, rfl, rfl⟩
      rfl
  · next e h =>
    simp only [reduceCtorEq, false_iff]
    rintro ⟨rfl, rfl, rfl, rfl, rfl⟩
    rw [row.validated] at h
    cases h

theorem create_total {entity_type : String} {action : ReportAction} {detected transformed unique : Nat}
    (h : report_row.validate entity_type action detected transformed unique = .ok ()) :
    create entity_type action detected transformed unique =
      .ok ⟨entity_type, action, detected, transformed, unique, h⟩ :=
  create_eq_ok.mpr ⟨rfl, rfl, rfl, rfl, rfl⟩

end PIIReportRow

end pii_engine
