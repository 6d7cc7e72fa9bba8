import Mathlib.Algebra.Order.Ring.Rat
import PiiEngine.Errors
import PiiEngine.Lib.Intervals.Sweep
import PiiEngine.Text

open intervals

namespace pii_engine

/-- One detection of the analyzer or of a policy expression. A score that is not a
    finite number is `none`. -/
structure EntityMatch where
  entity_type : String
  start : Int
  stop : Int
  score : Option ℚ
  source : String
  deriving DecidableEq

namespace EntityMatch

/-- The match covers at least one character and lies within the text. -/
def SpanWithin (text_length : Nat) (item : EntityMatch) : Prop :=
  0 ≤ item.start ∧ item.start < item.stop ∧ item.stop ≤ text_length

/-- The score is finite and between zero and one. -/
def ScoreValid (item : EntityMatch) : Prop := ∃ score, item.score = some score ∧ 0 ≤ score ∧ score ≤ 1

instance (text_length : Nat) (item : EntityMatch) : Decidable (item.SpanWithin text_length) :=
  inferInstanceAs (Decidable (_ ∧ _ ∧ _))

instance (item : EntityMatch) : Decidable item.ScoreValid :=
  match h : item.score with
  | none => isFalse fun ⟨_, hsome, _⟩ => by simp [h] at hsome
  | some score =>
    if hscore : 0 ≤ score ∧ score ≤ 1 then isTrue ⟨score, h, hscore⟩
    else isFalse fun ⟨other, hsome, hother⟩ => by
      rw [h, Option.some.injEq] at hsome
      exact hscore (hsome ▸ hother)

/-- A detection that the planner accepts for a text of the given length. -/
def Valid (text_length : Nat) (item : EntityMatch) : Prop :=
  item.SpanWithin text_length ∧ item.ScoreValid

instance (text_length : Nat) (item : EntityMatch) : Decidable (item.Valid text_length) :=
  inferInstanceAs (Decidable (_ ∧ _))

/-- The span of a match lies inside the span of a region. -/
def Inside (item region : EntityMatch) : Prop := region.start ≤ item.start ∧ item.stop ≤ region.stop

instance (item region : EntityMatch) : Decidable (item.Inside region) := inferInstanceAs (Decidable (_ ∧ _))

/-- The characters a match covers. -/
def spans : Interval EntityMatch Int := ⟨EntityMatch.start, EntityMatch.stop⟩

end EntityMatch

end pii_engine
