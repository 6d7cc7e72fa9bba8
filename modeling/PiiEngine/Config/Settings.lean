import Mathlib.Tactic.Common

namespace pii_engine.config

/-- The process settings that analysis reads. -/
structure Settings where
  max_text_leaves : Nat := 2000
  max_text_characters : Nat := 4000000
  max_nesting_depth : Nat := 32
  policy_version : String := "v1"
  max_text_leaves_ok : 1 ≤ max_text_leaves := by decide
  max_text_characters_ok : 1 ≤ max_text_characters ∧ max_text_characters ≤ 4000000 := by decide
  max_nesting_depth_ok : 1 ≤ max_nesting_depth ∧ max_nesting_depth ≤ 128 := by decide
  policy_version_ok : 1 ≤ policy_version.length ∧ policy_version.length ≤ 64 := by decide
  deriving DecidableEq

end pii_engine.config
