import Mathlib.Data.List.Infix
import PiiEngine.Lib.Collections

open collections

namespace pii_engine

/-- A text is its sequence of code points. -/
abbrev Text := List Char

namespace Text

/-- `"\n".join(texts)` -/
def joinLines (texts : List Text) : Text := List.intercalate ['\n'] texts

/-- A word on one line stands in one of the lines. -/
theorem infix_joinLines_iff {word : Text} {texts : List Text} (hline : '\n' ∉ word) (hne : word ≠ []) :
    word <:+: joinLines texts ↔ ∃ text ∈ texts, word <:+: text :=
  infix_intercalate_iff hline hne

/-- `text.replace(pattern, replacement)`, leftmost first and without overlaps. The count
    of characters still to skip carries the recursion past a replaced pattern. -/
def replaceAll (pattern replacement : Text) : Nat → Text → Text
  | _, [] => []
  | skip + 1, _ :: rest => replaceAll pattern replacement skip rest
  | 0, c :: rest =>
    if pattern <+: c :: rest then replacement ++ replaceAll pattern replacement (pattern.length - 1) rest
    else c :: replaceAll pattern replacement 0 rest

def ofNat (n : Nat) : Text := n.repr.toList

theorem ofNat_injective : Function.Injective ofNat := by
  intro first second h
  rw [ofNat, ofNat, Nat.toList_repr, Nat.toList_repr] at h
  rw [← Nat.ofDigitChars_ten_toDigits (n := first), h, Nat.ofDigitChars_ten_toDigits]

theorem isDigit_of_mem_ofNat {n : Nat} {c : Char} (h : c ∈ ofNat n) : c.isDigit = true := by
  rw [ofNat, Nat.toList_repr] at h
  exact Nat.isDigit_of_mem_toDigits (by decide) (by decide) h

theorem ofNat_ne_nil (n : Nat) : ofNat n ≠ [] := by
  simp [ofNat]

theorem colon_not_mem_ofNat (n : Nat) : ':' ∉ ofNat n :=
  fun h => absurd (isDigit_of_mem_ofNat h) (by decide)

end Text

def isHexDigit (c : Char) : Bool := ('0' ≤ c && c ≤ '9') || ('a' ≤ c && c ≤ 'f')

/-- `value or fallback`: an empty string counts as missing. -/
def orDefault (value : Option String) (fallback : String) : String :=
  match value with
  | some text => if text = "" then fallback else text
  | none => fallback

theorem orDefault_ne_empty {value : Option String} {fallback : String} (h : fallback ≠ "") :
    orDefault value fallback ≠ "" := by
  unfold orDefault
  split
  · split
    · exact h
    · next hne => exact hne
  · exact h

end pii_engine
