import PiiEngine.Actions
import PiiEngine.Analyzer
import PiiEngine.Lib.Checked
import PiiEngine.Lib.Slices

open checked slices

namespace pii_engine

/-- The parameters handed to one anonymization operator. -/
structure OperatorArguments where
  new_value : Option Text := none
  masking_char : Option Char := none
  chars_to_mask : Option Nat := none
  from_end : Option Bool := none
  deriving DecidableEq

/-- One ordinary transformation of one positioned span. -/
structure Anonymizer where
  apply : Text → EntityMatch → PIIAction → OperatorArguments → Except AnalysisError Text

/-- The operators rewrite nothing outside the given span. What they write depends on the
    operator, its arguments, the entity type and the original value, and on a salt that
    stands for the randomness an encryption draws. -/
def Anonymizer.RewritesSpan (anonymizer : Anonymizer)
    (operate : Nat → String → PIIAction → OperatorArguments → Text → Text) : Prop :=
  ∀ text item action arguments output, item.SpanWithin text.length →
    anonymizer.apply text item action arguments = .ok output →
    ∃ salt, output = text.take item.start.toNat ++
      operate salt item.entity_type action arguments ((text.take item.stop.toNat).drop item.start.toNat) ++
      text.drop item.stop.toNat

/-- HMAC-SHA-256 under the engine's key, as lowercase hexadecimal digits. -/
structure KeyedHash where
  hexdigest : Text → Text
  length_hexdigest : ∀ message, (hexdigest message).length = 64
  isHexDigit_hexdigest : ∀ message, ∀ c ∈ hexdigest message, isHexDigit c

/-- The least significant hexadecimal digits of a number. -/
def hexDigits (count n : Nat) : Text := (List.range count).map fun i => Nat.digitChar (n / 16 ^ i % 16)

theorem isHexDigit_digitChar {digit : Nat} (h : digit < 16) : isHexDigit (Nat.digitChar digit) := by
  revert digit
  decide

/-- A checksum in the place of the keyed hash, to evaluate the model with. -/
def KeyedHash.checksum : KeyedHash where
  hexdigest message := hexDigits 64 (message.foldl (fun sum c => (sum * 65599 + c.toNat) % 2 ^ 256) 7)
  length_hexdigest message := by simp [hexDigits]
  isHexDigit_hexdigest message c hc := by
    obtain ⟨i, -, rfl⟩ := List.mem_map.mp hc
    exact isHexDigit_digitChar (Nat.mod_lt _ (by decide))

namespace test_anonymizer

def hexOfByte (byte : UInt8) : Text :=
  [Nat.digitChar (byte.toNat / 16), Nat.digitChar (byte.toNat % 16)]

/-- `original.encode().hex()` -/
def hexEncode (original : Text) : Text :=
  original.flatMap fun c => (String.utf8EncodeChar c).flatMap hexOfByte

/-- The operator equivalent of the explicit unit-test runtime. -/
def replacement (entity_type : String) (action : PIIAction) (arguments : OperatorArguments) (original : Text) :
    Except AnalysisError Text :=
  match action with
  | .mask =>
    let character := arguments.masking_char.getD '*'
    let count := min (arguments.chars_to_mask.getD original.length) original.length
    let masked := List.replicate count character
    .ok (if arguments.from_end.getD true then sliceTo original (-(count : Int)) ++ masked
      else masked ++ sliceFrom original count)
  | .replace => .ok (arguments.new_value.getD s!"<{entity_type}>".toList)
  | .redact => .ok []
  | .encrypt => .ok (hexEncode original)
  | _ => .error (.value_error s!"unsupported anonymizer action: {action.name}")

def apply (text : Text) (item : EntityMatch) (action : PIIAction) (arguments : OperatorArguments) :
    Except AnalysisError Text :=
  (replacement item.entity_type action arguments (slice text item.start item.stop)).map fun replacement =>
    sliceTo text item.start ++ replacement ++ sliceFrom text item.stop

/-- What the operators write. They draw no randomness. -/
def operate (_salt : Nat) (entity_type : String) (action : PIIAction) (arguments : OperatorArguments)
    (original : Text) : Text :=
  match replacement entity_type action arguments original with
  | .ok written => written
  | .error _ => original

theorem digitChar_injective : ∀ a b : Fin 16, Nat.digitChar a.val = Nat.digitChar b.val → a = b := by decide

theorem hexOfByte_injective {a b : UInt8} (h : hexOfByte a = hexOfByte b) : a = b := by
  have ha := UInt8.toNat_lt a
  have hb := UInt8.toNat_lt b
  simp only [hexOfByte, List.cons.injEq, and_true] at h
  have hhigh := digitChar_injective ⟨a.toNat / 16, by omega⟩ ⟨b.toNat / 16, by omega⟩ h.1
  have hlow := digitChar_injective ⟨a.toNat % 16, by omega⟩ ⟨b.toNat % 16, by omega⟩ h.2
  apply UInt8.toNat_inj.mp
  simp only [Fin.mk.injEq] at hhigh hlow
  omega

theorem hexBytes_injective {first second : List UInt8} (h : first.flatMap hexOfByte = second.flatMap hexOfByte) :
    first = second := by
  induction first generalizing second with
  | nil =>
    cases second with
    | nil => rfl
    | cons b second => simp [hexOfByte] at h
  | cons a first ih =>
    cases second with
    | nil => simp [hexOfByte] at h
    | cons b second =>
      rw [List.flatMap_cons, List.flatMap_cons] at h
      obtain ⟨hbyte, hrest⟩ := List.append_inj h rfl
      rw [hexOfByte_injective hbyte, ih hrest]

/-- The hexadecimal digits of a text's bytes determine the text. -/
theorem hexEncode_injective : Function.Injective hexEncode := by
  intro first second h
  rw [hexEncode, hexEncode, ← List.flatMap_assoc, ← List.flatMap_assoc] at h
  have hbytes : first.utf8Encode = second.utf8Encode := by
    rw [List.utf8Encode, List.utf8Encode, hexBytes_injective h]
  have hdecoded := List.utf8Decode?_utf8Encode (l := first)
  rw [hbytes, List.utf8Decode?_utf8Encode] at hdecoded
  simpa using (Option.some.inj hdecoded).symm
end test_anonymizer

def TestAnonymizer : Anonymizer := ⟨test_anonymizer.apply⟩

theorem TestAnonymizer_rewritesSpan : TestAnonymizer.RewritesSpan test_anonymizer.operate := by
  intro text item action arguments output hspan h
  obtain ⟨hstart, hlt, hstop⟩ := hspan
  obtain ⟨written, hwritten, rfl⟩ := map_eq_ok.mp h
  refine ⟨0, ?_⟩
  rw [slice_eq hstart (by omega) hstop] at hwritten
  rw [test_anonymizer.operate, hwritten, sliceTo_eq hstart (by omega), sliceFrom_eq (by omega) hstop]

end pii_engine
