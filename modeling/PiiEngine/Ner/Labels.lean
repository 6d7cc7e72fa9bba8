import Mathlib.Algebra.Order.Group.Unbundled.Abs
import Mathlib.Data.List.MinMax
import PiiEngine.Lib.Runs
import PiiEngine.Ner.Gliner

open checked collections

namespace pii_engine.ner

/-- `label[2:]` -/
def labelSuffix (label : String) : String := String.ofList (label.toList.drop 2)

/-- `label.startswith("I-")` -/
def startsInside (label : String) : Bool := "I-".toList.isPrefixOf label.toList

/-- The class labels of a tokenizer, as they are checked when it is loaded: each one is `O`
    or names a label that the model maps. -/
structure ClassLabels (model : RemoteModel) where
  labels : OrderedDict String String
  mapped : ∀ label ∈ labels.values, label = "O" ∨
    ((label.toList.take 2 = "B-".toList ∨ label.toList.take 2 = "I-".toList) ∧
      labelSuffix label ∈ model.label_mapping.keys)

def class_probability (value : JsonValue) : Except RemoteError ℚ := do
  let some score ← finite_score value
    | throw (.remote_analysis_error "KServe class probabilities are invalid")
  raiseIf (¬ (0 ≤ score ∧ score ≤ 1)) (.remote_analysis_error "KServe class probabilities are invalid")
  pure score

/-- The first class of the greatest probability. How the floats add up is given. -/
def winning_class (sum : List ℚ → ℚ) (probabilities : JsonValue) (labels : OrderedDict String String) :
    Except RemoteError (String × ℚ) := do
  let .dict entries := probabilities | throw (.remote_analysis_error "KServe class coverage is invalid")
  raiseIf (¬ JsonValue.hasKeys entries labels.keys) (.remote_analysis_error "KServe class coverage is invalid")
  let scores ← entries.mapM fun entry => (class_probability entry.2).map (Prod.mk entry.1)
  raiseIf (max (1 / 100) (labels.items.length * (1 / 10000)) < |sum (scores.map Prod.snd) - 1|)
    (.remote_analysis_error "KServe class probabilities are not normalized")
  match labels.keys.argmax fun key => (scores.lookup key).getD 0 with
  | some winner => pure (winner, (scores.lookup winner).getD 0)
  | none => throw .value_error

/-- The matches of the tokens read so far, and the raw label of the last one. -/
structure Decoded where
  found : List EntityMatch := []
  previous : String := "O"
  deriving DecidableEq

/-- Add the evidence of one token that its label assigns to an entity. -/
def add_evidence (model : RemoteModel) (s : Decoded) (label entity : String) (score : ℚ) (start stop : Nat) :
    Decoded :=
  let created : EntityMatch := ⟨entity, start, stop, some score, model.name⟩
  match s.found.getLast? with
  | some last =>
    if startsInside label ∧ labelSuffix s.previous = labelSuffix label ∧ last.entity_type = entity ∧
        last.stop ≤ start then
      { found := s.found.dropLast ++
          [⟨entity, last.start, stop, some (max (last.score.getD 0) score), model.name⟩]
        previous := label }
    else { found := s.found ++ [created], previous := label }
  | none => { found := s.found ++ [created], previous := label }

def decode_token (sum : List ℚ → ℚ) (text : Text) {model : RemoteModel} (labels : ClassLabels model)
    (s : Decoded) (entry : JsonValue × Nat × Nat) : Except RemoteError Decoded := do
  let (probabilities, start, stop) := entry
  let (class_id, score) ← winning_class sum probabilities labels.labels
  let some label := labels.labels.get? class_id | throw .key_error
  raiseIf (¬ (start ≤ stop ∧ stop ≤ text.length)) (.remote_analysis_error "tokenizer offsets are invalid")
  if start = stop then return { s with previous := "O" }
  if label = "O" then return { s with previous := "O" }
  let some entity := model.label_mapping.get? (labelSuffix label) | throw .key_error
  return add_evidence model s label entity score start stop

/-- Validate every class and token before aggregating BIO evidence. -/
def decode_predictions (sum : List ℚ → ℚ) (value : JsonValue) (text : Text) (offsets : List (Nat × Nat))
    {model : RemoteModel} (labels : ClassLabels model) : Except RemoteError (List EntityMatch) := do
  let .dict entries := value | throw (.remote_analysis_error "KServe response is not an object")
  raiseIf ((entries.lookup "error").isSome) (.remote_analysis_error "KServe response is not an object")
  let some (.list [.list predictions]) := entries.lookup "predictions"
    | throw (.remote_analysis_error "KServe token coverage is incomplete")
  raiseIf (predictions.length ≠ offsets.length)
    (.remote_analysis_error "KServe token coverage is incomplete")
  let s ← (predictions.zip offsets).foldlM (decode_token sum text labels) {}
  pure s.found

/-- A token as its class and its offsets describe it. -/
structure Token where
  label : String
  score : ℚ
  start : Nat
  stop : Nat

namespace Token

/-- The token covers a character and is not labelled `O`. -/
def Labelled (token : Token) : Prop := token.start ≠ token.stop ∧ token.label ≠ "O"

instance (token : Token) : Decidable token.Labelled := inferInstanceAs (Decidable (_ ∧ _))

def suffix (token : Token) : String := labelSuffix token.label

def entity (model : RemoteModel) (token : Token) : String := model.label_mapping.getD token.suffix ""

/-- A token opens a run when it is labelled, unless its label is an inside one and the token
    directly before it is labelled with the same suffix. -/
def opens (previous : Option Token) (token : Token) : Bool :=
  token.Labelled ∧ ¬ (startsInside token.label ∧ ∃ before ∈ previous, before.Labelled ∧ before.suffix = token.suffix)

/-- A token continues the run of another when it is labelled as inside the same suffix. -/
def continues (first token : Token) : Bool :=
  token.Labelled ∧ startsInside token.label ∧ token.suffix = first.suffix

/-- The match of a run: from the start of its first token to the stop of its last one, with
    the greatest score of them. -/
def span (model : RemoteModel) (run : Token × List Token) : EntityMatch where
  entity_type := run.1.entity model
  start := run.1.start
  stop := (run.2.getLast?.getD run.1).stop
  score := some (run.2.foldl (fun best token => max best token.score) run.1.score)
  source := model.name

/-- An inside label without a suffix, which the code takes for the suffix of `O`: the token
    directly before it is not labelled, and the last labelled one has the same entity. -/
def Glued (model : RemoteModel) (done : List Token) (token : Token) : Prop :=
  token.Labelled ∧ startsInside token.label = true ∧ token.suffix = "" ∧
    (∀ before ∈ done.getLast?, ¬ before.Labelled) ∧
    ∃ last ∈ (done.filter (·.Labelled)).getLast?, last.entity model = token.entity model

instance (model : RemoteModel) (done : List Token) (token : Token) : Decidable (Glued model done token) :=
  inferInstanceAs (Decidable (_ ∧ _ ∧ _ ∧ _ ∧ _))

/-- What the loop does with a validated token. -/
def read (model : RemoteModel) (s : Decoded) (token : Token) : Decoded :=
  if token.Labelled then
    add_evidence model s token.label (token.entity model) token.score token.start token.stop
  else { s with previous := "O" }

end Token

/-- The token that the loop makes of a prediction and its offsets. -/
structure Classified (sum : List ℚ → ℚ) {model : RemoteModel} (labels : ClassLabels model)
    (entry : JsonValue × Nat × Nat) (token : Token) : Prop where
  winner : ∃ class_id, winning_class sum entry.1 labels.labels = .ok (class_id, token.score) ∧
    labels.labels.get? class_id = some token.label
  offsets : entry.2 = (token.start, token.stop)

/-- The answer holds one list of predictions. -/
def Predicts (value : JsonValue) (predictions : List JsonValue) : Prop :=
  ∃ entries, value = .dict entries ∧ entries.lookup "predictions" = some (.list [.list predictions])

section decode
variable {sum : List ℚ → ℚ} {text : Text} {model : RemoteModel} {labels : ClassLabels model}

theorem decode_token_eq_ok {s s' : Decoded} {entry : JsonValue × Nat × Nat}
    (h : decode_token sum text labels s entry = .ok s') :
    ∃ token, Classified sum labels entry token ∧ token.start ≤ token.stop ∧ token.stop ≤ text.length ∧
      s' = token.read model s := by
  obtain ⟨probabilities, start, stop⟩ := entry
  unfold decode_token at h
  obtain ⟨⟨class_id, score⟩, hwinner, h⟩ := bind_eq_ok.mp h
  cases hlabel : labels.labels.get? class_id with
  | none =>
    simp only [hlabel] at h
    cases h
  | some label =>
    simp only [hlabel] at h
    obtain ⟨hrange, h⟩ := raiseIf_bind_eq_ok.mp h
    rw [not_not] at hrange
    refine ⟨⟨label, score, start, stop⟩, ⟨⟨class_id, hwinner, hlabel⟩, rfl⟩, hrange.1, hrange.2, ?_⟩
    dsimp only [Token.read, Token.Labelled, Token.entity, Token.suffix, OrderedDict.getD]
    by_cases hempty : start = stop
    · rw [if_pos hempty] at h
      exact (Except.ok.inj h).symm.trans (if_neg fun hlabelled => hlabelled.1 hempty).symm
    · rw [if_neg hempty] at h
      by_cases houtside : label = "O"
      · rw [if_pos houtside] at h
        exact (Except.ok.inj h).symm.trans (if_neg fun hlabelled => hlabelled.2 houtside).symm
      · rw [if_neg houtside] at h
        cases hentity : model.label_mapping.get? (labelSuffix label) with
        | none =>
          simp only [hentity] at h
          cases h
        | some entity =>
          simp only [hentity] at h
          exact (Except.ok.inj h).symm.trans (if_pos ⟨hempty, houtside⟩).symm

/-- An accepted answer predicts every token, and the loop runs over all of them. -/
theorem decode_predictions_run {value : JsonValue} {offsets : List (Nat × Nat)} {found : List EntityMatch}
    (h : decode_predictions sum value text offsets labels = .ok found) :
    ∃ (predictions : List JsonValue) (s : Decoded), Predicts value predictions ∧
      predictions.length = offsets.length ∧
      (predictions.zip offsets).foldlM (decode_token sum text labels) {} = .ok s ∧ s.found = found := by
  unfold decode_predictions at h
  split at h
  · next entries =>
    obtain ⟨-, h⟩ := raiseIf_bind_eq_ok.mp h
    split at h
    · next predictions hpredictions =>
      obtain ⟨hlength, h⟩ := raiseIf_bind_eq_ok.mp h
      rw [ne_eq, not_not] at hlength
      obtain ⟨s, hrun, h⟩ := bind_eq_ok.mp h
      exact ⟨predictions, s, ⟨entries, rfl, hpredictions⟩, hlength, hrun, Except.ok.inj h⟩
    · cases h
  · cases h

/-- An accepted answer classifies every token, and its matches are those of the tokens. -/
theorem decode_predictions_eq_ok {value : JsonValue} {offsets : List (Nat × Nat)} {found : List EntityMatch}
    (h : decode_predictions sum value text offsets labels = .ok found) :
    ∃ (predictions : List JsonValue) (tokens : List Token), Predicts value predictions ∧
      List.Forall₂ (Classified sum labels) (predictions.zip offsets) tokens ∧
      tokens.map (fun token => (token.start, token.stop)) = offsets ∧
      (∀ token ∈ tokens, token.start ≤ token.stop) ∧ found = (tokens.foldl (Token.read model) {}).found := by
  obtain ⟨predictions, s, hpredicts, hlength, hrun, rfl⟩ := decode_predictions_run h
  obtain ⟨tokens, hclassified, hordered, hs⟩ := foldlM_invariant (s := ({} : Decoded))
    (fun done s => ∃ tokens, List.Forall₂ (Classified sum labels) done tokens ∧
      (∀ token ∈ tokens, token.start ≤ token.stop) ∧ s = tokens.foldl (Token.read model) {})
    (by
      rintro done entry s s' ⟨tokens, hclassified, hordered, rfl⟩ hstep
      obtain ⟨token, htoken, hle, -, rfl⟩ := decode_token_eq_ok hstep
      refine ⟨tokens ++ [token], List.rel_append hclassified (.cons htoken .nil), ?_, by simp⟩
      rw [List.forall_mem_append]
      exact ⟨hordered, by simpa using hle⟩)
    (⟨[], .nil, by simp, rfl⟩ : ∃ tokens, List.Forall₂ (Classified sum labels) [] tokens ∧
      (∀ token ∈ tokens, token.start ≤ token.stop) ∧ {} = tokens.foldl (Token.read model) {}) hrun
  rw [List.nil_append] at hclassified
  refine ⟨predictions, tokens, hpredicts, hclassified, ?_, hordered, by rw [hs]⟩
  have hspans : (predictions.zip offsets).map Prod.snd = tokens.map fun token => (token.start, token.stop) := by
    rw [← List.forall₂_eq_eq_eq, List.forall₂_map_left_iff, List.forall₂_map_right_iff]
    exact hclassified.imp fun _ _ hentry => hentry.offsets
  rw [← hspans, List.map_snd_zip hlength.ge]

end decode

end pii_engine.ner
