import PiiEngine.Ner.Evidence
import PiiEngine.Ner.Scanned
import PiiEngine.Ner.Tokens
import PiiEngine.Planner.Resolution

open checked collections worklist

namespace pii_engine.ner
open config

/-- Send one chunk and decode the answer by the tokens of the chunk. -/
def kserve_answer (sum : List ℚ → ℚ) {model : RemoteModel} (tokenizer : Tokenizer) (labels : ClassLabels model)
    (transport : Transport) (call : Nat) (chunk : Chunk) : Except RemoteError (List EntityMatch) := do
  let encoded := tokenizer.encode true chunk.text
  raiseIf (max_tokens model.profile < encoded.input_ids.length)
    (.remote_analysis_error "KServe input exceeds tokenizer limit")
  let value ← transport call chunk.text
  decode_predictions sum value chunk.text encoded.offset_mapping labels

/-- Send every chunk that is within the token limit, before the next one is cut. -/
def kserve_window (sum : List ℚ → ℚ) {model : RemoteModel} (tokenizer : Tokenizer) (labels : ClassLabels model)
    (transport : Transport) : Handler RemoteError Chunk.length (List EntityMatch) := fun call chunk =>
  match token_window tokenizer model.profile call chunk with
  | .error e => .error e
  | .ok (.split first second hfirst hsecond) => .ok (.split first second hfirst hsecond)
  | .ok (.done ()) => (kserve_answer sum tokenizer labels transport call chunk).map .done

/-- Send one unpadded instance for each chunk of a text. -/
def kserve_matches (sum : List ℚ → ℚ) (text : Text) {model : RemoteModel} (tokenizer : Tokenizer)
    (labels : ClassLabels model) (transport : Transport) : Except RemoteError (List EntityMatch) := do
  let accepted ← drain (kserve_window sum tokenizer labels transport) 0 (token_windows text tokenizer model.profile)
  pure (accepted.flatMap fun (chunk, findings) => findings.map (shift chunk.offset))

/-- What the recognizers of the endpoints work with. Only those of KServe use a tokenizer. -/
structure Recognizers where
  sum : List ℚ → ℚ
  tokenizer : RemoteContract → Tokenizer
  labels : (contract : RemoteContract) → ClassLabels contract.model
  transport : List Call → RemoteContract → Transport

/-- What the recognizer of an endpoint finds in a text, before any selection. -/
def Recognizers.detect (self : Recognizers) : RemoteAnalyzer.Detection := fun calls contract text =>
  match contract.kind with
  | .gliner => gliner_matches text contract.model (self.transport calls contract)
  | .kserve => kserve_matches self.sum text (self.tokenizer contract) (self.labels contract)
      (self.transport calls contract)

/-- A finding that the plan of a text of this length accepts, of an entity that the label
    contract of the model names. -/
structure Reviewed (model : RemoteModel) (length : Nat) (item : EntityMatch) : Prop where
  valid : item.Valid length
  entity : item.entity_type ∈ model.label_mapping.values
  source : item.source = model.name

/-- A finding of a chunk stays valid at its place in the text. -/
theorem Reviewed.shift {model : RemoteModel} {text : Text} {chunk : Chunk} {item : EntityMatch}
    (h : Reviewed model chunk.length item) (hcut : chunk.CutFrom text) :
    Reviewed model text.length (shift chunk.offset item) := by
  obtain ⟨⟨⟨hstart, hlt, hstop⟩, hscore⟩, hentity, hsource⟩ := h
  have hend : chunk.offset + chunk.length ≤ text.length := hcut.2
  refine ⟨⟨⟨?_, ?_, ?_⟩, hscore⟩, hentity, hsource⟩
  · dsimp only [ner.shift]
    omega
  · dsimp only [ner.shift]
    omega
  · dsimp only [ner.shift]
    omega

section gliner
variable {text : Text} {model : RemoteModel} {transport : Transport}

theorem gliner_entity_reviewed {item : JsonValue} {found : EntityMatch}
    (h : gliner_entity text model item = .ok found) : Reviewed model text.length found := by
  unfold gliner_entity at h
  split at h
  · obtain ⟨-, h⟩ := raiseIf_bind_eq_ok.mp h
    split at h
    · next start stop label score _ _ _ _ =>
      obtain ⟨hspan, h⟩ := raiseIf_bind_eq_ok.mp h
      rw [not_not] at hspan
      split at h
      · next entity_type hentity =>
        obtain ⟨scored, hscored, h⟩ := bind_eq_ok.mp h
        split at h
        · next score' =>
          obtain ⟨hscore, h⟩ := raiseIf_bind_eq_ok.mp h
          rw [not_not] at hscore
          cases h
          exact ⟨⟨hspan, score', rfl, hscore⟩, OrderedDict.mem_values_of_get? hentity, rfl⟩
        · cases h
      · cases h
    · cases h
  · cases h

theorem gliner_answer_reviewed {call : Nat} {chunk : Chunk} {findings : List EntityMatch}
    (h : gliner_answer model transport call chunk = .ok findings) :
    ∀ item ∈ findings, Reviewed model chunk.length item := by
  obtain ⟨value, -, h⟩ := bind_eq_ok.mp h
  unfold gliner_response at h
  split at h
  · obtain ⟨-, h⟩ := raiseIf_bind_eq_ok.mp h
    split at h
    · obtain ⟨-, h⟩ := raiseIf_bind_eq_ok.mp h
      split at h
      · rw [mapM_eq_ok] at h
        intro item hitem
        obtain ⟨entity, -, hentity⟩ := exists_left_of_forall₂ h hitem
        exact gliner_entity_reviewed hentity
      · cases h
    · cases h
  · cases h

theorem gliner_matches_reviewed {found : List EntityMatch} (h : gliner_matches text model transport = .ok found) :
    ∀ item ∈ found, Reviewed model text.length item := by
  obtain ⟨accepted, hdrain, h⟩ := bind_eq_ok.mp h
  cases h
  have haccepted := drain_forall_results split_cutFrom hdrain fun chunk hchunk =>
    windows_cutFrom chunk (List.mem_reverse.mp hchunk)
  intro item hitem
  obtain ⟨⟨chunk, findings⟩, hentry, hitem⟩ := List.mem_flatMap.mp hitem
  obtain ⟨finding, hfinding, rfl⟩ := List.mem_map.mp hitem
  obtain ⟨hcut, call, hdone⟩ := haccepted _ hentry
  exact (gliner_answer_reviewed (gliner_window_eq_done.mp hdone) finding hfinding).shift hcut

end gliner

section decode
variable {sum : List ℚ → ℚ} {text : Text} {model : RemoteModel} {labels : ClassLabels model}
  {entry : JsonValue × Nat × Nat} {token : Token} {s : Decoded}

theorem class_probability_eq_ok {value : JsonValue} {score : ℚ} (h : class_probability value = .ok score) :
    0 ≤ score ∧ score ≤ 1 := by
  obtain ⟨scored, -, h⟩ := bind_eq_ok.mp h
  split at h
  · obtain ⟨hscore, h⟩ := raiseIf_bind_eq_ok.mp h
    rw [not_not] at hscore
    cases h
    exact hscore
  · cases h

theorem winning_class_eq_ok {probabilities : JsonValue} {labels : OrderedDict String String} {winner : String × ℚ}
    (h : winning_class sum probabilities labels = .ok winner) : 0 ≤ winner.2 ∧ winner.2 ≤ 1 := by
  unfold winning_class at h
  split at h
  · obtain ⟨-, h⟩ := raiseIf_bind_eq_ok.mp h
    obtain ⟨scores, hscores, h⟩ := bind_eq_ok.mp h
    obtain ⟨-, h⟩ := raiseIf_bind_eq_ok.mp h
    have hvalid : ∀ entry ∈ scores, 0 ≤ entry.2 ∧ entry.2 ≤ 1 := by
      intro entry hentry
      obtain ⟨read, -, hread⟩ := exists_left_of_forall₂ (mapM_eq_ok.mp hscores) hentry
      obtain ⟨score, hscore, rfl⟩ := map_eq_ok.mp hread
      exact class_probability_eq_ok hscore
    split at h
    · next key _ =>
      cases h
      dsimp only
      cases hlookup : scores.lookup key with
      | none => exact ⟨le_refl _, zero_le_one⟩
      | some score =>
        obtain ⟨before, after, hscores, -⟩ := List.lookup_eq_some_iff.mp hlookup
        exact hvalid (key, score) (hscores ▸ by simp)
    · cases h
  · cases h

theorem Classified.score (h : Classified sum labels entry token) : 0 ≤ token.score ∧ token.score ≤ 1 := by
  obtain ⟨class_id, hwinner, -⟩ := h.winner
  exact winning_class_eq_ok hwinner

/-- The class of a labelled token names a label that the model maps. -/
theorem Classified.entity_mem (h : Classified sum labels entry token) (hlabelled : token.Labelled) :
    token.entity model ∈ model.label_mapping.values := by
  obtain ⟨class_id, -, hlabel⟩ := h.winner
  cases labels.mapped _ (OrderedDict.mem_values_of_get? hlabel) with
  | inl houtside => exact absurd houtside hlabelled.2
  | inr hmapped => exact OrderedDict.mem_values_of_get? (OrderedDict.get?_eq_some_getD hmapped.2 "")

/-- A labelled token adds a finding or extends the last one, which ends before it. -/
theorem read_reviewed (h : Classified sum labels entry token) (hle : token.start ≤ token.stop)
    (hstop : token.stop ≤ text.length) (hfound : ∀ item ∈ s.found, Reviewed model text.length item) :
    ∀ item ∈ (token.read model s).found, Reviewed model text.length item := by
  by_cases hlabelled : token.Labelled
  · have hentity := h.entity_mem hlabelled
    have hlt : token.start < token.stop := lt_of_le_of_ne hle hlabelled.1
    cases (Token.read_labelled model s hlabelled).2 with
    | inl hcreated =>
      rw [hcreated, List.forall_mem_append, List.forall_mem_singleton]
      refine ⟨hfound, ⟨⟨⟨?_, ?_, ?_⟩, token.score, rfl, h.score⟩, hentity, rfl⟩⟩
      · exact Int.natCast_nonneg _
      · exact Int.ofNat_lt.mpr hlt
      · exact Int.ofNat_le.mpr hstop
    | inr hextended =>
      obtain ⟨last, hlast, hbefore, -, hextended⟩ := hextended
      obtain ⟨⟨⟨hstart, hlast_lt, -⟩, score, hscore, hscore_valid⟩, -, -⟩ := hfound last (List.mem_of_getLast? hlast)
      rw [hextended, List.forall_mem_append, List.forall_mem_singleton]
      refine ⟨fun item hitem => hfound item (List.dropLast_subset _ hitem),
        ⟨⟨⟨hstart, ?_, ?_⟩, _, rfl, ?_⟩, hentity, rfl⟩⟩
      · dsimp only [Token.extended]
        omega
      · dsimp only [Token.extended]
        omega
      · rw [hscore, Option.getD_some]
        exact ⟨hscore_valid.1.trans (le_max_left _ _), max_le hscore_valid.2 h.score.2⟩
  · rw [Token.read_unlabelled hlabelled]
    exact hfound

theorem decode_predictions_reviewed {value : JsonValue} {offsets : List (Nat × Nat)} {found : List EntityMatch}
    (h : decode_predictions sum value text offsets labels = .ok found) :
    ∀ item ∈ found, Reviewed model text.length item := by
  obtain ⟨predictions, s, -, -, hrun, rfl⟩ := decode_predictions_run h
  refine foldlM_keeps (p := fun s => ∀ item ∈ s.found, Reviewed model text.length item) ?_ (by simp) hrun
  intro entry s s' hfound hstep
  obtain ⟨token, htoken, hle, hstop, rfl⟩ := decode_token_eq_ok hstep
  exact read_reviewed htoken hle hstop hfound

end decode

section kserve
variable {sum : List ℚ → ℚ} {text : Text} {model : RemoteModel} {tokenizer : Tokenizer} {labels : ClassLabels model}
  {transport : Transport} {call : Nat} {chunk : Chunk}

theorem kserve_window_eq_done {findings : List EntityMatch}
    (h : kserve_window sum tokenizer labels transport call chunk = .ok (.done findings)) :
    kserve_answer sum tokenizer labels transport call chunk = .ok findings := by
  unfold kserve_window at h
  split at h
  · cases h
  · cases h
  · obtain ⟨answer, hanswer, hdone⟩ := map_eq_ok.mp h
    cases hdone
    exact hanswer

theorem kserve_window_eq_split {first second : Chunk} {hfirst : first.length < chunk.length}
    {hsecond : second.length < chunk.length}
    (h : kserve_window sum tokenizer labels transport call chunk = .ok (.split first second hfirst hsecond)) :
    token_window tokenizer model.profile call chunk = .ok (.split first second hfirst hsecond) := by
  unfold kserve_window at h
  split at h
  · cases h
  · next hwindow =>
    cases h
    exact hwindow
  · obtain ⟨answer, -, hdone⟩ := map_eq_ok.mp h
    cases hdone

theorem kserve_matches_reviewed {found : List EntityMatch}
    (h : kserve_matches sum text tokenizer labels transport = .ok found) :
    ∀ item ∈ found, Reviewed model text.length item := by
  obtain ⟨accepted, hdrain, h⟩ := bind_eq_ok.mp h
  cases h
  have haccepted := drain_forall_results (P := Chunk.CutFrom text)
    (fun call chunk first second hfirst hsecond hcut hsplit =>
      token_split_cutFrom call chunk first second hfirst hsecond hcut (kserve_window_eq_split hsplit))
    hdrain (token_windows_windowed text tokenizer model.profile).cut
  intro item hitem
  obtain ⟨⟨chunk, findings⟩, hentry, hitem⟩ := List.mem_flatMap.mp hitem
  obtain ⟨finding, hfinding, rfl⟩ := List.mem_map.mp hitem
  obtain ⟨hcut, call, hdone⟩ := haccepted _ hentry
  obtain ⟨-, hanswer⟩ := raiseIf_bind_eq_ok.mp (kserve_window_eq_done hdone)
  obtain ⟨value, -, hdecode⟩ := bind_eq_ok.mp hanswer
  exact (decode_predictions_reviewed hdecode finding hfinding).shift hcut

end kserve

/-- Whatever an endpoint answers, its recognizer finds what the plan and the label contract accept. -/
theorem Recognizers.detect_reviewed {self : Recognizers} {calls : List Call} {contract : RemoteContract} {text : Text}
    {found : List EntityMatch} (h : self.detect calls contract text = .ok found) :
    ∀ item ∈ found, Reviewed contract.model text.length item := by
  unfold Recognizers.detect at h
  cases hkind : contract.kind with
  | gliner =>
    simp only [hkind] at h
    exact gliner_matches_reviewed h
  | kserve =>
    simp only [hkind] at h
    exact kserve_matches_reviewed h

section load_models
variable {urlsplit : String → Option UrlParts}

/-- Every endpoint of a setup is a validated contract. -/
theorem load_models_validated {setup : RemoteSetup} {language_models : Option (OrderedDict String String)}
    {models : List RemoteContract} (h : load_models urlsplit setup = .ok (language_models, models)) :
    ∀ model ∈ models, ∃ contract : RemoteContract, contract.validate_contract urlsplit = .ok model := by
  unfold load_models at h
  cases setup with
  | canonical ner =>
    obtain ⟨⟨⟩, -, h⟩ := bind_eq_ok.mp h
    obtain ⟨resolved, hresolved, h⟩ := bind_eq_ok.mp h
    obtain ⟨checked, hchecked, h⟩ := bind_eq_ok.mp h
    cases h
    obtain ⟨rfl, -⟩ := remote_config_eq_ok hchecked
    intro model hmodel
    obtain ⟨name, -, hname⟩ := exists_left_of_forall₂ (mapM_eq_ok.mp hresolved) hmodel
    obtain ⟨-, -, contract, -, -, -, -, hvalidate⟩ := remote_model_contract hname
    exact ⟨contract, hvalidate⟩
  | legacy backend configured =>
    obtain ⟨resolved, hresolved, h⟩ := bind_eq_ok.mp h
    obtain ⟨checked, hchecked, h⟩ := bind_eq_ok.mp h
    dsimp only at h
    rw [raiseIf_bind_eq_ok, raiseIf_bind_eq_ok, raiseIf_bind_eq_ok] at h
    obtain ⟨-, -, -, h⟩ := h
    cases h
    obtain ⟨rfl, -⟩ := remote_config_eq_ok hchecked
    intro model hmodel
    obtain ⟨contract, -, hvalidate⟩ := exists_left_of_forall₂ (mapM_eq_ok.mp hresolved) hmodel
    exact ⟨contract, hvalidate⟩

/-- The label mappings of an analyzer lead into the catalog. -/
theorem RemoteAnalyzer.init_entities {setup : RemoteSetup} {policy : PolicySettings} {self : RemoteAnalyzer}
    (h : RemoteAnalyzer.init urlsplit setup policy = .ok self) :
    ∀ model ∈ self.models, ∀ entity ∈ model.label_mapping.values, entity ∈ ENTITY_CATALOG := by
  unfold RemoteAnalyzer.init at h
  obtain ⟨⟨language_models, models⟩, hload, h⟩ := bind_eq_ok.mp h
  obtain ⟨⟨⟩, -, h⟩ := bind_eq_ok.mp h
  cases h
  intro model hmodel
  obtain ⟨contract, hvalidate⟩ := load_models_validated hload model hmodel
  exact (validate_contract_eq_ok hvalidate).2.2

end load_models

section call_models
variable {detect : RemoteAnalyzer.Detection} {self : RemoteAnalyzer} {policy : PolicySettings} {text : Text}

/-- Every call that the loop makes is one of an endpoint, answered as it detects. -/
theorem call_models_detected {call : Call} (models : List RemoteContract) (calls : List Call)
    (found : List EntityMatch)
    (h : call ∈ (RemoteAnalyzer.call_models detect self policy text models calls found).1) :
    call ∈ calls ∨ (call.model ∈ models ∧ ∃ earlier, call.answer = detect earlier call.model text) := by
  induction models generalizing calls found with
  | nil => exact Or.inl h
  | cons model models ih =>
    unfold RemoteAnalyzer.call_models at h
    have hmade (hcall : call ∈ calls ++ [⟨model, detect calls model text⟩]) : call ∈ calls ∨
        (call.model ∈ model :: models ∧ ∃ earlier, call.answer = detect earlier call.model text) := by
      rw [List.mem_append, List.mem_singleton] at hcall
      refine hcall.imp_right ?_
      rintro rfl
      exact ⟨List.mem_cons_self, calls, rfl⟩
    split at h
    · cases hanswer : detect calls model text with
      | error e =>
        rw [hanswer] at h hmade
        exact hmade h
      | ok findings =>
        rw [hanswer] at h hmade
        cases ih _ _ h with
        | inl hearlier => exact hmade hearlier
        | inr hlater => exact Or.inr ⟨List.mem_cons_of_mem _ hlater.1, hlater.2⟩
    · cases ih _ _ h with
      | inl hearlier => exact Or.inl hearlier
      | inr hlater => exact Or.inr ⟨List.mem_cons_of_mem _ hlater.1, hlater.2⟩

theorem mem_of_mem_unique {items : List EntityMatch} {item : EntityMatch} (h : item ∈ unique items) : item ∈ items :=
  (mem_unique.mp h).1

/-- A result of a call is one of its findings, under the source of all results. -/
theorem mem_call_results {call : Call} {item : EntityMatch} (h : item ∈ call_results policy call) :
    ∃ findings, call.answer = .ok findings ∧ ∃ finding ∈ findings, item = { finding with source := "transformer" } := by
  unfold call_results at h
  split at h
  · next findings hanswer =>
    obtain ⟨finding, hfinding, rfl⟩ := List.mem_map.mp h
    have hrecognized := List.mem_of_mem_filter hfinding
    exact ⟨findings, hanswer, finding, mem_of_mem_unique (List.mem_of_mem_filter hrecognized), rfl⟩
  · cases h

/-- The loop runs over all endpoints, unless the policy is rejected or there is nothing to scan. -/
theorem analyze_cases (detect : RemoteAnalyzer.Detection) (self : RemoteAnalyzer) (text : Text)
    (policy : Option PolicySettings) :
    (∃ e, self.analyze detect text policy = ([], .error e)) ∨ self.analyze detect text policy = ([], .ok []) ∨
      ∃ calls outcome, self.call_models detect (policy.getD self.policy) text self.models [] [] = (calls, outcome) ∧
        self.analyze detect text policy = (calls, outcome.mapError .inr) := by
  unfold RemoteAnalyzer.analyze
  dsimp only
  cases self.validate_languages (policy.getD self.policy) with
  | error e => exact Or.inl ⟨_, rfl⟩
  | ok _ =>
    by_cases hempty : text = []
    · exact Or.inr (Or.inl (if_pos hempty))
    · exact Or.inr (Or.inr ⟨_, _, rfl, if_neg hempty⟩)

end call_models

section reviewed
variable {urlsplit : String → Option UrlParts} {setup : RemoteSetup} {policy active : PolicySettings}
  {self : RemoteAnalyzer} {recognizers : Recognizers} {text : Text} {calls : List Call}
  {outcome : Except RemoteError (List EntityMatch)}

/-- What an answered call of the loop found. -/
theorem calls_reviewed (hinit : RemoteAnalyzer.init urlsplit setup policy = .ok self)
    (hrun : self.call_models recognizers.detect active text self.models [] [] = (calls, outcome)) {call : Call}
    (hcall : call ∈ calls) {findings : List EntityMatch} (hanswer : call.answer = .ok findings) :
    ∀ item ∈ findings, item.Valid text.length ∧ item.entity_type ∈ ENTITY_CATALOG ∧
      item.source = call.model.name := by
  intro item hitem
  rw [show calls = (self.call_models recognizers.detect active text self.models [] []).1 by rw [hrun]] at hcall
  cases call_models_detected self.models [] [] hcall with
  | inl hnone => cases hnone
  | inr hmade =>
    obtain ⟨hmodel, earlier, hdetected⟩ := hmade
    have hreviewed := Recognizers.detect_reviewed (hdetected.symm.trans hanswer) item hitem
    exact ⟨hreviewed.valid, RemoteAnalyzer.init_entities hinit _ hmodel _ hreviewed.entity, hreviewed.source⟩

/-- Every match of the loop is a finding of one of its calls, under another source. -/
theorem outcome_reviewed (hinit : RemoteAnalyzer.init urlsplit setup policy = .ok self)
    (hrun : self.call_models recognizers.detect active text self.models [] [] = (calls, outcome))
    {found : List EntityMatch} (hfound : outcome = .ok found) :
    ∀ item ∈ found, item.Valid text.length ∧ item.entity_type ∈ ENTITY_CATALOG := by
  obtain ⟨made, hmade, -, hresults⟩ := call_models_run recognizers.detect self active text self.models [] []
  rw [hrun] at hmade hresults
  dsimp only at hmade hresults
  rw [List.nil_append] at hmade
  subst hmade
  cases hresults with
  | inr hfailed =>
    obtain ⟨-, e, houtcome⟩ := hfailed
    rw [houtcome] at hfound
    cases hfound
  | inl hdone =>
    obtain ⟨-, -, houtcome⟩ := hdone
    rw [houtcome] at hfound
    cases hfound
    intro item hitem
    obtain ⟨call, hcall, hresult⟩ := List.mem_flatMap.mp (mem_of_mem_unique hitem)
    obtain ⟨findings, hanswer, finding, hfinding, rfl⟩ := mem_call_results hresult
    obtain ⟨hvalid, hentity, -⟩ := calls_reviewed hinit hrun hcall hanswer finding hfinding
    exact ⟨hvalid, hentity⟩

end reviewed

/-- Whatever the servers answer, an analyzer that its configuration admits finds at every
    endpoint it calls only entities of the catalog, inside the text, with a valid score and under
    the name of the endpoint. The matches that it returns are of the catalog too, and the planner
    accepts their spans and scores. -/
theorem RemoteAnalyzer.analyze_reviewed {urlsplit : String → Option UrlParts} {setup : RemoteSetup}
    {policy : PolicySettings} {self : RemoteAnalyzer} (hinit : RemoteAnalyzer.init urlsplit setup policy = .ok self)
    (recognizers : Recognizers) (text : Text) (active : Option PolicySettings) :
    (∀ call ∈ (self.analyze recognizers.detect text active).1, ∀ findings, call.answer = .ok findings →
      ∀ item ∈ findings, item.Valid text.length ∧ item.entity_type ∈ ENTITY_CATALOG ∧
        item.source = call.model.name) ∧
    ∀ found, (self.analyze recognizers.detect text active).2 = .ok found →
      planner.validate_spans found text.length = .ok () ∧ ∀ item ∈ found, item.entity_type ∈ ENTITY_CATALOG := by
  rcases analyze_cases recognizers.detect self text active with
    ⟨e, hanalyze⟩ | hanalyze | ⟨calls, outcome, hrun, hanalyze⟩
  · rw [hanalyze]
    exact ⟨fun call hcall => (by cases hcall), fun found hfound => (by cases hfound)⟩
  · rw [hanalyze]
    refine ⟨fun call hcall => (by cases hcall), fun found hfound => ?_⟩
    cases hfound
    exact ⟨rfl, fun item hitem => (by cases hitem)⟩
  · rw [hanalyze]
    refine ⟨fun call hcall findings hanswer => calls_reviewed hinit hrun hcall hanswer, ?_⟩
    intro found hfound
    cases outcome with
    | error e => cases hfound
    | ok results =>
      cases hfound
      have hresults := outcome_reviewed hinit hrun rfl
      exact ⟨planner.validate_spans_eq_ok.mpr fun item hitem => (hresults item hitem).1,
        fun item hitem => (hresults item hitem).2⟩

/-- No label of any tokenizer. -/
def blank_labels (model : RemoteModel) : ClassLabels model where
  labels := .empty
  mapped := fun _ h => by cases h

/-- The server finds one name in every text. -/
def greeting_recognizers : Recognizers where
  sum := List.sum
  tokenizer _ := spread_tokenizer
  labels contract := blank_labels contract.model
  transport _ _ _ _ := .ok (.dict [("model", .string "ner-multilingual"), ("entities", .list [.dict
    [("start", .int 6), ("end", .int 10), ("label", .string "person"), ("score", .float (some (9 / 10)))]])])

theorem analyze_reviewed_greeting :
    ∃ self, RemoteAnalyzer.init multilingual_urls multilingual_setup multilingual_policy = .ok self ∧
      ∃ found, (self.analyze greeting_recognizers.detect "Hallo Anna".toList (some multilingual_policy)).2 = .ok found ∧
        found ≠ [] ∧ planner.validate_spans found 10 = .ok () ∧ ∀ item ∈ found, item.entity_type ∈ ENTITY_CATALOG := by
  have hrun : (RemoteAnalyzer.init multilingual_urls multilingual_setup multilingual_policy).toOption.map (fun self =>
      (self.analyze greeting_recognizers.detect "Hallo Anna".toList (some multilingual_policy)).2) =
      some (.ok [⟨"PERSON_NAME", 6, 10, some (9 / 10), "transformer"⟩]) := by decide +kernel
  cases hinit : RemoteAnalyzer.init multilingual_urls multilingual_setup multilingual_policy with
  | error e =>
    rw [hinit] at hrun
    cases hrun
  | ok self =>
    rw [hinit] at hrun
    have houtcome := Option.some.inj hrun
    obtain ⟨-, hreviewed⟩ := RemoteAnalyzer.analyze_reviewed hinit greeting_recognizers "Hallo Anna".toList
      (some multilingual_policy)
    exact ⟨self, rfl, _, houtcome, by simp, hreviewed _ houtcome⟩

end pii_engine.ner
