import PiiEngine.Ner.Assignment

open checked collections

namespace pii_engine.ner
open config

namespace RemoteAnalyzer

/-- A language is assigned to an endpoint: by the canonical selection, or by the languages that
    the endpoint lists. -/
def Assigned (self : RemoteAnalyzer) (language : String) (model : RemoteContract) : Prop :=
  match self.language_models with
  | some assignments => assignments.get? language = some model.name
  | none => language ∈ model.languages

/-- Some analysis language of a policy is assigned to the endpoint. -/
def Active (self : RemoteAnalyzer) (policy : PolicySettings) (model : RemoteContract) : Prop :=
  ∃ language ∈ policy.pii.analyzer_languages, self.Assigned language model

variable {self : RemoteAnalyzer} {policy : PolicySettings} {model other : RemoteContract}

theorem shares_language_iff : shares_language model policy = true ↔
    ∃ language ∈ policy.pii.analyzer_languages, language ∈ model.languages := by
  simp only [shares_language, List.any_eq_true, decide_eq_true_eq]
  exact exists_congr fun language => and_comm

theorem WellFormed.eq_of_name (h : self.WellFormed) (hmodel : model ∈ self.models) (hother : other ∈ self.models)
    (hname : model.name = other.name) : model = other :=
  List.inj_on_of_nodup_map h.names_nodup hmodel hother hname

theorem floor_applies_iff : self.floor_applies policy model = true ↔ self.Active policy model := by
  unfold floor_applies Active Assigned selected_names
  cases hassignments : self.language_models with
  | none => exact shares_language_iff
  | some assignments =>
    simp only [Option.map_some, decide_eq_true_eq]
    exact List.mem_filterMap

/-- The endpoints that are called are those of the analysis languages. -/
theorem is_called_iff (h : self.WellFormed) (hmodel : model ∈ self.models) :
    self.is_called policy model = true ↔ self.Active policy model := by
  rw [← floor_applies_iff]
  unfold is_called floor_applies
  cases hnames : self.selected_names policy with
  | none => simp
  | some names =>
    simp only [Option.all_some, Bool.and_eq_true, decide_eq_true_eq]
    constructor
    · exact fun hcalled => hcalled.1
    · intro hname
      refine ⟨hname, shares_language_iff.mpr ?_⟩
      obtain ⟨assignments, hassignments, rfl⟩ := Option.map_eq_some_iff.mp hnames
      obtain ⟨language, hlanguage, hget⟩ := List.mem_filterMap.mp hname
      obtain ⟨found, hfound, hfound_name, hspoken⟩ := h.assigned assignments hassignments language model.name hget
      exact ⟨language, hlanguage, h.eq_of_name hfound hmodel hfound_name ▸ hspoken⟩

/-- What an accepted policy promises: every analysis language has its endpoint, and no endpoint
    of the analysis languages has a floor above the threshold. -/
theorem validate_languages_eq_ok (h : self.WellFormed) (hpolicy : self.validate_languages policy = .ok ()) :
    (∀ language ∈ policy.pii.analyzer_languages, ∃ model ∈ self.models, self.Assigned language model) ∧
      ∀ model ∈ self.models, self.Active policy model →
        ∀ floor ∈ model.inference_threshold, floor ≤ policy.pii.score_threshold := by
  unfold validate_languages at hpolicy
  rw [raiseIf_bind_eq_ok, raiseIf_eq_ok, not_not] at hpolicy
  obtain ⟨hsupported, hfloors⟩ := hpolicy
  constructor
  · intro language hlanguage
    have hmem := hsupported hlanguage
    unfold supported at hmem
    unfold Assigned
    cases hassignments : self.language_models with
    | none =>
      rw [hassignments] at hmem
      exact List.mem_flatMap.mp hmem
    | some assignments =>
      rw [hassignments] at hmem
      obtain ⟨name, hget⟩ := Option.isSome_iff_exists.mp (OrderedDict.mem_keys_iff.mp hmem)
      obtain ⟨model, hmodel, rfl, -⟩ := h.assigned assignments hassignments language name hget
      exact ⟨model, hmodel, hget⟩
  · intro model hmodel hactive floor hfloor
    by_contra hlow
    exact hfloors ⟨model, hmodel, ⟨floor, hfloor, not_le.mp hlow⟩, floor_applies_iff.mpr hactive⟩

theorem assigned_unique (h : self.WellFormed) {language : String} (hmodel : model ∈ self.models)
    (hother : other ∈ self.models) (hassigned : self.Assigned language model)
    (hother_assigned : self.Assigned language other) : other = model := by
  unfold Assigned at hassigned hother_assigned
  cases hassignments : self.language_models with
  | none =>
    rw [hassignments] at hassigned hother_assigned
    exact h.exclusive hassignments language other hother model hmodel hother_assigned hassigned
  | some assignments =>
    rw [hassignments] at hassigned hother_assigned
    dsimp only at hassigned hother_assigned
    rw [hassigned, Option.some.injEq] at hother_assigned
    exact h.eq_of_name hother hmodel hother_assigned.symm

end RemoteAnalyzer

/-- What the loop keeps of one call. -/
def call_results (policy : PolicySettings) (call : Call) : List EntityMatch :=
  match call.answer with
  | .ok findings => RemoteAnalyzer.accepted policy findings
  | .error _ => []

/-- The findings of one call that have a selected entity and reach the threshold, under the
    source with which they are returned. -/
def selected_findings (policy : PolicySettings) (call : Call) : List EntityMatch :=
  match call.answer with
  | .ok findings => (findings.filter fun item => item.entity_type ∈ selected_entities policy ∧
      (policy.pii.score_threshold : WithBot ℚ) ≤ confidence item).map fun item => { item with source := "transformer" }
  | .error _ => []

/-- The endpoint answered the call. -/
def Call.Answered (call : Call) : Prop := ∃ findings, call.answer = .ok findings

section call_models
variable (detect : RemoteAnalyzer.Detection) (self : RemoteAnalyzer) (policy : PolicySettings) (text : Text)

/-- The loop calls the endpoints to be called in their order, until one fails. -/
theorem call_models_run (models : List RemoteContract) (calls : List Call) (found : List EntityMatch) :
    ∃ made : List Call, (RemoteAnalyzer.call_models detect self policy text models calls found).1 = calls ++ made ∧
      made.map (·.model) <+: models.filter (self.is_called policy) ∧
      (((∀ call ∈ made, call.Answered) ∧ made.map (·.model) = models.filter (self.is_called policy) ∧
        (RemoteAnalyzer.call_models detect self policy text models calls found).2 =
          .ok (unique (found ++ made.flatMap (call_results policy)))) ∨
      ((∃ call ∈ made, ¬ call.Answered) ∧
        ∃ e, (RemoteAnalyzer.call_models detect self policy text models calls found).2 = .error e)) := by
  induction models generalizing calls found with
  | nil => exact ⟨[], by simp [RemoteAnalyzer.call_models], by simp,
      Or.inl ⟨by simp, by simp, by simp [RemoteAnalyzer.call_models]⟩⟩
  | cons model models ih =>
    unfold RemoteAnalyzer.call_models
    by_cases hcalled : self.is_called policy model = true
    · rw [if_pos hcalled, List.filter_cons_of_pos hcalled]
      cases hanswer : detect calls model text with
      | error e =>
        refine ⟨[⟨model, .error e⟩], rfl, by simp, Or.inr ⟨⟨_, List.mem_singleton.mpr rfl, ?_⟩, e, rfl⟩⟩
        rintro ⟨findings, hfindings⟩
        cases hfindings
      | ok findings =>
        obtain ⟨made, hcalls, hprefix, hrun⟩ :=
          ih (calls ++ [⟨model, .ok findings⟩]) (found ++ RemoteAnalyzer.accepted policy findings)
        refine ⟨⟨model, .ok findings⟩ :: made, by simpa using hcalls, ?_, ?_⟩
        · simpa using hprefix
        · cases hrun with
          | inl hdone =>
            obtain ⟨hanswered, hmade, hresult⟩ := hdone
            refine Or.inl ⟨?_, by rw [List.map_cons, hmade], ?_⟩
            · rw [List.forall_mem_cons]
              exact ⟨⟨findings, rfl⟩, hanswered⟩
            · rw [hresult, List.flatMap_cons, call_results, List.append_assoc]
          | inr hfailed =>
            obtain ⟨⟨call, hcall, hunanswered⟩, e, hresult⟩ := hfailed
            exact Or.inr ⟨⟨call, List.mem_cons_of_mem _ hcall, hunanswered⟩, e, hresult⟩
    · rw [if_neg hcalled, List.filter_cons_of_neg hcalled]
      exact ih calls found

end call_models

theorem determined_findings (items : List EntityMatch) : best.Determined unique_key confidence items := by
  rintro ⟨entity, start, stop, score, source⟩ - ⟨entity', start', stop', score', source'⟩ - hkey hscore
  simp only [unique_key, Prod.mk.injEq] at hkey
  obtain ⟨rfl, rfl, rfl, rfl⟩ := hkey
  cases (show score = score' from hscore)
  rfl

theorem mem_unique {items : List EntityMatch} {item : EntityMatch} :
    item ∈ unique items ↔ best.IsBest unique_key confidence items item := by
  rw [unique, mem_sortOn]
  exact best.mem_kept_iff (determined_findings items)

/-- Deduplicating each call first does not change which findings are best. -/
theorem isBest_call_results {policy : PolicySettings} {calls : List Call} {item : EntityMatch} :
    best.IsBest unique_key confidence (calls.flatMap (call_results policy)) item ↔
      best.IsBest unique_key confidence (calls.flatMap (selected_findings policy)) item := by
  refine best.isBest_of_dominating ?_ ?_ (determined_findings _)
  · intro item hitem
    obtain ⟨call, hcall, hresult⟩ := List.mem_flatMap.mp hitem
    refine List.mem_flatMap.mpr ⟨call, hcall, ?_⟩
    unfold call_results at hresult
    unfold selected_findings
    cases hanswer : call.answer with
    | error e => simp [hanswer] at hresult
    | ok findings =>
      simp only [hanswer, RemoteAnalyzer.accepted, recognized, List.mem_map, List.mem_filter, mem_unique,
        decide_eq_true_eq] at hresult ⊢
      obtain ⟨finding, ⟨⟨⟨hfinding, -⟩, hentity⟩, hscore⟩, rfl⟩ := hresult
      exact ⟨finding, ⟨hfinding, hentity, hscore⟩, rfl⟩
  · intro item hitem
    obtain ⟨call, hcall, hresult⟩ := List.mem_flatMap.mp hitem
    unfold selected_findings at hresult
    cases hanswer : call.answer with
    | error e => simp [hanswer] at hresult
    | ok findings =>
      simp only [hanswer, List.mem_map, List.mem_filter, decide_eq_true_eq] at hresult
      obtain ⟨finding, ⟨hfinding, hentity, hscore⟩, rfl⟩ := hresult
      have hkept := best.holds_foldl unique_key confidence findings
      obtain ⟨strongest, hstrongest, hkey⟩ := hkept.exists_kept hfinding
      have hbest := hkept.isBest_of_mem hstrongest
      have hle := hbest.2 finding hfinding hkey.symm
      simp only [unique_key, Prod.mk.injEq] at hkey
      refine ⟨{ strongest with source := "transformer" }, List.mem_flatMap.mpr ⟨call, hcall, ?_⟩, ?_, hle⟩
      · simp only [call_results, hanswer, RemoteAnalyzer.accepted, recognized, List.mem_map, List.mem_filter,
          mem_unique, decide_eq_true_eq]
        exact ⟨strongest, ⟨⟨hbest, hkey.1 ▸ hentity⟩, hscore.trans hle⟩, rfl⟩
      · simp only [unique_key, hkey]

theorem source_of_selected {policy : PolicySettings} {calls : List Call} {item : EntityMatch}
    (h : item ∈ calls.flatMap (selected_findings policy)) : item.source = "transformer" := by
  obtain ⟨call, -, hresult⟩ := List.mem_flatMap.mp h
  unfold selected_findings at hresult
  split at hresult
  · obtain ⟨finding, -, rfl⟩ := List.mem_map.mp hresult
    rfl
  · cases hresult

/-- Every analysis language of an accepted policy has one endpoint, whose floor the threshold
    respects. Analysis calls each of these endpoints once and no other, and returns the best of
    what they found for every entity and span. It fails only when an endpoint does. -/
theorem RemoteAnalyzer.analyze_scans_languages {urlsplit : String → Option UrlParts} {setup : RemoteSetup}
    {configured : PolicySettings} {self : RemoteAnalyzer} (hinit : init urlsplit setup configured = .ok self)
    {policy : PolicySettings} (hpolicy : self.validate_languages policy = .ok ()) (detect : Detection) {text : Text}
    (htext : text ≠ []) :
    (∀ language ∈ policy.pii.analyzer_languages, ∃ model ∈ self.models, self.Assigned language model ∧
      ∀ other ∈ self.models, self.Assigned language other → other = model) ∧
    (∀ model ∈ self.models, self.Active policy model →
      ∀ floor ∈ model.inference_threshold, floor ≤ policy.pii.score_threshold) ∧
    ∃ calls outcome, self.analyze detect text (some policy) = (calls, outcome) ∧
      (calls.map (·.model.name)).Nodup ∧ (∀ call ∈ calls, call.model ∈ self.models ∧ self.Active policy call.model) ∧
      ((∃ found, outcome = .ok found) ↔ ∀ call ∈ calls, call.Answered) ∧
      ∀ found, outcome = .ok found →
        (∀ model ∈ self.models, self.Active policy model → ∃ call ∈ calls, call.model = model) ∧
        (found.map fun item => (item.entity_type, item.start, item.stop)).Nodup ∧
        ∀ item, item ∈ found ↔
          best.IsBest unique_key confidence (calls.flatMap (selected_findings policy)) item := by
  have hformed := init_eq_ok hinit
  obtain ⟨hcovered, hfloors⟩ := validate_languages_eq_ok hformed hpolicy
  refine ⟨?_, hfloors, ?_⟩
  · intro language hlanguage
    obtain ⟨model, hmodel, hassigned⟩ := hcovered language hlanguage
    exact ⟨model, hmodel, hassigned, fun other hother => assigned_unique hformed hmodel hother hassigned⟩
  · obtain ⟨made, hcalls, hprefix, hrun⟩ := call_models_run detect self policy text self.models [] []
    rw [List.nil_append] at hcalls
    have hsublist : (made.map (·.model)).Sublist self.models := hprefix.sublist.trans List.filter_sublist
    have hnames : (made.map (·.model.name)).Nodup := by
      have := (hsublist.map (·.name)).nodup hformed.names_nodup
      rwa [List.map_map] at this
    have hactive : ∀ call ∈ made, call.model ∈ self.models ∧ self.Active policy call.model := by
      intro call hcall
      have hmem := hprefix.subset (List.mem_map_of_mem hcall)
      obtain ⟨hmodel, hcalled⟩ := List.mem_filter.mp hmem
      exact ⟨hmodel, (is_called_iff hformed hmodel).mp hcalled⟩
    refine ⟨made, ((call_models detect self policy text self.models [] []).2).mapError .inr, ?_, hnames, hactive, ?_⟩
    · unfold analyze
      simp only [Option.getD_some, hpolicy, htext, if_false]
      rw [← hcalls]
    · cases hrun with
      | inr hfailed =>
        obtain ⟨⟨call, hcall, hunanswered⟩, e, hresult⟩ := hfailed
        rw [hresult]
        refine ⟨⟨?_, fun hanswered => absurd (hanswered call hcall) hunanswered⟩, ?_⟩
        · rintro ⟨found, hfound⟩
          cases hfound
        · rintro found hfound
          cases hfound
      | inl hdone =>
        obtain ⟨hanswered, hmade, hresult⟩ := hdone
        rw [hresult]
        refine ⟨⟨fun _ => hanswered, fun _ => ⟨_, rfl⟩⟩, ?_⟩
        rintro found hfound
        cases hfound
        rw [List.nil_append]
        have hmem : ∀ item, item ∈ unique (made.flatMap (call_results policy)) ↔
            best.IsBest unique_key confidence (made.flatMap (selected_findings policy)) item :=
          fun item => mem_unique.trans isBest_call_results
        refine ⟨?_, ?_, hmem⟩
        · intro model hmodel hmodel_active
          have hcalled : model ∈ self.models.filter (self.is_called policy) :=
            List.mem_filter.mpr ⟨hmodel, (is_called_iff hformed hmodel).mpr hmodel_active⟩
          rw [← hmade] at hcalled
          obtain ⟨call, hcall, heq⟩ := List.mem_map.mp hcalled
          exact ⟨call, hcall, heq⟩
        · have hkeys : ((unique (made.flatMap (call_results policy))).map unique_key).Nodup :=
            ((sortOn_perm _).map _).nodup_iff.mpr (best.nodup_keys_kept _)
          refine List.Nodup.map_on ?_ hkeys.of_map
          intro a ha b hb hkey
          -- All matches are returned under one source.
          have ha_source := source_of_selected ((hmem a).mp ha).1
          have hb_source := source_of_selected ((hmem b).mp hb).1
          apply List.inj_on_of_nodup_map hkeys ha hb
          simp only [Prod.mk.injEq] at hkey
          rw [unique_key, unique_key, hkey.1, hkey.2.1, hkey.2.2, ha_source, hb_source]

/-- One multilingual endpoint for two languages. -/
def multilingual_setup : RemoteSetup :=
  .canonical {
    mode := .remote
    language_models := .ofList [("en", "multilingual"), ("de", "multilingual")]
    models := .ofList [("multilingual", {
      profile := "gliner-multilingual-pii-v1"
      endpoint := some "https://ner.example.com/extract"
      inference_threshold := some (2 / 5)
      fields_set := ["profile", "endpoint", "inference_threshold"]
      inference_threshold_ok := by decide +kernel })] }

def multilingual_urls : String → Option UrlParts := fun _ =>
  some ⟨"https", some "ner.example.com", none, none, "", "", "/extract"⟩

def multilingual_policy : PolicySettings :=
  { test_policy with pii := { test_pii with
      analyzer_languages := ["en", "de"]
      supported_languages := ["en", "de"]
      entity_policies := []
      analyzer_languages_ne := by decide
      languages_supported := by decide
      supported_nodup := by decide
      analyzer_nodup := by decide
      entity_nodup := by decide
      custom_supported := by decide } }

/-- The endpoint reports one span twice. -/
def multilingual_detection : RemoteAnalyzer.Detection := fun _ _ _ =>
  .ok [⟨"PERSON_NAME", 6, 10, some (1 / 2), "multilingual"⟩, ⟨"PERSON_NAME", 6, 10, some (9 / 10), "multilingual"⟩]

theorem analyze_scans_languages_multilingual :
    ∃ self, RemoteAnalyzer.init multilingual_urls multilingual_setup multilingual_policy = .ok self ∧
      ∃ calls outcome, self.analyze multilingual_detection "Hallo Anna".toList (some multilingual_policy) =
        (calls, outcome) ∧ (calls.map (·.model.name)).Nodup ∧
        outcome = .ok [⟨"PERSON_NAME", 6, 10, some (9 / 10), "transformer"⟩] := by
  have hok : (RemoteAnalyzer.init multilingual_urls multilingual_setup multilingual_policy).isOk = true := by
    decide +kernel
  cases hinit : RemoteAnalyzer.init multilingual_urls multilingual_setup multilingual_policy with
  | error e => simp [hinit, Except.isOk, Except.toBool] at hok
  | ok self =>
    refine ⟨self, rfl, ?_⟩
    have hrun : (RemoteAnalyzer.init multilingual_urls multilingual_setup multilingual_policy).toOption.map
        (fun self => (self.validate_languages multilingual_policy,
          (self.analyze multilingual_detection "Hallo Anna".toList (some multilingual_policy)).2)) =
        some (.ok (), .ok [⟨"PERSON_NAME", 6, 10, some (9 / 10), "transformer"⟩]) := by decide +kernel
    simp only [hinit, Except.toOption, Option.map_some, Option.some.injEq, Prod.mk.injEq] at hrun
    obtain ⟨hpolicy, houtcome⟩ := hrun
    obtain ⟨-, -, calls, outcome, hanalyze, hnodup, -⟩ :=
      RemoteAnalyzer.analyze_scans_languages hinit hpolicy multilingual_detection
        (show "Hallo Anna".toList ≠ [] by decide)
    rw [hanalyze] at houtcome
    exact ⟨calls, outcome, hanalyze, hnodup, houtcome⟩

end pii_engine.ner
