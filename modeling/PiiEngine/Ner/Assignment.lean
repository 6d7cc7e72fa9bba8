import PiiEngine.Ner.Remote

open checked collections

namespace pii_engine.ner
open config

section contract
variable {urlsplit : String → Option UrlParts} {self result : RemoteContract}

/-- Validation completes a contract but keeps whom it is for. -/
def RemoteContract.SameScope (self result : RemoteContract) : Prop :=
  result.name = self.name ∧ result.kind = self.kind ∧ result.languages = self.languages ∧
    result.inference_threshold = self.inference_threshold

theorem pin_kserve_scope (h : self.pin_kserve = .ok result) : self.SameScope result := by
  unfold RemoteContract.pin_kserve at h
  split at h
  · split at h
    · rw [raiseIf_bind_eq_ok] at h
      obtain ⟨-, h⟩ := h
      cases h
      exact ⟨rfl, rfl, rfl, rfl⟩
    · cases h
  · cases h

theorem mapped_scope (self : RemoteContract) : self.SameScope self.mapped := by
  unfold RemoteContract.mapped
  split <;> exact ⟨rfl, rfl, rfl, rfl⟩

theorem apply_profile_scope (h : self.apply_profile = .ok result) : self.SameScope result := by
  unfold RemoteContract.apply_profile at h
  rw [bind_eq_ok] at h
  obtain ⟨⟨⟩, -, h⟩ := h
  rw [bind_eq_ok] at h
  obtain ⟨pinned, hpinned, h⟩ := h
  rw [raiseIf_bind_eq_ok] at h
  obtain ⟨-, h⟩ := h
  cases h
  obtain ⟨hname, hkind, hlanguages, hthreshold⟩ := mapped_scope pinned
  unfold RemoteContract.pinned at hpinned
  split at hpinned
  · obtain ⟨hname', hkind', hlanguages', hthreshold'⟩ := pin_kserve_scope hpinned
    exact ⟨hname.trans hname', hkind.trans hkind', hlanguages.trans hlanguages', hthreshold.trans hthreshold'⟩
  · cases hpinned
    exact ⟨hname, hkind, hlanguages, hthreshold⟩

/-- A validated contract is the completed one, with languages of its own and a label mapping into
    the catalog. -/
theorem validate_contract_eq_ok (h : self.validate_contract urlsplit = .ok result) :
    self.apply_profile = .ok result ∧ result.languages.Nodup ∧
      ∀ entity ∈ result.label_mapping.values, entity ∈ ENTITY_CATALOG := by
  unfold RemoteContract.validate_contract at h
  rw [raiseIf_bind_eq_ok] at h
  obtain ⟨-, h⟩ := h
  rw [bind_eq_ok] at h
  obtain ⟨completed, hcompleted, h⟩ := h
  rw [bind_eq_ok] at h
  obtain ⟨⟨⟩, -, h⟩ := h
  rw [raiseIf_bind_eq_ok, raiseIf_bind_eq_ok, raiseIf_bind_eq_ok, raiseIf_bind_eq_ok] at h
  obtain ⟨hnodup, -, hentities, -, h⟩ := h
  cases h
  refine ⟨hcompleted, not_not.mp hnodup, ?_⟩
  intro entity hentity
  by_contra hunknown
  exact hentities ⟨entity, hentity, hunknown⟩

theorem validate_contract_scope (h : self.validate_contract urlsplit = .ok result) : self.SameScope result := by
  obtain ⟨hcompleted, -⟩ := validate_contract_eq_ok h
  exact apply_profile_scope hcompleted

end contract

section selection
variable {urlsplit : String → Option UrlParts} {ner : NerConfig}

/-- An endpoint is resolved from a configuration as a validated contract. -/
theorem remote_model_contract {name : String} {result : RemoteContract}
    (h : ner.remote_model urlsplit name = .ok result) :
    ∃ (model : NerModel) (profile : NerProfile) (contract : RemoteContract), ner.models.get? name = some model ∧
      PROFILES.lookup model.profile = some profile ∧ contract.name = name ∧
      contract.languages = profile.languages ∧ contract.validate_contract urlsplit = .ok result := by
  unfold NerConfig.remote_model at h
  split at h
  · next model hmodel =>
    split at h
    · next profile hprofile =>
      split at h
      · split at h
        · rw [raiseIf_bind_eq_ok, raiseIf_bind_eq_ok, raiseIf_bind_eq_ok, raiseIf_bind_eq_ok] at h
          obtain ⟨-, -, -, -, h⟩ := h
          exact ⟨model, profile, _, hmodel, hprofile, rfl, rfl, h⟩
        · cases h
      · cases h
    · cases h
  · cases h

/-- An endpoint resolved from a configuration bears its identifier and speaks the languages of
    its profile. -/
theorem remote_model_eq_ok {name : String} {result : RemoteContract}
    (h : ner.remote_model urlsplit name = .ok result) :
    result.name = name ∧ ∃ model profile, ner.models.get? name = some model ∧
      PROFILES.lookup model.profile = some profile ∧ result.languages = profile.languages := by
  obtain ⟨model, profile, contract, hmodel, hprofile, hname, hlanguages, hvalidate⟩ := remote_model_contract h
  obtain ⟨hsame_name, -, hsame_languages, -⟩ := validate_contract_scope hvalidate
  exact ⟨hsame_name.trans hname, model, profile, hmodel, hprofile, hsame_languages.trans hlanguages⟩

theorem validate_assignment_eq_ok {language name : String}
    (h : ner.validate_assignment urlsplit (language, name) = .ok ()) :
    ∃ model profile, ner.models.get? name = some model ∧ PROFILES.lookup model.profile = some profile ∧
      language ∈ profile.languages := by
  unfold NerConfig.validate_assignment at h
  dsimp only at h
  rw [raiseIf_bind_eq_ok] at h
  obtain ⟨-, h⟩ := h
  split at h
  · next model hmodel =>
    split at h
    · next profile hprofile =>
      rw [raiseIf_bind_eq_ok] at h
      exact ⟨model, profile, hmodel, hprofile, not_not.mp h.1⟩
    · cases h
  · cases h

/-- An enabled selection assigns every language to a configured model that speaks it. -/
theorem validate_selection_eq_ok (h : ner.validate_selection urlsplit = .ok ()) (hmodels : ner.models.items ≠ []) :
    ∀ entry ∈ ner.language_models.items, entry.2 ∈ ner.models.keys ∧
      ∃ model profile, ner.models.get? entry.2 = some model ∧ PROFILES.lookup model.profile = some profile ∧
        entry.1 ∈ profile.languages := by
  unfold NerConfig.validate_selection at h
  split at h
  · rw [raiseIf_eq_ok, not_or, not_not] at h
    exact absurd h.1 hmodels
  · rw [raiseIf_bind_eq_ok, not_or, not_not, forM_eq_ok] at h
    obtain ⟨⟨-, hsame⟩, hassignments⟩ := h
    rintro ⟨language, name⟩ hentry
    refine ⟨?_, validate_assignment_eq_ok (hassignments _ hentry)⟩
    exact (sameElements_iff.mp hsame name).mp (List.mem_map_of_mem (f := Prod.snd) hentry)

end selection

theorem remote_config_eq_ok {models result : List RemoteContract} (h : remote_config models = .ok result) :
    result = models ∧ models ≠ [] ∧ (models.map (·.name)).Nodup := by
  unfold remote_config at h
  rw [raiseIf_bind_eq_ok, raiseIf_bind_eq_ok, not_not, not_not] at h
  obtain ⟨hlength, hnodup, h⟩ := h
  cases h
  exact ⟨rfl, List.ne_nil_of_length_pos hlength.1, hnodup⟩

/-- What the constructor guarantees: the endpoints have names of their own, an assigned language
    is spoken by the endpoint of the assigned name, and without assignments a language belongs to
    one endpoint. -/
structure RemoteAnalyzer.WellFormed (analyzer : RemoteAnalyzer) : Prop where
  names_nodup : (analyzer.models.map (·.name)).Nodup
  assigned : ∀ assignments ∈ analyzer.language_models, ∀ language name, assignments.get? language = some name →
    ∃ model ∈ analyzer.models, model.name = name ∧ language ∈ model.languages
  exclusive : analyzer.language_models = none → ∀ language, ∀ model ∈ analyzer.models, ∀ other ∈ analyzer.models,
    language ∈ model.languages → language ∈ other.languages → model = other

theorem exclusive_of_nodup {models : List RemoteContract} (h : (models.flatMap (·.languages)).Nodup) {language : String}
    {model other : RemoteContract} (hmodel : model ∈ models) (hother : other ∈ models)
    (hlanguage : language ∈ model.languages) (hother_language : language ∈ other.languages) : model = other := by
  induction models with
  | nil => cases hmodel
  | cons first rest ih =>
    rw [List.flatMap_cons, List.nodup_append] at h
    obtain ⟨-, hrest, hdisjoint⟩ := h
    have hclash : ∀ model ∈ rest, language ∈ model.languages → language ∉ first.languages := by
      intro model hmodel hmem hfirst
      exact hdisjoint language hfirst language (List.mem_flatMap.mpr ⟨model, hmodel, hmem⟩) rfl
    cases List.mem_cons.mp hmodel with
    | inl hfirst =>
      subst hfirst
      cases List.mem_cons.mp hother with
      | inl heq => exact heq.symm
      | inr hmem => exact absurd hlanguage (hclash other hmem hother_language)
    | inr hmem =>
      cases List.mem_cons.mp hother with
      | inl heq =>
        subst heq
        exact absurd hother_language (hclash model hmem hlanguage)
      | inr hother_mem => exact ih hrest hmem hother_mem

theorem wellFormed_canonical {urlsplit : String → Option UrlParts} {ner : NerConfig} {policy : PolicySettings}
    {language_models : Option (OrderedDict String String)} {models : List RemoteContract}
    (h : load_models urlsplit (.canonical ner) = .ok (language_models, models)) :
    RemoteAnalyzer.WellFormed ⟨language_models, models, policy⟩ := by
  unfold load_models at h
  rw [bind_eq_ok] at h
  obtain ⟨⟨⟩, hselection, h⟩ := h
  rw [bind_eq_ok] at h
  obtain ⟨resolved, hresolved, h⟩ := h
  rw [bind_eq_ok] at h
  obtain ⟨checked, hchecked, h⟩ := h
  cases h
  obtain ⟨rfl, hne, hnodup⟩ := remote_config_eq_ok hchecked
  rw [mapM_eq_ok] at hresolved
  have hmodels : ner.models.items ≠ [] := by
    intro hnil
    rw [OrderedDict.keys, hnil] at hresolved
    cases hresolved
    exact hne rfl
  constructor
  · exact hnodup
  · rintro _ hassignments language name hget
    cases hassignments
    obtain ⟨hname, model, profile, hmodel, hprofile, hlanguage⟩ :=
      validate_selection_eq_ok hselection hmodels _ (OrderedDict.mem_items_iff.mpr hget)
    obtain ⟨result, hresult, hrun⟩ := exists_right_of_forall₂ hresolved hname
    obtain ⟨hresult_name, model', profile', hmodel', hprofile', hlanguages⟩ := remote_model_eq_ok hrun
    dsimp only at hmodel hlanguage hrun hmodel'
    rw [hmodel, Option.some.injEq] at hmodel'
    subst hmodel'
    rw [hprofile, Option.some.injEq] at hprofile'
    subst hprofile'
    exact ⟨result, hresult, hresult_name, hlanguages ▸ hlanguage⟩
  · intro hnone
    cases hnone

theorem wellFormed_legacy {urlsplit : String → Option UrlParts} {backend : AnalyzerBackend}
    {configured : List RemoteContract} {policy : PolicySettings}
    {language_models : Option (OrderedDict String String)} {models : List RemoteContract}
    (h : load_models urlsplit (.legacy backend configured) = .ok (language_models, models)) :
    RemoteAnalyzer.WellFormed ⟨language_models, models, policy⟩ := by
  unfold load_models at h
  dsimp only at h
  rw [bind_eq_ok] at h
  obtain ⟨resolved, -, h⟩ := h
  rw [bind_eq_ok] at h
  obtain ⟨checked, hchecked, h⟩ := h
  rw [raiseIf_bind_eq_ok, raiseIf_bind_eq_ok, raiseIf_bind_eq_ok] at h
  obtain ⟨-, hsingle, hdisjoint, h⟩ := h
  cases h
  obtain ⟨rfl, -, hnodup⟩ := remote_config_eq_ok hchecked
  constructor
  · exact hnodup
  · intro assignments hassignments
    cases hassignments
  · intro _ language model hmodel other hother hlanguage hother_language
    dsimp only at hmodel hother
    by_cases hbackend : backend = .remote_gliner
    · -- A single endpoint speaks every language.
      simp only [hbackend, if_true, true_and, not_not] at hsingle
      obtain ⟨only, rfl⟩ := List.length_eq_one_iff.mp hsingle
      rw [List.mem_singleton.mp hmodel, List.mem_singleton.mp hother]
    · simp only [hbackend, if_false, true_and, not_not] at hdisjoint
      exact exclusive_of_nodup hdisjoint hmodel hother hlanguage hother_language

theorem RemoteAnalyzer.init_eq_ok {urlsplit : String → Option UrlParts} {setup : RemoteSetup}
    {policy : PolicySettings} {self : RemoteAnalyzer} (h : RemoteAnalyzer.init urlsplit setup policy = .ok self) :
    self.WellFormed := by
  unfold RemoteAnalyzer.init at h
  rw [bind_eq_ok] at h
  obtain ⟨⟨language_models, models⟩, hload, h⟩ := h
  dsimp only at h
  rw [bind_eq_ok] at h
  obtain ⟨⟨⟩, -, h⟩ := h
  cases h
  cases setup with
  | canonical ner => exact wellFormed_canonical hload
  | legacy backend configured => exact wellFormed_legacy hload

end pii_engine.ner
