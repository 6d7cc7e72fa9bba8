import PiiEngine.Config.Override

open collections documents
open documents.Document (Codec Known deep_update dumped field field_merged given known_merged updated_section)

namespace pii_engine.config

abbrev null : Document Value := .value .null

abbrev Fields := List (String × Option (Document Value))

/-- The record of a model that is updated with the dump of an override, if there is one. -/
def merged (fields : Fields) (updates : Option Fields) : PolicyEntries :=
  deep_update (dumped (some null) fields) (dumped none (updates.getD []))

theorem merged_none {β : Type} (update : Option β) (overrides : β → Fields) {fields : Fields} (h : update = none) :
    merged fields (update.map overrides) = dumped (some null) fields := by
  rw [h, merged, Option.map_none, Option.getD_none, dumped, dumped, List.filterMap_nil, deep_update]

section leaves
variable {α β : Type} {fields : Fields} {overrides : β → Fields} {key name : String} {update : Option β}

/-- The keys of a model, and of a model that overrides some of its fields. -/
structure Overrides (names : List (String × String)) (fields : Fields) (overrides : β → Fields) : Prop where
  distinct : (names.map Prod.fst).Nodup
  keys : fields.map Prod.fst = names.map Prod.fst
  overridden : ∀ b, ((overrides b).map Prod.fst).Sublist (names.map Prod.fst)

namespace Overrides
variable {names : List (String × String)} (h : Overrides names fields overrides)
include h

theorem nodup : (fields.map Prod.fst).Nodup := by
  rw [h.keys]
  exact h.distinct

theorem sublist (update : Option β) : (((update.map overrides).getD []).map Prod.fst).Sublist (names.map Prod.fst) := by
  cases update with
  | none => exact List.nil_sublist _
  | some b => exact h.overridden b

theorem nodup_update (update : Option β) : (((update.map overrides).getD []).map Prod.fst).Nodup :=
  h.distinct.sublist (h.sublist update)

/-- An updated model has only its own fields. -/
theorem known (update : Option β) : Known names (merged fields (update.map overrides)) := by
  refine known_merged ?_ fun key hkey => (h.sublist update).subset hkey
  intro key hkey
  rwa [h.keys] at hkey

omit h in
theorem lookup_update {g : β → Option (Document Value)} (hg : ∀ b, (overrides b).lookup key = some (g b)) :
    (((update.map overrides).getD []).lookup key).bind id = update.bind g := by
  cases update with
  | none => rfl
  | some b =>
    rw [Option.map_some, Option.getD_some, hg]
    rfl

/-- A field that an override leaves alone. -/
theorem field_kept {decode : Document Value → Option α} {fallback : Option α} {document : Document Value}
    (hbase : fields.lookup key = some (some document)) (hnone : ∀ b, (overrides b).lookup key = none) :
    field (merged fields (update.map overrides)) key name fallback decode = decode document := by
  have hupdate : (((update.map overrides).getD []).lookup key).bind id = none := by
    cases update with
    | none => rfl
    | some b =>
      rw [Option.map_some, Option.getD_some, hnone]
      rfl
  rw [merged, field_merged h.nodup (h.nodup_update update) hbase, hupdate]
  rfl

/-- A leaf that an override may give. -/
theorem field_optional {codec : Codec Value α} {fallback : Option α} {a : α} {g : β → Option α}
    (hbase : fields.lookup key = some (some (codec.dump a)))
    (hg : ∀ b, (overrides b).lookup key = some ((g b).map codec.dump)) :
    field (merged fields (update.map overrides)) key name fallback codec.read = some ((update.bind g).getD a) := by
  have hupdate : (update.bind fun b => (g b).map codec.dump) = (update.bind g).map codec.dump := by
    cases update <;> rfl
  rw [merged, field_merged h.nodup (h.nodup_update update) hbase, lookup_update hg, hupdate]
  cases update.bind g with
  | none => exact codec.read_dump a
  | some b =>
    rw [Option.map_some, Option.elim_some, Option.getD_some, Codec.updated_dump]
    exact codec.read_dump b

/-- A leaf that every override gives. -/
theorem field_leaf {codec : Codec Value α} {fallback : Option α} {a : α} {g : β → α}
    (hbase : fields.lookup key = some (some (codec.dump a)))
    (hg : ∀ b, (overrides b).lookup key = some (some (codec.dump (g b)))) :
    field (merged fields (update.map overrides)) key name fallback codec.read = some ((update.map g).getD a) := by
  rw [h.field_optional hbase (g := fun b => some (g b)) hg]
  cases update <;> rfl

/-- A leaf that may be null. A null in the override is left out. -/
theorem field_nullable {codec : Codec Value α} (hnull : ∀ a, codec.encode a ≠ .null) {fallback : Option (Option α)}
    {a : Option α} {g : β → Option α} (hbase : fields.lookup key = some (a.map codec.dump))
    (hg : ∀ b, (overrides b).lookup key = some ((g b).map codec.dump)) :
    field (merged fields (update.map overrides)) key name fallback (nullable codec.read) =
      some ((update.bind g).or a) := by
  have hread : ∀ x, nullable codec.read (codec.dump x) = some (some x) := by
    intro x
    rw [nullable, codec.read_dump, Option.map_some]
    intro heq
    exact hnull x (Document.value.inj heq)
  have hupdate : (update.bind fun b => (g b).map codec.dump) = (update.bind g).map codec.dump := by
    cases update <;> rfl
  rw [merged, field_merged h.nodup (h.nodup_update update) hbase, lookup_update hg, hupdate]
  cases update.bind g with
  | none =>
    cases a with
    | none => rfl
    | some a => exact hread a
  | some b =>
    rw [Option.map_some, Option.elim_some, Option.some_or]
    cases a with
    | none =>
      rw [Option.map_none, Option.getD_none]
      exact hread b
    | some a =>
      rw [Option.map_some, Option.getD_some, Codec.updated_dump]
      exact hread b

/-- A record that an override may give. -/
theorem field_section {γ : Type} {i : γ → Fields} {decode : Document Value → Option α} {fallback : Option α}
    {section_fields : Fields} {g : β → Option γ}
    (hbase : fields.lookup key = some (some (.record (dumped (some null) section_fields))))
    (hg : ∀ b, (overrides b).lookup key = some ((g b).map fun c => .record (dumped none (i c)))) :
    field (merged fields (update.map overrides)) key name fallback decode =
      decode (.record (merged section_fields ((update.bind g).map i))) := by
  have hupdate : (update.bind fun b => (g b).map fun c => Document.record (dumped none (i c))) =
      ((update.bind g).map i).map fun fields => Document.record (dumped none fields) := by
    rw [Option.map_map]
    cases update <;> rfl
  rw [merged, field_merged h.nodup (h.nodup_update update) hbase, lookup_update hg, hupdate, Option.getD_some,
    updated_section, merged]

end Overrides

end leaves

namespace SessionSettings

theorem model_validate_eq_some {entries : PolicyEntries} {session : SessionSettings} :
    model_validate (.record entries) = some session ↔
      Known FIELDS entries ∧ field entries "enabled" "enabled" (some true) codecs.flag.read = some session.enabled ∧
      field entries "ttlHours" "ttl_hours" (some 24) codecs.number.read = some session.ttl_hours := by
  simp only [model_validate, Option.bind_eq_bind, Option.bind_eq_some_iff]
  constructor
  · rintro ⟨enabled, henabled, ttl_hours, httl_hours, h⟩
    split at h
    case isTrue hvalid =>
      cases h
      exact ⟨hvalid.1, henabled, httl_hours⟩
    case isFalse => cases h
  · rintro ⟨hknown, henabled, httl_hours⟩
    exact ⟨_, henabled, _, httl_hours, dif_pos ⟨hknown, session.ttl_hours_ok⟩⟩

theorem validate_merged {base result : SessionSettings} {update : Option SessionSettings} :
    model_validate (.record (merged base.fields (update.map fields))) = some result ↔
      (update.map (·.enabled)).getD base.enabled = result.enabled ∧
      (update.map (·.ttl_hours)).getD base.ttl_hours = result.ttl_hours := by
  have h : Overrides FIELDS base.fields fields := ⟨by decide, rfl, fun _ => List.Sublist.refl _⟩
  rw [model_validate_eq_some, h.field_leaf rfl fun _ => rfl, h.field_leaf rfl fun _ => rfl, Option.some.injEq,
    Option.some.injEq]
  exact and_iff_right (h.known update)

end SessionSettings

namespace OperatorParams

theorem model_validate_eq_some {entries : PolicyEntries} {operator : OperatorParams} :
    model_validate (.record entries) = some operator ↔
      Known FIELDS entries ∧ field entries "type" "type" (some .mask) codecs.operator_type.read = some operator.type ∧
      field entries "masking_char" "masking_char" (some '*') codecs.character.read = some operator.masking_char ∧
      field entries "chars_to_mask" "chars_to_mask" (some 100) codecs.count.read = some operator.chars_to_mask ∧
      field entries "from_end" "from_end" (some true) codecs.flag.read = some operator.from_end ∧
      field entries "new_value" "new_value" (some none) (nullable codecs.text.read) = some operator.new_value := by
  simp only [model_validate, Option.bind_eq_bind, Option.bind_eq_some_iff]
  constructor
  · rintro ⟨type, htype, masking_char, hmasking_char, chars_to_mask, hchars_to_mask, from_end, hfrom_end, new_value,
      hnew_value, h⟩
    split at h
    case isTrue hvalid =>
      cases h
      exact ⟨hvalid.1, htype, hmasking_char, hchars_to_mask, hfrom_end, hnew_value⟩
    case isFalse => cases h
  · rintro ⟨hknown, htype, hmasking_char, hchars_to_mask, hfrom_end, hnew_value⟩
    exact ⟨_, htype, _, hmasking_char, _, hchars_to_mask, _, hfrom_end, _, hnew_value,
      dif_pos ⟨hknown, operator.chars_to_mask_le, operator.new_value_le⟩⟩

theorem validate_merged {base result : OperatorParams} {update : Option OperatorParams} :
    model_validate (.record (merged base.fields (update.map fields))) = some result ↔
      (update.map (·.type)).getD base.type = result.type ∧
      (update.map (·.masking_char)).getD base.masking_char = result.masking_char ∧
      (update.map (·.chars_to_mask)).getD base.chars_to_mask = result.chars_to_mask ∧
      (update.map (·.from_end)).getD base.from_end = result.from_end ∧
      (update.bind (·.new_value)).or base.new_value = result.new_value := by
  have h : Overrides FIELDS base.fields fields := ⟨by decide, rfl, fun _ => List.Sublist.refl _⟩
  have hnull : ∀ text, codecs.text.encode text ≠ .null := fun _ h => by cases h
  rw [model_validate_eq_some, h.field_leaf rfl fun _ => rfl, h.field_leaf rfl fun _ => rfl,
    h.field_leaf rfl fun _ => rfl, h.field_leaf rfl fun _ => rfl, h.field_nullable hnull rfl fun _ => rfl]
  simp only [Option.some.injEq]
  exact and_iff_right (h.known update)

end OperatorParams

namespace NerSettings

theorem model_validate_eq_some {entries : PolicyEntries} {ner : NerSettings} :
    model_validate (.record entries) = some ner ↔
      Known FIELDS entries ∧
      field entries "strategy" "strategy" (some .perLanguage) codecs.strategy.read = some ner.strategy ∧
      field entries "generalModel" "general_model" (some "multilingual-pii") codecs.text.read = some ner.general_model ∧
      field entries "perLanguage" "per_language"
        (some default_ner.per_language) codecs.model_names.read =
          some ner.per_language := by
  simp only [model_validate, Option.bind_eq_bind, Option.bind_eq_some_iff]
  constructor
  · rintro ⟨strategy, hstrategy, general_model, hgeneral_model, per_language, hper_language, h⟩
    split at h
    case isTrue hknown =>
      cases h
      exact ⟨hknown, hstrategy, hgeneral_model, hper_language⟩
    case isFalse => cases h
  · rintro ⟨hknown, hstrategy, hgeneral_model, hper_language⟩
    exact ⟨_, hstrategy, _, hgeneral_model, _, hper_language, if_pos hknown⟩

theorem validate_dump {ner : NerSettings} : model_validate (ner.model_dump (some null)) = some ner := by
  have h : Overrides FIELDS ner.fields fields := ⟨by decide, rfl, fun _ => List.Sublist.refl _⟩
  rw [model_dump, ← merged_none (none : Option NerSettings) fields rfl, model_validate_eq_some,
    h.field_leaf rfl fun _ => rfl, h.field_leaf rfl fun _ => rfl, h.field_leaf rfl fun _ => rfl]
  exact ⟨h.known none, rfl, rfl, rfl⟩

end NerSettings

namespace FaceSettings

theorem model_validate_eq_some {entries : PolicyEntries} {faces : FaceSettings} :
    model_validate (.record entries) = some faces ↔
      Known FIELDS entries ∧ field entries "action" "action" (some .block) codecs.face_action.read = some faces.action ∧
      field entries "routeClass" "route_class" (some none) (nullable codecs.text.read) = some faces.route_class := by
  simp only [model_validate, Option.bind_eq_bind, Option.bind_eq_some_iff]
  constructor
  · rintro ⟨action, haction, route_class, hroute_class, h⟩
    split at h
    case isTrue hvalid =>
      cases h
      exact ⟨hvalid.1, haction, hroute_class⟩
    case isFalse => cases h
  · rintro ⟨hknown, haction, hroute_class⟩
    exact ⟨_, haction, _, hroute_class, dif_pos ⟨hknown, faces.route_class_ok, faces.route_class_reroute⟩⟩

theorem validate_merged {base result : FaceSettings} {update : Option FaceSettings} :
    model_validate (.record (merged base.fields (update.map fields))) = some result ↔
      (update.map (·.action)).getD base.action = result.action ∧
      (update.bind (·.route_class)).or base.route_class = result.route_class := by
  have h : Overrides FIELDS base.fields fields := ⟨by decide, rfl, fun _ => List.Sublist.refl _⟩
  have hnull : ∀ text, codecs.text.encode text ≠ .null := fun _ h => by cases h
  rw [model_validate_eq_some, h.field_leaf rfl fun _ => rfl, h.field_nullable hnull rfl fun _ => rfl, Option.some.injEq,
    Option.some.injEq]
  exact and_iff_right (h.known update)

end FaceSettings

namespace AttachmentsSettings

theorem model_validate_eq_some {entries : PolicyEntries} {attachments : AttachmentsSettings} :
    model_validate (.record entries) = some attachments ↔
      Known FIELDS entries ∧ field entries "policy" "policy" (some "block") codecs.text.read = some "block" ∧
      field entries "faces" "faces" (some default_faces) FaceSettings.model_validate = some attachments.faces := by
  simp only [model_validate, Option.bind_eq_bind, Option.bind_eq_some_iff]
  constructor
  · rintro ⟨policy, hpolicy, faces, hfaces, h⟩
    split at h
    case isTrue hvalid =>
      cases h
      rw [hvalid.2] at hpolicy
      exact ⟨hvalid.1, hpolicy, hfaces⟩
    case isFalse => cases h
  · rintro ⟨hknown, hpolicy, hfaces⟩
    exact ⟨_, hpolicy, _, hfaces, if_pos ⟨hknown, rfl⟩⟩

theorem validate_merged {base result : AttachmentsSettings} {update : Option AttachmentsSettings} :
    model_validate (.record (merged (base.fields (some null)) (update.map (fields none)))) = some result ↔
      (update.map (·.faces.action)).getD base.faces.action = result.faces.action ∧
      (update.bind (·.faces.route_class)).or base.faces.route_class = result.faces.route_class := by
  have h : Overrides FIELDS (base.fields (some null)) (fields none) := ⟨by decide, rfl, fun _ => List.Sublist.refl _⟩
  have hpolicy : (update.map fun _ => "block").getD "block" = "block" := by
    cases update <;> rfl
  rw [model_validate_eq_some, h.field_leaf (g := fun _ => "block") rfl fun _ => rfl, hpolicy,
    h.field_section (g := fun attachments => some attachments.faces) (i := FaceSettings.fields) rfl fun _ => rfl,
    FaceSettings.validate_merged]
  rw [and_iff_right (h.known update), and_iff_right rfl]
  cases update <;> rfl

end AttachmentsSettings

namespace SafetySettings

theorem model_validate_eq_some {entries : PolicyEntries} {safety : SafetySettings} :
    model_validate (.record entries) = some safety ↔
      Known FIELDS entries ∧ field entries "enabled" "enabled" (some []) codecs.texts.read = some safety.enabled ∧
      field entries "custom" "custom" (some []) codecs.safety_rules.read = some safety.custom := by
  simp only [model_validate, Option.bind_eq_bind, Option.bind_eq_some_iff]
  constructor
  · rintro ⟨enabled, henabled, custom, hcustom, h⟩
    split at h
    case isTrue hknown =>
      cases h
      exact ⟨hknown, henabled, hcustom⟩
    case isFalse => cases h
  · rintro ⟨hknown, henabled, hcustom⟩
    exact ⟨_, henabled, _, hcustom, if_pos hknown⟩

theorem validate_merged {base result : SafetySettings} {update : Option SafetyOverride} :
    model_validate (.record (merged base.fields (update.map SafetyOverride.fields))) = some result ↔
      (update.bind (·.enabled)).getD base.enabled = result.enabled ∧
      (update.bind (·.custom)).getD base.custom = result.custom := by
  have h : Overrides FIELDS base.fields SafetyOverride.fields := ⟨by decide, rfl, fun _ => List.Sublist.refl _⟩
  rw [model_validate_eq_some, h.field_optional rfl fun _ => rfl, h.field_optional rfl fun _ => rfl, Option.some.injEq,
    Option.some.injEq]
  exact and_iff_right (h.known update)

end SafetySettings

namespace ClassifierSettings

theorem model_validate_eq_some {entries : PolicyEntries} {classifier : ClassifierSettings} :
    model_validate (.record entries) = some classifier ↔
      Known FIELDS entries ∧
      field entries "defaultClass" "default_class" (some "general") codecs.text.read = some classifier.default_class ∧
      field entries "classes" "classes" (some []) codecs.classifier_classes.read = some classifier.classes := by
  simp only [model_validate, Option.bind_eq_bind, Option.bind_eq_some_iff]
  constructor
  · rintro ⟨default_class, hdefault_class, classes, hclasses, h⟩
    split at h
    case isTrue hknown =>
      cases h
      exact ⟨hknown, hdefault_class, hclasses⟩
    case isFalse => cases h
  · rintro ⟨hknown, hdefault_class, hclasses⟩
    exact ⟨_, hdefault_class, _, hclasses, if_pos hknown⟩

theorem validate_merged {base result : ClassifierSettings} {update : Option ClassifierOverride} :
    model_validate (.record (merged base.fields (update.map ClassifierOverride.fields))) = some result ↔
      (update.bind (·.default_class)).getD base.default_class = result.default_class ∧
      (update.bind (·.classes)).getD base.classes = result.classes := by
  have h : Overrides FIELDS base.fields ClassifierOverride.fields := ⟨by decide, rfl, fun _ => List.Sublist.refl _⟩
  rw [model_validate_eq_some, h.field_optional rfl fun _ => rfl, h.field_optional rfl fun _ => rfl, Option.some.injEq,
    Option.some.injEq]
  exact and_iff_right (h.known update)

end ClassifierSettings

namespace NoticeSettings

theorem model_validate_eq_some {entries : PolicyEntries} {notice : NoticeSettings} :
    model_validate (.record entries) = some notice ↔
      Known FIELDS entries ∧ field entries "rerouted" "rerouted" none codecs.text.read = some notice.rerouted ∧
      field entries "masked" "masked" none codecs.text.read = some notice.masked ∧
      field entries "showWhenNoPiiDetected" "show_when_no_pii_detected" (some true) codecs.flag.read =
        some notice.show_when_no_pii_detected := by
  simp only [model_validate, Option.bind_eq_bind, Option.bind_eq_some_iff]
  constructor
  · rintro ⟨rerouted, hrerouted, masked, hmasked, shown, hshown, h⟩
    split at h
    case isTrue hvalid =>
      cases h
      exact ⟨hvalid.1, hrerouted, hmasked, hshown⟩
    case isFalse => cases h
  · rintro ⟨hknown, hrerouted, hmasked, hshown⟩
    exact ⟨_, hrerouted, _, hmasked, _, hshown, dif_pos ⟨hknown, notice.rerouted_le, notice.masked_le⟩⟩

theorem validate_merged {base result : NoticeSettings} {update : Option NoticeSettings} :
    model_validate (.record (merged base.fields (update.map fields))) = some result ↔
      (update.map (·.rerouted)).getD base.rerouted = result.rerouted ∧
      (update.map (·.masked)).getD base.masked = result.masked ∧
      (update.map (·.show_when_no_pii_detected)).getD base.show_when_no_pii_detected =
        result.show_when_no_pii_detected := by
  have h : Overrides FIELDS base.fields fields := ⟨by decide, rfl, fun _ => List.Sublist.refl _⟩
  rw [model_validate_eq_some, h.field_leaf rfl fun _ => rfl, h.field_leaf rfl fun _ => rfl,
    h.field_leaf rfl fun _ => rfl]
  simp only [Option.some.injEq]
  exact and_iff_right (h.known update)

end NoticeSettings

namespace RoutingSettings

theorem model_validate_eq_some {entries : PolicyEntries} {routing : RoutingSettings} :
    model_validate (.record entries) = some routing ↔
      Known FIELDS entries ∧
      field entries "defaultTarget" "default_target" none codecs.text.read = some routing.default_target ∧
      field entries "targets" "targets" (some []) codecs.routing_targets.read = some routing.targets := by
  simp only [model_validate, Option.bind_eq_bind, Option.bind_eq_some_iff]
  constructor
  · rintro ⟨default_target, hdefault_target, targets, htargets, h⟩
    split at h
    case isTrue hvalid =>
      cases h
      exact ⟨hvalid.1, hdefault_target, htargets⟩
    case isFalse => cases h
  · rintro ⟨hknown, hdefault_target, htargets⟩
    exact ⟨_, hdefault_target, _, htargets, dif_pos ⟨hknown, routing.default_target_ok, routing.targets_le,
      routing.selectors_nodup, routing.default_present⟩⟩

theorem validate_merged {base result : RoutingSettings} {update : Option RoutingSettings} :
    model_validate (.record (merged base.fields (update.map fields))) = some result ↔
      (update.map (·.default_target)).getD base.default_target = result.default_target ∧
      (update.map (·.targets)).getD base.targets = result.targets := by
  have h : Overrides FIELDS base.fields fields := ⟨by decide, rfl, fun _ => List.Sublist.refl _⟩
  rw [model_validate_eq_some, h.field_leaf rfl fun _ => rfl, h.field_leaf rfl fun _ => rfl, Option.some.injEq,
    Option.some.injEq]
  exact and_iff_right (h.known update)

end RoutingSettings

namespace PiiSettings

theorem model_validate_eq_some {entries : PolicyEntries} {pii : PiiSettings} :
    model_validate (.record entries) = some pii ↔
      Known FIELDS entries ∧
      field entries "analyzerLanguages" "analyzer_languages" none codecs.texts.read = some pii.analyzer_languages ∧
      field entries "supportedLanguages" "supported_languages" (some ["en", "de", "nl"]) codecs.texts.read =
        some pii.supported_languages ∧
      field entries "scoreThreshold" "score_threshold" (some (45 / 100)) codecs.number.read = some pii.score_threshold ∧
      field entries "timeout" "timeout" (some 600) codecs.number.read = some pii.timeout ∧
      field entries "defaultAction" "default_action" (some .block) codecs.action.read = some pii.default_action ∧
      field entries "defaultOperator" "default_operator" (some default_operator_params) OperatorParams.model_validate =
        some pii.default_operator ∧
      field entries "analyzerEntities" "analyzer_entities" (some []) codecs.texts.read = some pii.analyzer_entities ∧
      field entries "maskOnReroute" "mask_on_reroute" (some true) codecs.flag.read = some pii.mask_on_reroute ∧
      field entries "hashWindowHours" "hash_window_hours" (some 24) codecs.count.read = some pii.hash_window_hours ∧
      field entries "entityPolicies" "entity_policies" (some []) codecs.entity_policies.read =
        some pii.entity_policies ∧
      field entries "ner" "ner" (some default_ner) NerSettings.model_validate = some pii.ner ∧
      field entries "customRecognizers" "custom_recognizers" (some []) codecs.custom_recognizers.read =
        some pii.custom_recognizers := by
  rw [model_validate]
  constructor
  · intro h
    obtain ⟨_, hanalyzer_languages, h⟩ := Option.bind_eq_some_iff.mp h
    obtain ⟨_, hsupported_languages, h⟩ := Option.bind_eq_some_iff.mp h
    obtain ⟨_, hscore_threshold, h⟩ := Option.bind_eq_some_iff.mp h
    obtain ⟨_, htimeout, h⟩ := Option.bind_eq_some_iff.mp h
    obtain ⟨_, hdefault_action, h⟩ := Option.bind_eq_some_iff.mp h
    obtain ⟨_, hdefault_operator, h⟩ := Option.bind_eq_some_iff.mp h
    obtain ⟨_, hanalyzer_entities, h⟩ := Option.bind_eq_some_iff.mp h
    obtain ⟨_, hmask_on_reroute, h⟩ := Option.bind_eq_some_iff.mp h
    obtain ⟨_, hhash_window_hours, h⟩ := Option.bind_eq_some_iff.mp h
    obtain ⟨_, hentity_policies, h⟩ := Option.bind_eq_some_iff.mp h
    obtain ⟨_, hner, h⟩ := Option.bind_eq_some_iff.mp h
    obtain ⟨_, hcustom_recognizers, h⟩ := Option.bind_eq_some_iff.mp h
    split at h
    case isTrue hvalid =>
      cases h
      exact ⟨hvalid.1, hanalyzer_languages, hsupported_languages, hscore_threshold, htimeout, hdefault_action,
        hdefault_operator, hanalyzer_entities, hmask_on_reroute, hhash_window_hours, hentity_policies, hner,
        hcustom_recognizers⟩
    case isFalse => cases h
  · rintro ⟨hknown, hanalyzer_languages, hsupported_languages, hscore_threshold, htimeout, hdefault_action,
      hdefault_operator, hanalyzer_entities, hmask_on_reroute, hhash_window_hours, hentity_policies, hner,
      hcustom_recognizers⟩
    rw [hanalyzer_languages, hsupported_languages, hscore_threshold, htimeout, hdefault_action, hdefault_operator,
      hanalyzer_entities, hmask_on_reroute, hhash_window_hours, hentity_policies, hner, hcustom_recognizers]
    exact dif_pos ⟨hknown, pii.analyzer_languages_ne, pii.score_threshold_ok, pii.timeout_ok, pii.hash_window_ok,
      pii.not_face, pii.languages_supported, pii.supported_nodup, pii.analyzer_nodup, pii.entity_nodup,
      pii.custom_nodup, pii.custom_supported⟩

/-- What becomes of the PII settings under an override. -/
structure Updated (base : PiiSettings) (update : Option PiiOverride) (result : PiiSettings) : Prop where
  analyzer_languages : (update.bind (·.analyzer_languages)).getD base.analyzer_languages = result.analyzer_languages
  supported_languages : base.supported_languages = result.supported_languages
  score_threshold : (update.bind (·.score_threshold)).getD base.score_threshold = result.score_threshold
  timeout : (update.bind (·.timeout)).getD base.timeout = result.timeout
  default_action : (update.bind (·.default_action)).elim (some base.default_action) PIIAction.ofName? =
    some result.default_action
  operator_type : ((update.bind (·.default_operator)).map (·.type)).getD base.default_operator.type =
    result.default_operator.type
  masking_char : ((update.bind (·.default_operator)).map (·.masking_char)).getD base.default_operator.masking_char =
    result.default_operator.masking_char
  chars_to_mask : ((update.bind (·.default_operator)).map (·.chars_to_mask)).getD base.default_operator.chars_to_mask =
    result.default_operator.chars_to_mask
  from_end : ((update.bind (·.default_operator)).map (·.from_end)).getD base.default_operator.from_end =
    result.default_operator.from_end
  new_value : ((update.bind (·.default_operator)).bind (·.new_value)).or base.default_operator.new_value =
    result.default_operator.new_value
  analyzer_entities : (update.bind (·.analyzer_entities)).getD base.analyzer_entities = result.analyzer_entities
  mask_on_reroute : (update.bind (·.mask_on_reroute)).getD base.mask_on_reroute = result.mask_on_reroute
  hash_window_hours : (update.bind (·.hash_window_hours)).getD base.hash_window_hours = result.hash_window_hours
  entity_policies : (update.bind (·.entity_policies)).getD base.entity_policies = result.entity_policies
  ner : base.ner = result.ner
  custom_recognizers : base.custom_recognizers = result.custom_recognizers

theorem overrides (base : PiiSettings) : Overrides FIELDS (base.fields (some null)) (PiiOverride.fields none) := by
  refine ⟨by decide, rfl, ?_⟩
  intro pii
  change (PiiOverride.FIELDS.map Prod.fst).Sublist (FIELDS.map Prod.fst)
  decide

/-- The default action of an override is looked up when the merged policy is validated. -/
theorem field_default_action (base : PiiSettings) (update : Option PiiOverride) (fallback : Option PIIAction) :
    field (merged (base.fields (some null)) (update.map (PiiOverride.fields none))) "defaultAction" "default_action"
        fallback codecs.action.read =
      (update.bind (·.default_action)).elim (some base.default_action) PIIAction.ofName? := by
  have hg : ∀ pii : PiiOverride, (pii.fields none).lookup "defaultAction" =
      some (pii.default_action.map codecs.text.dump) := fun _ => rfl
  have hbase : (base.fields (some null)).lookup "defaultAction" =
      some (some (codecs.action.dump base.default_action)) := rfl
  rw [merged, field_merged base.overrides.nodup (base.overrides.nodup_update update) hbase, Overrides.lookup_update hg]
  cases update with
  | none => exact codecs.action.read_dump base.default_action
  | some pii =>
    rw [Option.bind_some, Option.bind_some]
    cases pii.default_action with
    | none => exact codecs.action.read_dump base.default_action
    | some name => rfl

theorem validate_merged {base result : PiiSettings} {update : Option PiiOverride} :
    model_validate (.record (merged (base.fields (some null)) (update.map (PiiOverride.fields none)))) = some result ↔
      Updated base update result := by
  have h := base.overrides
  rw [model_validate_eq_some, h.field_optional rfl fun _ => rfl, h.field_kept rfl fun _ => rfl,
    h.field_optional rfl fun _ => rfl, h.field_optional rfl fun _ => rfl, field_default_action,
    h.field_section (g := fun pii => pii.default_operator) (i := OperatorParams.fields) rfl fun _ => rfl,
    OperatorParams.validate_merged, h.field_optional rfl fun _ => rfl, h.field_optional rfl fun _ => rfl,
    h.field_optional rfl fun _ => rfl, h.field_optional rfl fun _ => rfl, h.field_kept rfl fun _ => rfl,
    h.field_kept rfl fun _ => rfl, NerSettings.validate_dump, Codec.read_dump, Codec.read_dump]
  simp only [Option.some.injEq]
  constructor
  · rintro ⟨-, h1, h2, h3, h4, h5, ⟨h6, h7, h8, h9, h10⟩, h11, h12, h13, h14, h15, h16⟩
    exact ⟨h1, h2, h3, h4, h5, h6, h7, h8, h9, h10, h11, h12, h13, h14, h15, h16⟩
  · rintro ⟨h1, h2, h3, h4, h5, h6, h7, h8, h9, h10, h11, h12, h13, h14, h15, h16⟩
    exact ⟨h.known update, h1, h2, h3, h4, h5, ⟨h6, h7, h8, h9, h10⟩, h11, h12, h13, h14, h15, h16⟩

end PiiSettings

end pii_engine.config
