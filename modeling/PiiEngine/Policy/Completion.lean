import PiiEngine.Planner.Completion
import PiiEngine.Policy.Digests
import PiiEngine.Policy.Visual

open checked collections
open pii_engine.config pii_engine.planner

namespace pii_engine

/-- The spans of an expression lie within the text. -/
def RegexEngine.Lawful (re : RegexEngine) : Prop :=
  ∀ pattern text, ∀ span ∈ re.finditer pattern text, span.1 ≤ span.2 ∧ span.2 ≤ text.length

namespace policy.PolicyService

/-- A configured entity expression matches the empty text somewhere in a text. -/
def EmptyMatch (service : PolicyService) (text : Text) : Prop :=
  ∃ entry ∈ service.policy.pii.entity_policies, ∃ pattern ∈ entry.patterns,
    ∃ span ∈ service.re.finditer pattern text, span.1 = span.2

instance (service : PolicyService) (text : Text) : Decidable (service.EmptyMatch text) :=
  inferInstanceAs (Decidable (∃ entry ∈ _, ∃ pattern ∈ _, ∃ span ∈ _, _ = _))

/-- The placeholders that transforming some plans asks for. -/
def requested_placeholders (service : PolicyService) (env : Environment) (nonce : Text)
    (prepared : List (TextLeaf × LeafPlan)) : List (String × String × Text) :=
  prepared.flatMap fun entry => service.planner.plan_requests entry.2 nonce (env.clock entry.1.id)

variable {service : PolicyService} {env : Environment} {request : SegmentRequest} {include_diagnostics : Bool}
  {placeholder_namespace : Option Text} {leaves : List TextLeaf} {face_route : Option String} {plans : PreparedLeaves}
  {operate : Nat → String → PIIAction → OperatorArguments → Text → Text} {decrypt : String → Text → Text}

/-- Plans that are not blocked are all transformed, as long as the values they digest differ
    in their digests. -/
theorem transform_plans_total (request : SegmentRequest) {reroute_as_block : Bool} {nonce : Text}
    (hanswered : service.planner.Answered)
    (hlocal : service.planner.anonymizer.RewritesSpan operate)
    (hdecrypt : ∀ salt entity_type value, decrypt entity_type (operate salt entity_type .encrypt {} value) = value)
    (hplans : service.LeavesPrepared env reroute_as_block leaves plans)
    (hblocked : ∀ entry ∈ plans.prepared, entry.2.blocked = false)
    (hdistinct : service.planner.DigestsDistinct nonce (service.requested_placeholders env nonce plans.prepared)) :
    ∃ output, service.transform_plans env request plans.prepared nonce = .ok output := by
  suffices hloop : ∃ transformed, plans.prepared.foldlM (service.transform_leaf_plan env nonce) {} = .ok transformed ∧
      service.planner.Keyed operate nonce (service.requested_placeholders env nonce plans.prepared)
        transformed.reversal by
    obtain ⟨transformed, htransformed, -⟩ := hloop
    exact ⟨_, bind_eq_ok.mpr ⟨transformed, htransformed, rfl⟩⟩
  refine foldlM_total (fun _ (acc : TransformedLeaves) => service.planner.Keyed operate nonce
    (service.requested_placeholders env nonce plans.prepared) acc.reversal) keyed_empty ?_
  rintro done ⟨leaf, plan⟩ acc hentry hacc
  have hprepared := hplans.plans _ hentry
  obtain ⟨plan', hplan', hkeys⟩ := ActionPlanner.transform_total (env.clock leaf.id) hanswered hlocal hdecrypt
    hprepared.spans hprepared.resolved.disjoint hprepared.untransformed.2.2 (hblocked _ hentry) hdistinct
    fun key hkey => List.mem_flatMap.mpr ⟨_, hentry, hkey⟩
  have hkeyed := (ActionPlanner.transform_keyed hplan' hlocal hprepared.spans hprepared.resolved.disjoint
    hprepared.untransformed.2.2).mono hkeys
  obtain ⟨merged, hmerged⟩ := merge_reversal_total fun placeholder value value' hvalue hvalue' => by
    obtain ⟨kind, entity_type, key, hkey, hkeyed_by, rfl⟩ := hkeyed _ _ hvalue'
    exact hacc.unique hdecrypt hdistinct hkey hkeyed_by hvalue
  refine ⟨_, bind_eq_ok.mpr ⟨plan', hplan', bind_eq_ok.mpr ⟨merged, hmerged, rfl⟩⟩, ?_⟩
  intro placeholder value hget
  cases (merge_reversal_eq_ok hmerged placeholder value).mp hget with
  | inl htarget => exact hacc placeholder value htarget
  | inr hsource => exact hkeyed placeholder value hsource

/-- A text analysis completes when its plans are prepared and reportable, nothing looks like a
    placeholder of its own, and digests differ. -/
theorem analyze_text_total (hanswered : service.planner.Answered)
    (hlocal : service.planner.anonymizer.RewritesSpan operate)
    (hdecrypt : ∀ salt entity_type value, decrypt entity_type (operate salt entity_type .encrypt {} value) = value)
    (hplans : service.prepare_leaf_plans env (text_leaves request) (request.request_kind = .mcp) = .ok plans)
    (hreport : service.ReportableText plans)
    (hdistinct : service.planner.DigestsDistinct (request_namespace env placeholder_namespace)
      (service.requested_placeholders env (request_namespace env placeholder_namespace) plans.prepared))
    (hfresh : ∀ kind entity_type digest, ¬ ActionPlanner.placeholder_text kind entity_type
      (request_namespace env placeholder_namespace) digest <:+: Text.joinLines ((text_leaves request).map (·.text))) :
    ∃ result,
      service.analyze_text env request (text_leaves request) include_diagnostics placeholder_namespace face_route =
      .ok result := by
  have hprepared := prepare_leaf_plans_prepared hplans
  cases hanalysis : service.analyze_text env request (text_leaves request) include_diagnostics placeholder_namespace
      face_route with
  | ok result => exact ⟨result, rfl⟩
  | error e =>
    obtain ⟨hunblocked, hreason⟩ := analyze_text_failure hplans hreport hanalysis
    have hblocked : ∀ entry ∈ plans.prepared, entry.2.blocked = false := fun entry hentry => by
      rw [← Bool.not_eq_true]
      exact fun hblocked => hunblocked (Or.inl ⟨entry, hentry, hblocked⟩)
    rcases hreason with htransform | ⟨segments, transformed, htransform, ⟨placeholder, hkey, hinfix⟩, -⟩
    · obtain ⟨output, houtput⟩ := transform_plans_total request hanswered hlocal hdecrypt hprepared hblocked
        hdistinct
      rw [houtput] at htransform
      cases htransform
    · have hkeyed := transform_plans_keyed hlocal hprepared htransform
      obtain ⟨value, hvalue⟩ := Option.isSome_iff_exists.mp (OrderedDict.mem_keys_iff.mp hkey)
      obtain ⟨kind, entity_type, key, -, -, rfl⟩ := hkeyed placeholder value hvalue
      exact absurd hinfix (hfresh kind entity_type _)

/-- The custom matches of a text cover characters exactly when no expression matches the
    empty text in it. -/
theorem custom_matches_within_iff (hre : service.re.Lawful) (text : Text) :
    (∀ item ∈ service.custom_matches text, item.SpanWithin text.length) ↔ ¬ service.EmptyMatch text := by
  constructor
  · rintro h ⟨entry, hentry, pattern, hpattern, span, hspan, hempty⟩
    have hitem : (⟨entry.entity_type, span.1, span.2, some (95 / 100), "policy-regex"⟩ : EntityMatch) ∈
        service.custom_matches text :=
      List.mem_flatMap.mpr ⟨entry, hentry, List.mem_flatMap.mpr ⟨pattern, hpattern, List.mem_map_of_mem hspan⟩⟩
    obtain ⟨-, hlt, -⟩ := h _ hitem
    dsimp only at hlt
    omega
  · intro h item hitem
    obtain ⟨entry, hentry, hitem⟩ := List.mem_flatMap.mp hitem
    obtain ⟨pattern, hpattern, hitem⟩ := List.mem_flatMap.mp hitem
    obtain ⟨span, hspan, rfl⟩ := List.mem_map.mp hitem
    obtain ⟨hle, hlength⟩ := hre pattern text span hspan
    have hne : span.1 ≠ span.2 := fun hempty => h ⟨entry, hentry, pattern, hpattern, span, hspan, hempty⟩
    refine ⟨?_, ?_, ?_⟩
    · dsimp only
      omega
    · dsimp only
      omega
    · dsimp only
      omega

theorem custom_matches_score {text : Text} {item : EntityMatch} (h : item ∈ service.custom_matches text) :
    item.ScoreValid ∧ ReportedType item.entity_type := by
  obtain ⟨entry, -, h⟩ := List.mem_flatMap.mp h
  obtain ⟨pattern, -, h⟩ := List.mem_flatMap.mp h
  obtain ⟨span, -, rfl⟩ := List.mem_map.mp h
  exact ⟨⟨95 / 100, rfl, by decide +kernel, by decide +kernel⟩, entry.entity_type_ok, entry.not_face⟩

/-- A selected entity of an accepted policy can be reported. -/
theorem reportedType_of_selected {policy : PolicySettings} (hselection : validate_policy_selection policy = .ok ())
    {entity : String} (h : entity ∈ selected_entities policy) : ReportedType entity := by
  have hcustom : entity ∈ custom_entities policy → ReportedType entity := by
    intro hmem
    obtain ⟨item, -, rfl⟩ := List.mem_map.mp hmem
    exact item.entity_ok
  have hcatalog : entity ∈ ENTITY_CATALOG → ReportedType entity := by
    have hall : ∀ name ∈ ENTITY_CATALOG, isEntityType name = true ∧ name ≠ "FACE" := by decide
    exact hall entity
  unfold selected_entities at h
  split at h
  · rw [validate_policy_selection, raiseIf_eq_ok] at hselection
    by_contra hnone
    exact hselection ⟨entity, h, fun hmem => hnone (hcatalog hmem), fun hmem => hnone (hcustom hmem)⟩
  · cases List.mem_append.mp h with
    | inl hmem => exact hcatalog hmem
    | inr hmem => exact hcustom hmem

/-- A detection without characters is rejected before any other work on its leaf. -/
theorem prepare_invalid_span {planner : ActionPlanner} {text : Text} {items : List EntityMatch}
    (hscores : ∀ item ∈ items, item.ScoreValid) (hspan : ∃ item ∈ items, ¬ item.SpanWithin text.length)
    (reroute_as_block : Bool) :
    planner.prepare text items reroute_as_block = .error (.value_error "analyzer returned an invalid entity span") := by
  have hcheck : validate_spans items text.length =
      .error (.value_error "analyzer returned an invalid entity span") := by
    cases hrun : validate_spans items text.length with
    | ok =>
      obtain ⟨item, hitem, hinvalid⟩ := hspan
      exact absurd (validate_spans_eq_ok.mp hrun item hitem).1 hinvalid
    | error e =>
      obtain ⟨item, hitem, hfail⟩ := forM_eq_error hrun
      rw [raiseIf_bind_eq_error, raiseIf_eq_error] at hfail
      cases hfail with
      | inl hspan => rw [← hspan.2]
      | inr hscore => exact absurd (hscores item hitem) hscore.2.1
  rw [ActionPlanner.prepare, ActionPlanner.resolve_matches, resolve_matches, hcheck]
  rfl

/-- What an accepted policy promises of a request: its expressions find characters only, every
    leaf is prepared, and the analysis completes. -/
structure Executes (service : PolicyService) (env : Environment) (request : SegmentRequest) (include_diagnostics : Bool)
    (placeholder_namespace : Option Text) : Prop where
  spans : ∀ leaf ∈ text_leaves request, ∀ item ∈ service.custom_matches leaf.text, item.SpanWithin leaf.text.length
  prepared : ∀ leaf ∈ text_leaves request, ∀ analyzed, env.analyze leaf = .ok analyzed → ∀ reroute_as_block,
    ∃ plan, service.planner.prepare leaf.text (analyzed ++ service.custom_matches leaf.text) reroute_as_block = .ok plan
  completes : ∃ result, service.analyze_segments env request include_diagnostics placeholder_namespace = .ok result

/-- The analyzer answers every leaf with valid detections of selected entities. -/
def AnalyzesValid (service : PolicyService) (env : Environment) (leaves : List TextLeaf) : Prop :=
  ∀ leaf ∈ leaves, ∃ analyzed, env.analyze leaf = .ok analyzed ∧
    ∀ item ∈ analyzed, item.Valid leaf.text.length ∧ item.entity_type ∈ selected_entities service.policy

theorem rawMatches_eq {leaf : TextLeaf} {analyzed : List EntityMatch} (h : env.analyze leaf = .ok analyzed) :
    service.rawMatches env leaf = analyzed ++ service.custom_matches leaf.text := by
  rw [rawMatches, h]

theorem rawMatchesValid (hre : service.re.Lawful) (hanalyzer : service.AnalyzesValid env leaves)
    (hnonempty : ∀ leaf ∈ leaves, ¬ service.EmptyMatch leaf.text) : service.RawMatchesValid env leaves := by
  intro leaf hleaf
  obtain ⟨analyzed, hanalyzed, hitems⟩ := hanalyzer leaf hleaf
  refine ⟨⟨analyzed, hanalyzed⟩, ?_⟩
  rw [rawMatches_eq hanalyzed, List.forall_mem_append]
  refine ⟨fun item hitem => (hitems item hitem).1, fun item hitem => ⟨?_, (custom_matches_score hitem).1⟩⟩
  exact (custom_matches_within_iff hre leaf.text).mpr (hnonempty leaf hleaf) item hitem

theorem typesAdmitted (hselection : validate_policy_selection service.policy = .ok ())
    (hanalyzer : service.AnalyzesValid env leaves) : service.TypesAdmitted env leaves := by
  intro leaf hleaf
  obtain ⟨analyzed, hanalyzed, hitems⟩ := hanalyzer leaf hleaf
  rw [rawMatches_eq hanalyzed, List.forall_mem_append]
  exact ⟨fun item hitem => reportedType_of_selected hselection (hitems item hitem).2,
    fun item hitem => (custom_matches_score hitem).2⟩

/-- A request that preflight accepts keeps the bound on its characters. -/
theorem characters_le_of_preflight {settled : Option PolicyResult}
    (h : service.preflight request (text_leaves request) = .ok settled) :
    ((text_leaves request).map (·.text.length)).sum ≤ service.settings.max_text_characters := by
  by_cases hempty : text_leaves request = []
  · rw [hempty]
    exact Nat.zero_le _
  · unfold preflight at h
    rw [if_neg fun hmcp => hempty hmcp.2.1] at h
    obtain ⟨⟨⟩, hbounds, -⟩ := bind_eq_ok.mp h
    rw [validate_visible_text, if_pos (Or.inl hempty), validate_bounds_eq_ok] at hbounds
    exact hbounds.2.2

theorem prepare_leaf_plans_invalid (hre : service.re.Lawful) (hanalyzer : service.AnalyzesValid env leaves)
    (hempty : ∃ leaf ∈ leaves, service.EmptyMatch leaf.text) (reroute_as_block : Bool) :
    service.prepare_leaf_plans env leaves reroute_as_block =
      .error (.value_error "analyzer returned an invalid entity span") := by
  have hscores : ∀ leaf ∈ leaves, ∀ analyzed, env.analyze leaf = .ok analyzed →
      ∀ item ∈ analyzed ++ service.custom_matches leaf.text, item.ScoreValid := by
    intro leaf hleaf analyzed hanalyzed
    obtain ⟨answer, hanswer, hitems⟩ := hanalyzer leaf hleaf
    rw [hanalyzed, Except.ok.injEq] at hanswer
    subst hanswer
    rw [List.forall_mem_append]
    exact ⟨fun item hitem => (hitems item hitem).1.2, fun item hitem => (custom_matches_score hitem).1⟩
  have hfails : ∀ leaf ∈ leaves, service.EmptyMatch leaf.text → ∀ acc,
      service.prepare_leaf_plan env reroute_as_block acc leaf =
        .error (.value_error "analyzer returned an invalid entity span") := by
    intro leaf hleaf hmatch acc
    obtain ⟨analyzed, hanalyzed, -⟩ := hanalyzer leaf hleaf
    have hinvalid : ∃ item ∈ analyzed ++ service.custom_matches leaf.text, ¬ item.SpanWithin leaf.text.length := by
      by_contra hnone
      push Not at hnone
      refine absurd hmatch ((custom_matches_within_iff hre leaf.text).mp fun item hitem => ?_)
      exact hnone item (List.mem_append_right _ hitem)
    rw [prepare_leaf_plan, hanalyzed]
    change (service.planner.prepare leaf.text (analyzed ++ service.custom_matches leaf.text) reroute_as_block >>= _) = _
    rw [prepare_invalid_span (hscores leaf hleaf analyzed hanalyzed) hinvalid]
    rfl
  refine foldlM_eq_error ?_ ?_ _
  · intro leaf hleaf acc
    by_cases hmatch : service.EmptyMatch leaf.text
    · exact Or.inr (hfails leaf hleaf hmatch acc)
    · obtain ⟨analyzed, hanalyzed, -⟩ := hanalyzer leaf hleaf
      have hanswer : service.AnalyzesValid env [leaf] := fun other hother =>
        hanalyzer other (List.mem_singleton.mp hother ▸ hleaf)
      have hvalid := rawMatchesValid hre hanswer (by simpa using hmatch) leaf (by simp)
      rw [rawMatches_eq hanalyzed] at hvalid
      obtain ⟨plan, hplan⟩ : ∃ plan, service.planner.prepare leaf.text (analyzed ++ service.custom_matches leaf.text)
          reroute_as_block = .ok plan := ActionPlanner.prepare_total hvalid.2 reroute_as_block
      exact Or.inl ⟨_, bind_eq_ok.mpr ⟨analyzed, hanalyzed, bind_eq_ok.mpr ⟨plan, hplan, rfl⟩⟩⟩
  · obtain ⟨leaf, hleaf, hmatch⟩ := hempty
    exact ⟨leaf, hleaf, hfails leaf hleaf hmatch⟩

/-- An accepted policy can be executed exactly on the texts in which none of its entity
    expressions matches the empty text. Elsewhere every request fails that reaches the
    analysis of its text. -/
theorem accepted_policy_executes_iff (service : PolicyService) (env : Environment) (request : SegmentRequest)
    (include_diagnostics : Bool) (placeholder_namespace : Option Text)
    (hselection : validate_policy_selection service.policy = .ok ()) (hre : service.re.Lawful)
    (hanalyzer : service.AnalyzesValid env (text_leaves request)) (hanswered : service.planner.Answered)
    (hlocal : service.planner.anonymizer.RewritesSpan operate)
    (hdecrypt : ∀ salt entity_type value, decrypt entity_type (operate salt entity_type .encrypt {} value) = value)
    (hlimits : ∃ settled, service.preflight request (text_leaves request) = .ok settled)
    (hdistinct : ∀ plans,
      service.prepare_leaf_plans env (text_leaves request) (request.request_kind = .mcp) = .ok plans →
      service.planner.DigestsDistinct (request_namespace env placeholder_namespace)
        (service.requested_placeholders env (request_namespace env placeholder_namespace) plans.prepared))
    (hfresh : ∀ kind entity_type digest, ¬ ActionPlanner.placeholder_text kind entity_type
      (request_namespace env placeholder_namespace) digest <:+: Text.joinLines ((text_leaves request).map (·.text))) :
    (service.Executes env request include_diagnostics placeholder_namespace ↔
      ∀ leaf ∈ text_leaves request, ¬ service.EmptyMatch leaf.text) ∧
    (service.preflight request (text_leaves request) = .ok none →
      service.visual_decision request (text_leaves request) = none →
      (∃ leaf ∈ text_leaves request, service.EmptyMatch leaf.text) →
      service.analyze_segments env request include_diagnostics placeholder_namespace =
        .error (.value_error "analyzer returned an invalid entity span")) := by
  refine ⟨⟨fun h leaf hleaf => (custom_matches_within_iff hre leaf.text).mp (h.spans leaf hleaf), ?_⟩, ?_⟩
  · intro hnonempty
    have hvalid := rawMatchesValid hre hanalyzer hnonempty
    refine ⟨?_, ?_, ?_⟩
    · exact fun leaf hleaf => (custom_matches_within_iff hre leaf.text).mpr (hnonempty leaf hleaf)
    · intro leaf hleaf analyzed hanalyzed reroute_as_block
      have hitems := (hvalid leaf hleaf).2
      rw [rawMatches_eq hanalyzed] at hitems
      exact ActionPlanner.prepare_total hitems reroute_as_block
    · obtain ⟨plans, hplans⟩ := prepare_leaf_plans_total hvalid (request.request_kind = .mcp)
      obtain ⟨settled, hpreflight⟩ := hlimits
      have hreport := reportableText (prepare_leaf_plans_prepared hplans) (typesAdmitted hselection hanalyzer)
        (characters_le_of_preflight hpreflight)
      cases hanalysis : service.analyze_segments env request include_diagnostics placeholder_namespace with
      | ok result => exact ⟨result, rfl⟩
      | error e =>
        cases analyze_segments_error hanalysis with
        | inl hfailed =>
          rw [hpreflight] at hfailed
          cases hfailed
        | inr htext =>
          obtain ⟨result, hresult⟩ :=
            analyze_text_total hanswered hlocal hdecrypt hplans hreport (hdistinct plans hplans)
            hfresh
          rw [hresult] at htext
          cases htext.2
  · intro hpreflight hvisual hempty
    have hfails := prepare_leaf_plans_invalid hre hanalyzer hempty (request.request_kind = .mcp)
    rw [analyze_segments, hpreflight]
    change (service.settled_or_text env request include_diagnostics placeholder_namespace
      (Option.or none (service.visual_decision request (text_leaves request))) >>= _) = _
    rw [hvisual, Option.or_none, settled_or_text, analyze_text, hfails]
    rfl

/-- The spans of `a*` in a text, from where the scan stands and how many letters it has read. -/
def star_spans (position run : Nat) : Text → List (Nat × Nat)
  | [] => if run = 0 then [(position, position)] else [(position - run, position), (position, position)]
  | c :: text =>
    if c = 'a' then star_spans (position + 1) (run + 1) text
    else (if run = 0 then [(position, position)] else [(position - run, position), (position, position)]) ++
      star_spans (position + 1) 0 text

/-- An engine that knows `a*` and `a+`. -/
def star_engine : RegexEngine where
  compiles pattern := pattern = "a*" ∨ pattern = "a+"
  search _ _ := false
  finditer pattern text :=
    if pattern = "a*" then star_spans 0 0 text
    else if pattern = "a+" then (star_spans 0 0 text).filter fun span => span.1 < span.2
    else []

theorem star_spans_lawful (position run : Nat) (text : Text) (hrun : run ≤ position) :
    ∀ span ∈ star_spans position run text, span.1 ≤ span.2 ∧ span.2 ≤ position + text.length := by
  have hends : ∀ span ∈ (if run = 0 then [(position, position)]
      else [(position - run, position), (position, position)]), span.1 ≤ span.2 ∧ span.2 ≤ position := by
    intro span hspan
    split at hspan
    · rw [List.mem_singleton.mp hspan]
      exact ⟨le_refl _, le_refl _⟩
    · simp only [List.mem_cons, List.not_mem_nil, or_false] at hspan
      rcases hspan with rfl | rfl
      · exact ⟨Nat.sub_le _ _, le_refl _⟩
      · exact ⟨le_refl _, le_refl _⟩
  induction text generalizing position run with
  | nil => exact hends
  | cons c text ih =>
    unfold star_spans
    rw [List.length_cons]
    split
    · intro span hspan
      have := ih (position + 1) (run + 1) (by omega) ?_ span hspan
      · omega
      · intro span hspan
        rw [if_neg (by omega)] at hspan
        simp only [List.mem_cons, List.not_mem_nil, or_false] at hspan
        rcases hspan with rfl | rfl
        · dsimp only
          omega
        · dsimp only
          omega
    · rw [List.forall_mem_append]
      refine ⟨fun span hspan => ?_, fun span hspan => ?_⟩
      · have := hends span hspan
        omega
      · have := ih (position + 1) 0 (by omega) (by simp) span hspan
        omega

theorem star_engine_lawful : star_engine.Lawful := by
  intro pattern text span hspan
  have hstar := star_spans_lawful 0 0 text (le_refl 0) span
  rw [Nat.zero_add] at hstar
  change span ∈ (if pattern = "a*" then star_spans 0 0 text
    else if pattern = "a+" then (star_spans 0 0 text).filter fun span => span.1 < span.2 else []) at hspan
  split at hspan
  · exact hstar hspan
  · split at hspan
    · exact hstar (List.mem_filter.mp hspan).1
    · simp at hspan

/-- One entity expression whose matches are replaced reversibly. -/
def pattern_policy (pattern : String) : EntityPolicy :=
  { mail_entry.withAction .reversible_replace with
    entity_type := "USERNAME"
    patterns := [pattern]
    entity_type_ok := by decide
    not_face := by decide
    patterns_le := by simp }

/-- The test service with one entity expression. -/
def pattern_service (pattern : String) : PolicyService :=
  { test_service with
    planner := { ActionPlanner.test_planner with
      policy := { test_policy with
        pii := { test_pii with
          default_action := .block
          entity_policies := [pattern_policy pattern]
          entity_nodup := by simp } } }
    re := star_engine
    compiled := rfl }

def letters_request : SegmentRequest :=
  .ofTexts .chat .request [⟨"l1", "caab".toList, by decide⟩] false (by decide)

theorem answered_test (policy : PolicySettings) :
    ActionPlanner.Answered { ActionPlanner.test_planner with policy } := by
  constructor
  · exact fun text item _ => ⟨_, rfl⟩
  · intro text item _ action haction
    simp only [List.mem_cons, List.not_mem_nil, or_false] at haction
    rcases haction with rfl | rfl | rfl
    · exact ⟨_, rfl⟩
    · exact ⟨_, rfl⟩
    · exact ⟨_, rfl⟩

/-- An expression that matches the empty text is accepted, and then every text fails. -/
theorem accepted_policy_fails_star : validate_policy_selection (pattern_service "a*").policy = .ok () ∧
    star_engine.compiles "a*" = true ∧
    (∃ item ∈ (pattern_service "a*").custom_matches "caab".toList, item.start = item.stop) ∧
    ∀ result, (pattern_service "a*").analyze_segments (test_environment []) letters_request false none ≠
      .ok result := by
  have hfails : ((pattern_service "a*").analyze_segments (test_environment []) letters_request false
      none).toOption.isNone = true := by decide +kernel
  refine ⟨by decide +kernel, by decide, by decide +kernel, ?_⟩
  intro result hresult
  rw [hresult] at hfails
  cases hfails

/-- The same policy with an expression for letters only. -/
theorem accepted_policy_executes_plus :
    (pattern_service "a+").Executes (test_environment []) letters_request false none := by
  have hpasses : (pattern_service "a+").PassesPreflight letters_request :=
    ⟨rfl, by decide, by decide, by decide, by decide +kernel⟩
  have hdigests : ((pattern_service "a+").prepare_leaf_plans (test_environment []) (text_leaves letters_request)
      false).toOption.any (fun plans => decide ((pattern_service "a+").planner.DigestsDistinct
        "0123456789abcdef".toList ((pattern_service "a+").requested_placeholders (test_environment [])
          "0123456789abcdef".toList plans.prepared))) = true := by decide +kernel
  refine (accepted_policy_executes_iff (pattern_service "a+") (test_environment []) letters_request false none
    (by decide +kernel) star_engine_lawful (fun leaf _ => ⟨[], rfl, by simp⟩) (answered_test _)
    TestAnonymizer_rewritesSpan
    (fun _ _ value => Function.leftInverse_invFun test_anonymizer.hexEncode_injective value)
    ⟨_, hpasses.preflight_eq⟩ ?_ ?_).1.mpr (by decide +kernel)
  · intro plans hplans
    change (pattern_service "a+").prepare_leaf_plans (test_environment []) (text_leaves letters_request) false =
      _ at hplans
    rw [hplans] at hdigests
    exact of_decide_eq_true hdigests
  · intro kind entity_type digest hinfix
    have hmark : '<' ∈ Text.joinLines ((text_leaves letters_request).map (·.text)) :=
      hinfix.subset (by simp [ActionPlanner.placeholder_text])
    exact absurd hmark (by decide)

end policy.PolicyService

end pii_engine
