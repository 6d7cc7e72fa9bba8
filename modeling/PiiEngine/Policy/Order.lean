import PiiEngine.Policy.Aggregates
import PiiEngine.Policy.Completion

open checked collections
open pii_engine.config pii_engine.planner

namespace pii_engine

/-- The same request with its segments in another order. -/
def SegmentRequest.reordered (request : SegmentRequest) (segments : List TextSegment)
    (hperm : request.segments.Perm segments) : SegmentRequest :=
  { request with
    segments
    ids_nodup := (hperm.map TextSegment.id).nodup_iff.mp request.ids_nodup }

namespace policy.PolicyService

/-- What two results agree on when the segments of one request are those of the other in
    another order. Each segment becomes what it becomes on its own. -/
structure SameUpToOrder (service : PolicyService) (env : Environment) (request : SegmentRequest)
    (segments : List TextSegment) (nonce : Text) (result result' : PolicyResult) : Prop where
  decision : result.decision = result'.decision
  safety_rule : result.safety_rule = result'.safety_rule
  entities : result.entities = result'.entities
  entity_counts : ∀ e, result.entity_counts.get? e = result'.entity_counts.get? e
  applied_actions : result.applied_actions = result'.applied_actions
  report_rows : result.report_rows = result'.report_rows
  overlap_count : result.overlap_count = result'.overlap_count
  reversal : ∀ placeholder, result.reversal.get? placeholder = result'.reversal.get? placeholder
  route_class : result.decision = .reroute → result.route_class = result'.route_class
  segments : (result.segments = none ∧ result'.segments = none) ∨ ∃ rewrite : TextSegment → Text,
    (∀ segment ∈ request.segments,
      service.segment_output env (request.request_kind = .mcp) nonce segment = .ok (rewrite segment)) ∧
    result.segments = some (request.segments.map fun segment => { segment with text := rewrite segment }) ∧
    result'.segments = some (segments.map fun segment => { segment with text := rewrite segment })

variable {service : PolicyService} {env : Environment} {request : SegmentRequest} {segments : List TextSegment}
  {include_diagnostics : Bool} {placeholder_namespace : Option Text} {leaves leaves' : List TextLeaf}
  {plans : PreparedLeaves} {face_route : Option String}

/-- A text analysis succeeds when its rows are reported, and its plans, unless blocked, are
    transformed afresh. -/
theorem analyze_text_of_parts
    (hplans : service.prepare_leaf_plans env (text_leaves request) (request.request_kind = .mcp) = .ok plans)
    (hblocked : service.TextBlocked face_route plans → ∃ rows, report_rows plans.prepared = .ok rows)
    (hunblocked : ¬ service.TextBlocked face_route plans → ∃ output transformed rows,
      service.transform_plans env request plans.prepared (request_namespace env placeholder_namespace) =
        .ok (output, transformed) ∧
      (∀ placeholder ∈ transformed.reversal.keys,
        ¬ placeholder <:+: Text.joinLines ((text_leaves request).map (·.text))) ∧
      report_rows transformed.prepared = .ok rows) :
    ∃ result,
      service.analyze_text env request (text_leaves request) include_diagnostics placeholder_namespace face_route =
      .ok result := by
  obtain ⟨details, hdetails⟩ := requested_diagnostics_total (prepare_leaf_plans_prepared hplans) include_diagnostics
  have hcondition : ((plans.prepared.any (·.2.blocked)) = true ∨
      service.face_route_conflicts face_route plans.reroute_entities = true) ↔
        service.TextBlocked face_route plans := by
    rw [TextBlocked, List.any_eq_true]
  by_cases hblock : service.TextBlocked face_route plans
  · obtain ⟨rows, hrows⟩ := hblocked hblock
    exact ⟨_, bind_eq_ok.mpr ⟨plans, hplans, bind_eq_ok.mpr ⟨details, hdetails,
      (if_pos (hcondition.mpr hblock)).trans (bind_eq_ok.mpr ⟨rows, hrows, rfl⟩)⟩⟩⟩
  · obtain ⟨output, transformed, rows, htransform, hfresh, hrows⟩ := hunblocked hblock
    have hnone : ¬ ∃ placeholder ∈ transformed.reversal.keys,
        placeholder <:+: Text.joinLines ((text_leaves request).map (·.text)) := by
      rintro ⟨placeholder, hkey, hinfix⟩
      exact hfresh placeholder hkey hinfix
    exact ⟨_, bind_eq_ok.mpr ⟨plans, hplans, bind_eq_ok.mpr ⟨details, hdetails,
      (if_neg (hcondition.not.mpr hblock)).trans (bind_eq_ok.mpr ⟨(output, transformed), htransform,
        raiseIf_bind_eq_ok.mpr ⟨hnone, bind_eq_ok.mpr ⟨rows, hrows, rfl⟩⟩⟩)⟩⟩⟩

theorem text_decision_congr {actions actions' : UniqueList PIIAction}
    (h : ∀ action, action ∈ actions ↔ action ∈ actions') (route : Option String) :
    text_decision route actions = text_decision route actions' := by
  have happlies : (∃ action ∈ actions.elems, action ≠ .pass) ↔ ∃ action ∈ actions'.elems, action ≠ .pass :=
    exists_congr fun action => and_congr_left fun _ => h action
  rw [text_decision, text_decision, if_congr happlies rfl rfl]

theorem sortedActions_congr {actions actions' : UniqueList PIIAction}
    (h : ∀ action, action ∈ actions ↔ action ∈ actions') :
    sortedActions (piiActions actions) = sortedActions (piiActions actions') := by
  apply UniqueList.sorted_congr ReportAction.name_injective
  intro action
  have hmap : ∀ pii_action, pii_action ∈ actions.elems ↔ pii_action ∈ actions'.elems := h
  simp only [piiActions, UniqueList.mem_ofList, List.mem_map, hmap]

/-- Only a rerouted text has a route that its segments do not decide. -/
theorem route_of_text_decision {route : Option String} {actions : UniqueList PIIAction}
    (h : text_decision route actions = .reroute) : route ≠ none := by
  rintro rfl
  unfold text_decision at h
  split at h
  · next hsome => cases hsome
  · split at h
    · cases h
    · cases h

theorem text_leaves_perm (hperm : request.segments.Perm segments) :
    (text_leaves request).Perm (text_leaves (request.reordered segments hperm)) :=
  hperm.map _

/-- Preflight measures and searches the segments in any order. -/
theorem preflight_perm (hperm : request.segments.Perm segments) :
    service.preflight (request.reordered segments hperm) (text_leaves (request.reordered segments hperm)) =
      service.preflight request (text_leaves request) := by
  have hleaves := text_leaves_perm hperm
  generalize text_leaves (request.reordered segments hperm) = leaves' at hleaves
  generalize text_leaves request = leaves at hleaves
  have hlength : leaves'.length = leaves.length := hleaves.length_eq.symm
  have hcharacters : (leaves'.map (·.text.length)).sum = (leaves.map (·.text.length)).sum := (hleaves.map _).sum_eq.symm
  have hempty : leaves' = [] ↔ leaves = [] := by
    rw [← List.length_eq_zero_iff, hlength, List.length_eq_zero_iff]
  have hsafety : service.safety_match leaves' = service.safety_match leaves := by
    unfold safety_match
    congr 1
    funext rule
    exact hleaves.symm.any_eq
  have hlimits : service.validate_segment_limits leaves' = service.validate_segment_limits leaves := by
    simp only [validate_segment_limits, hlength, hcharacters]
  have hvisible : service.validate_visible_text (request.reordered segments hperm) leaves' =
      service.validate_visible_text request leaves := by
    simp only [validate_visible_text, validate_bounds, hempty, hlimits, ne_eq]
    rfl
  have hblock : service.preflight_block (request.reordered segments hperm) leaves' =
      service.preflight_block request leaves := by
    simp only [preflight_block, hsafety, hlength]
    rfl
  simp only [preflight, hempty, hvisible, hblock]
  rfl

/-- The texts of a request in another order show the same single lines. -/
theorem fresh_perm (hperm : request.segments.Perm segments) {placeholder : Text} (hline : '\n' ∉ placeholder)
    (hne : placeholder ≠ []) :
    placeholder <:+: Text.joinLines ((text_leaves (request.reordered segments hperm)).map (·.text)) ↔
      placeholder <:+: Text.joinLines ((text_leaves request).map (·.text)) := by
  have htexts := (text_leaves_perm hperm).map (·.text)
  rw [Text.infix_joinLines_iff hline hne, Text.infix_joinLines_iff hline hne]
  simp only [htexts.mem_iff]

/-- A text analysis that succeeds in one order succeeds in every order. -/
theorem analyze_text_perm_total (hperm : request.segments.Perm segments)
    (hnonce : '\n' ∉ request_namespace env placeholder_namespace) {result : PolicyResult}
    (h : service.analyze_text env request (text_leaves request) include_diagnostics placeholder_namespace none =
      .ok result) :
    ∃ result', service.analyze_text env (request.reordered segments hperm)
      (text_leaves (request.reordered segments hperm)) include_diagnostics placeholder_namespace none =
        .ok result' := by
  obtain ⟨plans, hplans, -, hcases⟩ := analyze_text_cases h
  obtain ⟨plans', hplans', hentries⟩ := prepare_leaf_plans_perm (text_leaves_perm hperm) hplans
  have hprepared := prepare_leaf_plans_prepared hplans
  have hprepared' := prepare_leaf_plans_prepared hplans'
  apply analyze_text_of_parts hplans'
  · intro hblock
    rw [← text_blocked_congr hentries] at hblock
    cases hcases with
    | inl hblocked => exact ⟨_, (report_rows_perm hprepared.reportable hentries) ▸ hblocked.2.report_rows⟩
    | inr htransformed => exact absurd hblock htransformed.1
  · intro hblock
    rw [← text_blocked_congr hentries] at hblock
    cases hcases with
    | inl hblocked => exact absurd hblocked.1 hblock
    | inr htext =>
      obtain ⟨-, output, transformed, hresult⟩ := htext
      have htransformed := (transform_plans_transformed hresult.transform hprepared.leaves).1
      obtain ⟨⟨output', transformed'⟩, htransform'⟩ :=
        transform_plans_of_perm (request.reordered segments hperm) hentries htransformed
      have htransformed' := (transform_plans_transformed htransform' hprepared'.leaves).1
      have hafter := transformed_perm htransformed htransformed' hentries
      have hrows := report_rows_perm (htransformed.reportable hprepared) hafter
      refine ⟨output', transformed', result.report_rows, htransform', ?_, hrows ▸ hresult.report_rows⟩
      intro placeholder hkey
      have hkey' : placeholder ∈ transformed.reversal.keys := by
        rw [OrderedDict.mem_keys_iff] at hkey ⊢
        rwa [reversal_congr htransformed htransformed' hafter]
      obtain ⟨hline, hne⟩ :=
        newline_not_mem_reversal hprepared htransformed hresult.report_rows hnonce placeholder hkey'
      rw [fresh_perm hperm hline hne]
      exact hresult.fresh placeholder hkey'

/-- Two text analyses of one request in two orders agree. -/
theorem analyze_text_perm (hperm : request.segments.Perm segments) {result result' : PolicyResult}
    (h : service.analyze_text env request (text_leaves request) include_diagnostics placeholder_namespace none =
      .ok result)
    (h' : service.analyze_text env (request.reordered segments hperm)
      (text_leaves (request.reordered segments hperm)) include_diagnostics placeholder_namespace none = .ok result') :
    service.SameUpToOrder env request segments (request_namespace env placeholder_namespace) result result' := by
  obtain ⟨plans, hplans, hscanned, hcases⟩ := analyze_text_cases h
  obtain ⟨other, hother, hscanned', hcases'⟩ := analyze_text_cases h'
  obtain ⟨plans', hplans', hentries⟩ := prepare_leaf_plans_perm (text_leaves_perm hperm) hplans
  obtain rfl : plans' = other := Except.ok.inj (hplans'.symm.trans hother)
  have hprepared := prepare_leaf_plans_prepared hplans
  have hprepared' := prepare_leaf_plans_prepared hplans'
  have hentities : result.entities = result'.entities := by
    rw [hscanned.entities, hscanned'.entities]
    exact UniqueList.sorted_congr Function.injective_id (mem_entities_congr hprepared hprepared' hentries)
  have hcounts : ∀ e, result.entity_counts.get? e = result'.entity_counts.get? e := by
    rw [hscanned.entity_counts, hscanned'.entity_counts]
    exact counts_congr hprepared hprepared' hentries
  have hoverlaps : result.overlap_count = result'.overlap_count := by
    rw [hscanned.overlap_count, hscanned'.overlap_count]
    exact overlap_count_congr hprepared hprepared' hentries
  have hrules : result.safety_rule = result'.safety_rule := by
    rw [hscanned.unruled, hscanned'.unruled]
  have hblocks : service.TextBlocked none plans ↔ service.TextBlocked none plans' := text_blocked_congr hentries
  rcases hcases with ⟨hblock, hblocked⟩ | ⟨hblock, output, transformed, htext⟩
  · rcases hcases' with ⟨-, hblocked'⟩ | ⟨hblock', -⟩
    · have hrows := hblocked.report_rows
      rw [report_rows_perm hprepared.reportable hentries, hblocked'.report_rows] at hrows
      constructor
      case decision => rw [hblocked.decision, hblocked'.decision]
      case applied_actions => rw [hblocked.applied_actions, hblocked'.applied_actions]
      case report_rows => exact (Except.ok.inj hrows).symm
      case reversal => simp [hblocked.reversal, hblocked'.reversal]
      case route_class =>
        intro hreroute
        rw [hblocked.decision] at hreroute
        cases hreroute
      case segments => exact Or.inl ⟨hblocked.segments, hblocked'.segments⟩
      all_goals assumption
    · exact absurd (hblocks.mp hblock) hblock'
  · rcases hcases' with ⟨hblock', -⟩ | ⟨-, output', transformed', htext'⟩
    · exact absurd (hblocks.mpr hblock') hblock
    · have htransformed := (transform_plans_transformed htext.transform hprepared.leaves).1
      have htransformed' := (transform_plans_transformed htext'.transform hprepared'.leaves).1
      have hafter := transformed_perm htransformed htransformed' hentries
      have hactions := mem_actions_congr htransformed htransformed' hafter
      have hroute : service.text_route none plans = service.text_route none plans' :=
        resolve_route_class_congr hprepared hprepared' hentries
      have hrows := htext.report_rows
      rw [report_rows_perm (htransformed.reportable hprepared) hafter, htext'.report_rows] at hrows
      constructor
      case decision => rw [htext.decision, htext'.decision, hroute, text_decision_congr hactions]
      case applied_actions => rw [htext.applied_actions, htext'.applied_actions, sortedActions_congr hactions]
      case report_rows => exact (Except.ok.inj hrows).symm
      case reversal =>
        intro placeholder
        rw [htext.reversal, htext'.reversal, reversal_congr htransformed htransformed' hafter]
      case route_class =>
        intro hreroute
        rw [htext.decision] at hreroute
        have hsome := route_of_text_decision hreroute
        have hsome' : service.text_route none plans' ≠ none := hroute ▸ hsome
        rw [htext.route_class, htext'.route_class, if_neg fun hnone => hsome hnone.1,
          if_neg fun hnone => hsome' hnone.1, hroute]
      case segments =>
        obtain ⟨rewrite, hrewrite, houtput⟩ := transform_plans_segments hplans htext.transform
        obtain ⟨rewrite', hrewrite', houtput'⟩ := transform_plans_segments hplans' htext'.transform
        refine Or.inr ⟨rewrite, hrewrite, by rw [htext.segments, houtput], ?_⟩
        rw [htext'.segments, houtput']
        refine congrArg some (List.map_congr_left fun segment hsegment => ?_)
        have hsame := hrewrite' segment hsegment
        have hboth : Except.ok (rewrite segment) = Except.ok (rewrite' segment) :=
          (hrewrite segment (hperm.mem_iff.mpr hsegment)).symm.trans hsame
        rw [Except.ok.inj hboth]
      all_goals assumption

/-- Without visual findings, preflight and the text decide. -/
theorem analyze_segments_plain (hvisual : request.visual_findings = none) :
    service.analyze_segments env request include_diagnostics placeholder_namespace =
      service.preflight request (text_leaves request) >>= fun settled => match settled with
        | some result => .ok result
        | none =>
          service.analyze_text env request (text_leaves request) include_diagnostics placeholder_namespace none := by
  have hdecision : service.visual_decision request (text_leaves request) = none := by rw [visual_decision, hvisual]
  have hface : service.face_route request = none := by
    rw [PolicyService.face_route, if_neg fun h => h.1 (by rw [SegmentRequest.faceCount, hvisual])]
  unfold analyze_segments
  simp only [hdecision, Option.or_none, hvisual, Option.isSome_none, Bool.false_eq_true, if_false, bind_pure]
  congr 1
  funext settled
  cases settled with
  | some base => rfl
  | none => rw [settled_or_text, hface]

theorem same_of_settled (hperm : request.segments.Perm segments) {base : PolicyResult} {nonce : Text}
    (h : service.preflight request (text_leaves request) = .ok (some base)) :
    service.SameUpToOrder env request segments nonce base base := by
  constructor
  case segments =>
    rcases preflight_eq_some h with ⟨-, hempty, -, rfl⟩ | ⟨-, rfl⟩ | ⟨-, safety, -, rfl⟩
    · have hnone : request.segments = [] := List.map_eq_nil_iff.mp hempty
      have hnone' : segments = [] := List.nil_perm.mp (hnone ▸ hperm)
      refine Or.inr ⟨TextSegment.text, ?_, ?_, ?_⟩
      · simp [hnone]
      · simp [hnone]
      · simp [hnone']
    · exact Or.inl ⟨rfl, rfl⟩
    · exact Or.inl ⟨rfl, rfl⟩
  all_goals intros; rfl

/-- What succeeds in one order succeeds in every order, with the same result. -/
theorem analyze_reordered (hvisual : request.visual_findings = none) (hperm : request.segments.Perm segments)
    (hnonce : '\n' ∉ request_namespace env placeholder_namespace) {result : PolicyResult}
    (h : service.analyze_segments env request include_diagnostics placeholder_namespace = .ok result) :
    ∃ result', service.analyze_segments env (request.reordered segments hperm) include_diagnostics
        placeholder_namespace = .ok result' ∧
      service.SameUpToOrder env request segments (request_namespace env placeholder_namespace) result result' := by
  have hvisual' : (request.reordered segments hperm).visual_findings = none := hvisual
  rw [analyze_segments_plain hvisual] at h
  rw [analyze_segments_plain hvisual', preflight_perm hperm]
  obtain ⟨settled, hpreflight, h⟩ := bind_eq_ok.mp h
  rw [hpreflight]
  cases settled with
  | some base =>
    obtain rfl : base = result := Except.ok.inj h
    exact ⟨base, rfl, same_of_settled hperm hpreflight⟩
  | none =>
    obtain ⟨result', hresult'⟩ := analyze_text_perm_total hperm hnonce h
    exact ⟨result', hresult', analyze_text_perm hperm h hresult'⟩

/-- The order of the segments of a text request does not matter. In every order the request
    fails or succeeds alike, with the same result, and every segment becomes what it becomes
    on its own. A nonce is hexadecimal, so that no placeholder runs over two segments. -/
theorem analyze_segments_perm (service : PolicyService) (env : Environment) (request : SegmentRequest)
    (include_diagnostics : Bool) (placeholder_namespace : Option Text) (hvisual : request.visual_findings = none)
    (segments : List TextSegment) (hperm : request.segments.Perm segments)
    (hnonce : '\n' ∉ request_namespace env placeholder_namespace) :
    (∀ result, service.analyze_segments env request include_diagnostics placeholder_namespace = .ok result →
      ∃ result', service.analyze_segments env (request.reordered segments hperm) include_diagnostics
          placeholder_namespace = .ok result' ∧
        service.SameUpToOrder env request segments (request_namespace env placeholder_namespace) result result') ∧
    ((∃ e, service.analyze_segments env request include_diagnostics placeholder_namespace = .error e) →
      ∃ e, service.analyze_segments env (request.reordered segments hperm) include_diagnostics
        placeholder_namespace = .error e) := by
  refine ⟨fun result => analyze_reordered hvisual hperm hnonce, ?_⟩
  rintro ⟨e, herror⟩
  cases hresult : service.analyze_segments env (request.reordered segments hperm) include_diagnostics
      placeholder_namespace with
  | error e' => exact ⟨e', rfl⟩
  | ok result' =>
    have hvisual' : (request.reordered segments hperm).visual_findings = none := hvisual
    have hback : (request.reordered segments hperm).segments.Perm request.segments := hperm.symm
    obtain ⟨result, hok, -⟩ := analyze_reordered hvisual' hback hnonce hresult
    change service.analyze_segments env request include_diagnostics placeholder_namespace = .ok result at hok
    rw [herror] at hok
    cases hok

/-- Two segments that share a value. -/
def two_letters_request : SegmentRequest :=
  .ofTexts .chat .request [⟨"first", "caab".toList, by decide⟩, ⟨"second", "ba aa".toList, by decide⟩] false (by decide)

/-- Both orders replace the shared value by one placeholder. -/
theorem analyze_segments_perm_letters : ∃ result result',
    (pattern_service "a+").analyze_segments (test_environment []) two_letters_request false none = .ok result ∧
    (pattern_service "a+").analyze_segments (test_environment [])
      (two_letters_request.reordered two_letters_request.segments.reverse (List.reverse_perm _).symm) false none =
        .ok result' ∧
    (pattern_service "a+").SameUpToOrder (test_environment []) two_letters_request two_letters_request.segments.reverse
      "0123456789abcdef".toList result result' ∧
    result.decision = .apply_actions ∧ result.reversal.keys.length = 2 := by
  have hrun : ((pattern_service "a+").analyze_segments (test_environment []) two_letters_request false
      none).toOption.any (fun result => result.decision = .apply_actions ∧ result.reversal.keys.length = 2) = true := by
    decide +kernel
  cases hresult : (pattern_service "a+").analyze_segments (test_environment []) two_letters_request false none with
  | error e =>
    rw [hresult] at hrun
    cases hrun
  | ok result =>
    rw [hresult] at hrun
    obtain ⟨hdecision, hkeys⟩ := of_decide_eq_true hrun
    obtain ⟨result', hresult', hsame⟩ := (analyze_segments_perm (pattern_service "a+") (test_environment [])
      two_letters_request false none rfl two_letters_request.segments.reverse (List.reverse_perm _).symm
      (by decide)).1 result hresult
    exact ⟨result, result', rfl, hresult', hsame, hdecision, hkeys⟩

end policy.PolicyService

end pii_engine
