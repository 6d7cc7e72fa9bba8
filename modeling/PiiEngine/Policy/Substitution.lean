import PiiEngine.Planner.Substitution
import PiiEngine.Policy.Decision

open checked collections slices
open pii_engine.config pii_engine.planner

namespace pii_engine.policy.PolicyService

/-- The effective regions of one leaf: what overlap resolution makes of its raw matches. -/
def effective_regions (service : PolicyService) (env : Environment) (reroute_as_block : Bool)
    (leaf : TextLeaf) : List EntityMatch :=
  match service.planner.resolve_matches (service.rawMatches env leaf) leaf.text.length reroute_as_block with
  | .ok (_, effective, _) => effective
  | .error _ => []

/-- The executed regions of a leaf were replaced at once, each from its original value. -/
structure Rewritten (service : PolicyService) (env : Environment) (reroute_as_block : Bool)
    (rule : EntityMatch → Text → Text → Prop) (leaf : TextLeaf) (output : Text) (rewrites : List Rewrite) : Prop where
  regions : rewrites.map Rewrite.region =
    service.planner.executed (service.effective_regions env reroute_as_block leaf)
  originals : ∀ rewrite ∈ rewrites, rewrite.original = originalValue leaf.text rewrite.region
  rules : ∀ rewrite ∈ rewrites, rule rewrite.region rewrite.original rewrite.replacement
  ordered : Ordered leaf.text.length 0 (rewrites.map Rewrite.edit)
  text : output = substitute leaf.text 0 (rewrites.map Rewrite.edit)

variable {service : PolicyService} {env : Environment} {request : SegmentRequest}
  {reroute_as_block : Bool} {plans : PreparedLeaves}

theorem Rewritten.unchanged {rule : EntityMatch → Text → Text → Prop} {leaf : TextLeaf} {output : Text}
    {rewrites : List Rewrite} (h : service.Rewritten env reroute_as_block rule leaf output rewrites)
    (hnone : service.planner.executed (service.effective_regions env reroute_as_block leaf) = []) :
    output = leaf.text := by
  have hempty : rewrites = [] := List.map_eq_nil_iff.mp (h.regions.trans hnone)
  rw [h.text, hempty, List.map_nil, substitute, List.drop_zero]

theorem effective_regions_eq {leaf : TextLeaf} {plan : LeafPlan}
    (h : service.planner.Prepared leaf.text (service.rawMatches env leaf) reroute_as_block plan) :
    service.effective_regions env reroute_as_block leaf = plan.effective_matches := by
  rw [effective_regions, h.resolution]

/-- Every output segment carries its rewritten leaf, under any rule that the rewriting of
    each leaf obeys. The reversal map knows every placeholder, and nothing else. -/
theorem transform_plans_rewritten {nonce : Text} {output : List TextSegment} {transformed : TransformedLeaves}
    (rule : TextLeaf → EntityMatch → Text → Text → Prop)
    (hplans : service.LeavesPrepared env reroute_as_block (text_leaves request) plans)
    (h : service.transform_plans env request plans.prepared nonce = .ok (output, transformed))
    (hrule : ∀ entry ∈ plans.prepared, service.planner.Obeys (rule entry.1) nonce (env.clock entry.1.id)
      entry.2.effective_matches) :
    List.Forall₂ (fun (segment out : TextSegment) => out.id = segment.id ∧ ∃ rewrites,
      service.Rewritten env reroute_as_block (rule ⟨segment.id, segment.text⟩) ⟨segment.id, segment.text⟩
        out.text rewrites ∧
      ∀ rewrite ∈ rewrites, (ActionPlanner.placeholderKind
          (service.planner.resolve rewrite.region.entity_type).1).isSome →
        transformed.reversal.get? rewrite.replacement = some rewrite.original) request.segments output ∧
    ∀ placeholder ∈ transformed.reversal.keys, ∃ entry ∈ plans.prepared,
      ∃ region ∈ service.planner.executed entry.2.effective_matches, ∃ original,
        rule entry.1 region original placeholder := by
  obtain ⟨htransformed, houtput⟩ := transform_plans_transformed h hplans.leaves
  have hentries : ∀ entry ∈ transformed.prepared, ∃ before ∈ plans.prepared, entry.1 = before.1 ∧
      ∃ rewrites, service.Rewritten env reroute_as_block (rule before.1) before.1 entry.2.text rewrites ∧
        ∀ placeholder value, entry.2.reversal.get? placeholder = some value ↔
          ∃ rewrite ∈ rewrites, (ActionPlanner.placeholderKind
              (service.planner.resolve rewrite.region.entity_type).1).isSome ∧
            rewrite.replacement = placeholder ∧ rewrite.original = value := by
    intro entry hentry
    obtain ⟨before, hbefore, heq, htransform⟩ := htransformed.exists_prepared hentry
    have hprepared := hplans.plans before hbefore
    obtain ⟨rewrites, hregions, horiginals, hrules, hordered, hresult, hreversal⟩ :=
      ActionPlanner.transform_substituted htransform (hrule before hbefore) hprepared.spans
        hprepared.resolved.disjoint hprepared.untransformed.2.2
    rw [hprepared.text_eq] at horiginals hordered hresult
    rw [← effective_regions_eq hprepared] at hregions
    exact ⟨before, hbefore, heq, rewrites, ⟨hregions, horiginals, hrules, hordered, hresult⟩, hreversal⟩
  refine ⟨houtput.imp ?_, ?_⟩
  · rintro segment out ⟨hid, entry, hentry, hleaf, htext⟩
    obtain ⟨before, -, heq, rewrites, hrewritten, hreversal⟩ := hentries entry hentry
    rw [← heq, hleaf, ← htext] at hrewritten
    refine ⟨hid, rewrites, hrewritten, fun rewrite hrewrite hkind => ?_⟩
    exact (htransformed.reversal _ _).mpr
      ⟨entry, hentry, (hreversal _ _).mpr ⟨rewrite, hrewrite, hkind, rfl, rfl⟩⟩
  · intro placeholder hplaceholder
    obtain ⟨value, hvalue⟩ := Option.isSome_iff_exists.mp (OrderedDict.mem_keys_iff.mp hplaceholder)
    obtain ⟨entry, hentry, hleaf_value⟩ := (htransformed.reversal _ _).mp hvalue
    obtain ⟨before, hbefore, -, rewrites, hrewritten, hreversal⟩ := hentries entry hentry
    obtain ⟨rewrite, hrewrite, -, rfl, -⟩ := (hreversal _ _).mp hleaf_value
    have hregion : rewrite.region ∈ service.planner.executed before.2.effective_matches := by
      rw [← effective_regions_eq (hplans.plans before hbefore), ← hrewritten.regions]
      exact List.mem_map_of_mem hrewrite
    exact ⟨before, hbefore, rewrite.region, hregion, rewrite.original, hrewritten.rules rewrite hrewrite⟩

/-- The transformed segments stand for those of the request. -/
theorem TransformedText.ids {nonce : Text} {face_route : Option String} {plans : PreparedLeaves}
    {output : List TextSegment} {transformed : TransformedLeaves} {result : PolicyResult}
    (h : service.TransformedText env request nonce face_route plans output transformed result)
    (hleaves : plans.prepared.map Prod.fst = text_leaves request) :
    output.map TextSegment.id = request.segments.map TextSegment.id := by
  have houtput := (transform_plans_transformed h.transform hleaves).2
  have hids := List.forall₂_map_left_iff.mpr (List.forall₂_map_right_iff.mpr (houtput.imp fun _ _ hout => hout.1.symm))
  exact (List.forall₂_eq_eq_eq ▸ hids).symm

/-- The segments of a result stand for those of its request. -/
theorem analyze_segments_ids {include_diagnostics : Bool} {placeholder_namespace : Option Text} {result : PolicyResult}
    (h : service.analyze_segments env request include_diagnostics placeholder_namespace = .ok result) :
    ∀ output ∈ result.segments, output.map TextSegment.id = request.segments.map TextSegment.id := by
  obtain ⟨base, hbase, hvisual⟩ := analyze_segments_cases h
  rw [(apply_visual_result_frame hvisual).1]
  rcases hbase with hpreflight | ⟨-, hsettled | ⟨-, htext⟩⟩
  · rcases preflight_eq_some hpreflight with ⟨-, hleaves, -, rfl⟩ | ⟨-, rfl⟩ | ⟨-, safety, -, rfl⟩
    · rintro _ ⟨⟩
      rw [List.map_eq_nil_iff.mp hleaves]
    · rintro _ ⟨⟩
    · rintro _ ⟨⟩
  · rcases (visual_decision_eq_some hsettled).2 with rfl | ⟨-, rfl⟩
    · rintro _ ⟨⟩
    · rintro _ ⟨⟩
      rfl
  · obtain ⟨plans, hplans, -, hcases⟩ := analyze_text_cases htext
    cases hcases with
    | inl hblocked =>
      rw [hblocked.2.segments]
      rintro _ ⟨⟩
    | inr htransform =>
      obtain ⟨-, output, transformed, htransform⟩ := htransform
      rw [htransform.segments]
      rintro _ ⟨⟩
      exact htransform.ids (prepare_leaf_plans_prepared hplans).leaves

/-- The base of a result that is not blocked: its segments are the request's own, or the
    transformed ones of its plans. -/
theorem unblocked_base {include_diagnostics : Bool} {placeholder_namespace : Option Text} {result : PolicyResult}
    (h : service.analyze_segments env request include_diagnostics placeholder_namespace = .ok result)
    (hdecision : result.decision ≠ .block) :
    (result.scan_performed = false ∧ result.segments = some request.segments ∧ result.reversal = .empty) ∨
    (result.scan_performed = true ∧ ∃ base plans output transformed,
      service.prepare_leaf_plans env (text_leaves request) (request.request_kind = .mcp) = .ok plans ∧
      service.TransformedText env request (request_namespace env placeholder_namespace)
        (service.face_route request) plans output transformed base ∧
      result.segments = some output ∧ result.reversal = transformed.reversal) := by
  obtain ⟨base, hbase, hvisual⟩ := analyze_segments_cases h
  obtain ⟨hsegments, hscan, hreversal, hblock⟩ := apply_visual_result_frame hvisual
  have hbase_decision : base.decision ≠ .block := fun hb => hdecision (hblock hb)
  rw [hsegments, hscan, hreversal]
  rcases hbase with hpreflight | ⟨-, hvisual | ⟨-, htext⟩⟩
  · rcases preflight_eq_some hpreflight with ⟨-, hleaves, -, rfl⟩ | ⟨-, rfl⟩ | ⟨-, safety, -, rfl⟩
    · refine Or.inl ⟨rfl, ?_, rfl⟩
      rw [List.map_eq_nil_iff.mp hleaves]
    · exact absurd rfl hbase_decision
    · exact absurd rfl hbase_decision
  · obtain ⟨-, rfl | ⟨-, rfl⟩⟩ := visual_decision_eq_some hvisual
    · exact absurd rfl hbase_decision
    · exact Or.inl ⟨rfl, rfl, rfl⟩
  · obtain ⟨plans, hplans, hscanned, hcases⟩ := analyze_text_cases htext
    cases hcases with
    | inl hblocked => exact absurd hblocked.2.decision hbase_decision
    | inr htransform =>
      obtain ⟨-, output, transformed, htransform⟩ := htransform
      exact Or.inr ⟨hscanned.scan_performed, base, plans, output, transformed, hplans, htransform,
        htransform.segments, htransform.reversal⟩

/-- The transformation of a request is a simultaneous substitution. Every segment keeps its
    id and place; every region whose action executes is replaced by a function of its type
    and its original value, and all other characters stay. -/
theorem analyze_segments_substitutes (service : PolicyService) (env : Environment) (request : SegmentRequest)
    (include_diagnostics : Bool) (placeholder_namespace : Option Text)
    (operate : Nat → String → PIIAction → OperatorArguments → Text → Text)
    (hlocal : service.planner.anonymizer.RewritesSpan operate) :
    ∀ result, service.analyze_segments env request include_diagnostics placeholder_namespace = .ok result →
      result.decision ≠ .block →
      ∃ output, result.segments = some output ∧
        (result.scan_performed = false → output = request.segments) ∧
        (result.scan_performed = true → List.Forall₂ (fun (segment out : TextSegment) =>
          out.id = segment.id ∧
          (∃ rewrites, service.Rewritten env (request.request_kind = .mcp)
            (service.planner.Writes operate (request_namespace env placeholder_namespace) (env.clock segment.id))
            ⟨segment.id, segment.text⟩ out.text rewrites) ∧
          (service.planner.executed (service.effective_regions env (request.request_kind = .mcp)
            ⟨segment.id, segment.text⟩) = [] → out = segment)) request.segments output) := by
  intro result h hdecision
  cases unblocked_base h hdecision with
  | inl hunscanned =>
    obtain ⟨hscan, hsegments, -⟩ := hunscanned
    exact ⟨request.segments, hsegments, fun _ => rfl, fun hscanned => absurd hscanned (by simp [hscan])⟩
  | inr hscanned =>
    obtain ⟨hscan, base, plans, output, transformed, hplans, htransform, hsegments, -⟩ := hscanned
    refine ⟨output, hsegments, fun hunscanned => absurd hunscanned (by simp [hscan]), fun _ => ?_⟩
    have hrewritten := transform_plans_rewritten
      (fun leaf => service.planner.Writes operate (request_namespace env placeholder_namespace) (env.clock leaf.id))
      (prepare_leaf_plans_prepared hplans) htransform.transform
      fun entry _ => ActionPlanner.obeys_writes hlocal _ _ _
    refine hrewritten.1.imp ?_
    rintro segment out ⟨hid, rewrites, hout, -⟩
    refine ⟨hid, ⟨rewrites, hout⟩, fun hnone => ?_⟩
    have htext : out.text = segment.text := hout.unchanged hnone
    cases out
    cases segment
    cases hid
    cases htext
    rfl

def mail_matches : List EntityMatch := [⟨"EMAIL_ADDRESS", 0, 5, some (9 / 10), "rules"⟩]

/-- A mail address at the start of a text is masked. -/
theorem analyze_segments_substitutes_masked :
    ∃ result output, test_service.analyze_segments (test_environment mail_matches) chained_request false none =
        .ok result ∧ result.segments = some output ∧
      List.Forall₂ (fun (segment out : TextSegment) => out.id = segment.id ∧
        ∃ rewrites, test_service.Rewritten (test_environment mail_matches) false
          (test_service.planner.Writes test_anonymizer.operate "0123456789abcdef".toList fun _ => 0)
          ⟨segment.id, segment.text⟩ out.text rewrites) chained_request.segments output := by
  have hunblocked : (test_service.analyze_segments (test_environment mail_matches) chained_request false
      none).toOption.any (fun result => result.decision ≠ .block ∧ result.scan_performed) = true := by
    decide +kernel
  cases hresult : test_service.analyze_segments (test_environment mail_matches) chained_request false none with
  | error e =>
    rw [hresult] at hunblocked
    cases hunblocked
  | ok result =>
    rw [hresult] at hunblocked
    simp only [Except.toOption, Option.any_some, decide_eq_true_eq] at hunblocked
    obtain ⟨output, hsegments, -, hscanned⟩ := analyze_segments_substitutes test_service
      (test_environment mail_matches) chained_request false none test_anonymizer.operate TestAnonymizer_rewritesSpan
      result hresult hunblocked.1
    exact ⟨result, output, rfl, hsegments, (hscanned hunblocked.2).imp fun _ _ h => ⟨h.1, h.2.1⟩⟩

example : (test_service.analyze_segments (test_environment mail_matches) chained_request false none).toOption.bind
    (fun result => result.segments.map fun output => output.map fun out => String.ofList out.text) =
      some ["*****, DE12 3"] := by decide +kernel

end pii_engine.policy.PolicyService
