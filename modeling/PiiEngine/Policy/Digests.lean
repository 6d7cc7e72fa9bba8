import PiiEngine.Planner.Digests
import PiiEngine.Policy.Substitution

open checked collections
open pii_engine.config pii_engine.planner

namespace pii_engine.policy.PolicyService
variable {service : PolicyService} {env : Environment} {request : SegmentRequest}
  {operate : Nat → String → PIIAction → OperatorArguments → Text → Text}

/-- What the placeholders of a request are digests of, leaf after leaf. -/
def digested (service : PolicyService) (env : Environment) (request : SegmentRequest) (nonce : Text) :
    List (String × String × Text) :=
  match service.prepare_leaf_plans env (text_leaves request) (request.request_kind = .mcp) with
  | .ok plans => plans.prepared.flatMap fun entry => service.planner.digested entry.2 nonce (env.clock entry.1.id)
  | .error _ => []

theorem keyed_empty {nonce : Text} {keys : List (String × String × Text)} :
    service.planner.Keyed operate nonce keys .empty := by
  intro placeholder value hget
  rw [OrderedDict.get?_empty] at hget
  cases hget

/-- The reversal map of transformed plans names digests of the values that they cached. -/
theorem transform_plans_keyed {reroute_as_block : Bool} {plans : PreparedLeaves} {nonce : Text}
    {output : List TextSegment} {transformed : TransformedLeaves}
    (hlocal : service.planner.anonymizer.RewritesSpan operate)
    (hplans : service.LeavesPrepared env reroute_as_block (text_leaves request) plans)
    (h : service.transform_plans env request plans.prepared nonce = .ok (output, transformed)) :
    service.planner.Keyed operate nonce (plans.prepared.flatMap fun entry =>
      service.planner.digested entry.2 nonce (env.clock entry.1.id)) transformed.reversal := by
  obtain ⟨htransformed, -⟩ := transform_plans_transformed h hplans.leaves
  intro placeholder value hget
  obtain ⟨entry, hentry, hleaf⟩ := (htransformed.reversal placeholder value).mp hget
  obtain ⟨before, hbefore, -, htransform⟩ := htransformed.exists_prepared hentry
  have hprepared := hplans.plans before hbefore
  have hkeyed := ActionPlanner.transform_keyed htransform hlocal hprepared.spans hprepared.resolved.disjoint
    hprepared.untransformed.2.2
  exact hkeyed.mono (fun key hkey => List.mem_flatMap.mpr ⟨before, hbefore, hkey⟩) placeholder value hleaf

/-- The reversal map of a request names digests of the values that it cached. -/
theorem analyze_segments_keyed {include_diagnostics : Bool} {placeholder_namespace : Option Text}
    {result : PolicyResult}
    (h : service.analyze_segments env request include_diagnostics placeholder_namespace = .ok result)
    (hlocal : service.planner.anonymizer.RewritesSpan operate) :
    service.planner.Keyed operate (request_namespace env placeholder_namespace)
      (service.digested env request (request_namespace env placeholder_namespace)) result.reversal := by
  obtain ⟨base, hbase, hvisual⟩ := analyze_segments_cases h
  obtain ⟨-, -, hreversal, -⟩ := apply_visual_result_frame hvisual
  rw [hreversal]
  rcases hbase with hpreflight | ⟨-, hvisual | ⟨-, htext⟩⟩
  · rcases preflight_eq_some hpreflight with ⟨-, -, -, rfl⟩ | ⟨-, rfl⟩ | ⟨-, safety, -, rfl⟩
    · exact keyed_empty
    · exact keyed_empty
    · exact keyed_empty
  · obtain ⟨-, rfl | ⟨-, rfl⟩⟩ := visual_decision_eq_some hvisual
    · exact keyed_empty
    · exact keyed_empty
  · obtain ⟨plans, hplans, -, hcases⟩ := analyze_text_cases htext
    cases hcases with
    | inl hblocked =>
      rw [hblocked.2.reversal]
      exact keyed_empty
    | inr htransformed =>
      obtain ⟨-, output, transformed, htransform⟩ := htransformed
      rw [htransform.reversal, digested, hplans]
      exact transform_plans_keyed hlocal (prepare_leaf_plans_prepared hplans) htransform.transform

/-- In a result that is not blocked, every reversible value of a scanned text is replaced by
    the placeholder that names it, and is remembered under it. -/
theorem analyze_segments_reversible {include_diagnostics : Bool} {placeholder_namespace : Option Text}
    {result : PolicyResult}
    (h : service.analyze_segments env request include_diagnostics placeholder_namespace = .ok result)
    (hlocal : service.planner.anonymizer.RewritesSpan operate) (hdecision : result.decision ≠ .block)
    (hscan : result.scan_performed = true) :
    ∃ output, result.segments = some output ∧ List.Forall₂ (fun (segment out : TextSegment) =>
      out.id = segment.id ∧ ∃ rewrites, service.Rewritten env (request.request_kind = .mcp)
        (fun region original replacement => (service.planner.resolve region.entity_type).1 = .reversible_replace →
          replacement = ActionPlanner.placeholder_text "REV" region.entity_type
            (request_namespace env placeholder_namespace)
            (service.planner.placeholder_digest region.entity_type original
              (request_namespace env placeholder_namespace)) ∧
          result.reversal.get? replacement = some original)
        ⟨segment.id, segment.text⟩ out.text rewrites) request.segments output := by
  cases unblocked_base h hdecision with
  | inl hunscanned =>
    rw [hunscanned.1] at hscan
    cases hscan
  | inr hscanned =>
    obtain ⟨-, base, plans, output, transformed, hplans, htransform, hsegments, hreversal⟩ := hscanned
    refine ⟨output, hsegments, ?_⟩
    have hrewritten := transform_plans_rewritten
      (fun leaf => service.planner.Writes operate (request_namespace env placeholder_namespace) (env.clock leaf.id))
      (prepare_leaf_plans_prepared hplans) htransform.transform
      fun entry _ => ActionPlanner.obeys_writes hlocal _ _ _
    refine hrewritten.1.imp ?_
    intro segment out hout
    obtain ⟨hid, rewrites, hrewrites, hremembered⟩ := hout
    refine ⟨hid, rewrites, ⟨hrewrites.regions, hrewrites.originals, ?_, hrewrites.ordered, hrewrites.text⟩⟩
    intro rewrite hrewrite haction
    obtain ⟨salt, hreplacement⟩ := hrewrites.rules rewrite hrewrite
    have hexecuted : service.planner.executedAction rewrite.region.entity_type = .reversible_replace := by
      rw [ActionPlanner.executedAction, haction]
      rfl
    rw [ActionPlanner.replacementFor, hexecuted] at hreplacement
    refine ⟨hreplacement, ?_⟩
    rw [hreversal]
    apply hremembered rewrite hrewrite
    rw [haction]
    rfl

end pii_engine.policy.PolicyService
