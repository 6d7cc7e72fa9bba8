import PiiEngine.Policy.Decision
import PiiEngine.Runtime.Model

open checked collections
open pii_engine.config pii_engine.policy

namespace pii_engine.runtime.EngineRuntime

/-- A call of the adapter that belongs to a session, on a runtime that keeps sessions. -/
structure SessionCall (runtime : EngineRuntime) (call : Call) : Prop where
  adapter : call.caller = .adapter
  session_scoped : call.request_scoped = false
  enabled : runtime.session_enabled = true

variable {runtime : EngineRuntime} {call : Call} {request : SegmentRequest} {stored : SessionDecision}
  {store cached : Option SessionDecision}

theorem is_final_iff : runtime.is_final request stored = true ↔
    stored.decision = .block ∨ (stored.decision = .reroute ∧ request.attachments_present = false ∧
      runtime.policy_settings.pii.mask_on_reroute = false) := by
  unfold is_final
  cases stored.fields.decision with
  | inl hblock => simp [hblock]
  | inr hreroute => cases hattach : request.attachments_present <;> simp [hreroute]

theorem final_cached_result_eq_some {result : PolicyResult} :
    runtime.final_cached_result request cached = some result ↔
      ∃ stored, cached = some stored ∧ runtime.is_final request stored = true ∧
        result = result_from_cache request stored := by
  unfold final_cached_result
  cases cached with
  | none => simp
  | some found =>
    rw [Option.filter_some]
    constructor
    · intro h
      split at h
      · next hfinal => exact ⟨found, rfl, hfinal, (Option.some.inj h).symm⟩
      · cases h
    · intro h
      obtain ⟨stored, hstored, hfinal, rfl⟩ := h
      rw [Option.some.inj hstored, if_pos hfinal]
      rfl

theorem final_cached_result_eq_none : runtime.final_cached_result request cached = none ↔
    ∀ stored ∈ cached, runtime.is_final request stored = false := by
  unfold final_cached_result
  cases cached with
  | none => simp
  | some stored => cases hfinal : runtime.is_final request stored <;> simp [Option.filter, hfinal]

@[simp] theorem apply_cached_decision_none (result : PolicyResult) :
    apply_cached_decision result none = result := rfl

theorem apply_cached_decision_some (result : PolicyResult) (stored : SessionDecision) :
    apply_cached_decision result (some stored) =
      if stored.decision = .reroute ∧ result.decision ≠ .block then apply_cached_reroute result stored
      else result := rfl

/-- A sticky reroute joins the decision of the current request. -/
theorem apply_cached_decision_decision (result : PolicyResult) (hreroute : stored.decision = .reroute) :
    (apply_cached_decision result (some stored)).decision = max stored.decision result.decision := by
  rw [apply_cached_decision_some, hreroute]
  by_cases hblock : result.decision = .block
  · rw [if_neg (fun h => h.2 hblock), hblock]
    rfl
  · rw [if_pos ⟨rfl, hblock⟩]
    change Decision.reroute = _
    cases hvalue : result.decision with
    | block => exact absurd hvalue hblock
    | _ => rfl

theorem validated_session_key_eq_ok {value key : Option Text} (h : validated_session_key value = .ok key) :
    key = value :=
  (Except.ok.inj (raiseIf_bind_eq_ok.mp h).2).symm

/-- A session call reads the store and accepts only a record of its own kind. -/
theorem read_session_eq_ok (hcall : runtime.SessionCall call) {reachable : Bool}
    (h : runtime.read_session call reachable store = .ok cached) :
    cached = store ∧ (∀ stored ∈ store, stored.request_kind = call.request_kind) ∧
      ∃ key, call.session_key = some key := by
  have hguard : ¬ (call.caller ≠ .adapter ∨ runtime.session_enabled = false) := by
    simp [hcall.adapter, hcall.enabled]
  rw [read_session, hcall.session_scoped, cached_decision] at h
  simp only [Bool.false_eq_true, if_false, hguard] at h
  obtain ⟨key, hkey, h⟩ := bind_eq_ok.mp h
  obtain ⟨hsome, h⟩ := raiseIf_bind_eq_ok.mp h
  obtain ⟨found, hget, h⟩ := bind_eq_ok.mp h
  obtain ⟨hkind, h⟩ := raiseIf_bind_eq_ok.mp h
  have hfound : found = store := by
    unfold SessionStore.get at hget
    split at hget
    · exact (Except.ok.inj hget).symm
    · cases hget
  refine ⟨(Except.ok.inj h).symm.trans hfound, ?_, ?_⟩
  · intro stored hstored
    by_contra hne
    exact hkind ⟨stored, hfound ▸ hstored, hne⟩
  · rw [validated_session_key_eq_ok hkey] at hsome
    exact Option.ne_none_iff_exists'.mp hsome

/-- The record of a tainting result, with the evidence it keeps. -/
structure TaintRecord (call : Call) (result : PolicyResult) (cached : Option SessionDecision)
    (record : SessionDecision) : Prop where
  evidence : ∃ evidence, taint_evidence result cached = .ok evidence ∧
    record.toSessionRecord = taint_record call.request_kind result evidence

theorem taint_session_eq_ok {result : PolicyResult} {record : Option SessionDecision}
    (h : runtime.taint_session call result cached = .ok record) :
    (runtime.taints call result = false ∧ record = none) ∨
      (runtime.taints call result = true ∧ ∃ decision, record = some decision ∧
        TaintRecord call result cached decision) := by
  unfold taint_session at h
  by_cases htaints : runtime.taints call result = false
  · rw [if_pos htaints] at h
    exact Or.inl ⟨htaints, (Except.ok.inj h).symm⟩
  · rw [if_neg htaints] at h
    obtain ⟨key, -, h⟩ := bind_eq_ok.mp h
    obtain ⟨-, h⟩ := raiseIf_bind_eq_ok.mp h
    obtain ⟨evidence, hevidence, h⟩ := bind_eq_ok.mp h
    obtain ⟨decision, hdecision, h⟩ := bind_eq_ok.mp h
    rw [Bool.not_eq_false] at htaints
    exact Or.inr ⟨htaints, decision, (Except.ok.inj h).symm, evidence, hevidence,
      SessionDecision.create_eq_ok.mp hdecision⟩

/-- A call that finds nothing final in the session analyzes its request. -/
structure Analyzed (runtime : EngineRuntime) (call : Call) (store : Option SessionDecision)
    (placeholder_namespace : Option Text) (analyzed : PolicyResult) : Prop where
  checked : runtime.check_call call = .ok placeholder_namespace
  read : ∀ stored ∈ store, stored.request_kind = call.request_kind ∧
    runtime.is_final call.request stored = false
  analysis : runtime.run_analysis call placeholder_namespace = .ok analyzed

/-- The results of a call from one session, and the session it leaves. -/
inductive Served (runtime : EngineRuntime) (call : Call) (store : Option SessionDecision) :
    Except AnalysisError PolicyResult → Option SessionDecision → Prop
  | failed (e : AnalysisError) : Served runtime call store (.error e) store
  | final (stored : SessionDecision) (hstored : store = some stored)
      (hkind : stored.request_kind = call.request_kind)
      (hfinal : runtime.is_final call.request stored = true) :
      Served runtime call store (.ok (result_from_cache call.request stored)) store
  | untainted (placeholder_namespace : Option Text) (analyzed : PolicyResult)
      (hanalyzed : runtime.Analyzed call store placeholder_namespace analyzed)
      (hdecision : (apply_cached_decision analyzed store).decision = .pass ∨
        (apply_cached_decision analyzed store).decision = .apply_actions) :
      Served runtime call store (.ok (apply_cached_decision analyzed store)) store
  | tainted (placeholder_namespace : Option Text) (analyzed : PolicyResult) (record : SessionDecision)
      (hanalyzed : runtime.Analyzed call store placeholder_namespace analyzed)
      (hrecord : TaintRecord call (apply_cached_decision analyzed store) store record) :
      Served runtime call store (.ok (apply_cached_decision analyzed store)) (some record)
  | unconfirmed (e : AnalysisError) (placeholder_namespace : Option Text) (analyzed : PolicyResult)
      (record : SessionDecision) (hanalyzed : runtime.Analyzed call store placeholder_namespace analyzed)
      (hrecord : TaintRecord call (apply_cached_decision analyzed store) store record) :
      Served runtime call store (.error e) (some record)

theorem taints_eq_false_iff (hcall : runtime.SessionCall call) {result : PolicyResult} :
    runtime.taints call result = false ↔ result.decision = .pass ∨ result.decision = .apply_actions := by
  simp only [taints, hcall.adapter, hcall.session_scoped, hcall.enabled, true_and, decide_eq_false_iff_not]
  cases result.decision <;> simp

/-- Only a final cached decision or an analysis answers a call. -/
theorem respond_eq_ok {placeholder_namespace : Option Text} {result : PolicyResult}
    {record : Option SessionDecision}
    (h : runtime.respond call placeholder_namespace cached = .ok (result, record)) :
    (∃ stored, cached = some stored ∧ runtime.is_final call.request stored = true ∧
      result = result_from_cache call.request stored ∧ record = none) ∨
    ((∀ stored ∈ cached, runtime.is_final call.request stored = false) ∧
      ∃ analyzed, runtime.run_analysis call placeholder_namespace = .ok analyzed ∧
        result = apply_cached_decision analyzed cached ∧
        runtime.taint_session call result cached = .ok record) := by
  unfold respond at h
  split at h
  · next settled hsettled =>
    obtain ⟨stored, hstored, hfinal, rfl⟩ := final_cached_result_eq_some.mp hsettled
    obtain ⟨⟨⟩, -, h⟩ := bind_eq_ok.mp h
    cases h
    exact Or.inl ⟨stored, hstored, hfinal, rfl, rfl⟩
  · next hnone =>
    obtain ⟨analyzed, hanalyzed, h⟩ := bind_eq_ok.mp h
    obtain ⟨⟨⟩, -, h⟩ := bind_eq_ok.mp h
    obtain ⟨written, hwritten, h⟩ := bind_eq_ok.mp h
    cases h
    exact Or.inr ⟨final_cached_result_eq_none.mp hnone, analyzed, hanalyzed, rfl, hwritten⟩

/-- An answered call read the session and responded to what it found there. -/
theorem analyze_segments_eq_ok {reachable : Bool} {write : WriteOutcome} {result : PolicyResult}
    (h : (runtime.analyze_segments call reachable write store).1 = .ok result) :
    ∃ placeholder_namespace cached record, runtime.receive call reachable store = .ok (placeholder_namespace, cached) ∧
      runtime.respond call placeholder_namespace cached = .ok (result, record) := by
  unfold analyze_segments at h
  split at h
  · cases h
  · next ns cached hreceive =>
    split at h
    · cases h
    · next found record hrespond =>
      refine ⟨ns, cached, record, hreceive, ?_⟩
      cases record with
      | none =>
        cases h
        exact hrespond
      | some decision =>
        obtain ⟨-, -, rfl⟩ := map_eq_ok.mp h
        exact hrespond

/-- What one call can do to a session. -/
theorem analyze_segments_served (hcall : runtime.SessionCall call) (reachable : Bool) (write : WriteOutcome)
    (store : Option SessionDecision) :
    runtime.Served call store (runtime.analyze_segments call reachable write store).1
      (runtime.analyze_segments call reachable write store).2 := by
  unfold analyze_segments
  cases hreceive : runtime.receive call reachable store with
  | error e => exact .failed e
  | ok received =>
    obtain ⟨placeholder_namespace, cached⟩ := received
    obtain ⟨ns, hchecked, hreceive⟩ := bind_eq_ok.mp hreceive
    obtain ⟨found, hread, hreceive⟩ := bind_eq_ok.mp hreceive
    cases hreceive
    obtain ⟨rfl, hkind, -⟩ := read_session_eq_ok hcall hread
    dsimp only
    cases hrespond : runtime.respond call placeholder_namespace cached with
    | error e => exact .failed e
    | ok response =>
      obtain ⟨result, record⟩ := response
      cases respond_eq_ok hrespond with
      | inl hfinal =>
        obtain ⟨stored, hstored, hfinal, rfl, rfl⟩ := hfinal
        exact .final stored hstored (hkind stored hstored) hfinal
      | inr hcurrent =>
        obtain ⟨hopen, analyzed, hanalysis, rfl, htaint⟩ := hcurrent
        have hanalyzed : runtime.Analyzed call cached placeholder_namespace analyzed :=
          ⟨hchecked, fun stored hstored => ⟨hkind stored hstored, hopen stored hstored⟩, hanalysis⟩
        cases taint_session_eq_ok htaint with
        | inl hnone =>
          obtain ⟨htaints, rfl⟩ := hnone
          exact .untainted _ analyzed hanalyzed ((taints_eq_false_iff hcall).mp htaints)
        | inr hsome =>
          obtain ⟨-, decision, rfl, hrecord⟩ := hsome
          have hterminal : ¬ decision.decision ∉ [Decision.block, .reroute] := by
            rw [not_not, List.mem_pair]
            exact decision.fields.decision
          simp only [commit, SessionStore.set, if_neg hterminal]
          cases write with
          | stored => exact .tainted _ analyzed decision hanalyzed hrecord
          | lost => exact .failed _
          | unconfirmed => exact .unconfirmed _ _ analyzed decision hanalyzed hrecord

theorem Analyzed.congr {other : Option SessionDecision} {ns ns' : Option Text} {analyzed analyzed' : PolicyResult}
    (h : runtime.Analyzed call store ns analyzed) (h' : runtime.Analyzed call other ns' analyzed') :
    analyzed = analyzed' := by
  have hns : ns = ns' := Except.ok.inj (h.checked.symm.trans h'.checked)
  subst hns
  exact Except.ok.inj (h.analysis.symm.trans h'.analysis)

theorem run_analysis_decision {ns : Option Text} {analyzed : PolicyResult}
    (h : runtime.run_analysis call ns = .ok analyzed) :
    ∃ result, runtime.policy.analyze_segments call.observation.toEnvironment call.request false ns = .ok result ∧
      analyzed.decision = result.decision := by
  obtain ⟨⟨⟩, -, h⟩ := bind_eq_ok.mp h
  obtain ⟨result, hresult, h⟩ := bind_eq_ok.mp h
  refine ⟨result, hresult, ?_⟩
  rw [← Except.ok.inj h]
  split <;> rfl

/-- The answer to a call on an empty session is that of its analysis. -/
theorem Served.on_empty {fresh : PolicyResult} {after : Option SessionDecision}
    (h : runtime.Served call none (.ok fresh) after) : ∃ ns, runtime.Analyzed call none ns fresh := by
  cases h with
  | final stored hstored => cases hstored
  | untainted ns analyzed hanalyzed => exact ⟨ns, hanalyzed⟩
  | tainted ns analyzed record hanalyzed => exact ⟨ns, hanalyzed⟩

/-- The answer to a call on a tainted session is the stored one when that is final, and
    otherwise joins the stored decision with that of the analysis. -/
theorem Served.on_tainted {result : PolicyResult} {after : Option SessionDecision}
    (h : runtime.Served call (some stored) (.ok result) after) :
    (runtime.is_final call.request stored = true ∧ result.decision = stored.decision) ∨
      (stored.decision = .reroute ∧ ∃ ns analyzed, runtime.Analyzed call (some stored) ns analyzed ∧
        result.decision = max stored.decision analyzed.decision) := by
  have hopen {ns : Option Text} {analyzed : PolicyResult}
      (hanalyzed : runtime.Analyzed call (some stored) ns analyzed) :
      stored.decision = .reroute := by
    have hfinal := (hanalyzed.read stored rfl).2
    cases stored.fields.decision with
    | inl hblock =>
      rw [is_final_iff.mpr (Or.inl hblock)] at hfinal
      cases hfinal
    | inr hreroute => exact hreroute
  cases h with
  | final found hstored hkind hfinal =>
    cases hstored
    exact Or.inl ⟨hfinal, rfl⟩
  | untainted ns analyzed hanalyzed =>
    have hreroute := hopen hanalyzed
    exact Or.inr ⟨hreroute, ns, analyzed, hanalyzed, apply_cached_decision_decision analyzed hreroute⟩
  | tainted ns analyzed record hanalyzed =>
    have hreroute := hopen hanalyzed
    exact Or.inr ⟨hreroute, ns, analyzed, hanalyzed, apply_cached_decision_decision analyzed hreroute⟩

/-- Whether a stored reroute answers a request unseen: the policy sends rerouted requests
    unmasked and the request has no attachments. -/
def RerouteShortcut (runtime : EngineRuntime) (request : SegmentRequest) (stored : SessionDecision) : Prop :=
  stored.decision = .reroute ∧ runtime.policy_settings.pii.mask_on_reroute = false ∧
    request.attachments_present = false

/-- A stored decision never weakens an answer, and a stored reroute that answers a request
    unseen is the only one that can hide what its analysis would say. -/
theorem analyze_segments_keeps_strictest (runtime : EngineRuntime) (call : Call) (stored : SessionDecision)
    (reachable reachable' : Bool) (write write' : WriteOutcome) (result : PolicyResult)
    (hcall : runtime.SessionCall call)
    (hresult : (runtime.analyze_segments call reachable write (some stored)).1 = .ok result) :
    stored.decision ≤ result.decision ∧
    (∀ fresh, (runtime.analyze_segments call reachable' write' none).1 = .ok fresh →
      ¬ runtime.RerouteShortcut call.request stored → fresh.decision ≤ result.decision) ∧
    (call.request.attachments_present = true → result.decision = .block) := by
  have hserved := runtime.analyze_segments_served hcall reachable write (some stored)
  rw [hresult] at hserved
  cases hserved.on_tainted with
  | inl hcached =>
    obtain ⟨hfinal, hdecision⟩ := hcached
    rw [hdecision]
    cases is_final_iff.mp hfinal with
    | inl hblock =>
      rw [hblock]
      exact ⟨le_refl _, fun fresh _ _ => Decision.le_block fresh.decision, fun _ => rfl⟩
    | inr hreroute =>
      obtain ⟨hdecision, hattachments, hmask⟩ := hreroute
      refine ⟨le_refl _, fun fresh _ hshort => absurd ⟨hdecision, hmask, hattachments⟩ hshort, ?_⟩
      intro hpresent
      rw [hattachments] at hpresent
      cases hpresent
  | inr hcurrent =>
    obtain ⟨hreroute, ns, analyzed, hanalyzed, hdecision⟩ := hcurrent
    rw [hdecision]
    refine ⟨le_max_left _ _, ?_, ?_⟩
    · intro fresh hfresh _
      have hserved' := runtime.analyze_segments_served hcall reachable' write' none
      rw [hfresh] at hserved'
      obtain ⟨ns', hanalyzed'⟩ := hserved'.on_empty
      rw [hanalyzed.congr hanalyzed']
      exact le_max_right _ _
    · intro hattachments
      obtain ⟨direct, hdirect, heq⟩ := run_analysis_decision hanalyzed.analysis
      rw [heq, PolicyService.attachments_block hdirect hattachments]
      exact max_eq_right (Decision.le_block _)

def secret_call : Call where
  caller := .adapter
  request := .ofTexts .responses .session [⟨"m1", "hunter2".toList, by decide⟩] false (by decide)
  session_key := some (List.replicate 64 '0')
  observation := { PolicyService.test_environment [⟨"PASSWORD_OR_SECRET", 0, 7, some (9 / 10), "rules"⟩] with }

def stored_reroute : SessionDecision where
  request_kind := .model
  decision := .reroute
  entities := ["IBAN"]
  entity_counts := ⟨[("IBAN", 1)], by decide⟩
  report_rows := [{ entity_type := "IBAN", action := .pii .reroute, detected_count := 1
                    transformed_count := 0, unique_transformed_count := 0 }]
  overlap_count := 0
  route_class := some "local"
  remote_allowed := false
  request_notices := []
  response_notices := []

theorem sessionCall_secret (mask_on_reroute : Bool) : (session_runtime mask_on_reroute).SessionCall secret_call :=
  ⟨rfl, rfl, by cases mask_on_reroute <;> rfl⟩

private theorem exists_decision (outcome : Except AnalysisError PolicyResult) (decision : Decision)
    (h : outcome.toOption.map PolicyResult.decision = some decision) :
    ∃ result, outcome = .ok result ∧ result.decision = decision := by
  cases outcome with
  | error e => cases h
  | ok result => exact ⟨result, rfl, Option.some.inj h⟩

/-- With masked reroutes the secret of a rerouted session is blocked. -/
theorem analyze_segments_keeps_strictest_secret : ∃ result,
    ((session_runtime true).analyze_segments secret_call true .stored (some stored_reroute)).1 = .ok result ∧
      stored_reroute.decision ≤ result.decision ∧ result.decision = .block := by
  obtain ⟨result, hresult, -⟩ := exists_decision
    (((session_runtime true).analyze_segments secret_call true .stored (some stored_reroute)).1) .block
      (by decide +kernel)
  obtain ⟨fresh, hfresh, hblock⟩ := exists_decision
    (((session_runtime true).analyze_segments secret_call true .stored none).1) .block (by decide +kernel)
  have htheorem := analyze_segments_keeps_strictest (session_runtime true) secret_call stored_reroute true true
    .stored .stored result (sessionCall_secret true) hresult
  have hle := htheorem.2.1 fresh hfresh (fun h => by cases h.2.1)
  rw [hblock] at hle
  exact ⟨result, hresult, htheorem.1, Decision.block_le_iff.mp hle⟩

/-- With unmasked reroutes a stored reroute answers a request that would be blocked. -/
theorem stored_reroute_hides_block :
    ¬ ∀ (runtime : EngineRuntime) (call : Call) (stored : SessionDecision) (result fresh : PolicyResult),
      runtime.SessionCall call → stored.request_kind = call.request_kind →
      (runtime.analyze_segments call true .stored (some stored)).1 = .ok result →
      (runtime.analyze_segments call true .stored none).1 = .ok fresh →
      stored.decision ≤ result.decision ∧ fresh.decision ≤ result.decision := by
  intro hclaim
  obtain ⟨result, hresult, hreroute⟩ := exists_decision
    (((session_runtime false).analyze_segments secret_call true .stored (some stored_reroute)).1) .reroute
      (by decide +kernel)
  obtain ⟨fresh, hfresh, hblock⟩ := exists_decision
    (((session_runtime false).analyze_segments secret_call true .stored none).1) .block (by decide +kernel)
  have hle := (hclaim (session_runtime false) secret_call stored_reroute result fresh (sessionCall_secret false) rfl
    hresult hfresh).2
  rw [hreroute, hblock] at hle
  exact absurd hle (by decide)

end pii_engine.runtime.EngineRuntime
