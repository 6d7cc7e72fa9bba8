import PiiEngine.Lib.Transitions
import PiiEngine.Runtime.Cache

open checked collections transitions
open pii_engine.config pii_engine.policy

namespace pii_engine.runtime.EngineRuntime

/-- A call, how the store took it, and what the caller got. -/
structure Exchange where
  call : Call
  reachable : Bool
  write : WriteOutcome
  outcome : Except AnalysisError PolicyResult

/-- The calls on one session key, one after the other. -/
inductive Exchanges (runtime : EngineRuntime) : Option SessionDecision → Exchange → Option SessionDecision → Prop
  | serve (store : Option SessionDecision) (call : Call) (reachable : Bool) (write : WriteOutcome) :
      Exchanges runtime store ⟨call, reachable, write, (runtime.analyze_segments call reachable write store).1⟩
        (runtime.analyze_segments call reachable write store).2

/-- The entities and counts of some evidence cover those of a record. -/
structure Covers (entities : List String) (entity_counts : OrderedDict String Nat) (old : SessionDecision) : Prop where
  entities : ∀ e ∈ old.entities, e ∈ entities
  counts : ∀ e, old.entity_counts.getD e 0 ≤ entity_counts.getD e 0

/-- A later reroute of a session keeps the route, the notices and the evidence of the request
    that first tainted it, and its entities and counts only grow. -/
structure Extends (old new : SessionDecision) : Prop where
  decision : new.decision = .reroute
  route_class : new.route_class = old.route_class
  response_notices : new.response_notices = old.response_notices
  report_rows : new.report_rows = old.report_rows
  overlap_count : new.overlap_count = old.overlap_count
  covers : Covers new.entities new.entity_counts old

/-- What may become of a record: nothing if it is a block, and a block or a reroute that
    extends it if it is a reroute. -/
inductive Deepens (old : SessionDecision) : SessionDecision → Prop
  | same : Deepens old old
  | blocked (new : SessionDecision) (hold : old.decision = .reroute) (hnew : new.decision = .block)
      (hkind : new.request_kind = old.request_kind) : Deepens old new
  | extended (new : SessionDecision) (hold : old.decision = .reroute) (hnew : Extends old new)
      (hkind : new.request_kind = old.request_kind) : Deepens old new

/-- What a tainted session can answer. -/
structure AnswersUnder (old : SessionDecision) (result : PolicyResult) : Prop where
  block : old.decision = .block → result.decision = .block ∧ result.segments = none
  reroute : old.decision = .reroute → result.decision = .block ∨
    result.decision = .reroute ∧ result.route_class = old.route_class ∧ result.remote_allowed = false ∧
      Covers result.entities result.entity_counts old

variable {runtime : EngineRuntime} {call : Call} {stored old new : SessionDecision}
  {store after s t u v : Option SessionDecision} {result analyzed : PolicyResult}

theorem Covers.refl (old : SessionDecision) : Covers old.entities old.entity_counts old :=
  ⟨fun _ h => h, fun _ => le_refl _⟩

theorem Covers.trans {middle : SessionDecision} {entities : List String} {entity_counts : OrderedDict String Nat}
    (h : Covers middle.entities middle.entity_counts old) (h' : Covers entities entity_counts middle) :
    Covers entities entity_counts old :=
  ⟨fun e he => h'.entities e (h.entities e he), fun e => le_trans (h.counts e) (h'.counts e)⟩

theorem Extends.trans {middle : SessionDecision} (h : Extends old middle) (h' : Extends middle new) :
    Extends old new where
  decision := h'.decision
  route_class := h'.route_class.trans h.route_class
  response_notices := h'.response_notices.trans h.response_notices
  report_rows := h'.report_rows.trans h.report_rows
  overlap_count := h'.overlap_count.trans h.overlap_count
  covers := h.covers.trans h'.covers

theorem Deepens.block_eq (h : Deepens old new) (hold : old.decision = .block) : new = old := by
  cases h with
  | same => rfl
  | blocked new hreroute =>
    rw [hold] at hreroute
    cases hreroute
  | extended new hreroute =>
    rw [hold] at hreroute
    cases hreroute

theorem Deepens.request_kind_eq (h : Deepens old new) : new.request_kind = old.request_kind := by
  cases h with
  | same => rfl
  | blocked new hold hnew hkind => exact hkind
  | extended new hold hnew hkind => exact hkind

theorem Deepens.trans {middle : SessionDecision} (h : Deepens old middle) (h' : Deepens middle new) :
    Deepens old new := by
  have hkind := h'.request_kind_eq.trans h.request_kind_eq
  cases h with
  | same => exact h'
  | blocked middle hold hmiddle =>
    rw [h'.block_eq hmiddle] at hkind ⊢
    exact .blocked _ hold hmiddle hkind
  | extended middle hold hmiddle =>
    cases h' with
    | same => exact .extended _ hold hmiddle hkind
    | blocked new hmiddle' hnew => exact .blocked _ hold hnew hkind
    | extended new hmiddle' hnew => exact .extended _ hold (hmiddle.trans hnew) hkind

/-- What a later record covers, a result under it covers. -/
theorem AnswersUnder.of_deepens (h : Deepens old new) (h' : AnswersUnder new result) : AnswersUnder old result := by
  cases h with
  | same => exact h'
  | blocked new hold hnew =>
    refine ⟨fun hblock => ?_, fun _ => Or.inl (h'.block hnew).1⟩
    rw [hold] at hblock
    cases hblock
  | extended new hold hnew =>
    refine ⟨fun hblock => ?_, fun _ => ?_⟩
    · rw [hold] at hblock
      cases hblock
    · refine (h'.reroute hnew.decision).imp_right ?_
      rintro ⟨hdecision, hroute, hremote, hcovers⟩
      exact ⟨hdecision, hroute.trans hnew.route_class, hremote, hnew.covers.trans hcovers⟩

/-- Raising counts to cached ones takes the larger of both. -/
theorem getD_foldl_raise_count (entries : List (String × Nat)) (counts : OrderedDict String Nat)
    (hnodup : (entries.map Prod.fst).Nodup) (e : String) :
    (entries.foldl raise_count counts).getD e 0 = max (counts.getD e 0) ((entries.lookup e).getD 0) := by
  induction entries generalizing counts with
  | nil => simp
  | cons entry entries ih =>
    obtain ⟨name, count⟩ := entry
    rw [List.map_cons, List.nodup_cons] at hnodup
    rw [List.foldl_cons, ih _ hnodup.2, raise_count, OrderedDict.getD_set, List.lookup_cons]
    by_cases he : e = name
    · have hnone : entries.lookup e = none := by
        rw [List.lookup_eq_none_iff]
        intro other hother
        rw [bne_iff_ne, he]
        intro hname
        exact hnodup.1 (List.mem_map.mpr ⟨other, hother, hname.symm⟩)
      rw [hnone, if_pos he, he, beq_self_eq_true, Option.getD_none, Option.getD_some]
      exact Nat.max_eq_left (Nat.zero_le _)
    · rw [if_neg he, beq_eq_false_iff_ne.mpr he]

/-- The evidence of a sticky reroute covers the stored one. -/
theorem apply_cached_reroute_covers (analyzed : PolicyResult) (stored : SessionDecision) :
    Covers (apply_cached_reroute analyzed stored).entities (apply_cached_reroute analyzed stored).entity_counts
      stored := by
  constructor
  · intro e he
    change e ∈ (UniqueList.ofList (analyzed.entities ++ stored.entities)).sorted id
    rw [UniqueList.mem_sorted, UniqueList.mem_ofList]
    exact List.mem_append_right _ he
  · intro e
    change _ ≤ (stored.entity_counts.items.foldl raise_count analyzed.entity_counts).getD e 0
    rw [getD_foldl_raise_count _ _ stored.entity_counts.nodup]
    exact le_max_right _ _

/-- A stored decision that is final answers as it stands. -/
theorem result_from_cache_answers (request : SegmentRequest) (stored : SessionDecision) :
    AnswersUnder stored (result_from_cache request stored) where
  block := fun hblock => ⟨hblock, if_pos hblock⟩
  reroute := fun hreroute => Or.inr ⟨hreroute, rfl, stored.routing.local_only, Covers.refl stored⟩

/-- An analysis that a stored decision leaves open joins a stored reroute. -/
theorem apply_cached_decision_answers (hopen : runtime.is_final call.request stored = false) :
    AnswersUnder stored (apply_cached_decision analyzed (some stored)) := by
  constructor
  · intro hblock
    rw [is_final_iff.mpr (Or.inl hblock)] at hopen
    cases hopen
  · intro hreroute
    rw [apply_cached_decision_some]
    by_cases hblock : analyzed.decision = .block
    · rw [if_neg fun h => h.2 hblock]
      exact Or.inl hblock
    · rw [if_pos ⟨hreroute, hblock⟩]
      exact Or.inr ⟨rfl, rfl, rfl, apply_cached_reroute_covers analyzed stored⟩

/-- The record that a result leaves over a stored reroute deepens it. -/
theorem TaintRecord.deepens {record : SessionDecision} (hreroute : stored.decision = .reroute)
    (hkind : stored.request_kind = call.request_kind)
    (h : TaintRecord call (apply_cached_decision analyzed (some stored)) (some stored) record) :
    Deepens stored record := by
  obtain ⟨evidence, hevidence, hrecord⟩ := h.evidence
  have hrecordKind : record.request_kind = stored.request_kind := by
    rw [hrecord]
    exact hkind.symm
  by_cases hblock : analyzed.decision = .block
  · refine .blocked record hreroute ?_ hrecordKind
    rw [apply_cached_decision_some, if_neg fun h => h.2 hblock] at hrecord
    rw [hrecord]
    exact hblock
  · rw [apply_cached_decision_some, if_pos ⟨hreroute, hblock⟩] at hrecord hevidence
    have hevidence : (stored.report_rows, stored.overlap_count) = evidence := Except.ok.inj hevidence
    refine .extended record hreroute ?_ hrecordKind
    refine ⟨?_, ?_, ?_, ?_, ?_, ?_⟩
    · rw [hrecord]
      rfl
    · rw [hrecord]
      rfl
    · rw [hrecord]
      rfl
    · rw [hrecord, ← hevidence]
      rfl
    · rw [hrecord, ← hevidence]
      rfl
    · rw [hrecord]
      exact apply_cached_reroute_covers analyzed stored

/-- A record that is not final is a reroute. -/
theorem reroute_of_open {request : SegmentRequest} (hopen : runtime.is_final request stored = false) :
    stored.decision = .reroute := by
  cases stored.fields.decision with
  | inl hblock =>
    rw [is_final_iff.mpr (Or.inl hblock)] at hopen
    cases hopen
  | inr hreroute => exact hreroute

theorem Analyzed.deepens {ns : Option Text} {record : SessionDecision}
    (hanalyzed : runtime.Analyzed call store ns analyzed)
    (hrecord : TaintRecord call (apply_cached_decision analyzed store) store record) :
    ∀ old ∈ store, Deepens old record := by
  intro old hold
  obtain ⟨hkind, hopen⟩ := hanalyzed.read old hold
  rw [Option.mem_def.mp hold] at hrecord
  exact hrecord.deepens (reroute_of_open hopen) hkind

/-- A call deepens what the session holds. -/
theorem Served.deepens {outcome : Except AnalysisError PolicyResult} (h : runtime.Served call store outcome after) :
    ∀ old ∈ store, ∃ new ∈ after, Deepens old new := by
  intro old hold
  cases h with
  | failed e => exact ⟨old, hold, .same⟩
  | final found hstored hkind hfinal => exact ⟨old, hold, .same⟩
  | untainted ns analyzed hanalyzed hdecision => exact ⟨old, hold, .same⟩
  | tainted ns analyzed record hanalyzed hrecord => exact ⟨record, rfl, hanalyzed.deepens hrecord old hold⟩
  | unconfirmed e ns analyzed record hanalyzed hrecord => exact ⟨record, rfl, hanalyzed.deepens hrecord old hold⟩

/-- A result agrees with what the session held before. -/
theorem Served.answers (h : runtime.Served call store (.ok result) after) :
    ∀ old ∈ store, AnswersUnder old result := by
  intro old hold
  cases h with
  | final found hstored hkind hfinal =>
    rw [hstored] at hold
    cases hold
    exact result_from_cache_answers call.request old
  | untainted ns analyzed hanalyzed hdecision =>
    obtain ⟨-, hopen⟩ := hanalyzed.read old hold
    rw [Option.mem_def.mp hold]
    exact apply_cached_decision_answers hopen
  | tainted ns analyzed record hanalyzed hrecord =>
    obtain ⟨-, hopen⟩ := hanalyzed.read old hold
    rw [Option.mem_def.mp hold]
    exact apply_cached_decision_answers hopen

/-- A block or a reroute is returned only over a record of the same decision and route. -/
theorem Served.recorded (h : runtime.Served call store (.ok result) after)
    (htaints : result.decision = .block ∨ result.decision = .reroute) :
    ∃ record ∈ after, record.decision = result.decision ∧ record.route_class = result.route_class ∧
      record.request_kind = call.request_kind := by
  cases h with
  | final found hstored hkind hfinal => exact ⟨found, hstored, rfl, rfl, hkind⟩
  | untainted ns analyzed hanalyzed hdecision =>
    cases hdecision with
    | inl hpass => rw [hpass] at htaints; simp at htaints
    | inr happly => rw [happly] at htaints; simp at htaints
  | tainted ns analyzed record hanalyzed hrecord =>
    obtain ⟨evidence, -, hrecord⟩ := hrecord.evidence
    refine ⟨record, rfl, ?_⟩
    rw [hrecord]
    exact ⟨rfl, rfl, rfl⟩

/-- A pass or a transformation is returned only from a clean session, which stays clean. -/
theorem Served.clean (h : runtime.Served call store (.ok result) after)
    (hclean : result.decision = .pass ∨ result.decision = .apply_actions) : store = none ∧ after = none := by
  have hnone : store = none := by
    rw [Option.eq_none_iff_forall_not_mem]
    intro old hold
    have hanswers := h.answers old hold
    cases old.fields.decision with
    | inl hblock =>
      rw [(hanswers.block hblock).1] at hclean
      simp at hclean
    | inr hreroute =>
      cases hanswers.reroute hreroute with
      | inl hblock =>
        rw [hblock] at hclean
        simp at hclean
      | inr hresult =>
        rw [hresult.1] at hclean
        simp at hclean
  cases h with
  | final found hstored hkind hfinal =>
    rw [hstored] at hnone
    cases hnone
  | untainted ns analyzed hanalyzed hdecision => exact ⟨hnone, hnone⟩
  | tainted ns analyzed record hanalyzed hrecord =>
    obtain ⟨evidence, -, hrecord⟩ := hrecord.evidence
    have hdecision := record.fields.decision
    rw [hrecord] at hdecision
    change (apply_cached_decision analyzed store).decision = .block ∨
      (apply_cached_decision analyzed store).decision = .reroute at hdecision
    cases hclean with
    | inl hpass => rw [hpass] at hdecision; simp at hdecision
    | inr happly => rw [happly] at hdecision; simp at hdecision

/-- A call of Studio, of a request scope or of a runtime without sessions leaves the session. -/
theorem analyze_segments_outside (hcall : ¬ runtime.SessionCall call) (reachable : Bool) (write : WriteOutcome)
    (store : Option SessionDecision) : (runtime.analyze_segments call reachable write store).2 = store := by
  have htaints (result : PolicyResult) : runtime.taints call result = false := by
    rw [taints, decide_eq_false_iff_not]
    rintro ⟨hscope, hadapter, henabled, -⟩
    exact hcall ⟨hadapter, hscope, henabled⟩
  unfold analyze_segments
  split
  · rfl
  · next ns cached hreceive =>
    split
    · rfl
    · next result record hrespond =>
      have hnone : record = none := by
        rcases respond_eq_ok hrespond with ⟨-, -, -, -, hnone⟩ | ⟨-, analyzed, -, -, htaint⟩
        · exact hnone
        · cases taint_session_eq_ok htaint with
          | inl hnone => exact hnone.2
          | inr hsome =>
            rw [htaints] at hsome
            cases hsome.1
      rw [hnone]
      rfl

theorem Exchanges.served {exchange : Exchange} (h : runtime.Exchanges s exchange t)
    (hcall : runtime.SessionCall exchange.call) : runtime.Served exchange.call s exchange.outcome t := by
  cases h with
  | serve call reachable write => exact runtime.analyze_segments_served hcall reachable write s

theorem Exchanges.deepens {exchange : Exchange} (h : runtime.Exchanges s exchange t) :
    ∀ old ∈ s, ∃ new ∈ t, Deepens old new := by
  cases h with
  | serve call reachable write =>
    by_cases hcall : runtime.SessionCall call
    · exact (runtime.analyze_segments_served hcall reachable write s).deepens
    · rw [analyze_segments_outside hcall]
      exact fun old hold => ⟨old, hold, .same⟩

/-- Along a run of calls a session only deepens. -/
theorem run_deepens {exchanges : List Exchange} (h : Run runtime.Exchanges s exchanges t) :
    ∀ old ∈ s, ∃ new ∈ t, Deepens old new := by
  apply h.related (fun s t => ∀ old ∈ s, ∃ new ∈ t, Deepens old new)
  · intro s old hold
    exact ⟨old, hold, .same⟩
  · intro s t u hst htu old hold
    obtain ⟨middle, hmiddle, hold⟩ := hst old hold
    obtain ⟨new, hnew, hmiddle⟩ := htu middle hmiddle
    exact ⟨new, hnew, hold.trans hmiddle⟩
  · intro s exchange t hstep
    exact hstep.deepens

/-- Whatever other calls come before and after it, a result of a session call agrees with
    everything the session ever held, a block or a reroute is kept for the calls to come, and
    a pass or a transformation comes from a session that was never tainted. -/
theorem session_results_sticky (runtime : EngineRuntime) (s u v t : Option SessionDecision)
    (earlier later : List Exchange)
    (exchange : Exchange) (result : PolicyResult) (hearlier : Run runtime.Exchanges s earlier u)
    (hexchange : runtime.Exchanges u exchange v) (hlater : Run runtime.Exchanges v later t)
    (hcall : runtime.SessionCall exchange.call) (hresult : exchange.outcome = .ok result) :
    (∀ old ∈ s, AnswersUnder old result ∧ ∃ new ∈ t, Deepens old new) ∧
    (result.decision = .block ∨ result.decision = .reroute →
      ∃ record, v = some record ∧ record.decision = result.decision ∧ record.route_class = result.route_class ∧
        record.request_kind = exchange.call.request_kind ∧ ∃ last, t = some last ∧ Deepens record last) ∧
    (result.decision = .pass ∨ result.decision = .apply_actions → s = none ∧ u = none ∧ v = none) := by
  have hserved : runtime.Served exchange.call u (.ok result) v := hresult ▸ hexchange.served hcall
  refine ⟨?_, ?_, ?_⟩
  · intro old hold
    obtain ⟨read, hread, holdRead⟩ := run_deepens hearlier old hold
    obtain ⟨written, hwritten, hreadWritten⟩ := hserved.deepens read hread
    obtain ⟨new, hnew, hwrittenNew⟩ := run_deepens hlater written hwritten
    exact ⟨(hserved.answers read hread).of_deepens holdRead, new, hnew, (holdRead.trans hreadWritten).trans hwrittenNew⟩
  · intro htaints
    obtain ⟨record, hrecord, hdecision, hroute, hkind⟩ := hserved.recorded htaints
    obtain ⟨last, hlast, hdeepens⟩ := run_deepens hlater record hrecord
    exact ⟨record, hrecord, hdecision, hroute, hkind, last, hlast, hdeepens⟩
  · intro hclean
    obtain ⟨hu, hv⟩ := hserved.clean hclean
    refine ⟨?_, hu, hv⟩
    rw [Option.eq_none_iff_forall_not_mem]
    intro old hold
    obtain ⟨read, hread, -⟩ := run_deepens hearlier old hold
    rw [hu] at hread
    cases hread

def secret_exchange (store : Option SessionDecision) : Exchange :=
  ⟨secret_call, true, .stored, ((session_runtime true).analyze_segments secret_call true .stored store).1⟩

private theorem exists_secret_block : ∃ result,
    (secret_exchange (some stored_reroute)).outcome = .ok result ∧ result.decision = .block := by
  have h : (secret_exchange (some stored_reroute)).outcome.toOption.map PolicyResult.decision = some .block := by
    decide +kernel
  cases houtcome : (secret_exchange (some stored_reroute)).outcome with
  | error e =>
    rw [houtcome] at h
    cases h
  | ok result =>
    rw [houtcome] at h
    exact ⟨result, rfl, Option.some.inj h⟩

/-- A secret in a rerouted session, and once more afterwards. -/
theorem session_results_sticky_secret : ∃ v t result last,
    (session_runtime true).Exchanges (some stored_reroute) (secret_exchange (some stored_reroute)) v ∧
      Run (session_runtime true).Exchanges v [secret_exchange v] t ∧
      (secret_exchange (some stored_reroute)).outcome = .ok result ∧ result.decision = .block ∧
      t = some last ∧ last.decision = .block := by
  obtain ⟨result, hresult, hblock⟩ := exists_secret_block
  have hexchange : (session_runtime true).Exchanges (some stored_reroute) (secret_exchange (some stored_reroute)) _ :=
    .serve (some stored_reroute) secret_call true .stored
  have hlater : Run (session_runtime true).Exchanges _ [secret_exchange _] _ :=
    .cons (.serve ((session_runtime true).analyze_segments secret_call true .stored (some stored_reroute)).2
      secret_call true .stored) (.nil _)
  have hsticky := session_results_sticky (session_runtime true) (some stored_reroute) (some stored_reroute) _ _ [] _
    (secret_exchange (some stored_reroute)) result (.nil _) hexchange hlater (sessionCall_secret true) hresult
  obtain ⟨record, -, hdecision, -, -, last, hlast, hdeepens⟩ := hsticky.2.1 (Or.inl hblock)
  have hrecord := hdecision.trans hblock
  refine ⟨_, _, result, last, hexchange, hlater, hresult, hblock, hlast, ?_⟩
  rw [hdeepens.block_eq hrecord]
  exact hrecord

end pii_engine.runtime.EngineRuntime
