import PiiEngine.Runtime.Interleaving
import PiiEngine.Runtime.Recorded

open checked collections transitions
open pii_engine.config pii_engine.policy

namespace pii_engine.runtime.EngineRuntime

/-- A call that finds the session empty and leaves it empty. -/
structure StaysClean (runtime : EngineRuntime) (before : Option SessionDecision) (exchange : Exchange)
    (after : Option SessionDecision) : Prop where
  exchanged : runtime.Exchanges before exchange after
  before : before = none
  after : after = none
  passes : ∀ result, exchange.outcome = .ok result → result.decision = .pass ∨ result.decision = .apply_actions

/-- The call that first taints a session. It leaves the record of its own analysis, which is
    also its result when the store confirms the write. -/
structure FirstTaint (runtime : EngineRuntime) (exchange : Exchange) (record : SessionDecision) : Prop where
  exchanged : runtime.Exchanges none exchange (some record)
  validated : session_decision.validate record.toSessionRecord = .ok ()
  analysis : ∃ placeholder_namespace analyzed,
    runtime.Analyzed exchange.call none placeholder_namespace analyzed ∧
      record.toSessionRecord =
        taint_record exchange.call.request_kind analyzed (analyzed.report_rows, analyzed.overlap_count) ∧
      ∀ result, exchange.outcome = .ok result → result = analyzed

/-- A later reroute of the session that a record first rerouted. -/
structure Sticks (first record : SessionDecision) : Prop where
  request_kind : record.request_kind = first.request_kind
  evidence : Extends first record

/-- What a call gets from a session that stays rerouted. -/
structure Rerouted (first old : SessionDecision) (call : Call) (result : PolicyResult) : Prop where
  request_kind : call.request_kind = first.request_kind
  decision : result.decision = .reroute
  route_class : result.route_class = first.route_class
  local_only : result.remote_allowed = false
  covers : Covers result.entities result.entity_counts old

/-- A call on a rerouted session that stays rerouted: its record extends the one before. -/
structure StaysRerouted (runtime : EngineRuntime) (first : SessionDecision) (before : Option SessionDecision)
    (exchange : Exchange) (after : Option SessionDecision) : Prop where
  exchanged : runtime.Exchanges before exchange after
  records : ∃ old new, before = some old ∧ after = some new ∧ Sticks first old ∧ Extends old new ∧
    new.request_kind = old.request_kind ∧ session_decision.validate new.toSessionRecord = .ok () ∧
    ∀ result, exchange.outcome = .ok result → Rerouted first old exchange.call result

/-- The call that blocks a rerouted session. -/
structure Escalates (runtime : EngineRuntime) (old : SessionDecision) (exchange : Exchange)
    (record : SessionDecision) : Prop where
  exchanged : runtime.Exchanges (some old) exchange (some record)
  validated : session_decision.validate record.toSessionRecord = .ok ()
  decision : record.decision = .block
  request_kind : record.request_kind = old.request_kind
  blocks : ∀ result, exchange.outcome = .ok result → result.decision = .block

/-- A call on a blocked session. -/
structure StaysBlocked (runtime : EngineRuntime) (record : SessionDecision) (before : Option SessionDecision)
    (exchange : Exchange) (after : Option SessionDecision) : Prop where
  exchanged : runtime.Exchanges before exchange after
  before : before = some record
  after : after = some record
  blocks : ∀ result, exchange.outcome = .ok result →
    exchange.call.request_kind = record.request_kind ∧ result.decision = .block ∧ result.segments = none

/-- The calls after the first taint: the session stays rerouted until it is blocked for good. -/
inductive TaintedPhases (runtime : EngineRuntime) (first : SessionDecision) :
    List Exchange → Option SessionDecision → Prop
  | rerouted (rerouted : List Exchange) (last : SessionDecision) (hfirst : first.decision = .reroute)
      (hrerouted : Run (runtime.StaysRerouted first) (some first) rerouted (some last)) :
      TaintedPhases runtime first rerouted (some last)
  | blocked (blocked : List Exchange) (hfirst : first.decision = .block)
      (hblocked : Run (runtime.StaysBlocked first) (some first) blocked (some first)) :
      TaintedPhases runtime first blocked (some first)
  | escalated (rerouted blocked : List Exchange) (exchange : Exchange) (last record : SessionDecision)
      (hfirst : first.decision = .reroute)
      (hrerouted : Run (runtime.StaysRerouted first) (some first) rerouted (some last))
      (hescalates : runtime.Escalates last exchange record)
      (hblocked : Run (runtime.StaysBlocked record) (some record) blocked (some record)) :
      TaintedPhases runtime first (rerouted ++ exchange :: blocked) (some record)

/-- The calls on one session key, from an empty session. -/
inductive Phases (runtime : EngineRuntime) : List Exchange → Option SessionDecision → Prop
  | clean (clean : List Exchange) (hclean : Run runtime.StaysClean none clean none) : Phases runtime clean none
  | tainted (clean later : List Exchange) (exchange : Exchange) (first : SessionDecision)
      (last : Option SessionDecision) (hclean : Run runtime.StaysClean none clean none)
      (htaint : runtime.FirstTaint exchange first) (hlater : runtime.TaintedPhases first later last) :
      Phases runtime (clean ++ exchange :: later) last

variable {runtime : EngineRuntime} {call : Call} {exchange : Exchange} {exchanges : List Exchange}
  {first old record : SessionDecision} {before after : Option SessionDecision} {result : PolicyResult}

theorem Extends.refl (h : old.decision = .reroute) : Extends old old :=
  ⟨h, rfl, rfl, rfl, rfl, Covers.refl old⟩

/-- A record that deepens a reroute and is one extends it. -/
theorem Deepens.extends (h : Deepens old record) (hrecord : record.decision = .reroute) : Extends old record := by
  cases h with
  | same => exact Extends.refl hrecord
  | blocked record hold hblock =>
    rw [hblock] at hrecord
    cases hrecord
  | extended record hold hextends => exact hextends

/-- The record that an analysis leaves in an empty session has its own evidence. -/
theorem TaintRecord.of_empty (h : TaintRecord call result none record) :
    record.toSessionRecord = taint_record call.request_kind result (result.report_rows, result.overlap_count) := by
  obtain ⟨evidence, hevidence, hrecord⟩ := h.evidence
  rw [taint_evidence] at hevidence
  split at hevidence
  · cases hevidence
  · rw [hrecord, ← Except.ok.inj hevidence]

theorem Served.firstTaint {outcome : Except AnalysisError PolicyResult}
    (h : runtime.Served call none outcome (some record)) :
    ∃ placeholder_namespace analyzed, runtime.Analyzed call none placeholder_namespace analyzed ∧
      record.toSessionRecord =
        taint_record call.request_kind analyzed (analyzed.report_rows, analyzed.overlap_count) ∧
      ∀ result, outcome = .ok result → result = analyzed := by
  cases h with
  | tainted ns analyzed record hanalyzed hrecord =>
    exact ⟨ns, analyzed, hanalyzed, hrecord.of_empty, fun result hresult => (Except.ok.inj hresult).symm⟩
  | unconfirmed e ns analyzed record hanalyzed hrecord =>
    exact ⟨ns, analyzed, hanalyzed, hrecord.of_empty, fun result hresult => by cases hresult⟩

theorem StaysClean.of_exchange (h : runtime.Exchanges none exchange none)
    (hcall : runtime.SessionCall exchange.call) : runtime.StaysClean none exchange none := by
  refine ⟨h, rfl, rfl, fun result hresult => ?_⟩
  have hserved := h.served hcall
  rw [hresult] at hserved
  by_contra hdecision
  have htaints : result.decision = .block ∨ result.decision = .reroute := by
    cases hvalue : result.decision <;> simp [hvalue] at hdecision ⊢
  obtain ⟨record, hrecord, -⟩ := hserved.recorded htaints
  cases hrecord

theorem FirstTaint.of_exchange (h : runtime.Exchanges none exchange (some record))
    (hcall : runtime.SessionCall exchange.call) : runtime.FirstTaint exchange record :=
  ⟨h, record.validated, (h.served hcall).firstTaint⟩

/-- A result over a tainted session agrees with the record that the session holds afterwards. -/
theorem Exchanges.recorded (h : runtime.Exchanges (some old) exchange (some record))
    (hcall : runtime.SessionCall exchange.call) (hresult : exchange.outcome = .ok result) :
    AnswersUnder old result ∧ record.decision = result.decision ∧ record.request_kind = exchange.call.request_kind := by
  have hserved := h.served hcall
  rw [hresult] at hserved
  have hanswers := hserved.answers old rfl
  have htaints : result.decision = .block ∨ result.decision = .reroute := by
    cases old.fields.decision with
    | inl hblock => exact Or.inl (hanswers.block hblock).1
    | inr hreroute => exact (hanswers.reroute hreroute).imp_right fun h => h.1
  obtain ⟨found, hfound, hdecision, -, hkind⟩ := hserved.recorded htaints
  cases hfound
  exact ⟨hanswers, hdecision, hkind⟩

theorem StaysRerouted.of_exchange (h : runtime.Exchanges (some old) exchange (some record))
    (hcall : runtime.SessionCall exchange.call) (hold : Sticks first old) (hrecord : record.decision = .reroute)
    (hdeepens : Deepens old record) : runtime.StaysRerouted first (some old) exchange (some record) := by
  refine ⟨h, old, record, rfl, rfl, hold, hdeepens.extends hrecord, hdeepens.request_kind_eq, record.validated, ?_⟩
  intro result hresult
  obtain ⟨hanswers, hdecision, hkind⟩ := h.recorded hcall hresult
  have hreroute : result.decision = .reroute := hdecision.symm.trans hrecord
  cases hanswers.reroute hold.evidence.decision with
  | inl hblock =>
    rw [hreroute] at hblock
    cases hblock
  | inr hanswer =>
    obtain ⟨-, hroute, hremote, hcovers⟩ := hanswer
    refine ⟨?_, hreroute, hroute.trans hold.evidence.route_class, hremote, hcovers⟩
    exact hkind.symm.trans (hdeepens.request_kind_eq.trans hold.request_kind)

theorem Escalates.of_exchange (h : runtime.Exchanges (some old) exchange (some record))
    (hcall : runtime.SessionCall exchange.call) (hrecord : record.decision = .block)
    (hdeepens : Deepens old record) : runtime.Escalates old exchange record := by
  refine ⟨h, record.validated, hrecord, hdeepens.request_kind_eq, fun result hresult => ?_⟩
  exact (h.recorded hcall hresult).2.1.symm.trans hrecord

theorem StaysBlocked.of_exchange (h : runtime.Exchanges (some record) exchange (some record))
    (hcall : runtime.SessionCall exchange.call) (hrecord : record.decision = .block) :
    runtime.StaysBlocked record (some record) exchange (some record) := by
  refine ⟨h, rfl, rfl, fun result hresult => ?_⟩
  obtain ⟨hanswers, -, hkind⟩ := h.recorded hcall hresult
  exact ⟨hkind.symm, hanswers.block hrecord⟩

theorem StaysRerouted.sticks (h : runtime.StaysRerouted first before exchange after) :
    ∀ new ∈ after, Sticks first new := by
  obtain ⟨old, new, -, rfl, hold, hnew, hkind, -⟩ := h.records
  intro held hheld
  cases hheld
  exact ⟨hkind.trans hold.request_kind, hold.evidence.trans hnew⟩

/-- What the session holds after any number of calls that leave it rerouted. -/
theorem sticks_of_run (hfirst : first.decision = .reroute)
    (h : Run (runtime.StaysRerouted first) (some first) exchanges (some record)) : Sticks first record := by
  refine h.invariant (fun store => ∀ held ∈ store, Sticks first held) ?_ ?_ record rfl
  · intro s exchange t _ hstep
    exact hstep.sticks
  · intro held hheld
    cases hheld
    exact ⟨rfl, Extends.refl hfirst⟩

/-- One more call after the first taint. -/
theorem TaintedPhases.step (h : runtime.TaintedPhases first exchanges before)
    (hexchange : runtime.Exchanges before exchange after) (hcall : runtime.SessionCall exchange.call) :
    runtime.TaintedPhases first (exchanges ++ [exchange]) after := by
  have hdeepens := hexchange.deepens
  cases h with
  | rerouted rerouted last hfirst hrerouted =>
    have hlast := sticks_of_run hfirst hrerouted
    obtain ⟨new, hnew, hnewer⟩ := hdeepens last rfl
    cases hnew
    cases new.fields.decision with
    | inl hblock => exact .escalated _ [] _ _ _ hfirst hrerouted (.of_exchange hexchange hcall hblock hnewer) (.nil _)
    | inr hreroute =>
      have hstays := StaysRerouted.of_exchange hexchange hcall hlast hreroute hnewer
      exact .rerouted _ _ hfirst (hrerouted.append (.cons hstays (.nil _)))
  | blocked blocked hfirst hblocked =>
    obtain ⟨new, hnew, hnewer⟩ := hdeepens first rfl
    cases hnew
    cases hnewer.block_eq hfirst
    have hstays := StaysBlocked.of_exchange hexchange hcall hfirst
    exact .blocked _ hfirst (hblocked.append (.cons hstays (.nil _)))
  | escalated rerouted blocked escalating last block hfirst hrerouted hescalates hblocked =>
    obtain ⟨new, hnew, hnewer⟩ := hdeepens block rfl
    cases hnew
    cases hnewer.block_eq hescalates.decision
    have hstays := StaysBlocked.of_exchange hexchange hcall hescalates.decision
    rw [List.append_assoc, List.cons_append]
    exact .escalated _ _ _ _ _ hfirst hrerouted hescalates (hblocked.append (.cons hstays (.nil _)))

/-- One more call on a session key. -/
theorem Phases.step (h : runtime.Phases exchanges before) (hexchange : runtime.Exchanges before exchange after)
    (hcall : runtime.SessionCall exchange.call) : runtime.Phases (exchanges ++ [exchange]) after := by
  cases h with
  | clean clean hclean =>
    cases after with
    | none => exact .clean _ (hclean.append (.cons (.of_exchange hexchange hcall) (.nil none)))
    | some first =>
      have htaint := FirstTaint.of_exchange hexchange hcall
      cases first.fields.decision with
      | inl hblock => exact .tainted _ [] _ _ _ hclean htaint (.blocked [] hblock (.nil _))
      | inr hreroute => exact .tainted _ [] _ _ _ hclean htaint (.rerouted [] first hreroute (.nil _))
  | tainted clean later tainting first last hclean htaint hlater =>
    rw [List.append_assoc, List.cons_append]
    exact .tainted _ _ _ _ _ hclean htaint (hlater.step hexchange hcall)

/-- However many session calls follow each other on one key, and however the store takes
    them, the session is clean until one of them taints it, keeps the first reroute while its
    evidence grows, and stays blocked once it is. As long as the calls detect at most 64 types
    and the policy routes to short names, no validator refuses a record. -/
theorem session_taint_phases (runtime : EngineRuntime) (exchanges : List Exchange) (last : Option SessionDecision)
    (hrun : Run (fun s exchange t => runtime.Exchanges s exchange t ∧ runtime.SessionCall exchange.call) none
      exchanges last) :
    runtime.Phases exchanges last ∧
    ∀ types : List String, types.length ≤ 64 → "FACE" ∉ types →
      runtime.policy_settings.routing.default_target.length ≤ 128 →
      (∀ exchange ∈ exchanges, runtime.DetectsWithin types exchange.call) →
      Run (fun s exchange t => runtime.Exchanges s exchange t ∧ runtime.Records exchange.call s) none exchanges
        last := by
  constructor
  · refine hrun.history_invariant (fun done store => runtime.Phases done store) ?_ (.clean [] (.nil none))
    intro done s exchange t hdone hstep
    exact hdone.step hstep.1 hstep.2
  · intro types htypes hface hdefault hwithin
    refine hrun.strengthen (fun exchange => runtime.DetectsWithin types exchange.call)
      (fun store => ∀ held ∈ store, ∀ e ∈ held.entities, e ∈ types) ?_ hwithin nofun
    rintro s exchange t hdetects hstore ⟨hexchange, hcall⟩
    exact ⟨⟨hexchange, records_of_within hcall hdefault htypes hface hdetects hstore⟩,
      (hexchange.served hcall).entities_within hdetects hstore⟩

def account_exchange (store : Option SessionDecision) : Exchange :=
  ⟨account_call, true, .stored, ((session_runtime true).analyze_segments account_call true .stored store).1⟩

/-- An account number reroutes the session, and a secret blocks it. -/
theorem session_taint_phases_account : ∃ exchanges last,
    Run (fun s exchange t => (session_runtime true).Exchanges s exchange t ∧
      (session_runtime true).SessionCall exchange.call) none exchanges last ∧ exchanges.length = 2 ∧
    (session_runtime true).Phases exchanges last ∧ ∃ record, last = some record ∧ record.decision = .block := by
  let first := ((session_runtime true).analyze_segments account_call true .stored none).2
  have hrun : Run (fun s exchange t => (session_runtime true).Exchanges s exchange t ∧
      (session_runtime true).SessionCall exchange.call) none [account_exchange none, secret_exchange first] _ :=
    .cons ⟨.serve none account_call true .stored, rfl, rfl, rfl⟩
      (.cons ⟨.serve first secret_call true .stored, sessionCall_secret true⟩ (.nil _))
  have hlast : ((session_runtime true).analyze_segments secret_call true .stored first).2.map
      (fun record => record.decision) = some .block := by
    decide +kernel
  obtain ⟨record, hrecord, hblock⟩ := Option.map_eq_some_iff.mp hlast
  exact ⟨_, _, hrun, rfl, (session_taint_phases (session_runtime true) _ _ hrun).1, record, hrecord, hblock⟩

end pii_engine.runtime.EngineRuntime
