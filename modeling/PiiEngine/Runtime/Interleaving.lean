import PiiEngine.Lib.Transitions
import PiiEngine.Runtime.Cache

open checked transitions
open pii_engine.config pii_engine.policy

namespace pii_engine.runtime.EngineRuntime

/-- A call between its read and its write, with what it read. -/
structure Pending where
  call : Call
  placeholder_namespace : Option Text
  cached : Option SessionDecision

/-- One session key while any number of calls are in flight. -/
structure Concurrent where
  store : Option SessionDecision
  pending : Nat → Option Pending

/-- The steps that a call takes on the shared store: its read, and its write unless it
    answers without one. The analysis between them touches nothing shared. -/
inductive Event where
  | read (id : Nat) (call : Call) (reachable : Bool)
  | write (id : Nat) (outcome : WriteOutcome)
  | answer (id : Nat)

/-- The calls on a store that holds the given value. -/
def Concurrent.initial (store : Option SessionDecision) : Concurrent := ⟨store, fun _ => none⟩

def Concurrent.start (s : Concurrent) (id : Nat) (pending : Pending) : Concurrent :=
  { s with pending := Function.update s.pending id (some pending) }

def Concurrent.finish (s : Concurrent) (id : Nat) (store : Option SessionDecision) : Concurrent :=
  { store, pending := Function.update s.pending id none }

/-- What a pending call is going to do. -/
def Pending.response (runtime : EngineRuntime) (pending : Pending) :
    Except AnalysisError (PolicyResult × Option SessionDecision) :=
  runtime.respond pending.call pending.placeholder_namespace pending.cached

/-- The step relation of the session calls on one key. -/
inductive Step (runtime : EngineRuntime) : Concurrent → Event → Concurrent → Prop
  | read (s : Concurrent) (id : Nat) (call : Call) (reachable : Bool) (placeholder_namespace : Option Text)
      (cached : Option SessionDecision) (hcall : runtime.SessionCall call) (hidle : s.pending id = none)
      (hreceive : runtime.receive call reachable s.store = .ok (placeholder_namespace, cached)) :
      Step runtime s (.read id call reachable) (s.start id ⟨call, placeholder_namespace, cached⟩)
  | write (s : Concurrent) (id : Nat) (outcome : WriteOutcome) (pending : Pending) (result : PolicyResult)
      (record : SessionDecision) (hpending : s.pending id = some pending)
      (hresponse : pending.response runtime = .ok (result, some record)) :
      Step runtime s (.write id outcome) (s.finish id (commit outcome s.store result (some record)).2)
  | answer (s : Concurrent) (id : Nat) (pending : Pending) (hpending : s.pending id = some pending)
      (hresponse : ∀ result record, pending.response runtime ≠ .ok (result, some record)) :
      Step runtime s (.answer id) (s.finish id s.store)

/-- The part of a record that later requests must not lose. -/
def taint (decision : SessionDecision) : Decision × Option String := (decision.decision, decision.route_class)

/-- A block stays a block, and a reroute stays on its route or becomes a block. -/
def Sticky (before after : Option SessionDecision) : Prop :=
  ∀ old ∈ before, ∃ new ∈ after, new.decision = .block ∨ taint new = taint old

theorem Sticky.refl (store : Option SessionDecision) : Sticky store store :=
  fun old hold => ⟨old, hold, Or.inr rfl⟩

theorem Sticky.trans {first second third : Option SessionDecision} (h : Sticky first second)
    (h' : Sticky second third) : Sticky first third := by
  intro old hold
  obtain ⟨middle, hmiddle, hkeeps⟩ := h old hold
  obtain ⟨new, hnew, hkeeps'⟩ := h' middle hmiddle
  refine ⟨new, hnew, ?_⟩
  cases hkeeps' with
  | inl hblock => exact Or.inl hblock
  | inr hsame =>
    rw [hsame]
    cases hkeeps with
    | inl hblock => exact Or.inl ((Prod.ext_iff.mp hsame).1.trans hblock)
    | inr hsame' => exact Or.inr hsame'

/-- A write finds the store empty or with the taint that its request read. -/
def Current (s : Concurrent) (event : Event) : Prop :=
  ∀ id outcome, event = .write id outcome → ∀ pending, s.pending id = some pending →
    ∀ held ∈ s.store, ∃ read ∈ pending.cached, taint read = taint held

/-- The record written over a stored reroute is a block or keeps its route. -/
theorem TaintRecord.keeps {call : Call} {analyzed : PolicyResult} {read record : SessionDecision}
    (h : TaintRecord call (apply_cached_decision analyzed (some read)) (some read) record)
    (hreroute : read.decision = .reroute) : record.decision = .block ∨ taint record = taint read := by
  obtain ⟨evidence, -, hrecord⟩ := h.evidence
  have hdecision : record.decision = (apply_cached_decision analyzed (some read)).decision := by rw [hrecord]; rfl
  have hroute : record.route_class = (apply_cached_decision analyzed (some read)).route_class := by rw [hrecord]; rfl
  rw [apply_cached_decision_some] at hdecision hroute
  by_cases hblock : analyzed.decision = .block
  · rw [if_neg (fun h => h.2 hblock)] at hdecision
    exact Or.inl (hdecision.trans hblock)
  · rw [if_pos ⟨hreroute, hblock⟩] at hdecision hroute
    exact Or.inr (Prod.ext (hdecision.trans hreroute.symm) hroute)

/-- The store after a write holds its record or what it held before. -/
theorem commit_store (write : WriteOutcome) (store : Option SessionDecision) (result : PolicyResult)
    (record : SessionDecision) :
    (commit write store result (some record)).2 = some record ∨
      (commit write store result (some record)).2 = store := by
  have hterminal : ¬ record.decision ∉ [Decision.block, .reroute] := by
    rw [not_not, List.mem_pair]
    exact record.fields.decision
  simp only [commit, SessionStore.set, if_neg hterminal]
  cases write with
  | stored => exact Or.inl rfl
  | lost => exact Or.inr rfl
  | unconfirmed => exact Or.inl rfl

/-- A record is a block or keeps the taint that its request read. -/
theorem Pending.response_keeps {runtime : EngineRuntime} {pending : Pending} {result : PolicyResult}
    {record read : SessionDecision} (h : pending.response runtime = .ok (result, some record))
    (hread : pending.cached = some read) : record.decision = .block ∨ taint record = taint read := by
  rcases respond_eq_ok h with ⟨-, -, -, -, hnone⟩ | ⟨hopen, analyzed, -, rfl, htaint⟩
  · cases hnone
  · rcases taint_session_eq_ok htaint with ⟨-, hnone⟩ | ⟨-, written, hwritten, hrecord⟩
    · cases hnone
    · cases hwritten
      rw [hread] at hrecord
      refine hrecord.keeps ?_
      have hfinal := hopen read hread
      cases read.fields.decision with
      | inl hblock =>
        rw [is_final_iff.mpr (Or.inl hblock)] at hfinal
        cases hfinal
      | inr hreroute => exact hreroute

theorem Step.sticky {runtime : EngineRuntime} {s t : Concurrent} {event : Event} (h : runtime.Step s event t)
    (hcurrent : Current s event) : Sticky s.store t.store := by
  cases h with
  | read id call reachable ns cached hcall hidle hreceive => exact Sticky.refl s.store
  | answer id pending hpending hresponse => exact Sticky.refl s.store
  | write id outcome pending result record hpending hresponse =>
    intro held hheld
    obtain ⟨read, hread, hsame⟩ := hcurrent id outcome rfl pending hpending held hheld
    have hkept := Pending.response_keeps hresponse hread
    rw [hsame] at hkept
    cases commit_store outcome s.store result record with
    | inl hwritten => exact ⟨record, hwritten, hkept⟩
    | inr hlost =>
      refine ⟨held, ?_, Or.inr rfl⟩
      change held ∈ (commit outcome s.store result (some record)).2
      rw [hlost]
      exact hheld

/-- In every interleaving in which no request overwrites a taint that it did not read, a
    block stays a block and a reroute stays on its route or becomes a block. -/
theorem interleaving_sticky (runtime : EngineRuntime) (s t : Concurrent) (events : List Event)
    (hrun : Run (fun s event t => runtime.Step s event t ∧ Current s event) s events t) :
    Sticky s.store t.store := by
  apply hrun.related (fun s t => Sticky s.store t.store)
  · intro s
    exact Sticky.refl s.store
  · intro s t u h h'
    exact h.trans h'
  · intro s event t h
    exact h.1.sticky h.2

def account_call : Call :=
  { secret_call with
    observation := { PolicyService.test_environment [⟨"IBAN", 0, 7, some (9 / 10), "rules"⟩] with } }

private theorem exists_response (call : Call) (cached : Option SessionDecision) (decision : Decision)
    (h : (((session_runtime true).respond call none cached).toOption.bind Prod.snd).map
      (fun record => record.decision) = some decision) :
    ∃ result record, (session_runtime true).respond call none cached = .ok (result, some record) ∧
      record.decision = decision := by
  cases hresponse : (session_runtime true).respond call none cached with
  | error e =>
    rw [hresponse] at h
    cases h
  | ok response =>
    obtain ⟨result, record⟩ := response
    rw [hresponse] at h
    cases record with
    | none => cases h
    | some record => exact ⟨result, record, rfl, Option.some.inj h⟩

private theorem commit_stored (store : Option SessionDecision) (result : PolicyResult) (record : SessionDecision) :
    (commit .stored store result (some record)).2 = some record := by
  have hterminal : ¬ record.decision ∉ [Decision.block, .reroute] := by
    rw [not_not, List.mem_pair]
    exact record.fields.decision
  simp only [commit, SessionStore.set, if_neg hterminal]

/-- A secret in a rerouted session: the write finds what its request read. -/
theorem interleaving_sticky_secret : ∃ t events,
    Run (fun s event t => (session_runtime true).Step s event t ∧ Current s event)
      (.initial (some stored_reroute)) events t ∧ events.length = 2 ∧
    Sticky (some stored_reroute) t.store ∧ ∃ record, t.store = some record ∧ record.decision = .block := by
  obtain ⟨result, record, hresponse, hblock⟩ := exists_response secret_call (some stored_reroute) .block
    (by decide +kernel)
  have hread : (session_runtime true).Step (.initial (some stored_reroute)) (.read 0 secret_call true)
      ((Concurrent.initial (some stored_reroute)).start 0 ⟨secret_call, none, some stored_reroute⟩) :=
    .read _ 0 secret_call true none (some stored_reroute) (sessionCall_secret true) rfl (by decide +kernel)
  have hwrite : (session_runtime true).Step
      ((Concurrent.initial (some stored_reroute)).start 0 ⟨secret_call, none, some stored_reroute⟩)
      (.write 0 .stored) _ :=
    .write _ 0 .stored ⟨secret_call, none, some stored_reroute⟩ result record rfl hresponse
  have hcurrent : Current ((Concurrent.initial (some stored_reroute)).start 0 ⟨secret_call, none, some stored_reroute⟩)
      (.write 0 .stored) := by
    intro id outcome heq pending hpending held hheld
    cases heq
    cases hpending
    exact ⟨stored_reroute, rfl, by rw [Option.some.inj hheld]⟩
  have hrun : Run (fun s event t => (session_runtime true).Step s event t ∧ Current s event)
      (.initial (some stored_reroute)) [.read 0 secret_call true, .write 0 .stored] _ :=
    .cons ⟨hread, fun id outcome heq => by cases heq⟩ (.cons ⟨hwrite, hcurrent⟩ (.nil _))
  exact ⟨_, _, hrun, rfl, interleaving_sticky (session_runtime true) _ _ _ hrun, record,
    commit_stored _ result record, hblock⟩

/-- A request that read the empty store overwrites the block of another one with a reroute. -/
theorem stale_write_loses_block :
    ¬ ∀ (runtime : EngineRuntime) (before after : List Event) (s t : Concurrent),
      Run runtime.Step (.initial none) before s → Run runtime.Step s after t → Sticky s.store t.store := by
  intro hclaim
  obtain ⟨blocked, block, hblocked, hblock⟩ := exists_response secret_call none .block (by decide +kernel)
  obtain ⟨rerouted, reroute, hrerouted, hreroute⟩ := exists_response account_call none .reroute (by decide +kernel)
  let first : Pending := ⟨secret_call, none, none⟩
  let second : Pending := ⟨account_call, none, none⟩
  have hread : (session_runtime true).Step (.initial none) (.read 0 secret_call true)
      ((Concurrent.initial none).start 0 first) :=
    .read _ 0 secret_call true none none (sessionCall_secret true) rfl (by decide +kernel)
  have hread' : (session_runtime true).Step ((Concurrent.initial none).start 0 first) (.read 1 account_call true)
      (((Concurrent.initial none).start 0 first).start 1 second) :=
    .read _ 1 account_call true none none ⟨rfl, rfl, rfl⟩ rfl (by decide +kernel)
  have hwrite :
      (session_runtime true).Step (((Concurrent.initial none).start 0 first).start 1 second) (.write 0 .stored) _ :=
    .write _ 0 .stored first blocked block rfl hblocked
  have hwrite' : (session_runtime true).Step ((((Concurrent.initial none).start 0 first).start 1 second).finish 0
      (commit .stored none blocked (some block)).2) (.write 1 .stored) _ :=
    .write _ 1 .stored second rerouted reroute rfl hrerouted
  have hsticky := hclaim (session_runtime true) _ _ _ _ (.cons hread (.cons hread' (.cons hwrite (.nil _))))
    (.cons hwrite' (.nil _))
  obtain ⟨new, hnew, hkept⟩ := hsticky block (commit_stored none blocked block)
  have hnew : reroute = new := Option.some.inj ((commit_stored _ rerouted reroute).symm.trans hnew)
  rw [← hnew, hreroute] at hkept
  cases hkept with
  | inl h => cases h
  | inr h =>
    have hdecision := (Prod.ext_iff.mp h).1
    change reroute.decision = block.decision at hdecision
    rw [hreroute, hblock] at hdecision
    cases hdecision

end pii_engine.runtime.EngineRuntime
