import Mathlib.Order.Bounds.Basic
import PiiEngine.Lib.Programs
import PiiEngine.Lib.Transitions
import PiiEngine.Ner.Profiles

open programs transitions

namespace pii_engine.ner

/-- The exceptions that leave a remote call. -/
inductive Failure where
  | raised (error : RemoteError)
  | http_error
  | unicode_error
  | other (name : String)
  deriving DecidableEq

namespace Failure

def deadline_exceeded : Failure := .raised (.remote_analysis_error "remote analysis deadline exceeded")

def budget_exceeded : Failure := .raised (.remote_analysis_error "remote analysis call budget exceeded")

/-- A `RemoteAnalysisError` or its subclass. -/
def isAnalysisError : Failure → Bool
  | .raised (.remote_analysis_error _) => true
  | .raised .input_too_large => true
  | _ => false

/-- An `httpx.HTTPError`, `ValueError` or `UnicodeError`. -/
def isCaught : Failure → Bool
  | .raised .value_error => true
  | .http_error => true
  | .unicode_error => true
  | failure => failure.isAnalysisError

end Failure

/-- Track a request's deadline and total remote calls, including subdivisions. -/
structure Budget where
  deadline : ℚ
  remaining : Int

/-- What one call does, in order. A start and a read carry the clock as it was checked. -/
inductive Effect where
  | acquired
  | reached
  | started (now : ℚ)
  | read (now : ℚ)
  | released
  deriving DecidableEq

/-- How a scope ends: by restoring what the context variable held, or not at all. -/
inductive Scope where
  | created (previous : Option Budget)
  | tightened

/-- The context of one request: the context variable, the scopes that are open, innermost
    first, the capacity permits that are held, and what happened so far. -/
structure World where
  budget : Option Budget := none
  scopes : List Scope := []
  held : Nat := 0
  log : List Effect := []

/-- How often a call reached the endpoint's code. -/
def World.reached_count (w : World) : Nat := w.log.count .reached

abbrev Remote := Program World Failure

/-- The parts of a response, each with the clock at its arrival, and how the stream ends. -/
structure Reply where
  status_code : Nat
  parts : List (ℚ × List UInt8)
  ending : Option Failure

/-- What the clock, the semaphore, the credential file and the endpoint answer during one call. -/
structure Exchange where
  wait_clock : ℚ
  admitted : Bool
  request_clock : ℚ
  /-- The text of the key file, if the model has one and it can be read. -/
  api_key_file : Option (Option Text)
  call_clock : ℚ
  reply : Except Failure Reply

/-- The settings of remote calls, with the sum and difference of seconds as the machine rounds
    them, `str.strip` and `json.loads`. -/
structure RemoteTransport where
  remote_call_timeout : ℚ
  remote_max_response_bytes : Nat
  add : ℚ → ℚ → ℚ
  sub : ℚ → ℚ → ℚ
  sub_pos : ∀ a b, 0 < sub a b ↔ b < a
  strip : Text → Text
  loads : List UInt8 → Except Failure JsonValue

namespace RemoteTransport

def record (effect : Effect) : Remote Unit := .modify fun w => { w with log := w.log ++ [effect] }

/-- `remaining > 0 and self._capacity.acquire(timeout=max(0, remaining))` -/
def acquire (remaining : ℚ) (admitted : Bool) : Remote Bool where
  run w :=
    if 0 < remaining ∧ admitted then (.ok true, { w with held := w.held + 1, log := w.log ++ [.acquired] })
    else (.ok false, w)

/-- A bounded semaphore refuses a release too many. -/
def release : Remote Unit := do
  let w ← .state
  if w.held = 0 then .raise (.raised .value_error)
  else
    .modify fun w => { w with held := w.held - 1 }
    record .released

/-- The headers of a call. -/
def headers (transport : RemoteTransport) (api_key_file : Option (Option Text)) :
    Except Failure (List (String × Text)) :=
  let accept := [("Accept", "application/json".toList)]
  match api_key_file with
  | none => .ok accept
  | some none => .error (.raised (.remote_analysis_error "remote credential is unavailable"))
  | some (some text) =>
    let key := transport.strip text
    if key = [] ∨ '\n' ∈ key ∨ '\r' ∈ key then
      .error (.raised (.remote_analysis_error "remote credential is invalid"))
    else .ok (accept ++ [("Authorization", "Bearer ".toList ++ key)])

def read_parts (transport : RemoteTransport) (deadline : ℚ) : List UInt8 → List (ℚ × List UInt8) → Remote (List UInt8)
  | data, [] => pure data
  | data, (now, part) :: parts =>
    if deadline ≤ now then .raise .deadline_exceeded
    else if transport.remote_max_response_bytes < data.length + part.length then
      .raise (.raised (.remote_analysis_error "remote response exceeds size limit"))
    else do
      record (.read now)
      transport.read_parts deadline (data ++ part) parts

def _read_response (transport : RemoteTransport) (reply : Reply) (budget : Budget) : Remote JsonValue := do
  let data ← transport.read_parts budget.deadline [] reply.parts
  match reply.ending with
  | some failure => .raise failure
  | none => .lift (transport.loads data)

/-- The response of the endpoint, where only GLiNER's size rejection permits subdivision. -/
def receive (transport : RemoteTransport) (kind : RemoteKind) (exchange : Exchange) (call_deadline : ℚ) :
    Remote JsonValue := do
  record (.started exchange.request_clock)
  let reply ← .lift exchange.reply
  if reply.status_code = 413 ∧ kind = .gliner then .raise (.raised .input_too_large)
  else if reply.status_code ≠ 200 then .raise (.raised (.remote_analysis_error "remote inference failed"))
  else transport._read_response reply ⟨call_deadline, 0⟩

def _request (transport : RemoteTransport) (kind : RemoteKind) (exchange : Exchange) (budget : Budget) :
    Remote JsonValue := do
  record .reached
  if transport.sub budget.deadline exchange.request_clock ≤ 0 then .raise .deadline_exceeded
  else
    let _ ← .lift (transport.headers exchange.api_key_file)
    let call_deadline := min budget.deadline (transport.add exchange.call_clock transport.remote_call_timeout)
    (transport.receive kind exchange call_deadline).handle fun failure =>
      if failure.isCaught ∧ ¬ failure.isAnalysisError then
        .raise (.raised (.remote_analysis_error "remote inference returned no valid response"))
      else .raise failure

/-- Read a bounded JSON reply within the shared request deadline. -/
def request (transport : RemoteTransport) (kind : RemoteKind) (exchange : Exchange) : Remote JsonValue := do
  let w ← .state
  match w.budget with
  | none => .raise .budget_exceeded
  | some budget =>
    if budget.remaining ≤ 0 then .raise .budget_exceeded
    else
      .modify fun w => { w with budget := some { budget with remaining := budget.remaining - 1 } }
      let acquired ← acquire (transport.sub budget.deadline exchange.wait_clock) exchange.admitted
      if ¬ acquired then .raise .deadline_exceeded
      else (transport._request kind exchange budget).ensuring release

/-- Enter a scope. Where a budget is open already, it is shared and its deadline tightened. -/
def analysis_budget (transport : RemoteTransport) (timeout : ℚ) (max_calls : Int) (now : ℚ) (w : World) : World :=
  match w.budget with
  | some existing =>
    { w with
      budget := some { existing with deadline := min existing.deadline (transport.add now timeout) }
      scopes := .tightened :: w.scopes }
  | none =>
    { w with
      budget := some ⟨transport.add now timeout, max_calls⟩
      scopes := .created w.budget :: w.scopes }

/-- Leave the innermost scope, however its body ended. -/
def leave_scope (w : World) : Option World :=
  match w.scopes with
  | [] => none
  | .tightened :: scopes => some { w with scopes }
  | .created previous :: scopes => some { w with budget := previous, scopes }

end RemoteTransport

/-- What a call does between its start and its end lies before a deadline. -/
def Effect.Timely (deadline : ℚ) : Effect → Prop
  | .started now => now < deadline
  | .read now => now < deadline
  | _ => False

/-- What a call does: nothing, or it reaches the endpoint's code once, under one permit. -/
inductive CallEffects (deadline : ℚ) : List Effect → Prop
  | refused : CallEffects deadline []
  | made {effects : List Effect} (htimely : ∀ effect ∈ effects, effect.Timely deadline) :
      CallEffects deadline (.acquired :: .reached :: effects ++ [.released])

theorem CallEffects.count_reached_le {deadline : ℚ} {effects : List Effect} (h : CallEffects deadline effects) :
    effects.count .reached ≤ 1 := by
  cases h with
  | refused => exact Nat.zero_le _
  | @made effects htimely =>
    have hnone : effects.count .reached = 0 := List.count_eq_zero.mpr fun hmem => htimely _ hmem
    rw [List.count_append, List.count_cons, List.count_cons, hnone]
    decide

/-- What the code of one request does with its context. -/
inductive Event where
  | enter (timeout : ℚ) (max_calls : Int) (now : ℚ)
  | leave
  | call (kind : RemoteKind) (exchange : Exchange)

/-- The events leave the outermost of the open scopes open. -/
def StaysInside : Nat → List Event → Prop
  | _, [] => True
  | depth, .enter _ _ _ :: events => StaysInside (depth + 1) events
  | depth, .leave :: events => 1 < depth ∧ StaysInside (depth - 1) events
  | depth, .call _ _ :: events => StaysInside depth events

namespace RemoteTransport
variable {transport : RemoteTransport} {kind : RemoteKind} {exchange : Exchange} {deadline : ℚ} {w : World}

/-- Inside a call only timely effects are added to the log. -/
def During (deadline : ℚ) (w w' : World) : Prop :=
  ∃ effects, (∀ effect ∈ effects, Effect.Timely deadline effect) ∧ w' = { w with log := w.log ++ effects }

theorem During.refl (w : World) : During deadline w w := by
  refine ⟨[], by simp, ?_⟩
  rw [List.append_nil]

theorem During.trans (w w' w'' : World) (h : During deadline w w') (h' : During deadline w' w'') :
    During deadline w w'' := by
  obtain ⟨effects, htimely, rfl⟩ := h
  obtain ⟨later, hlater, rfl⟩ := h'
  refine ⟨effects ++ later, List.forall_mem_append.mpr ⟨htimely, hlater⟩, ?_⟩
  rw [List.append_assoc]

theorem record_during {effect : Effect} (htimely : effect.Timely deadline) :
    (record effect).Relates (During deadline) :=
  fun _ => ⟨[effect], by simpa using htimely, rfl⟩

theorem read_parts_during {call_deadline : ℚ} (hle : call_deadline ≤ deadline) (data : List UInt8)
    (parts : List (ℚ × List UInt8)) : (transport.read_parts call_deadline data parts).Relates (During deadline) := by
  induction parts generalizing data with
  | nil => exact Program.Relates.pure During.refl data
  | cons entry parts ih =>
    obtain ⟨now, part⟩ := entry
    rw [read_parts]
    split
    case isTrue => exact Program.Relates.raise During.refl _
    case isFalse hnow =>
      split
      case isTrue => exact Program.Relates.raise During.refl _
      case isFalse =>
        have htimely : (Effect.read now).Timely deadline := by
          exact (lt_of_not_ge hnow).trans_le hle
        exact (record_during htimely).bind During.trans fun _ => ih _

theorem receive_during {call_deadline : ℚ} (hle : call_deadline ≤ deadline)
    (hstart : exchange.request_clock < deadline) :
    (transport.receive kind exchange call_deadline).Relates (During deadline) := by
  have hstarted : (Effect.started exchange.request_clock).Timely deadline := hstart
  refine (record_during hstarted).bind During.trans fun _ => ?_
  refine (Program.Relates.lift During.refl _).bind During.trans fun reply => ?_
  split
  · exact Program.Relates.raise During.refl _
  · split
    · exact Program.Relates.raise During.refl _
    · refine (read_parts_during hle _ _).bind During.trans fun data => ?_
      split
      · exact Program.Relates.raise During.refl _
      · exact Program.Relates.lift During.refl _

/-- A call that is made records that it was reached, and then only what is timely. -/
theorem _request_spec (transport : RemoteTransport) (kind : RemoteKind) (exchange : Exchange) (budget : Budget)
    (w : World) :
    ∃ effects, (∀ effect ∈ effects, Effect.Timely budget.deadline effect) ∧
      ((transport._request kind exchange budget).run w).2 = { w with log := w.log ++ .reached :: effects } := by
  have hreached : (record .reached).run w = (.ok (), { w with log := w.log ++ [.reached] }) := rfl
  rw [_request, Program.run_bind_ok hreached]
  have hduring : ∀ (body : Remote JsonValue), body.Relates (During budget.deadline) →
      ∃ effects, (∀ effect ∈ effects, Effect.Timely budget.deadline effect) ∧
        (body.run { w with log := w.log ++ [.reached] }).2 = { w with log := w.log ++ .reached :: effects } := by
    intro body hbody
    obtain ⟨effects, htimely, heq⟩ := hbody { w with log := w.log ++ [.reached] }
    refine ⟨effects, htimely, ?_⟩
    rw [heq, List.append_assoc]
    rfl
  split
  case isTrue => exact hduring _ (Program.Relates.raise During.refl _)
  case isFalse hremaining =>
    have hstart : exchange.request_clock < budget.deadline := (transport.sub_pos _ _).mp (lt_of_not_ge hremaining)
    refine hduring _ ((Program.Relates.lift During.refl _).bind During.trans fun _ => ?_)
    refine (receive_during (min_le_left _ _) hstart).handle During.trans fun failure => ?_
    split
    · exact Program.Relates.raise During.refl _
    · exact Program.Relates.raise During.refl _

/-- A call without a budget, or with one that is spent, does nothing. -/
theorem request_refused (h : ∀ budget ∈ w.budget, budget.remaining ≤ 0) :
    (transport.request kind exchange).run w = (.error .budget_exceeded, w) := by
  have hstate : (Program.state : Remote World).run w = (.ok w, w) := rfl
  rw [request, Program.run_bind_ok hstate]
  cases hbudget : w.budget with
  | none => rfl
  | some budget =>
    dsimp only
    rw [if_pos (h budget hbudget)]
    rfl

theorem release_held {held : Nat} (h : w.held = held + 1) :
    release.run w = (.ok (), { w with held, log := w.log ++ [.released] }) := by
  obtain ⟨budget, scopes, held', log⟩ := w
  cases h
  rfl

theorem acquire_cases (remaining : ℚ) (admitted : Bool) (w : World) :
    (acquire remaining admitted).run w = (.ok false, w) ∨
      (acquire remaining admitted).run w = (.ok true, { w with held := w.held + 1, log := w.log ++ [.acquired] }) := by
  unfold acquire
  split
  · exact Or.inr rfl
  · exact Or.inl rfl

/-- However a call ends, its permit is released after it. -/
theorem call_released (transport : RemoteTransport) (kind : RemoteKind) (exchange : Exchange) (budget : Budget)
    (w : World) :
    ∃ effects, (∀ effect ∈ effects, Effect.Timely budget.deadline effect) ∧
      (((transport._request kind exchange budget).ensuring release).run
        { w with held := w.held + 1, log := w.log ++ [.acquired] }).2 =
          { w with log := w.log ++ (.acquired :: .reached :: effects ++ [.released]) } := by
  obtain ⟨effects, htimely, hcalled⟩ := transport._request_spec kind exchange budget
    { w with held := w.held + 1, log := w.log ++ [.acquired] }
  refine ⟨effects, htimely, ?_⟩
  have hreleased : release.run ((transport._request kind exchange budget).run
      { w with held := w.held + 1, log := w.log ++ [.acquired] }).2 =
        (.ok (), { w with log := w.log ++ (.acquired :: .reached :: effects ++ [.released]) }) := by
    rw [hcalled]
    refine (@release_held _ w.held rfl).trans ?_
    simp
  rw [Program.run_ensuring_ok hreleased]

/-- A call under a budget spends one of its calls, and gives back the permit that it takes. -/
theorem request_spec (transport : RemoteTransport) (kind : RemoteKind) (exchange : Exchange) {budget : Budget}
    (hbudget : w.budget = some budget) (hremaining : 0 < budget.remaining) :
    ∃ effects, CallEffects budget.deadline effects ∧ ((transport.request kind exchange).run w).2 =
      { w with
        budget := some { budget with remaining := budget.remaining - 1 }
        log := w.log ++ effects } := by
  have hstate : (Program.state : Remote World).run w = (.ok w, w) := rfl
  rw [request, Program.run_bind_ok hstate]
  simp only [hbudget]
  rw [if_neg (not_le.mpr hremaining)]
  have hspent : (Program.modify fun w => { w with budget := some { budget with remaining := budget.remaining - 1 } } :
      Remote Unit).run w = (.ok (), { w with budget := some { budget with remaining := budget.remaining - 1 } }) := rfl
  rw [Program.run_bind_ok hspent]
  cases acquire_cases (transport.sub budget.deadline exchange.wait_clock) exchange.admitted
      { w with budget := some { budget with remaining := budget.remaining - 1 } } with
  | inl hrefused =>
    rw [Program.run_bind_ok hrefused, if_pos (by simp)]
    refine ⟨[], .refused, ?_⟩
    rw [List.append_nil]
    rfl
  | inr hacquired =>
    rw [Program.run_bind_ok hacquired, if_neg (by simp)]
    obtain ⟨effects, htimely, hreleased⟩ := transport.call_released kind exchange budget
      { w with budget := some { budget with remaining := budget.remaining - 1 } }
    exact ⟨_, .made htimely, hreleased⟩

inductive Step (transport : RemoteTransport) : World → Event → World → Prop
  | enter (w : World) (timeout : ℚ) (max_calls : Int) (now : ℚ) :
      Step transport w (.enter timeout max_calls now) (transport.analysis_budget timeout max_calls now w)
  | leave {w w' : World} (h : leave_scope w = some w') : Step transport w .leave w'
  | call (w : World) (kind : RemoteKind) (exchange : Exchange) :
      Step transport w (.call kind exchange) ((transport.request kind exchange).run w).2

/-- The deadlines of the scopes that were entered. -/
def deadlines (transport : RemoteTransport) (events : List Event) : Set ℚ :=
  {deadline | ∃ timeout max_calls now, Event.enter timeout max_calls now ∈ events ∧
    deadline = transport.add now timeout}

/-- The context inside a scope that was entered without a budget. -/
structure Within (transport : RemoteTransport) (start : World) (max_calls : Int) (events : List Event) (w : World) :
    Prop where
  scopes : ∃ inner, w.scopes = inner ++ [.created none] ∧ ∀ scope ∈ inner, scope = .tightened
  budget : ∃ budget, w.budget = some budget ∧ IsLeast (transport.deadlines events) budget.deadline ∧
    (w.reached_count : Int) + max 0 budget.remaining ≤ start.reached_count + max 0 max_calls
  held : w.held = start.held

theorem deadlines_append_enter (events : List Event) (timeout : ℚ) (max_calls : Int) (now : ℚ) :
    transport.deadlines (events ++ [.enter timeout max_calls now]) =
      insert (transport.add now timeout) (transport.deadlines events) := by
  ext deadline
  simp only [deadlines, Set.mem_ofPred_eq, List.mem_append, List.mem_singleton, Set.mem_insert_iff, Event.enter.injEq]
  constructor
  · rintro ⟨timeout', max_calls', now', hmem | ⟨rfl, rfl, rfl⟩, rfl⟩
    · exact Or.inr ⟨_, _, _, hmem, rfl⟩
    · exact Or.inl rfl
  · rintro (rfl | ⟨timeout', max_calls', now', hmem, rfl⟩)
    · exact ⟨_, _, _, Or.inr ⟨rfl, rfl, rfl⟩, rfl⟩
    · exact ⟨_, _, _, Or.inl hmem, rfl⟩

/-- Only entering a scope adds a deadline. -/
theorem deadlines_append_other {event : Event} (events : List Event)
    (h : ∀ timeout max_calls now, event ≠ .enter timeout max_calls now) :
    transport.deadlines (events ++ [event]) = transport.deadlines events := by
  ext deadline
  simp only [deadlines, Set.mem_ofPred_eq, List.mem_append, List.mem_singleton]
  constructor
  · rintro ⟨timeout, max_calls, now, hmem | heq, rfl⟩
    · exact ⟨_, _, _, hmem, rfl⟩
    · exact absurd heq.symm (h _ _ _)
  · rintro ⟨timeout, max_calls, now, hmem, rfl⟩
    exact ⟨_, _, _, Or.inl hmem, rfl⟩

section within
variable {start w' : World} {max_calls : Int} {events : List Event} {event : Event}

/-- The first scope creates the budget. -/
theorem within_start (hscopes : start.scopes = []) (hbudget : start.budget = none) (timeout : ℚ) (max_calls : Int)
    (now : ℚ) : transport.Within start max_calls [.enter timeout max_calls now]
      (transport.analysis_budget timeout max_calls now start) := by
  have hentered : transport.analysis_budget timeout max_calls now start =
      { start with budget := some ⟨transport.add now timeout, max_calls⟩, scopes := [.created none] } := by
    rw [analysis_budget, hbudget, hscopes]
  rw [hentered]
  refine ⟨⟨[], rfl, by simp⟩, ⟨_, rfl, ?_, Int.le_refl _⟩, rfl⟩
  have hdeadlines : transport.deadlines [.enter timeout max_calls now] = {transport.add now timeout} := by
    have happend := transport.deadlines_append_enter [] timeout max_calls now
    have hempty : transport.deadlines [] = ∅ := by simp [deadlines]
    rwa [hempty, insert_empty_eq] at happend
  rw [hdeadlines]
  exact isLeast_singleton

theorem Within.step (h : transport.Within start max_calls events w) (hstep : transport.Step w event w')
    (hinside : event = .leave → 1 < w.scopes.length) : transport.Within start max_calls (events ++ [event]) w' := by
  obtain ⟨⟨inner, hscopes, htightened⟩, ⟨budget, hbudget, hleast, hcount⟩, hheld⟩ := h
  cases hstep with
  | enter timeout max_calls' now =>
    have hentered : transport.analysis_budget timeout max_calls' now w =
        { w with
          budget := some { budget with deadline := min budget.deadline (transport.add now timeout) }
          scopes := .tightened :: w.scopes } := by
      rw [analysis_budget, hbudget]
    rw [hentered]
    refine ⟨⟨.tightened :: inner, by rw [hscopes]; rfl, by simpa using htightened⟩, ⟨_, rfl, ?_, hcount⟩, hheld⟩
    rw [deadlines_append_enter, min_comm]
    exact hleast.insert _
  | leave hleave =>
    have hdepth := hinside rfl
    have hsame : transport.deadlines (events ++ [.leave]) = transport.deadlines events :=
      deadlines_append_other events (by simp)
    rw [← hsame] at hleast
    cases inner with
    | nil =>
      rw [hscopes] at hdepth
      exact absurd hdepth (by simp)
    | cons scope inner =>
      rw [List.forall_mem_cons] at htightened
      rw [htightened.1, List.cons_append] at hscopes
      have hleft : w' = { w with scopes := inner ++ [.created none] } := by
        rw [leave_scope, hscopes] at hleave
        exact (Option.some.inj hleave).symm
      rw [hleft]
      exact ⟨⟨inner, rfl, htightened.2⟩, ⟨budget, hbudget, hleast, hcount⟩, hheld⟩
  | call kind exchange =>
    have hsame : transport.deadlines (events ++ [.call kind exchange]) = transport.deadlines events :=
      deadlines_append_other events (by simp)
    rw [← hsame] at hleast
    by_cases hremaining : 0 < budget.remaining
    · obtain ⟨effects, heffects, hcalled⟩ := transport.request_spec kind exchange hbudget hremaining
      have hcalls := heffects.count_reached_le
      rw [hcalled]
      refine ⟨⟨inner, hscopes, htightened⟩, ⟨_, rfl, hleast, ?_⟩, hheld⟩
      rw [World.reached_count] at hcount
      rw [World.reached_count, List.count_append]
      dsimp only
      omega
    · have hrefused : (transport.request kind exchange).run w = (.error .budget_exceeded, w) :=
        request_refused fun other hother => by
          rw [hbudget, Option.mem_some_iff] at hother
          rw [← hother]
          omega
      rw [hrefused]
      exact ⟨⟨inner, hscopes, htightened⟩, ⟨budget, hbudget, hleast, hcount⟩, hheld⟩

theorem request_scopes (w : World) : ((transport.request kind exchange).run w).2.scopes = w.scopes := by
  by_cases hspent : ∀ budget ∈ w.budget, budget.remaining ≤ 0
  · rw [request_refused hspent]
  · push Not at hspent
    obtain ⟨budget, hbudget, hremaining⟩ := hspent
    obtain ⟨effects, -, hcalled⟩ := transport.request_spec kind exchange hbudget hremaining
    rw [hcalled]

/-- The scopes are open as the events say. -/
theorem staysInside_step (hinside : StaysInside w.scopes.length (event :: events)) (hstep : transport.Step w event w') :
    (event = .leave → 1 < w.scopes.length) ∧ StaysInside w'.scopes.length events := by
  cases hstep with
  | enter timeout max_calls' now =>
    refine ⟨fun h => (by cases h), ?_⟩
    have hlength : (transport.analysis_budget timeout max_calls' now w).scopes.length = w.scopes.length + 1 := by
      unfold analysis_budget
      split <;> rfl
    rw [hlength]
    exact hinside
  | leave hleave =>
    obtain ⟨hdepth, hrest⟩ := hinside
    refine ⟨fun _ => hdepth, ?_⟩
    have hlength : w'.scopes.length = w.scopes.length - 1 := by
      unfold leave_scope at hleave
      split at hleave
      · cases hleave
      · next scopes hscopes =>
        rw [← Option.some.inj hleave, hscopes, List.length_cons, Nat.add_sub_cancel]
      · next previous scopes hscopes =>
        rw [← Option.some.inj hleave, hscopes, List.length_cons, Nat.add_sub_cancel]
    rw [hlength]
    exact hrest
  | call kind exchange =>
    refine ⟨fun h => (by cases h), ?_⟩
    rw [request_scopes]
    exact hinside

/-- Whatever runs inside the outermost scope stays within its budget. -/
theorem Within.run {done : List Event} (h : transport.Within start max_calls done w)
    (hinside : StaysInside w.scopes.length events) (hrun : Run transport.Step w events w') :
    transport.Within start max_calls (done ++ events) w' := by
  induction hrun generalizing done with
  | nil w => rwa [List.append_nil]
  | cons hstep hrest ih =>
    obtain ⟨hleave, hlater⟩ := staysInside_step hinside hstep
    have hnext := ih (h.step hstep hleave) hlater
    rwa [List.append_assoc] at hnext

/-- Remote budgets bound the whole request. Inside an outermost scope no more calls than it admits
    reach the endpoint's code; the deadline is the earliest of all scopes entered so far, and an
    inner scope raises neither limit; a call starts before the deadline alone, under a permit that
    is given back once; and behind the outermost scope calls are refused. -/
theorem budget_bounds_request {timeout now : ℚ} (hscopes : start.scopes = []) (hbudget : start.budget = none)
    (hinside : StaysInside 1 events) (hrun : Run transport.Step start (.enter timeout max_calls now :: events) w) :
    w.reached_count ≤ start.reached_count + max_calls.toNat ∧
    w.held = start.held ∧
    (∃ budget, w.budget = some budget ∧
      IsLeast (transport.deadlines (.enter timeout max_calls now :: events)) budget.deadline ∧
      (∀ timeout' max_calls' now', ∃ inner, (transport.analysis_budget timeout' max_calls' now' w).budget = some inner ∧
        inner.remaining ≤ budget.remaining ∧ inner.deadline ≤ budget.deadline) ∧
      ∀ kind exchange, ∃ effects, CallEffects budget.deadline effects ∧
        ((transport.request kind exchange).run w).2.log = w.log ++ effects ∧
        ((transport.request kind exchange).run w).2.held = w.held) ∧
    ∀ w', w.scopes.length = 1 → leave_scope w = some w' → ∀ kind exchange,
      (transport.request kind exchange).run w' = (.error .budget_exceeded, w') := by
  cases hrun with
  | cons hfirst hrest =>
    cases hfirst
    have hstart := transport.within_start hscopes hbudget timeout max_calls now
    have hdepth : (transport.analysis_budget timeout max_calls now start).scopes.length = 1 := by
      obtain ⟨inner, heq, -⟩ := hstart.scopes
      unfold analysis_budget
      rw [hbudget, hscopes]
      rfl
    rw [← hdepth] at hinside
    have hwithin := hstart.run hinside hrest
    obtain ⟨inner, hopen, htightened⟩ := hwithin.scopes
    obtain ⟨budget, hshared, hleast, hcount⟩ := hwithin.budget
    refine ⟨by omega, hwithin.held, ⟨budget, hshared, hleast, ?_, ?_⟩, ?_⟩
    · intro timeout' max_calls' now'
      refine ⟨{ budget with deadline := min budget.deadline (transport.add now' timeout') }, ?_, Int.le_refl _,
        min_le_left _ _⟩
      rw [analysis_budget, hshared]
    · intro kind exchange
      by_cases hremaining : 0 < budget.remaining
      · obtain ⟨effects, heffects, hcalled⟩ := transport.request_spec kind exchange hshared hremaining
        rw [hcalled]
        exact ⟨effects, heffects, rfl, rfl⟩
      · have hspent : ∀ other ∈ w.budget, other.remaining ≤ 0 := by
          intro other hother
          rw [hshared, Option.mem_some_iff] at hother
          rw [← hother]
          omega
        rw [request_refused hspent]
        exact ⟨[], .refused, by rw [List.append_nil], rfl⟩
    · intro w' hlength hleave kind exchange
      have hlast : w.scopes = [.created none] := by
        rw [hopen, List.length_append, List.length_singleton] at hlength
        rw [hopen, List.length_eq_zero_iff.mp (by omega : inner.length = 0), List.nil_append]
      rw [leave_scope, hlast] at hleave
      refine request_refused fun other hother => ?_
      rw [← Option.some.inj hleave] at hother
      cases hother

end within

end RemoteTransport

/-- A transport that computes exactly, to evaluate the model with. -/
def exact_transport : RemoteTransport where
  remote_call_timeout := 10
  remote_max_response_bytes := 2097152
  add := (· + ·)
  sub := (· - ·)
  sub_pos _ _ := sub_pos
  strip := id
  loads _ := .ok .null

def prompt_exchange : Exchange := ⟨1, true, 1, none, 1, .ok ⟨200, [(2, [110])], none⟩⟩

/-- The calls around an inner scope that asks for more than is left. -/
def nested_events : List Event :=
  [.call .gliner prompt_exchange, .enter 30 100 1, .call .gliner prompt_exchange]

def nested_world : World :=
  ((exact_transport.request .gliner prompt_exchange).run (exact_transport.analysis_budget 30 100 1
    ((exact_transport.request .gliner prompt_exchange).run (exact_transport.analysis_budget 5 1 0 {})).2)).2

theorem budget_bounds_request_nested : nested_world.reached_count ≤ 1 := by
  have hinside : StaysInside 1 nested_events := trivial
  have hrun : Run exact_transport.Step {} (.enter 5 1 0 :: nested_events) nested_world :=
    .cons (.enter _ _ _ _) (.cons (.call _ _ _) (.cons (.enter _ _ _ _) (.cons (.call _ _ _) (.nil _))))
  exact (RemoteTransport.budget_bounds_request rfl rfl hinside hrun).1

end pii_engine.ner
