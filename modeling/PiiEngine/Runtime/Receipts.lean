import PiiEngine.Errors
import PiiEngine.Lib.Expiring
import PiiEngine.Lib.Transitions
import PiiEngine.Text

open collections transitions

namespace pii_engine.receipts

/-- `^[a-f0-9]{64}$` -/
def isDigest (word : Text) : Bool := word.length = 64 && word.all isHexDigit

theorem length_of_isDigest {word : Text} (h : isDigest word = true) : word.length = 64 := by
  rw [isDigest, Bool.and_eq_true] at h
  exact of_decide_eq_true h.1

/-- The scoped fingerprints of one request. -/
structure ReasoningReceipts where
  scope : Text
  digests : List Text
  scope_ok : isDigest scope
  digests_ne : digests ≠ []
  digests_ok : ∀ digest ∈ digests, isDigest digest

/-- The client of one replica. -/
structure SessionStore where
  ttl_seconds : Nat
  policy_scope : Text

/-- What Valkey holds: a text under each key and the millisecond at which it expires. -/
abbrev Valkey := expiring.Store Text Text

inductive Reply where
  | done
  | found (value : Option Text)
  | verified (valid : Bool)
  deriving DecidableEq

namespace SessionStore

def session_key (store : SessionStore) (key : Text) : Text :=
  "pii-engine:v2:".toList ++ store.policy_scope ++ ":session:".toList ++ key

def reasoning_key (store : SessionStore) (scope digest : Text) : Text :=
  "pii-engine:v1:".toList ++ store.policy_scope ++ ":reasoning:".toList ++ scope ++ [':'] ++ digest

/-- The expiry that `EX` sets. Valkey refuses a time to live of zero. -/
def expiry (store : SessionStore) (now : Nat) : Nat := now + 1000 * store.ttl_seconds

/-- A transaction either writes every digest or nothing. -/
def record_reasoning (store : SessionStore) (executed : Bool) (now : Nat) (receipts : ReasoningReceipts)
    (cache : Valkey) : Except AnalysisError Reply × Valkey :=
  if executed = false ∨ store.ttl_seconds = 0 then (.error .store_unavailable, cache)
  else (.ok .done, expiring.writeAll cache
    ((UniqueList.ofList receipts.digests).elems.map (store.reasoning_key receipts.scope)) ['1'] (store.expiry now))

/-- One read of all keys, which moves no expiry. -/
def verify_reasoning (store : SessionStore) (now : Nat) (receipts : ReasoningReceipts) (cache : Valkey) :
    Except AnalysisError Reply × Valkey :=
  let values := receipts.digests.map fun digest => expiring.read cache now (store.reasoning_key receipts.scope digest)
  (.ok (.verified (values.length = receipts.digests.length ∧ ∀ value ∈ values, value = some ['1'])), cache)

/-- `GETEX`: a decision that is still there lives for another time to live. -/
def get (store : SessionStore) (now : Nat) (key : Text) (cache : Valkey) : Except AnalysisError Reply × Valkey :=
  if store.ttl_seconds = 0 then (.error .store_unavailable, cache)
  else (.ok (.found (expiring.read cache now (store.session_key key))),
    expiring.refresh cache now (store.session_key key) (store.expiry now))

def set (store : SessionStore) (executed : Bool) (now : Nat) (key value : Text) (cache : Valkey) :
    Except AnalysisError Reply × Valkey :=
  if executed = false ∨ store.ttl_seconds = 0 then (.error .store_unavailable, cache)
  else (.ok .done, cache.set (store.session_key key) (value, store.expiry now))

end SessionStore

/-- What replicas ask of the store. A write may fail to reach it. -/
inductive Operation where
  | record_reasoning (receipts : ReasoningReceipts) (executed : Bool)
  | verify_reasoning (receipts : ReasoningReceipts)
  | get (key : Text)
  | set (key value : Text) (executed : Bool)

def Operation.perform (operation : Operation) (store : SessionStore) (now : Nat) (cache : Valkey) :
    Except AnalysisError Reply × Valkey :=
  match operation with
  | .record_reasoning receipts executed => store.record_reasoning executed now receipts cache
  | .verify_reasoning receipts => store.verify_reasoning now receipts cache
  | .get key => store.get now key cache
  | .set key value executed => store.set executed now key value cache

/-- One operation of a replica of some policy version. -/
structure Event where
  time : Nat
  policy_scope : Text
  operation : Operation

/-- The store and the time of its last operation. -/
structure System where
  cache : Valkey
  now : Nat

/-- Operations take effect one after the other. Replicas of one policy version share the
    time to live that its policy sets. -/
def Step (ttl_seconds : Text → Nat) (s : System) (event : Event) (t : System) : Prop :=
  s.now ≤ event.time ∧
    t = ⟨(event.operation.perform ⟨ttl_seconds event.policy_scope, event.policy_scope⟩ event.time s.cache).2,
      event.time⟩

/-- The digest was recorded under a policy version and a scope at some time. -/
def RecordedAt (history : List Event) (policy_scope scope digest : Text) (time : Nat) : Prop :=
  ∃ receipts : ReasoningReceipts, ⟨time, policy_scope, .record_reasoning receipts true⟩ ∈ history ∧
    receipts.scope = scope ∧ digest ∈ receipts.digests

section keys
variable {store other : SessionStore} {scope scope' digest digest' : Text}

/-- The scope and the digest have a fixed length, so that whatever the policy version holds a
    key names one of each. -/
theorem reasoning_key_inj (hscope : isDigest scope = true) (hscope' : isDigest scope' = true)
    (hdigest : isDigest digest = true) (hdigest' : isDigest digest' = true)
    (h : store.reasoning_key scope digest = other.reasoning_key scope' digest') :
    store.policy_scope = other.policy_scope ∧ scope = scope' ∧ digest = digest' := by
  have hlength : digest.length = digest'.length := by
    rw [length_of_isDigest hdigest, length_of_isDigest hdigest']
  have hlength' : scope.length = scope'.length := by
    rw [length_of_isDigest hscope, length_of_isDigest hscope']
  obtain ⟨h, heq⟩ := List.append_inj' h hlength
  obtain ⟨h, -⟩ := List.append_inj' h rfl
  obtain ⟨h, heq'⟩ := List.append_inj' h hlength'
  obtain ⟨h, -⟩ := List.append_inj' h rfl
  exact ⟨List.append_cancel_left h, heq', heq⟩

theorem key_version_ne (rest rest' : Text) : "pii-engine:v1:".toList ++ rest ≠ "pii-engine:v2:".toList ++ rest' := by
  intro h
  have hlabel := (List.append_inj h (by decide)).1
  exact absurd hlabel (by decide)

theorem reasoning_key_ne_session_key (key : Text) : store.reasoning_key scope digest ≠ other.session_key key := by
  unfold SessionStore.reasoning_key SessionStore.session_key
  intro h
  repeat rw [List.append_assoc "pii-engine:v1:".toList] at h
  repeat rw [List.append_assoc "pii-engine:v2:".toList] at h
  exact key_version_ne _ _ h

end keys

/-- The store holds the receipts of the history and no other ones. -/
structure Kept (ttl_seconds : Text → Nat) (history : List Event) (s : System) : Prop where
  times : ∀ event ∈ history, event.time ≤ s.now
  held : ∀ policy_scope scope digest time, isDigest scope = true → RecordedAt history policy_scope scope digest time →
    ttl_seconds policy_scope ≠ 0 → ∃ expiry,
      s.cache.get? (SessionStore.reasoning_key ⟨ttl_seconds policy_scope, policy_scope⟩ scope digest) =
        some (['1'], expiry) ∧ time + 1000 * ttl_seconds policy_scope ≤ expiry
  sound : ∀ policy_scope scope digest, isDigest scope = true → isDigest digest = true → ∀ value expiry,
    s.cache.get? (SessionStore.reasoning_key ⟨ttl_seconds policy_scope, policy_scope⟩ scope digest) =
      some (value, expiry) →
    value = ['1'] ∧ ∃ time, RecordedAt history policy_scope scope digest time ∧
      expiry = time + 1000 * ttl_seconds policy_scope

theorem recordedAt_append {history : List Event} {event : Event} {policy_scope scope digest : Text} {time : Nat} :
    RecordedAt (history ++ [event]) policy_scope scope digest time ↔
      RecordedAt history policy_scope scope digest time ∨
        ∃ receipts, event = ⟨time, policy_scope, .record_reasoning receipts true⟩ ∧ receipts.scope = scope ∧
          digest ∈ receipts.digests := by
  simp only [RecordedAt, List.mem_append, List.mem_singleton, or_and_right, exists_or, eq_comm]

/-- The reasoning keys that an operation writes. -/
def Operation.writes (store : SessionStore) : Operation → List Text
  | .record_reasoning receipts true =>
    if store.ttl_seconds = 0 then [] else receipts.digests.map (store.reasoning_key receipts.scope)
  | _ => []

/-- A record that is executed writes the keys of its digests, and nothing else touches any. -/
theorem get?_perform (operation : Operation) (store : SessionStore) (now : Nat) (cache : Valkey) {key : Text}
    (hkey : ∀ session, key ≠ store.session_key session) :
    (operation.perform store now cache).2.get? key =
      if key ∈ operation.writes store then some (['1'], store.expiry now) else cache.get? key := by
  cases operation with
  | record_reasoning receipts executed =>
    dsimp only [Operation.perform]
    unfold SessionStore.record_reasoning
    cases executed with
    | false => rfl
    | true =>
      by_cases httl : store.ttl_seconds = 0
      · rw [if_pos (Or.inr httl), Operation.writes, if_pos httl]
        rfl
      · rw [if_neg (by simp [httl]), Operation.writes, if_neg httl, expiring.get?_writeAll]
        have hwrites : key ∈ (UniqueList.ofList receipts.digests).elems.map (store.reasoning_key receipts.scope) ↔
            key ∈ receipts.digests.map (store.reasoning_key receipts.scope) := by
          rw [List.mem_map, List.mem_map]
          exact exists_congr fun digest => and_congr_left fun _ => UniqueList.mem_ofList
        by_cases hmem : key ∈ receipts.digests.map (store.reasoning_key receipts.scope)
        · rw [if_pos hmem, if_pos (hwrites.mpr hmem)]
        · rw [if_neg hmem, if_neg fun h => hmem (hwrites.mp h)]
  | verify_reasoning receipts => rfl
  | get session =>
    dsimp only [Operation.perform]
    unfold SessionStore.get
    split
    · rfl
    · exact expiring.get?_refresh_ne cache now _ (hkey session)
  | set session value executed =>
    dsimp only [Operation.perform]
    unfold SessionStore.set
    split
    · rfl
    · exact OrderedDict.get?_set_ne cache _ (hkey session)

/-- An operation writes a key exactly when it records the key's version, scope and digest. -/
theorem mem_writes_iff {operation : Operation} {store other : SessionStore} {scope digest : Text}
    (hscope : isDigest scope = true) (hdigest : isDigest digest = true) :
    other.reasoning_key scope digest ∈ operation.writes store ↔ store.ttl_seconds ≠ 0 ∧
      store.policy_scope = other.policy_scope ∧ ∃ receipts, operation = .record_reasoning receipts true ∧
        receipts.scope = scope ∧ digest ∈ receipts.digests := by
  unfold Operation.writes
  split
  · next receipts =>
    split
    · next hzero => simp [hzero]
    · next httl =>
      rw [List.mem_map]
      constructor
      · rintro ⟨digest', hdigest', hkey⟩
        obtain ⟨hversion, hscope', rfl⟩ :=
          reasoning_key_inj receipts.scope_ok hscope (receipts.digests_ok digest' hdigest') hdigest hkey
        exact ⟨httl, hversion, receipts, rfl, hscope', hdigest'⟩
      · rintro ⟨-, hversion, receipts', hrecord, rfl, hmem⟩
        rw [Operation.record_reasoning.injEq] at hrecord
        obtain ⟨rfl, -⟩ := hrecord
        refine ⟨digest, hmem, ?_⟩
        unfold SessionStore.reasoning_key
        rw [hversion]
  · next hother =>
    simp only [List.not_mem_nil, false_iff]
    rintro ⟨-, -, receipts, hrecord, -⟩
    exact hother receipts hrecord

theorem Kept.step {ttl_seconds : Text → Nat} {history : List Event} {s t : System} {event : Event}
    (h : Kept ttl_seconds history s) (hstep : Step ttl_seconds s event t) :
    Kept ttl_seconds (history ++ [event]) t := by
  obtain ⟨hclock, rfl⟩ := hstep
  obtain ⟨time, version, operation⟩ := event
  dsimp only at hclock ⊢
  have hget : ∀ policy_scope scope digest,
      (operation.perform ⟨ttl_seconds version, version⟩ time s.cache).2.get?
          (SessionStore.reasoning_key ⟨ttl_seconds policy_scope, policy_scope⟩ scope digest) =
        if SessionStore.reasoning_key ⟨ttl_seconds policy_scope, policy_scope⟩ scope digest ∈
            operation.writes ⟨ttl_seconds version, version⟩ then
          some (['1'], time + 1000 * ttl_seconds version)
        else s.cache.get? (SessionStore.reasoning_key ⟨ttl_seconds policy_scope, policy_scope⟩ scope digest) :=
    fun policy_scope scope digest => get?_perform operation _ time s.cache reasoning_key_ne_session_key
  constructor
  · intro event hevent
    cases List.mem_append.mp hevent with
    | inl hold => exact (h.times event hold).trans hclock
    | inr hnew => rw [List.mem_singleton.mp hnew]
  · intro policy_scope scope digest recorded hscope hrecorded httl
    have hdigest : isDigest digest = true := by
      obtain ⟨receipts, -, -, hmem⟩ := hrecorded
      exact receipts.digests_ok digest hmem
    rw [hget]
    split
    · next hwritten =>
      obtain ⟨-, hversion, -⟩ := (mem_writes_iff hscope hdigest).mp hwritten
      dsimp only at hversion
      subst hversion
      refine ⟨_, rfl, ?_⟩
      cases recordedAt_append.mp hrecorded with
      | inl hold =>
        obtain ⟨receipts, hmem, -⟩ := hold
        have := h.times _ hmem
        dsimp only at this
        omega
      | inr hnew =>
        obtain ⟨receipts, hevent, -⟩ := hnew
        rw [(Event.mk.inj hevent).1]
    · next hkept =>
      cases recordedAt_append.mp hrecorded with
      | inl hold => exact h.held policy_scope scope digest recorded hscope hold httl
      | inr hnew =>
        obtain ⟨receipts, hevent, hreceipts, hmem⟩ := hnew
        obtain ⟨-, rfl, rfl⟩ := Event.mk.inj hevent
        exact absurd ((mem_writes_iff hscope hdigest).mpr ⟨httl, rfl, receipts, rfl, hreceipts, hmem⟩) hkept
  · intro policy_scope scope digest hscope hdigest value expiry hentry
    rw [hget] at hentry
    split at hentry
    · next hwritten =>
      obtain ⟨-, hversion, receipts, rfl, hreceipts, hmem⟩ := (mem_writes_iff hscope hdigest).mp hwritten
      dsimp only at hversion
      subst hversion
      obtain ⟨rfl, rfl⟩ := Prod.mk.inj (Option.some.inj hentry)
      exact ⟨rfl, time, recordedAt_append.mpr (Or.inr ⟨receipts, rfl, hreceipts, hmem⟩), rfl⟩
    · obtain ⟨hvalue, recorded, hrecorded, hexpiry⟩ :=
        h.sound policy_scope scope digest hscope hdigest value expiry hentry
      exact ⟨hvalue, recorded, recordedAt_append.mpr (Or.inl hrecorded), hexpiry⟩

theorem Kept.initial (ttl_seconds : Text → Nat) (now : Nat) : Kept ttl_seconds [] ⟨.empty, now⟩ := by
  constructor
  · simp
  · rintro policy_scope scope digest time - ⟨receipts, hmem, -⟩
    cases hmem
  · intro policy_scope scope digest _ _ value expiry hentry
    rw [OrderedDict.get?_empty] at hentry
    cases hentry

/-- A digest counts as long as one of its records has not expired. -/
theorem Kept.read_iff {ttl_seconds : Text → Nat} {history : List Event} {s : System}
    (h : Kept ttl_seconds history s) {policy_scope scope digest : Text} (hscope : isDigest scope = true)
    (hdigest : isDigest digest = true) {now : Nat} (hnow : s.now ≤ now) :
    expiring.read s.cache now (SessionStore.reasoning_key ⟨ttl_seconds policy_scope, policy_scope⟩ scope digest) =
        some ['1'] ↔
      ∃ time, RecordedAt history policy_scope scope digest time ∧ now < time + 1000 * ttl_seconds policy_scope := by
  rw [expiring.read_eq_some]
  constructor
  · rintro ⟨expiry, hentry, hlive⟩
    obtain ⟨-, time, hrecorded, rfl⟩ := h.sound policy_scope scope digest hscope hdigest _ _ hentry
    exact ⟨time, hrecorded, hlive⟩
  · rintro ⟨time, hrecorded, hlive⟩
    have htime : time ≤ s.now := by
      obtain ⟨receipts, hmem, -⟩ := hrecorded
      exact h.times _ hmem
    obtain ⟨expiry, hentry, hle⟩ := h.held policy_scope scope digest time hscope hrecorded (by
      intro hzero
      rw [hzero] at hlive
      omega)
    exact ⟨expiry, hentry, by omega⟩

/-- Reasoning receipts verify exactly what was recorded. After any operations of any
    replicas, a verification succeeds iff every listed digest was recorded under the same
    policy version and scope within the time to live; neither a verification nor a failed
    record changes the store; and no two receipts, nor a receipt and a session decision,
    share a key. -/
theorem verify_reasoning_exact (ttl_seconds : Text → Nat) (start : Nat) {history : List Event} {s : System}
    (hrun : Run (Step ttl_seconds) ⟨.empty, start⟩ history s) {now : Nat} (hnow : s.now ≤ now) :
    (∀ policy_scope receipts,
      ((SessionStore.mk (ttl_seconds policy_scope) policy_scope).verify_reasoning now receipts s.cache).1 =
          .ok (.verified true) ↔
        ∀ digest ∈ receipts.digests, ∃ time, RecordedAt history policy_scope receipts.scope digest time ∧
          now < time + 1000 * ttl_seconds policy_scope) ∧
    (∀ (store : SessionStore) receipts, (store.verify_reasoning now receipts s.cache).2 = s.cache) ∧
    (∀ (store : SessionStore) receipts executed e, (store.record_reasoning executed now receipts s.cache).1 = .error e →
      (store.record_reasoning executed now receipts s.cache).2 = s.cache) ∧
    (∀ store other : SessionStore, ∀ scope scope' digest digest', isDigest scope → isDigest scope' →
      isDigest digest → isDigest digest' → store.reasoning_key scope digest = other.reasoning_key scope' digest' →
      store.policy_scope = other.policy_scope ∧ scope = scope' ∧ digest = digest') ∧
    ∀ store other : SessionStore, ∀ scope digest key, store.reasoning_key scope digest ≠ other.session_key key := by
  have hkept := hrun.history_invariant (Kept ttl_seconds) (fun _ _ _ _ => Kept.step) (Kept.initial ttl_seconds start)
  rw [List.nil_append] at hkept
  refine ⟨?_, fun _ _ => rfl, ?_, ?_, fun _ _ _ _ => reasoning_key_ne_session_key⟩
  · intro policy_scope receipts
    unfold SessionStore.verify_reasoning
    rw [Except.ok.injEq, Reply.verified.injEq, decide_eq_true_eq, List.length_map]
    simp only [List.forall_mem_map, true_and]
    refine forall₂_congr fun digest hdigest => ?_
    exact hkept.read_iff receipts.scope_ok (receipts.digests_ok digest hdigest) hnow
  · intro store receipts executed e hfail
    unfold SessionStore.record_reasoning at hfail ⊢
    split at hfail
    · next hskip => rw [if_pos hskip]
    · cases hfail
  · intro store other scope scope' digest digest' hscope hscope' hdigest hdigest' h
    exact reasoning_key_inj hscope hscope' hdigest hdigest' h

/-- Two fingerprints of one scope. -/
def sample_receipts : ReasoningReceipts where
  scope := List.replicate 64 'a'
  digests := [List.replicate 64 'b', List.replicate 64 'c']
  scope_ok := by decide
  digests_ne := by decide
  digests_ok := by decide

def sample_event : Event := ⟨0, "policy-1".toList, .record_reasoning sample_receipts true⟩

def sample_system : System :=
  ⟨(sample_event.operation.perform ⟨60, sample_event.policy_scope⟩ sample_event.time .empty).2, sample_event.time⟩

/-- Recorded receipts verify until their minute is over. -/
theorem verify_reasoning_exact_sample :
    ((SessionStore.mk 60 "policy-1".toList).verify_reasoning 59999 sample_receipts sample_system.cache).1 =
      .ok (.verified true) := by
  have hrun : Run (Step fun _ => 60) ⟨.empty, 0⟩ [sample_event] sample_system :=
    .cons ⟨Nat.le_refl 0, rfl⟩ (.nil _)
  have hexact := verify_reasoning_exact (fun _ => 60) 0 hrun (Nat.zero_le 59999)
  refine (hexact.1 "policy-1".toList sample_receipts).mpr ?_
  intro digest hdigest
  exact ⟨0, ⟨sample_receipts, List.mem_singleton_self _, rfl, hdigest⟩, by decide⟩

end pii_engine.receipts
