import PiiEngine.Errors
import PiiEngine.Lib.Streams

open streams

namespace pii_engine.admission

/-- A message of a request's stream. -/
inductive Message where
  | disconnect
  | request (body : Option (List UInt8)) (more_body : Option Bool)
  deriving DecidableEq

namespace Message

/-- `message.get("body", b"")` -/
def chunk : Message → List UInt8
  | .disconnect => []
  | .request body _ => body.getD []

/-- `message.get("more_body", False)` -/
def more : Message → Bool
  | .disconnect => false
  | .request _ more_body => more_body.getD false

def isDisconnect : Message → Bool
  | .disconnect => true
  | .request _ _ => false

/-- A chunk that is empty although more are announced. -/
def isEmptyChunk (message : Message) : Bool := message.chunk.isEmpty && message.more

end Message

/-- The body as far as it has been buffered. -/
structure BodyBuffer where
  body : List UInt8 := []
  consumed : Nat := 0
  empty_chunks : Nat := 0

def MAX_EMPTY_CHUNKS : Nat := 4096

def empty_chunks_exceeded {measured : Nat} (h : MAX_EMPTY_CHUNKS < measured) : LimitDetail where
  stage := .admission
  reason := .empty_chunks
  measured := measured
  maximum := MAX_EMPTY_CHUNKS
  unit := .items
  exact := false
  exceeded := h
  unit_eq := rfl

def encoded_bytes_exceeded {measured maximum : Nat} (exact : Bool) (h : maximum < measured) : LimitDetail where
  stage := .admission
  reason := .encoded_bytes
  measured := measured
  maximum := maximum
  unit := .bytes
  exact := exact
  exceeded := h
  unit_eq := rfl

def declared_bytes_exceeded {measured maximum : Nat} (h : maximum < measured) : LimitDetail where
  stage := .admission
  reason := .declared_bytes
  measured := measured
  maximum := maximum
  unit := .bytes
  exact := true
  exceeded := h
  unit_eq := rfl

/-- The messages to forward, and the limit that was exceeded. -/
abbrev Buffered := List Message × Option LimitDetail

/-- Count a message and its chunk. -/
def BodyBuffer.add (s : BodyBuffer) (message : Message) : BodyBuffer where
  body := s.body ++ message.chunk
  consumed := s.consumed + message.chunk.length
  empty_chunks := if message.isEmptyChunk then s.empty_chunks + 1 else s.empty_chunks

/-- One round of `_buffer_body`. -/
def buffer_step (max_bytes : Nat) (s : BodyBuffer) (message : Message) : Next BodyBuffer Buffered :=
  if message.isDisconnect then .stop ([message], none)
  else
    let next := s.add message
    if h : message.isEmptyChunk = true ∧ MAX_EMPTY_CHUNKS < next.empty_chunks then
      .stop ([], some (empty_chunks_exceeded h.2))
    else if h : max_bytes < next.consumed then .stop ([], some (encoded_bytes_exceeded (!message.more) h))
    else if message.more then .go next
    else .stop ([.request (some next.body) (some false)], none)

/-- The limits that a message has to keep to. -/
def Admits (max_bytes : Nat) (s : BodyBuffer) (message : Message) : Prop :=
  (message.isEmptyChunk = true → s.empty_chunks < MAX_EMPTY_CHUNKS) ∧ s.consumed + message.chunk.length ≤ max_bytes

section step
variable {max_bytes : Nat} {s t : BodyBuffer} {message : Message}

theorem buffer_step_disconnect (h : message.isDisconnect = true) :
    buffer_step max_bytes s message = .stop ([message], none) :=
  if_pos h

theorem buffer_step_admitted (hrequest : message.isDisconnect = false) (h : Admits max_bytes s message) :
    buffer_step max_bytes s message = if message.more then .go (s.add message)
      else .stop ([.request (some (s.add message).body) (some false)], none) := by
  have hempty : ¬ (message.isEmptyChunk = true ∧ MAX_EMPTY_CHUNKS < (s.add message).empty_chunks) := by
    rintro ⟨hchunk, hexceeded⟩
    have hlt := h.1 hchunk
    have hcount : (s.add message).empty_chunks = s.empty_chunks + 1 := if_pos hchunk
    omega
  have hbytes : ¬ max_bytes < (s.add message).consumed := Nat.not_lt.mpr h.2
  rw [buffer_step, if_neg (by rw [hrequest]; decide)]
  dsimp only
  rw [dif_neg hempty, dif_neg hbytes]

theorem buffer_step_refused (hrequest : message.isDisconnect = false) (h : ¬ Admits max_bytes s message) :
    ∃ detail, buffer_step max_bytes s message = .stop ([], some detail) := by
  rw [buffer_step, if_neg (by rw [hrequest]; decide)]
  dsimp only
  by_cases hempty : message.isEmptyChunk = true ∧ MAX_EMPTY_CHUNKS < (s.add message).empty_chunks
  · rw [dif_pos hempty]
    exact ⟨_, rfl⟩
  · rw [dif_neg hempty]
    have hbytes : max_bytes < (s.add message).consumed := by
      by_contra hfits
      refine h ⟨fun hchunk => ?_, Nat.not_lt.mp hfits⟩
      have hcount : (s.add message).empty_chunks = s.empty_chunks + 1 := if_pos hchunk
      rw [not_and] at hempty
      have hle := hempty hchunk
      omega
    rw [dif_pos hbytes]
    exact ⟨_, rfl⟩

/-- A round that goes on is one of an admitted message that announces more. -/
theorem buffer_step_go (h : buffer_step max_bytes s message = .go t) :
    message.isDisconnect = false ∧ Admits max_bytes s message ∧ message.more = true ∧ t = s.add message := by
  cases hdisconnect : message.isDisconnect with
  | true =>
    rw [buffer_step_disconnect hdisconnect] at h
    cases h
  | false =>
    by_cases hadmits : Admits max_bytes s message
    · rw [buffer_step_admitted hdisconnect hadmits] at h
      split at h
      case isTrue hmore =>
        cases h
        exact ⟨rfl, hadmits, hmore, rfl⟩
      case isFalse => cases h
    · obtain ⟨detail, hrefused⟩ := buffer_step_refused hdisconnect hadmits
      rw [hrefused] at h
      cases h

end step

/-- Every round that goes on uses up bytes or an empty chunk. -/
def body_reader (max_bytes : Nat) : Reader BodyBuffer Message Buffered where
  step := buffer_step max_bytes
  measure s := (max_bytes - s.consumed) + (MAX_EMPTY_CHUNKS - s.empty_chunks)
  decreases s message t h := by
    obtain ⟨-, ⟨hempty, hbytes⟩, hmore, rfl⟩ := buffer_step_go h
    cases hchunk : message.isEmptyChunk with
    | true =>
      have hlt := hempty hchunk
      have hcount : (s.add message).empty_chunks = s.empty_chunks + 1 := if_pos hchunk
      have hconsumed : s.consumed ≤ (s.add message).consumed := Nat.le_add_right _ _
      omega
    | false =>
      have hlength : 0 < message.chunk.length := by
        rw [Message.isEmptyChunk, hmore, Bool.and_true, List.isEmpty_eq_false_iff] at hchunk
        exact List.length_pos_iff.mpr hchunk
      have hcount : (s.add message).empty_chunks = s.empty_chunks := if_neg (by rw [hchunk]; decide)
      have hconsumed : (s.add message).consumed = s.consumed + message.chunk.length := rfl
      omega

/-- Buffer at most the configured bytes while bounding empty chunk churn: what is forwarded or
    refused, and the messages read. -/
def buffer_body (max_bytes : Nat) (receive : Nat → Message) : Buffered × Nat :=
  (body_reader max_bytes).read receive 0 {}

/-- Validate Content-Length before consuming any request bytes. A header that is no integer
    is `some none`. -/
def declared_error (max_bytes : Nat) : Option (Option Int) → Option (String × Option LimitDetail)
  | none => none
  | some none => some ("invalid_request", none)
  | some (some declared) =>
    if declared < 0 then some ("request_too_large", none)
    else if h : max_bytes < declared.toNat then some ("request_too_large", some (declared_bytes_exceeded h))
    else none

/-- What becomes of a connection: the application runs with a receive function, or it does not
    run and an error is sent. -/
inductive Handling where
  | forwarded (receive : Nat → Message)
  | refused (code : String) (limit : Option LimitDetail)

/-- The receive function of the application: what was buffered, and disconnects after that. -/
def limited_receive (buffered : List Message) (n : Nat) : Message := buffered[n]?.getD .disconnect

/-- Forward one request through a receive function that counts chunks. -/
def call (max_bytes : Nat) (scope_type : String) (content_length : Option (Option Int)) (receive : Nat → Message) :
    Handling :=
  if scope_type ≠ "http" then .forwarded receive
  else
    match declared_error max_bytes content_length with
    | some (code, limit) => .refused code limit
    | none =>
      match (buffer_body max_bytes receive).1 with
      | (_, some limit) => .refused "request_too_large" (some limit)
      | (buffered, none) => .forwarded (limited_receive buffered)

section stream
variable {max_bytes : Nat} {receive : Nat → Message} {n : Nat}

/-- The bytes of the first messages. -/
def received (receive : Nat → Message) (n : Nat) : List UInt8 := (List.range n).flatMap fun i => (receive i).chunk

/-- The empty chunks among the first messages. -/
def empty_chunks (receive : Nat → Message) (n : Nat) : Nat := (List.range n).countP fun i => (receive i).isEmptyChunk

/-- The first messages keep to both limits. -/
def WithinLimits (max_bytes : Nat) (receive : Nat → Message) (n : Nat) : Prop :=
  (received receive n).length ≤ max_bytes ∧ empty_chunks receive n ≤ MAX_EMPTY_CHUNKS

/-- The first messages are chunks with more to come. -/
def Continues (receive : Nat → Message) (n : Nat) : Prop :=
  ∀ i < n, (receive i).isDisconnect = false ∧ (receive i).more = true

/-- A message ends the body. -/
def EndsAt (receive : Nat → Message) (n : Nat) : Prop :=
  Continues receive n ∧ (receive n).isDisconnect = false ∧ (receive n).more = false

/-- A disconnect comes before the end of the body. -/
def DisconnectsAt (receive : Nat → Message) (n : Nat) : Prop := Continues receive n ∧ (receive n).isDisconnect = true

/-- What the first messages leave in the buffer. -/
def bufferAt (receive : Nat → Message) (n : Nat) : BodyBuffer :=
  ⟨received receive n, (received receive n).length, empty_chunks receive n⟩

theorem received_succ (receive : Nat → Message) (n : Nat) :
    received receive (n + 1) = received receive n ++ (receive n).chunk := by
  rw [received, List.range_succ, List.flatMap_append, List.flatMap_singleton]
  rfl

theorem empty_chunks_succ (receive : Nat → Message) (n : Nat) :
    empty_chunks receive (n + 1) = empty_chunks receive n + if (receive n).isEmptyChunk then 1 else 0 := by
  rw [empty_chunks, List.range_succ, List.countP_append, List.countP_singleton]
  rfl

theorem bufferAt_succ (receive : Nat → Message) (n : Nat) :
    (bufferAt receive n).add (receive n) = bufferAt receive (n + 1) := by
  rw [bufferAt, bufferAt, BodyBuffer.add, received_succ, empty_chunks_succ, List.length_append]
  cases (receive n).isEmptyChunk <;> rfl

/-- A message is admitted when the limits hold with it. -/
theorem admits_bufferAt_iff (h : WithinLimits max_bytes receive n) :
    Admits max_bytes (bufferAt receive n) (receive n) ↔ WithinLimits max_bytes receive (n + 1) := by
  obtain ⟨-, hempty⟩ := h
  rw [Admits, WithinLimits, received_succ, empty_chunks_succ, List.length_append, and_comm]
  refine and_congr_right fun _ => ?_
  change (_ → empty_chunks receive n < MAX_EMPTY_CHUNKS) ↔ _
  cases (receive n).isEmptyChunk with
  | true =>
    rw [if_pos rfl, ← Nat.lt_iff_add_one_le]
    exact ⟨fun h => h rfl, fun h _ => h⟩
  | false => simpa using hempty

/-- The buffer holds the bytes read as long as the limits are kept. -/
theorem passes_iff {s : BodyBuffer} : Reader.Passes (body_reader max_bytes) receive {} n s ↔
    s = bufferAt receive n ∧ Continues receive n ∧ WithinLimits max_bytes receive n := by
  induction n generalizing s with
  | zero =>
    constructor
    · intro h
      cases h
      exact ⟨rfl, fun i hi => absurd hi (Nat.not_lt_zero i), Nat.zero_le _, Nat.zero_le _⟩
    · rintro ⟨rfl, -, -⟩
      exact .start
  | succ n ih =>
    constructor
    · intro h
      cases h with
      | step h hstep =>
        obtain ⟨rfl, hcontinues, hlimits⟩ := ih.mp h
        obtain ⟨hrequest, hadmits, hmore, rfl⟩ := buffer_step_go hstep
        refine ⟨bufferAt_succ receive n, ?_, (admits_bufferAt_iff hlimits).mp hadmits⟩
        intro i hi
        cases Nat.lt_succ_iff_lt_or_eq.mp hi with
        | inl hlt => exact hcontinues i hlt
        | inr heq => exact heq ▸ ⟨hrequest, hmore⟩
    · rintro ⟨rfl, hcontinues, hlimits⟩
      obtain ⟨hrequest, hmore⟩ := hcontinues n (Nat.lt_succ_self n)
      have hbefore : WithinLimits max_bytes receive n := by
        rw [WithinLimits, received_succ, empty_chunks_succ, List.length_append] at hlimits
        exact ⟨by omega, by omega⟩
      have hpasses := ih.mpr ⟨rfl, fun i hi => hcontinues i (Nat.lt_succ_of_lt hi), hbefore⟩
      refine hpasses.step ?_
      change buffer_step max_bytes (bufferAt receive n) (receive n) = _
      rw [buffer_step_admitted hrequest ((admits_bufferAt_iff hbefore).mpr hlimits), if_pos hmore, bufferAt_succ]

theorem buffer_body_eq_iff {result : Buffered} : (buffer_body max_bytes receive).1 = result ↔
    ∃ n, Continues receive n ∧ WithinLimits max_bytes receive n ∧
      buffer_step max_bytes (bufferAt receive n) (receive n) = .stop result := by
  rw [buffer_body, Reader.read_eq_iff]
  constructor
  · rintro ⟨n, s, hpasses, hstop⟩
    obtain ⟨rfl, hcontinues, hlimits⟩ := passes_iff.mp hpasses
    exact ⟨n, hcontinues, hlimits, hstop⟩
  · rintro ⟨n, hcontinues, hlimits, hstop⟩
    exact ⟨n, _, passes_iff.mpr ⟨rfl, hcontinues, hlimits⟩, hstop⟩

theorem within_of_succ (h : WithinLimits max_bytes receive (n + 1)) : WithinLimits max_bytes receive n := by
  rw [WithinLimits, received_succ, empty_chunks_succ, List.length_append] at h
  exact ⟨by omega, by omega⟩

theorem eq_disconnect {message : Message} (h : message.isDisconnect = true) : message = .disconnect := by
  cases message with
  | disconnect => rfl
  | request _ _ => cases h

/-- A body is forwarded exactly when it ends within the limits. -/
theorem buffer_body_forwards_iff {body : List UInt8} :
    (buffer_body max_bytes receive).1 = ([.request (some body) (some false)], none) ↔
      ∃ n, EndsAt receive n ∧ body = received receive (n + 1) ∧ WithinLimits max_bytes receive (n + 1) := by
  rw [buffer_body_eq_iff]
  constructor
  · rintro ⟨n, hcontinues, hlimits, hstop⟩
    cases hdisconnect : (receive n).isDisconnect with
    | true =>
      rw [buffer_step_disconnect hdisconnect, eq_disconnect hdisconnect] at hstop
      cases hstop
    | false =>
      by_cases hadmits : Admits max_bytes (bufferAt receive n) (receive n)
      · rw [buffer_step_admitted hdisconnect hadmits, bufferAt_succ] at hstop
        split at hstop
        case isTrue => cases hstop
        case isFalse hmore =>
          cases hstop
          rw [Bool.not_eq_true] at hmore
          exact ⟨n, ⟨hcontinues, hdisconnect, hmore⟩, rfl, (admits_bufferAt_iff hlimits).mp hadmits⟩
      · obtain ⟨detail, hrefused⟩ := buffer_step_refused hdisconnect hadmits
        rw [hrefused] at hstop
        cases hstop
  · rintro ⟨n, ⟨hcontinues, hrequest, hmore⟩, rfl, hlimits⟩
    have hbefore := within_of_succ hlimits
    refine ⟨n, hcontinues, hbefore, ?_⟩
    rw [buffer_step_admitted hrequest ((admits_bufferAt_iff hbefore).mpr hlimits), if_neg (by rw [hmore]; decide),
      bufferAt_succ]
    rfl

/-- A disconnect is forwarded exactly when it comes within the limits. -/
theorem buffer_body_disconnects_iff : (buffer_body max_bytes receive).1 = ([.disconnect], none) ↔
    ∃ n, DisconnectsAt receive n ∧ WithinLimits max_bytes receive n := by
  rw [buffer_body_eq_iff]
  constructor
  · rintro ⟨n, hcontinues, hlimits, hstop⟩
    cases hdisconnect : (receive n).isDisconnect with
    | true => exact ⟨n, ⟨hcontinues, hdisconnect⟩, hlimits⟩
    | false =>
      by_cases hadmits : Admits max_bytes (bufferAt receive n) (receive n)
      · rw [buffer_step_admitted hdisconnect hadmits] at hstop
        split at hstop <;> cases hstop
      · obtain ⟨detail, hrefused⟩ := buffer_step_refused hdisconnect hadmits
        rw [hrefused] at hstop
        cases hstop
  · rintro ⟨n, ⟨hcontinues, hdisconnect⟩, hlimits⟩
    refine ⟨n, hcontinues, hlimits, ?_⟩
    rw [buffer_step_disconnect hdisconnect, eq_disconnect hdisconnect]

/-- A stream that is neither forwarded as a body nor as a disconnect exceeds a limit. -/
theorem buffer_body_refused (hbody : ∀ n, EndsAt receive n → ¬ WithinLimits max_bytes receive (n + 1))
    (hdisconnects : ∀ n, DisconnectsAt receive n → ¬ WithinLimits max_bytes receive n) :
    ∃ detail, (buffer_body max_bytes receive).1 = ([], some detail) := by
  obtain ⟨n, hcontinues, hlimits, hstop⟩ := buffer_body_eq_iff.mp (rfl : (buffer_body max_bytes receive).1 = _)
  cases hdisconnect : (receive n).isDisconnect with
  | true => exact absurd hlimits (hdisconnects n ⟨hcontinues, hdisconnect⟩)
  | false =>
    by_cases hadmits : Admits max_bytes (bufferAt receive n) (receive n)
    · rw [buffer_step_admitted hdisconnect hadmits] at hstop
      split at hstop
      case isTrue => cases hstop
      case isFalse hmore =>
        rw [Bool.not_eq_true] at hmore
        exact absurd ((admits_bufferAt_iff hlimits).mp hadmits) (hbody n ⟨hcontinues, hdisconnect, hmore⟩)
    · obtain ⟨detail, hrefused⟩ := buffer_step_refused hdisconnect hadmits
      rw [hrefused] at hstop
      exact ⟨detail, (Next.stop.inj hstop).symm⟩

/-- Admission reads a bounded number of messages of any stream and holds no more bytes than
    admitted. It forwards one message with the whole body exactly when that ends within the limits,
    and a disconnect alone; for every other stream it measures an excess, and the application
    does not run. -/
theorem buffer_body_exact (max_bytes : Nat) (receive : Nat → Message) :
    (buffer_body max_bytes receive).2 ≤ max_bytes + 4098 ∧
    (∀ n s, Reader.Passes (body_reader max_bytes) receive {} n s → s.body.length ≤ max_bytes) ∧
    (∀ body, (buffer_body max_bytes receive).1 = ([.request (some body) (some false)], none) ↔
      ∃ n, EndsAt receive n ∧ body = received receive (n + 1) ∧ WithinLimits max_bytes receive (n + 1)) ∧
    ((buffer_body max_bytes receive).1 = ([.disconnect], none) ↔
      ∃ n, DisconnectsAt receive n ∧ WithinLimits max_bytes receive n) ∧
    ((∀ n, EndsAt receive n → ¬ WithinLimits max_bytes receive (n + 1)) →
      (∀ n, DisconnectsAt receive n → ¬ WithinLimits max_bytes receive n) →
      ∃ detail : LimitDetail, (buffer_body max_bytes receive).1 = ([], some detail) ∧ detail.maximum < detail.measured ∧
        ∀ content_length, declared_error max_bytes content_length = none →
          call max_bytes "http" content_length receive = .refused "request_too_large" (some detail)) ∧
    ∀ messages content_length, (buffer_body max_bytes receive).1 = (messages, none) →
      declared_error max_bytes content_length = none →
      call max_bytes "http" content_length receive = .forwarded (limited_receive messages) := by
  refine ⟨?_, ?_, fun _ => buffer_body_forwards_iff, buffer_body_disconnects_iff, ?_, ?_⟩
  · have hcount := Reader.read_count_le (body_reader max_bytes) receive {}
    have hmeasure : (body_reader max_bytes).measure {} = max_bytes + 4096 := rfl
    rw [hmeasure] at hcount
    have hread : (buffer_body max_bytes receive).2 ≤ max_bytes + 4096 + 1 := hcount
    omega
  · intro n s hpasses
    obtain ⟨rfl, -, hlimits⟩ := passes_iff.mp hpasses
    exact hlimits.1
  · intro hbody hdisconnects
    obtain ⟨detail, hrefused⟩ := buffer_body_refused hbody hdisconnects
    refine ⟨detail, hrefused, detail.exceeded, fun content_length hdeclared => ?_⟩
    rw [call, if_neg (not_not.mpr rfl), hdeclared]
    dsimp only
    rw [hrefused]
  · intro messages content_length hbuffered hdeclared
    rw [call, if_neg (not_not.mpr rfl), hdeclared]
    dsimp only
    rw [hbuffered]

/-- A chunk of two bytes where one is admitted. -/
theorem buffer_body_exact_one : ∃ detail : LimitDetail,
    call 1 "http" none (fun _ => .request (some [0, 0]) (some true)) = .refused "request_too_large" (some detail) := by
  have hstream : ∀ n, ¬ EndsAt (fun _ => .request (some [0, 0]) (some true)) n := fun n h => by cases h.2.2
  have hconnected : ∀ n, ¬ DisconnectsAt (fun _ => .request (some [0, 0]) (some true)) n := fun n h => by cases h.2
  obtain ⟨detail, -, -, hcall⟩ := (buffer_body_exact 1 fun _ => .request (some [0, 0]) (some true)).2.2.2.2.1
    (fun n hends => absurd hends (hstream n)) fun n hdisconnects => absurd hdisconnects (hconnected n)
  exact ⟨detail, hcall none rfl⟩

end stream

end pii_engine.admission
