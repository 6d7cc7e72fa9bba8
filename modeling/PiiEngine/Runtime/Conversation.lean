import PiiEngine.Policy.Digests
import PiiEngine.Runtime.Cache

open checked collections
open pii_engine.config pii_engine.planner pii_engine.policy

namespace pii_engine.runtime

/-- A call that was answered, whatever the session held. -/
structure Turn where
  engine : EngineRuntime
  call : Call
  reachable : Bool
  write : WriteOutcome
  store : Option SessionDecision
  result : PolicyResult
  served : (engine.analyze_segments call reachable write store).1 = .ok result

/-- The message whose keyed digest is the namespace of a conversation. -/
def conversation_message (policy_version : String) (session_key : Text) : Text :=
  "pii-engine:v1:conversation-placeholder:".toList ++ policy_version.toList ++ [':'] ++ session_key

/-- No two of the messages have one digest of 16 digits. -/
def CollisionFree (hmac : KeyedHash) (messages : List Text) : Prop :=
  ∀ first ∈ messages, ∀ second ∈ messages,
    (hmac.hexdigest first).take 16 = (hmac.hexdigest second).take 16 → first = second

section served
variable {engine : EngineRuntime} {call : Call} {store : Option SessionDecision}

theorem commit_eq_ok {write : WriteOutcome} {result answer : PolicyResult} {record : Option SessionDecision}
    (h : (EngineRuntime.commit write store result record).1 = .ok answer) : answer = result := by
  cases record with
  | none => exact (Except.ok.inj h).symm
  | some decision =>
    obtain ⟨_, -, hanswer⟩ := map_eq_ok.mp h
    exact hanswer.symm

/-- The namespace that a checked call asks for. -/
theorem check_call_eq_ok {placeholder_namespace : Option Text}
    (h : engine.check_call call = .ok placeholder_namespace) :
    placeholder_namespace =
        engine.placeholder_namespace call (if call.request_scoped then none else call.session_key) ∧
      ∀ key, call.request_scoped = false → call.session_key = some key → key.length = 64 := by
  obtain ⟨_, -, h⟩ := bind_eq_ok.mp h
  obtain ⟨_, -, h⟩ := bind_eq_ok.mp h
  obtain ⟨_, -, h⟩ := bind_eq_ok.mp h
  obtain ⟨key, hkey, h⟩ := bind_eq_ok.mp h
  have hsame := EngineRuntime.validated_session_key_eq_ok hkey
  rw [hsame] at h
  refine ⟨(Except.ok.inj h).symm, ?_⟩
  intro given hscope hgiven
  have hvalid := (raiseIf_bind_eq_ok.mp hkey).1
  rw [hscope, hgiven] at hvalid
  by_contra hlength
  exact hvalid ⟨given, rfl, .inl hlength⟩

theorem receive_eq_ok {reachable : Bool} {placeholder_namespace : Option Text} {cached : Option SessionDecision}
    (h : engine.receive call reachable store = .ok (placeholder_namespace, cached)) :
    engine.check_call call = .ok placeholder_namespace := by
  obtain ⟨found, hfound, h⟩ := bind_eq_ok.mp h
  obtain ⟨read, -, h⟩ := bind_eq_ok.mp h
  cases h
  exact hfound

/-- A cached decision changes neither the segments nor the reversal map of an analysis. -/
theorem apply_cached_decision_frame (result : PolicyResult) (cached : Option SessionDecision) :
    (EngineRuntime.apply_cached_decision result cached).reversal = result.reversal ∧
      (EngineRuntime.apply_cached_decision result cached).segments = result.segments ∧
      (EngineRuntime.apply_cached_decision result cached).scan_performed = result.scan_performed ∧
      ((EngineRuntime.apply_cached_decision result cached).decision ≠ .block → result.decision ≠ .block) := by
  cases cached with
  | none => exact ⟨rfl, rfl, rfl, fun h => h⟩
  | some stored =>
    rw [EngineRuntime.apply_cached_decision_some]
    split
    case isTrue h => exact ⟨rfl, rfl, rfl, fun _ => h.2⟩
    case isFalse => exact ⟨rfl, rfl, rfl, fun h => h⟩

/-- The time that an analysis took is all that the runtime adds to it. -/
theorem run_analysis_frame {placeholder_namespace : Option Text} {analyzed : PolicyResult}
    (h : engine.run_analysis call placeholder_namespace = .ok analyzed) :
    ∃ result, engine.policy.analyze_segments call.observation.toEnvironment call.request false placeholder_namespace =
        .ok result ∧ analyzed = { result with duration_ms := analyzed.duration_ms } := by
  obtain ⟨_, -, h⟩ := bind_eq_ok.mp h
  obtain ⟨result, hresult, h⟩ := bind_eq_ok.mp h
  refine ⟨result, hresult, ?_⟩
  rw [← Except.ok.inj h]
  split <;> rfl

end served

instance (hmac : KeyedHash) (messages : List Text) : Decidable (CollisionFree hmac messages) :=
  inferInstanceAs (Decidable (∀ first ∈ messages, ∀ second ∈ messages, _ → _))

namespace Turn

def env (turn : Turn) : Environment := turn.call.observation.toEnvironment

def policy_version (turn : Turn) : String := turn.engine.policy.settings.policy_version

def planner (turn : Turn) : ActionPlanner := turn.engine.policy.planner

/-- An adapter chat request in the session of a key. -/
structure InSession (turn : Turn) (session_key : Text) : Prop where
  adapter : turn.call.caller = .adapter
  chat : turn.call.request.request_kind = .chat
  session_scoped : turn.call.request_scoped = false
  key : turn.call.session_key = some session_key

/-- The turns of one conversation share the hash key, the policy version and the session key. -/
structure InConversation (turn : Turn) (hmac : KeyedHash) (policy_version : String) (session_key : Text) : Prop where
  hash_key : turn.planner.hmac = hmac
  version : turn.policy_version = policy_version
  session : turn.InSession session_key

/-- The namespace that the runtime asks its policy to use, if any. -/
def conversation (turn : Turn) : Option Text :=
  turn.engine.placeholder_namespace turn.call (if turn.call.request_scoped then none else turn.call.session_key)

/-- The namespace of the placeholders of a turn. -/
def namespaceOf (turn : Turn) : Text := PolicyService.request_namespace turn.env turn.conversation

/-- The prefixes, entity types and values that the placeholders of a turn are digests of. -/
def digested (turn : Turn) : List (String × String × Text) :=
  turn.engine.policy.digested turn.env turn.call.request turn.namespaceOf

/-- The message of the conversation that a turn is in, if it has a session key. -/
def conversation_messages (turn : Turn) : List Text :=
  (turn.call.session_key.map (conversation_message turn.policy_version)).toList

/-- The messages that the placeholders of a turn are digests of. -/
def placeholder_messages (turn : Turn) : List Text :=
  turn.digested.map fun entry => ActionPlanner.placeholder_message turn.namespaceOf entry.2.1 entry.2.2

theorem placeholder_message_mem (turn : Turn) {kind entity_type : String} {key : Text}
    (h : (kind, entity_type, key) ∈ turn.digested) :
    ActionPlanner.placeholder_message turn.namespaceOf entity_type key ∈ turn.placeholder_messages :=
  List.mem_map.mpr ⟨_, h, rfl⟩

/-- Each text of a turn has its reversible values replaced by their names, and the turn's
    reversal map knows these. -/
def NamedBy (turn : Turn) (name : String → Text → Text) : Prop :=
  ∃ output, turn.result.segments = some output ∧ List.Forall₂ (fun (segment out : TextSegment) =>
    out.id = segment.id ∧ ∃ rewrites, turn.engine.policy.Rewritten turn.env (turn.call.request.request_kind = .mcp)
      (fun region original replacement => (turn.planner.resolve region.entity_type).1 = .reversible_replace →
        replacement = name region.entity_type original ∧ turn.result.reversal.get? replacement = some original)
      ⟨segment.id, segment.text⟩ out.text rewrites) turn.call.request.segments output

/-- A turn replaces a value of an entity type reversibly. -/
def Replaces (turn : Turn) (entity_type : String) (value : Text) : Prop :=
  turn.result.decision ≠ .block ∧ turn.result.scan_performed = true ∧ ∃ segment ∈ turn.call.request.segments,
    ∃ region ∈ turn.planner.executed (turn.engine.policy.effective_regions turn.env
      (turn.call.request.request_kind = .mcp) ⟨segment.id, segment.text⟩),
      region.entity_type = entity_type ∧ (turn.planner.resolve entity_type).1 = .reversible_replace ∧
        originalValue segment.text region = value

/-- What an operator encrypts can be decrypted. -/
def Decryptable (turn : Turn) (decrypt : String → Text → Text) : Prop :=
  ∃ operate, turn.planner.anonymizer.RewritesSpan operate ∧
    ∀ salt entity_type value, decrypt entity_type (operate salt entity_type .encrypt {} value) = value

/-- Only an analysis finds placeholders, and a cached decision leaves them as they are. -/
theorem answered (turn : Turn) : (turn.result.scan_performed = false ∧ turn.result.reversal = .empty) ∨
    ∃ analyzed, turn.engine.policy.analyze_segments turn.env turn.call.request false turn.conversation = .ok analyzed ∧
      turn.result.reversal = analyzed.reversal ∧ turn.result.segments = analyzed.segments ∧
      turn.result.scan_performed = analyzed.scan_performed ∧
      (turn.result.decision ≠ .block → analyzed.decision ≠ .block) := by
  have hserved := turn.served
  unfold EngineRuntime.analyze_segments at hserved
  cases hreceive : turn.engine.receive turn.call turn.reachable turn.store with
  | error e =>
    rw [hreceive] at hserved
    cases hserved
  | ok received =>
    obtain ⟨placeholder_namespace, cached⟩ := received
    rw [hreceive] at hserved
    dsimp only at hserved
    cases hrespond : turn.engine.respond turn.call placeholder_namespace cached with
    | error e =>
      rw [hrespond] at hserved
      cases hserved
    | ok response =>
      obtain ⟨result, record⟩ := response
      rw [hrespond] at hserved
      have hresult := commit_eq_ok hserved
      cases EngineRuntime.respond_eq_ok hrespond with
      | inl hfinal =>
        obtain ⟨stored, -, -, rfl, -⟩ := hfinal
        rw [hresult]
        exact .inl ⟨rfl, rfl⟩
      | inr hcurrent =>
        obtain ⟨-, analyzed, hanalysis, rfl, -⟩ := hcurrent
        obtain ⟨result, hresult_eq, hframe⟩ := run_analysis_frame hanalysis
        rw [(check_call_eq_ok (receive_eq_ok hreceive)).1] at hresult_eq
        obtain ⟨hreversal, hsegments, hscan, hdecision⟩ := apply_cached_decision_frame analyzed cached
        rw [hframe] at hreversal hsegments hscan hdecision
        rw [hframe] at hresult
        refine .inr ⟨result, hresult_eq, ?_⟩
        rw [hresult]
        exact ⟨hreversal, hsegments, hscan, hdecision⟩

/-- An answered call passed the checks. -/
theorem checked (turn : Turn) :
    ∃ placeholder_namespace, turn.engine.check_call turn.call = .ok placeholder_namespace := by
  have hserved := turn.served
  unfold EngineRuntime.analyze_segments at hserved
  cases hreceive : turn.engine.receive turn.call turn.reachable turn.store with
  | error e =>
    rw [hreceive] at hserved
    cases hserved
  | ok received => exact ⟨received.1, receive_eq_ok hreceive⟩

theorem length_key (turn : Turn) {key : Text} (h : turn.InSession key) : key.length = 64 := by
  obtain ⟨_, hchecked⟩ := turn.checked
  exact (check_call_eq_ok hchecked).2 key h.session_scoped h.key

theorem digest_ne_nil (hmac : KeyedHash) (message : Text) : (hmac.hexdigest message).take 16 ≠ [] := by
  intro h
  have hlength := congrArg List.length h
  rw [List.length_take, hmac.length_hexdigest] at hlength
  cases hlength

/-- A session's chat requests use the namespace of its key, and all others a fresh nonce. -/
theorem namespaceOf_eq (turn : Turn) :
    (∃ key, turn.InSession key ∧
      turn.namespaceOf = (turn.planner.hmac.hexdigest (conversation_message turn.policy_version key)).take 16) ∨
    turn.namespaceOf = turn.env.request_nonce := by
  rw [namespaceOf, conversation, EngineRuntime.placeholder_namespace]
  split
  case isTrue hsession =>
    obtain ⟨hcaller, hkind, hscope⟩ := hsession
    cases hkey : turn.call.session_key with
    | none =>
      rw [hscope]
      exact .inr rfl
    | some key =>
      rw [hscope]
      exact .inl ⟨key, ⟨hcaller, hkind, hscope, hkey⟩, if_neg (digest_ne_nil _ _)⟩
  case isFalse => exact .inr rfl

section conversation
variable {turn : Turn} {hmac : KeyedHash} {policy_version : String} {session_key : Text}

theorem InConversation.namespace_eq (h : turn.InConversation hmac policy_version session_key) :
    turn.namespaceOf = (hmac.hexdigest (conversation_message policy_version session_key)).take 16 := by
  have hscoped : turn.conversation = some (turn.engine.conversation_placeholder_namespace session_key) := by
    rw [conversation, EngineRuntime.placeholder_namespace,
      if_pos ⟨h.session.adapter, h.session.chat, h.session.session_scoped⟩,
      h.session.session_scoped, h.session.key]
    rfl
  rw [namespaceOf, hscoped, ← h.hash_key, ← h.version]
  exact if_neg (digest_ne_nil _ _)

theorem keyed (turn : Turn) {operate : Nat → String → PIIAction → OperatorArguments → Text → Text}
    (hlocal : turn.planner.anonymizer.RewritesSpan operate) :
    turn.planner.Keyed operate turn.namespaceOf turn.digested turn.result.reversal := by
  cases turn.answered with
  | inl hcached =>
    rw [hcached.2]
    exact PolicyService.keyed_empty
  | inr hanalyzed =>
    obtain ⟨analyzed, hanalyzed, hreversal, -⟩ := hanalyzed
    rw [hreversal]
    exact PolicyService.analyze_segments_keyed hanalyzed hlocal

/-- The name of a value inside a namespace. -/
def nameIn (hmac : KeyedHash) (nonce : Text) (entity_type : String) (value : Text) : Text :=
  ActionPlanner.placeholder_text "REV" entity_type nonce
    ((hmac.hexdigest (ActionPlanner.placeholder_message nonce entity_type value)).take 16)

theorem namedBy (turn : Turn) {operate : Nat → String → PIIAction → OperatorArguments → Text → Text}
    (hlocal : turn.planner.anonymizer.RewritesSpan operate) (hdecision : turn.result.decision ≠ .block)
    (hscan : turn.result.scan_performed = true) : turn.NamedBy (nameIn turn.planner.hmac turn.namespaceOf) := by
  cases turn.answered with
  | inl hcached =>
    rw [hcached.1] at hscan
    cases hscan
  | inr hanalyzed =>
    obtain ⟨analyzed, hanalyzed, hreversal, hsegments, hscanned, hunblocked⟩ := hanalyzed
    rw [hscanned] at hscan
    rw [NamedBy, hsegments, hreversal]
    exact PolicyService.analyze_segments_reversible hanalyzed hlocal (hunblocked hdecision) hscan

/-- A replaced value is remembered under its name. -/
theorem remembered {name : String → Text → Text} (hnamed : turn.NamedBy name) {entity_type : String} {value : Text}
    (hreplaced : turn.Replaces entity_type value) :
    turn.result.reversal.get? (name entity_type value) = some value := by
  obtain ⟨output, -, hsegments⟩ := hnamed
  obtain ⟨-, -, segment, hsegment, region, hregion, rfl, haction, rfl⟩ := hreplaced
  obtain ⟨out, -, -, rewrites, hrewritten⟩ := exists_right_of_forall₂ hsegments hsegment
  have hmem : region ∈ rewrites.map Rewrite.region := by
    rw [hrewritten.regions]
    exact hregion
  obtain ⟨rewrite, hrewrite, rfl⟩ := List.mem_map.mp hmem
  obtain ⟨hname, hget⟩ := hrewritten.rules rewrite hrewrite haction
  rw [hrewritten.originals rewrite hrewrite] at hname hget
  rw [← hname]
  exact hget

end conversation

end Turn

section conversation
variable {hmac : KeyedHash} {policy_version : String} {session_key : Text} {messages : List Text}

theorem KeyedBy_kind {operate : Nat → String → PIIAction → OperatorArguments → Text → Text} {kind entity_type : String}
    {key value : Text} (h : ActionPlanner.KeyedBy operate kind entity_type key value) :
    kind = "REV" ∨ kind = "ENCRYPTED" :=
  h.imp And.left And.left

/-- Placeholders of one conversation are digests of the same value if they are equal. -/
theorem same_entry (hdigests : CollisionFree hmac messages) {first second : Turn}
    (hfirst : first.InConversation hmac policy_version session_key)
    (hsecond : second.InConversation hmac policy_version session_key)
    (hmessages : ∀ message ∈ first.placeholder_messages ++ second.placeholder_messages, message ∈ messages)
    {kind kind' entity_type entity_type' : String} {key key' : Text}
    (hmem : (kind, entity_type, key) ∈ first.digested) (hmem' : (kind', entity_type', key') ∈ second.digested)
    (hkind : kind = "REV" ∨ kind = "ENCRYPTED") (hkind' : kind' = "REV" ∨ kind' = "ENCRYPTED")
    (h : ActionPlanner.placeholder_text kind entity_type first.namespaceOf
        (first.planner.placeholder_digest entity_type key first.namespaceOf) =
      ActionPlanner.placeholder_text kind' entity_type' second.namespaceOf
        (second.planner.placeholder_digest entity_type' key' second.namespaceOf)) :
    kind = kind' ∧ entity_type = entity_type' ∧ key = key' := by
  have hnamespace : second.namespaceOf = first.namespaceOf := by
    rw [hfirst.namespace_eq, hsecond.namespace_eq]
  rw [hnamespace] at h
  have hlength : (first.planner.placeholder_digest entity_type key first.namespaceOf).length =
      (second.planner.placeholder_digest entity_type' key' first.namespaceOf).length := by
    rw [ActionPlanner.length_placeholder_digest, ActionPlanner.length_placeholder_digest]
  obtain ⟨rfl, rfl, hdigest⟩ := ActionPlanner.placeholder_text_inj hkind hkind' hlength h
  refine ⟨rfl, rfl, ?_⟩
  rw [ActionPlanner.placeholder_digest_eq, ActionPlanner.placeholder_digest_eq, hfirst.hash_key, hsecond.hash_key]
    at hdigest
  clear h hlength hkind hkind'
  have hmessage := hmessages _ (List.mem_append_left _ (first.placeholder_message_mem hmem))
  have hmessage' := hmessages _ (List.mem_append_right _ (second.placeholder_message_mem hmem'))
  rw [hnamespace] at hmessage'
  exact ActionPlanner.placeholder_message_inj (hdigests _ hmessage _ hmessage' hdigest)

/-- One placeholder of a conversation stands for one plaintext. -/
theorem same_plaintext (hdigests : CollisionFree hmac messages) {decrypt : String → Text → Text} {first second : Turn}
    (hfirst : first.InConversation hmac policy_version session_key)
    (hsecond : second.InConversation hmac policy_version session_key)
    (hdecrypt : first.Decryptable decrypt) (hdecrypt' : second.Decryptable decrypt)
    (hmessages : ∀ message ∈ first.placeholder_messages ++ second.placeholder_messages, message ∈ messages)
    {placeholder value value' : Text} (hvalue : first.result.reversal.get? placeholder = some value)
    (hvalue' : second.result.reversal.get? placeholder = some value') : value = value' := by
  obtain ⟨operate, hlocal, hinverse⟩ := hdecrypt
  obtain ⟨operate', hlocal', hinverse'⟩ := hdecrypt'
  obtain ⟨kind, entity_type, key, hmem, hkeyed, htext⟩ := first.keyed hlocal placeholder value hvalue
  obtain ⟨kind', entity_type', key', hmem', hkeyed', htext'⟩ := second.keyed hlocal' placeholder value' hvalue'
  obtain ⟨rfl, rfl, rfl⟩ := same_entry hdigests hfirst hsecond hmessages hmem hmem' (KeyedBy_kind hkeyed)
    (KeyedBy_kind hkeyed') (htext.symm.trans htext')
  cases hkeyed with
  | inl hplain =>
    obtain ⟨hkind, rfl⟩ := hplain
    cases hkeyed' with
    | inl hplain' => exact hplain'.2
    | inr hcipher' => exact absurd (hkind.symm.trans hcipher'.1) (by decide)
  | inr hcipher =>
    obtain ⟨hkind, salt, hkey⟩ := hcipher
    cases hkeyed' with
    | inl hplain' => exact absurd (hplain'.1.symm.trans hkind) (by decide)
    | inr hcipher' =>
      obtain ⟨-, salt', hkey'⟩ := hcipher'
      rw [← hinverse salt entity_type value, ← hinverse' salt' entity_type value', ← hkey, ← hkey']

/-- Conversations with different session keys or policy versions have different messages. -/
theorem conversation_message_inj {policy_version policy_version' : String} {key key' : Text}
    (hlength : key.length = key'.length)
    (h : conversation_message policy_version key = conversation_message policy_version' key') :
    policy_version = policy_version' ∧ key = key' := by
  obtain ⟨hfront, hkey⟩ := List.append_inj' h hlength
  simp only [List.append_cancel_right_eq, List.append_cancel_left_eq] at hfront
  exact ⟨String.toList_injective hfront, hkey⟩

end conversation

/-- Placeholders are unambiguous across a conversation: one name for each value of an entity
    type, different names for different ones, and one plaintext for each placeholder. Nothing
    outside the conversation uses its namespace. -/
theorem placeholders_unambiguous (hmac : KeyedHash) (policy_version : String) (session_key : Text)
    (turns others : List Turn) (decrypt : String → Text → Text)
    (hturns : ∀ turn ∈ turns, turn.InConversation hmac policy_version session_key)
    (hdecrypt : ∀ turn ∈ turns, turn.Decryptable decrypt)
    (hothers : ∀ other ∈ others, other.planner.hmac = hmac ∧ ¬ other.InConversation hmac policy_version session_key)
    (hdigests : CollisionFree hmac ((turns ++ others).flatMap Turn.conversation_messages ++
      turns.flatMap Turn.placeholder_messages))
    (hnonces : ∀ other ∈ others, ∀ turn ∈ turns, other.env.request_nonce ≠ turn.namespaceOf) :
    ∃ name : String → Text → Text,
      (∀ turn ∈ turns, turn.result.decision ≠ .block → turn.result.scan_performed = true → turn.NamedBy name) ∧
      (∀ first ∈ turns, ∀ second ∈ turns, ∀ entity_type value entity_type' value',
        first.Replaces entity_type value → second.Replaces entity_type' value' →
        name entity_type value = name entity_type' value' → entity_type = entity_type' ∧ value = value') ∧
      (∀ first ∈ turns, ∀ second ∈ turns, ∀ placeholder value value',
        first.result.reversal.get? placeholder = some value →
        second.result.reversal.get? placeholder = some value' → value = value') ∧
      ∀ other ∈ others, ∀ turn ∈ turns, other.namespaceOf ≠ turn.namespaceOf := by
  have hmessages : ∀ first ∈ turns, ∀ second ∈ turns,
      ∀ message ∈ first.placeholder_messages ++ second.placeholder_messages,
        message ∈ (turns ++ others).flatMap Turn.conversation_messages ++ turns.flatMap Turn.placeholder_messages := by
    intro first hfirst second hsecond message hmessage
    apply List.mem_append_right
    rw [List.mem_append] at hmessage
    cases hmessage with
    | inl hmem => exact List.mem_flatMap.mpr ⟨first, hfirst, hmem⟩
    | inr hmem => exact List.mem_flatMap.mpr ⟨second, hsecond, hmem⟩
  have hnamed : ∀ turn ∈ turns, turn.result.decision ≠ .block → turn.result.scan_performed = true → turn.NamedBy
      (Turn.nameIn hmac ((hmac.hexdigest (conversation_message policy_version session_key)).take 16)) := by
    intro turn hturn hdecision hscan
    obtain ⟨operate, hlocal, -⟩ := hdecrypt turn hturn
    have hname := turn.namedBy hlocal hdecision hscan
    rwa [(hturns turn hturn).hash_key, (hturns turn hturn).namespace_eq] at hname
  refine ⟨_, hnamed, ?_, ?_, ?_⟩
  · intro first hfirst second hsecond entity_type value entity_type' value' hreplaced hreplaced' hsame
    have hget := Turn.remembered (hnamed first hfirst hreplaced.1 hreplaced.2.1) hreplaced
    have hget' := Turn.remembered (hnamed second hsecond hreplaced'.1 hreplaced'.2.1) hreplaced'
    have hlength : ∀ message : Text, ((hmac.hexdigest message).take 16).length = 16 := by
      intro message
      rw [List.length_take, hmac.length_hexdigest]
      rfl
    obtain ⟨-, hentity, -⟩ := ActionPlanner.placeholder_text_inj (.inl rfl) (.inl rfl)
      ((hlength _).trans (hlength _).symm) hsame
    refine ⟨hentity, ?_⟩
    rw [← hsame] at hget'
    exact same_plaintext hdigests (hturns first hfirst) (hturns second hsecond) (hdecrypt first hfirst)
      (hdecrypt second hsecond) (hmessages first hfirst second hsecond) hget hget'
  · intro first hfirst second hsecond placeholder value value' hget hget'
    exact same_plaintext hdigests (hturns first hfirst) (hturns second hsecond) (hdecrypt first hfirst)
      (hdecrypt second hsecond) (hmessages first hfirst second hsecond) hget hget'
  · intro other hother turn hturn heq
    cases other.namespaceOf_eq with
    | inr hnonce => exact hnonces other hother turn hturn (hnonce.symm.trans heq)
    | inl hsession =>
      obtain ⟨key, hkey, hnamespace⟩ := hsession
      obtain ⟨hhmac, houtside⟩ := hothers other hother
      have hconversation := hturns turn hturn
      rw [hnamespace, hhmac, hconversation.namespace_eq] at heq
      have hmem : ∀ one ∈ turns ++ others, ∀ given, one.call.session_key = some given →
          conversation_message one.policy_version given ∈
            (turns ++ others).flatMap Turn.conversation_messages ++ turns.flatMap Turn.placeholder_messages := by
        intro one hone given hgiven
        apply List.mem_append_left
        refine List.mem_flatMap.mpr ⟨one, hone, ?_⟩
        rw [Turn.conversation_messages, hgiven]
        exact List.mem_singleton_self _
      have hturn_message := hmem turn (List.mem_append_left _ hturn) session_key hconversation.session.key
      rw [hconversation.version] at hturn_message
      have hmessage := hdigests _ (hmem other (List.mem_append_right _ hother) key hkey.key) _ hturn_message heq
      obtain ⟨hversion, hsame⟩ := conversation_message_inj
        ((other.length_key hkey).trans (turn.length_key hconversation.session).symm) hmessage
      rw [hsame] at hkey
      exact houtside ⟨hhmac, hversion, hkey⟩

/-- A turn on an empty session, if its call is answered. -/
def Turn.answer (engine : EngineRuntime) (call : Call)
    (h : (engine.analyze_segments call true .stored none).1.toOption.isSome = true) : Turn where
  engine
  call
  reachable := true
  write := .stored
  store := none
  result := (engine.analyze_segments call true .stored none).1.toOption.get h
  served := by
    revert h
    cases (engine.analyze_segments call true .stored none).1 with
    | error e =>
      intro h
      cases h
    | ok result =>
      intro h
      rfl

/-- The unit-test runtime with mail addresses replaced reversibly and account numbers encrypted. -/
def mixed_runtime : EngineRuntime where
  policy := { PolicyService.test_service with
    planner := { ActionPlanner.test_planner with
      policy := { test_policy with
        pii := { test_pii with
          entity_policies := [mail_entry.withAction .reversible_replace, iban_entry.withAction .encrypt]
          entity_nodup := by decide } } }
    compiled := rfl }

def mixed_call (scope : Scope) (nonce : Text) : Call where
  caller := .adapter
  request := .ofTexts .chat scope [⟨"t1", "me@ab DE12".toList, by decide⟩] false (by decide)
  session_key := some (List.replicate 64 '1')
  observation := {
    analyze := fun _ => .ok [⟨"EMAIL_ADDRESS", 0, 5, some (9 / 10), "rules"⟩, ⟨"IBAN", 6, 10, some (9 / 10), "rules"⟩]
    request_nonce := nonce
    clock := fun _ _ => 0 }

def mixed_turn : Turn := .answer mixed_runtime (mixed_call .session "0123456789abcdef".toList) (by decide +kernel)

def scoped_turn : Turn := .answer mixed_runtime (mixed_call .request "fedcba9876543210".toList) (by decide +kernel)

theorem decryptable_mixed (call : Call) (h : _) :
    (Turn.answer mixed_runtime call h).Decryptable fun _ => Function.invFun test_anonymizer.hexEncode := by
  refine ⟨test_anonymizer.operate, TestAnonymizer_rewritesSpan, ?_⟩
  intro salt entity_type value
  exact Function.leftInverse_invFun test_anonymizer.hexEncode_injective value

/-- A session's request with both actions beside a request of its own. -/
theorem placeholders_unambiguous_mixed : mixed_turn.result.reversal.keys.length = 2 ∧
    (∀ placeholder value value', mixed_turn.result.reversal.get? placeholder = some value →
      mixed_turn.result.reversal.get? placeholder = some value' → value = value') ∧
    scoped_turn.namespaceOf ≠ mixed_turn.namespaceOf := by
  have hturn : mixed_turn.InConversation .checksum "v1" (List.replicate 64 '1') := ⟨rfl, rfl, rfl, rfl, rfl, rfl⟩
  obtain ⟨name, -, -, hfunction, hother⟩ := placeholders_unambiguous .checksum "v1" (List.replicate 64 '1')
    [mixed_turn] [scoped_turn] (fun _ => Function.invFun test_anonymizer.hexEncode)
    (by
      intro turn hmem
      rw [List.mem_singleton.mp hmem]
      exact hturn)
    (by
      intro turn hmem
      rw [List.mem_singleton.mp hmem]
      exact decryptable_mixed _ _)
    (by
      intro other hmem
      rw [List.mem_singleton.mp hmem]
      exact ⟨rfl, fun h => by cases h.session.session_scoped⟩)
    (by decide +kernel)
    (by decide +kernel)
  exact ⟨by decide +kernel, hfunction mixed_turn (List.mem_singleton_self _) mixed_turn (List.mem_singleton_self _),
    hother scoped_turn (List.mem_singleton_self _) mixed_turn (List.mem_singleton_self _)⟩

end pii_engine.runtime
