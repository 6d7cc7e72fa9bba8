import PiiEngine.Controllers.Restoration
import PiiEngine.Runtime.Model

open collections
open pii_engine.config pii_engine.planner pii_engine.controllers

namespace pii_engine.runtime

/-- What is signed with the shared hash key: a value for a rolling hash, a value for a
    placeholder, or the session key of a conversation. -/
inductive HashInput where
  | rolling (policy_scope : Text) (bucket : Nat) (entity_type : String) (value : Text)
  | placeholder (nonce : Text) (entity_type : String) (value : Text)
  | conversation (policy_version session_key : Text)
  deriving DecidableEq

inductive Construction where
  | rolling
  | placeholder
  | conversation
  deriving DecidableEq, Repr

def Construction.label : Construction → Text
  | rolling => "pii-engine:v1:rolling-hash:".toList
  | placeholder => "pii-engine:v1:placeholder:".toList
  | conversation => "pii-engine:v1:conversation-placeholder:".toList

namespace HashInput

def construction : HashInput → Construction
  | .rolling .. => .rolling
  | .placeholder .. => .placeholder
  | .conversation .. => .conversation

/-- The joined fields of a message. -/
def fields : HashInput → Text
  | .rolling policy_scope bucket entity_type value =>
    policy_scope ++ ':' :: (Text.ofNat bucket ++ ':' :: (entity_type.toList ++ ':' :: value))
  | .placeholder nonce entity_type value => nonce ++ ':' :: (entity_type.toList ++ ':' :: value)
  | .conversation policy_version session_key => policy_version ++ ':' :: session_key

/-- The message that the keyed hash reads. -/
def message (input : HashInput) : Text := input.construction.label ++ input.fields

/-- The parameters that the program can pass. -/
def Admitted : HashInput → Prop
  | .rolling policy_scope _ entity_type _ =>
    (1 ≤ policy_scope.length ∧ policy_scope.length ≤ 64) ∧ isEntityWord entity_type.toList = true
  | .placeholder nonce entity_type _ => HexWord nonce ∧ isEntityWord entity_type.toList = true
  | .conversation policy_version session_key =>
    (1 ≤ policy_version.length ∧ policy_version.length ≤ 64) ∧
      session_key.length = 64 ∧ ∀ c ∈ session_key, isHexDigit c = true

/-- The input is built by a deployment with the given policy version. -/
def Under (policy_version : Text) : HashInput → Prop
  | .rolling policy_scope .. => policy_scope = policy_version
  | .placeholder .. => True
  | .conversation version _ => version = policy_version

end HashInput

open HashInput

theorem join_three (label first second third value : Text) :
    label ++ first ++ [':'] ++ second ++ [':'] ++ third ++ [':'] ++ value =
      label ++ (first ++ ':' :: (second ++ ':' :: (third ++ ':' :: value))) := by
  simp

theorem rolling_hash_eq (planner : ActionPlanner) (now : Nat) (entity_type : String) (value : Text) :
    planner.rolling_hash now entity_type value = planner.hmac.hexdigest
      (message (.rolling planner.policy_scope (now / (planner.policy.pii.hash_window_hours * 3600))
        entity_type value)) :=
  congrArg planner.hmac.hexdigest (join_three _ _ _ _ _)

theorem join_two (label first second value : Text) :
    label ++ first ++ [':'] ++ second ++ [':'] ++ value = label ++ (first ++ ':' :: (second ++ ':' :: value)) := by
  simp

theorem placeholder_digest_eq (planner : ActionPlanner) (entity_type : String) (value nonce : Text) :
    planner.placeholder_digest entity_type value nonce =
      (planner.hmac.hexdigest (message (.placeholder nonce entity_type value))).take 16 :=
  congrArg (fun text => (planner.hmac.hexdigest text).take 16) (join_two _ _ _ _)

theorem join_one (label first value : Text) : label ++ first ++ [':'] ++ value = label ++ (first ++ ':' :: value) := by
  simp

theorem conversation_placeholder_namespace_eq (runtime : EngineRuntime) (session_key : Text) :
    runtime.conversation_placeholder_namespace session_key = (runtime.policy.planner.hmac.hexdigest
      (message (.conversation runtime.policy.settings.policy_version.toList session_key))).take 16 :=
  congrArg (fun text => (runtime.policy.planner.hmac.hexdigest text).take 16) (join_one _ _ _)

theorem isEntityWord_cases {word : Text} (h : isEntityWord word = true) :
    ∃ first rest, word = first :: rest ∧ isAsciiUpper first = true ∧ ∀ c ∈ rest, isEntityChar c = true := by
  cases word with
  | nil => cases h
  | cons first rest =>
    rw [isEntityWord, Bool.and_eq_true, List.all_eq_true] at h
    exact ⟨first, rest, rfl, h.1, h.2⟩

theorem colon_not_mem_entityWord {word : Text} (h : isEntityWord word = true) : ':' ∉ word := by
  obtain ⟨first, rest, rfl, hfirst, hrest⟩ := isEntityWord_cases h
  intro hmem
  cases List.mem_cons.mp hmem with
  | inl heq =>
    rw [← heq] at hfirst
    exact absurd hfirst (by decide)
  | inr hmem => exact absurd (hrest _ hmem) (by decide)

/-- An entity type starts with a letter, a number with a digit. -/
theorem entityWord_ne_ofNat {word : Text} (h : isEntityWord word = true) (n : Nat) : word ≠ Text.ofNat n := by
  obtain ⟨first, rest, rfl, hfirst, -⟩ := isEntityWord_cases h
  intro heq
  have hdigit : first.isDigit = true := Text.isDigit_of_mem_ofNat (heq ▸ List.mem_cons_self)
  rw [isAsciiUpper, Bool.and_eq_true, decide_eq_true_eq] at hfirst
  have hupper : 'A'.toNat ≤ first.toNat := UInt32.le_iff_toNat_le.mp (Char.le_def.mp hfirst.1)
  have hlower : first.toNat ≤ '9'.toNat := (Char.isDigit_iff_toNat.mp hdigit).2
  exact absurd (hupper.trans hlower) (by decide)

theorem colon_not_mem_hex {word : Text} (h : ∀ c ∈ word, isHexDigit c = true) : ':' ∉ word :=
  fun hmem => absurd (h _ hmem) (by decide)

/-- The labels differ right after the prefix they share. -/
theorem Construction.take_label_injective {first second : Construction}
    (h : first.label.take 15 = second.label.take 15) : first = second := by
  cases first <;> cases second <;> first | rfl | exact absurd h (by decide)

theorem Construction.le_length_label (construction : Construction) : 15 ≤ construction.label.length := by
  cases construction <;> decide

theorem construction_eq {x y : HashInput} (h : x.message = y.message) : x.construction = y.construction := by
  have htake : x.message.take 15 = y.message.take 15 := by rw [h]
  rw [message, message, List.take_append_of_le_length x.construction.le_length_label,
    List.take_append_of_le_length y.construction.le_length_label] at htake
  exact Construction.take_label_injective htake

theorem fields_eq {x y : HashInput} (h : x.message = y.message) : x.fields = y.fields := by
  have hconstruction := construction_eq h
  rw [message, message, hconstruction] at h
  exact List.append_cancel_left h

/-- One policy version continues the other with a complete bucket and entity type. -/
def Continues (policy_version other : Text) : Prop :=
  ∃ bucket entity rest, isEntityWord entity = true ∧ (rest = [] ∨ ∃ more, rest = ':' :: more) ∧
    other = policy_version ++ ':' :: (Text.ofNat bucket ++ ':' :: (entity ++ rest))

/-- Two rolling hashes of one policy version, or of versions that do not continue each other,
    sign the same message only with the same fields. -/
theorem rolling_fields_inj {policy_scope scope' value value' : Text} {bucket bucket' : Nat} {entity entity' : Text}
    (hentity : isEntityWord entity = true) (hcontinues : ¬ Continues policy_scope scope') (more : Text)
    (hmore : scope' = policy_scope ++ more) (h : ':' :: (Text.ofNat bucket ++ ':' :: (entity ++ ':' :: value)) =
      more ++ ':' :: (Text.ofNat bucket' ++ ':' :: (entity' ++ ':' :: value'))) :
    more = [] := by
  cases more with
  | nil => rfl
  | cons mark more =>
    exfalso
    obtain ⟨rfl, hrest⟩ := List.cons.inj h
    rw [List.append_eq] at hrest
    by_cases hmem : ':' ∈ more
    · -- the longer version holds the bucket, so it has to hold the entity type as well
      obtain ⟨number, rest, rfl, hnumber⟩ := List.eq_append_cons_of_mem hmem
      rw [List.append_assoc, List.cons_append] at hrest
      obtain ⟨hbucket, hrest⟩ := append_cons_inj (Text.colon_not_mem_ofNat bucket) hnumber hrest
      by_cases hmem' : ':' ∈ rest
      · obtain ⟨word, tail, rfl, hword⟩ := List.eq_append_cons_of_mem hmem'
        rw [List.append_assoc, List.cons_append] at hrest
        obtain ⟨heq, -⟩ := append_cons_inj (colon_not_mem_entityWord hentity) hword hrest
        refine hcontinues ⟨bucket, entity, ':' :: tail, hentity, Or.inr ⟨tail, rfl⟩, ?_⟩
        rw [hmore, hbucket, heq]
      · obtain ⟨heq, -⟩ := append_cons_inj (colon_not_mem_entityWord hentity) hmem' hrest
        refine hcontinues ⟨bucket, entity, [], hentity, Or.inl rfl, ?_⟩
        rw [hmore, hbucket, heq, List.append_nil]
    · obtain ⟨-, hrest⟩ := append_cons_inj (Text.colon_not_mem_ofNat bucket) hmem hrest
      obtain ⟨heq, -⟩ := append_cons_inj (colon_not_mem_entityWord hentity) (Text.colon_not_mem_ofNat bucket') hrest
      exact entityWord_ne_ofNat hentity bucket' heq

theorem message_inj {policy_version other : Text} {x y : HashInput} (hx : x.Admitted) (hy : y.Admitted)
    (hunder : x.Under policy_version) (hunder' : y.Under other) (hcontinues : ¬ Continues policy_version other)
    (hcontinues' : ¬ Continues other policy_version) (h : x.message = y.message) : x = y := by
  have hconstruction := construction_eq h
  have hfields := fields_eq h
  cases x with
  | rolling policy_scope bucket entity_type value =>
    cases y with
    | rolling scope' bucket' entity_type' value' =>
      subst hunder hunder'
      have hscope : policy_scope = scope' := by
        rcases List.append_eq_append_iff.mp hfields with ⟨more, hmore, heq⟩ | ⟨more, hmore, heq⟩
        · have hnil := rolling_fields_inj hx.2 hcontinues more hmore heq
          rw [hmore, hnil, List.append_nil]
        · have hnil := rolling_fields_inj hy.2 hcontinues' more hmore heq
          rw [hmore, hnil, List.append_nil]
      subst hscope
      obtain ⟨-, hrest⟩ := List.cons.inj (List.append_cancel_left hfields)
      obtain ⟨hbucket, hrest⟩ :=
        append_cons_inj (Text.colon_not_mem_ofNat bucket) (Text.colon_not_mem_ofNat bucket') hrest
      obtain ⟨hentity, hvalue⟩ := append_cons_inj (colon_not_mem_entityWord hx.2) (colon_not_mem_entityWord hy.2) hrest
      rw [Text.ofNat_injective hbucket, String.toList_injective hentity, hvalue]
    | placeholder => cases hconstruction
    | conversation => cases hconstruction
  | placeholder nonce entity_type value =>
    cases y with
    | placeholder nonce' entity_type' value' =>
      obtain ⟨hnonce, hrest⟩ := append_cons_inj (colon_not_mem_hex hx.1.2) (colon_not_mem_hex hy.1.2) hfields
      obtain ⟨hentity, hvalue⟩ := append_cons_inj (colon_not_mem_entityWord hx.2) (colon_not_mem_entityWord hy.2) hrest
      rw [hnonce, String.toList_injective hentity, hvalue]
    | rolling => cases hconstruction
    | conversation => cases hconstruction
  | conversation policy_version session_key =>
    cases y with
    | conversation version' key' =>
      obtain ⟨hversion, hkey⟩ := append_cons_inj_last (colon_not_mem_hex hx.2.2) (colon_not_mem_hex hy.2.2) hfields
      rw [hversion, hkey]
    | rolling => cases hconstruction
    | placeholder => cases hconstruction

/-- A version that continues another one shares a message with it. -/
theorem exists_collision {policy_version other : Text}
    (hversion : 1 ≤ policy_version.length ∧ policy_version.length ≤ 64)
    (hother : 1 ≤ other.length ∧ other.length ≤ 64) (h : Continues policy_version other) :
    ∃ x y : HashInput, x.Admitted ∧ y.Admitted ∧ x.Under policy_version ∧ y.Under other ∧
      x.message = y.message ∧ x ≠ y := by
  obtain ⟨bucket, entity, rest, hentity, hrest, rfl⟩ := h
  have hne : policy_version ≠ policy_version ++ ':' :: (Text.ofNat bucket ++ ':' :: (entity ++ rest)) := by
    intro heq
    have hlength := congrArg List.length heq
    simp at hlength
  obtain ⟨value, hvalue⟩ : ∃ value,
      ':' :: value = rest ++ ':' :: (Text.ofNat 0 ++ ':' :: ("X".toList ++ ':' :: [])) := by
    cases hrest with
    | inl hnil => exact ⟨_, by rw [hnil]; rfl⟩
    | inr hmore =>
      obtain ⟨more, rfl⟩ := hmore
      exact ⟨_, rfl⟩
  refine ⟨.rolling policy_version bucket (String.ofList entity) value, .rolling _ 0 "X" [], ⟨hversion, ?_⟩,
    ⟨hother, by decide⟩, rfl, rfl, ?_, fun heq => hne (HashInput.rolling.inj heq).1⟩
  · rw [String.toList_ofList]
    exact hentity
  · rw [message, message]
    simp only [construction, fields, String.toList_ofList, hvalue, List.append_assoc, List.cons_append]

/-- Under two policy versions every message of the shared hash key determines its
    construction and its parameters exactly when neither version continues the other. -/
theorem messages_unambiguous_iff (policy_version other : Text)
    (hversion : 1 ≤ policy_version.length ∧ policy_version.length ≤ 64)
    (hother : 1 ≤ other.length ∧ other.length ≤ 64) :
    (∀ x y : HashInput, x.Admitted → y.Admitted → x.Under policy_version → y.Under other →
      x.message = y.message → x = y) ↔
    ¬ Continues policy_version other ∧ ¬ Continues other policy_version := by
  constructor
  · intro hunambiguous
    constructor
    · intro hcontinues
      obtain ⟨x, y, hx, hy, hunder, hunder', hmessage, hne⟩ := exists_collision hversion hother hcontinues
      exact hne (hunambiguous x y hx hy hunder hunder' hmessage)
    · intro hcontinues
      obtain ⟨x, y, hx, hy, hunder, hunder', hmessage, hne⟩ := exists_collision hother hversion hcontinues
      exact hne (hunambiguous y x hy hx hunder' hunder hmessage.symm).symm
  · intro hcontinues x y hx hy hunder hunder' hmessage
    exact message_inj hx hy hunder hunder' hcontinues.1 hcontinues.2 hmessage

theorem Continues.length_lt {policy_version other : Text} (h : Continues policy_version other) :
    policy_version.length < other.length := by
  obtain ⟨bucket, entity, rest, -, -, rfl⟩ := h
  rw [List.length_append, List.length_cons]
  omega

/-- Neither of two versions of one length continues the other. -/
theorem messages_unambiguous_iff_tenants :
    message (.rolling "tenant-a".toList 1 "X" "value".toList) ≠
      message (.rolling "tenant-b".toList 1 "X" "value".toList) := by
  have hunambiguous := (messages_unambiguous_iff "tenant-a".toList "tenant-b".toList (by decide) (by decide)).mpr
    ⟨fun h => absurd h.length_lt (by decide), fun h => absurd h.length_lt (by decide)⟩
  intro hmessage
  have heq :=
    hunambiguous (.rolling _ 1 "X" _) (.rolling _ 1 "X" _) ⟨by decide, by decide⟩ ⟨by decide, by decide⟩ rfl rfl
    hmessage
  exact absurd heq (by decide)

/-- The version "a" and the version "a:1:X" sign one message for different values. -/
theorem message_ambiguous :
    ¬ ∀ x y : HashInput, x.Admitted → y.Admitted → x.message = y.message → x = y := by
  intro hclaim
  have heq := hclaim (.rolling "a".toList 1 "X" "2:Y:secret".toList) (.rolling "a:1:X".toList 2 "Y" "secret".toList)
    ⟨by decide, by decide⟩ ⟨by decide, by decide⟩ (by decide)
  exact absurd heq (by decide)

end pii_engine.runtime
