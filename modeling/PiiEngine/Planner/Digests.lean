import PiiEngine.Planner.Substitution

open checked collections slices
open pii_engine.config

namespace pii_engine.planner.ActionPlanner

/-- The message whose keyed digest names a value inside one placeholder namespace. -/
def placeholder_message (nonce : Text) (entity_type : String) (value : Text) : Text :=
  "pii-engine:v1:placeholder:".toList ++ nonce ++ [':'] ++ entity_type.toList ++ [':'] ++ value

theorem placeholder_digest_eq (planner : ActionPlanner) (entity_type : String) (value nonce : Text) :
    planner.placeholder_digest entity_type value nonce =
      (planner.hmac.hexdigest (placeholder_message nonce entity_type value)).take 16 := rfl

theorem placeholder_message_inj {nonce : Text} {entity_type : String} {value value' : Text}
    (h : placeholder_message nonce entity_type value = placeholder_message nonce entity_type value') : value = value' :=
  List.append_cancel_left h

theorem length_placeholder_digest (planner : ActionPlanner) (entity_type : String) (value nonce : Text) :
    (planner.placeholder_digest entity_type value nonce).length = 16 := by
  rw [placeholder_digest, List.length_take, planner.hmac.length_hexdigest]
  rfl

/-- A placeholder of one namespace shows its prefix, its entity type and its digest. -/
theorem placeholder_text_inj {kind kind' entity_type entity_type' : String} {nonce digest digest' : Text}
    (hkind : kind = "REV" ∨ kind = "ENCRYPTED") (hkind' : kind' = "REV" ∨ kind' = "ENCRYPTED")
    (hlength : digest.length = digest'.length)
    (h : placeholder_text kind entity_type nonce digest = placeholder_text kind' entity_type' nonce digest') :
    kind = kind' ∧ entity_type = entity_type' ∧ digest = digest' := by
  have hsame : kind = kind' := by
    rcases hkind with rfl | rfl <;> rcases hkind' with rfl | rfl
    · rfl
    · simp [placeholder_text] at h
    · simp [placeholder_text] at h
    · rfl
  subst hsame
  simp only [placeholder_text, List.append_assoc, List.append_cancel_left_eq] at h
  have hrest : (['_'] ++ (nonce ++ (['_'] ++ (digest ++ ['>'])))).length =
      (['_'] ++ (nonce ++ (['_'] ++ (digest' ++ ['>'])))).length := by
    simp [hlength]
  obtain ⟨hentity, htail⟩ := List.append_inj' h hrest
  simp only [List.append_cancel_left_eq, List.append_cancel_right_eq] at htail
  exact ⟨rfl, String.toList_injective hentity, htail⟩

/-- The prefixes, entity types and values that a plan's placeholders are digests of, as its
    transformation caches them. -/
def digested (planner : ActionPlanner) (plan : LeafPlan) (nonce : Text) (clock : EntityMatch → Nat) :
    List (String × String × Text) :=
  match (sortOn descending_key plan.effective_matches).foldlM (planner.transform_match nonce clock)
    { result := plan.text, plan, placeholders := .empty } with
  | .ok s => s.placeholders.keys
  | .error _ => []

/-- The value that a placeholder is a digest of: the plaintext, or what it was encrypted to. -/
def KeyedBy (operate : Nat → String → PIIAction → OperatorArguments → Text → Text) (kind entity_type : String)
    (key value : Text) : Prop :=
  (kind = "REV" ∧ key = value) ∨ (kind = "ENCRYPTED" ∧ ∃ salt, key = operate salt entity_type .encrypt {} value)

/-- Every remembered placeholder is the digest of a cached value, for the plaintext it stands for. -/
def Keyed (planner : ActionPlanner) (operate : Nat → String → PIIAction → OperatorArguments → Text → Text)
    (nonce : Text) (keys : List (String × String × Text)) (reversal : OrderedDict Text Text) : Prop :=
  ∀ placeholder value, reversal.get? placeholder = some value → ∃ kind entity_type key,
    (kind, entity_type, key) ∈ keys ∧ KeyedBy operate kind entity_type key value ∧
      placeholder = placeholder_text kind entity_type nonce (planner.placeholder_digest entity_type key nonce)

section keyed
variable {planner : ActionPlanner} {nonce : Text} {s s' : TransformState} {item : EntityMatch}
  {operate : Nat → String → PIIAction → OperatorArguments → Text → Text}

theorem Keyed.mono {keys keys' : List (String × String × Text)} {reversal : OrderedDict Text Text}
    (h : planner.Keyed operate nonce keys reversal) (hsub : ∀ key ∈ keys, key ∈ keys') :
    planner.Keyed operate nonce keys' reversal := by
  intro placeholder value hget
  obtain ⟨kind, entity_type, key, hmem, hrest⟩ := h placeholder value hget
  exact ⟨kind, entity_type, key, hsub _ hmem, hrest⟩

/-- A used placeholder is cached, and the cache keeps all others. -/
theorem placeholder_keys (planner : ActionPlanner) (entity_type : String) (value nonce : Text) (kind : String)
    (cache : PlaceholderCache) :
    (kind, entity_type, value) ∈ (planner.placeholder entity_type value nonce kind cache).2.keys ∧
      ∀ key ∈ cache.keys, key ∈ (planner.placeholder entity_type value nonce kind cache).2.keys := by
  unfold placeholder
  split
  case h_1 cached hcached =>
    refine ⟨?_, fun key hkey => hkey⟩
    rw [OrderedDict.mem_keys_iff, hcached]
    rfl
  case h_2 =>
    refine ⟨OrderedDict.mem_keys_set.mpr (.inl rfl), ?_⟩
    intro key hkey
    exact OrderedDict.mem_keys_set.mpr (.inr hkey)

theorem Keyed.insert_placeholder {kind : String} {value : Text}
    (h : planner.Keyed operate nonce s.placeholders.keys s.plan.reversal)
    (hcache : planner.CacheSound nonce s.placeholders)
    (hvalue : KeyedBy operate kind item.entity_type value (slice s.result item.start item.stop))
    (hrun : planner.insert_placeholder nonce kind value s item = .ok s') :
    planner.Keyed operate nonce s'.placeholders.keys s'.plan.reversal := by
  obtain ⟨reversal, hreversal, hrun⟩ := bind_eq_ok.mp hrun
  obtain ⟨htext, -⟩ := placeholder_spec hcache item.entity_type value kind
  obtain ⟨hmem, hsub⟩ := planner.placeholder_keys item.entity_type value nonce kind s.placeholders
  obtain ⟨-, rfl⟩ := add_reversal_eq_ok hreversal
  rw [← Except.ok.inj hrun]
  intro placeholder original hget
  rw [OrderedDict.get?_set] at hget
  split at hget
  case isTrue hcreated =>
    cases hget
    refine ⟨kind, item.entity_type, value, hmem, hvalue, ?_⟩
    rw [hcreated, htext]
  case isFalse => exact h.mono hsub placeholder original hget

theorem Keyed.rewrite_match {now : Nat} (h : planner.Keyed operate nonce s.placeholders.keys s.plan.reversal)
    (hlocal : planner.anonymizer.RewritesSpan operate) (hcache : planner.CacheSound nonce s.placeholders)
    (hspan : item.SpanWithin s.result.length) {entry : Option EntityPolicy} {action : PIIAction}
    (hrun : planner.rewrite_match nonce now action entry s item = .ok s') :
    planner.Keyed operate nonce s'.placeholders.keys s'.plan.reversal := by
  unfold ActionPlanner.rewrite_match at hrun
  split at hrun
  case h_1 => exact h.insert_placeholder hcache (.inl ⟨rfl, rfl⟩) hrun
  case h_2 =>
    rw [← Except.ok.inj hrun]
    exact h
  case h_3 =>
    obtain ⟨encrypted, hencrypted, hrun⟩ := bind_eq_ok.mp hrun
    obtain ⟨salt, rfl⟩ := hlocal _ _ _ _ _ hspan hencrypted
    rw [cipher_eq hspan] at hrun
    refine h.insert_placeholder hcache (.inr ⟨rfl, salt, ?_⟩) hrun
    rw [slice_eq_originalValue hspan]
    rfl
  case h_4 =>
    obtain ⟨result, -, hrun⟩ := bind_eq_ok.mp hrun
    rw [← Except.ok.inj hrun]
    exact h

theorem Keyed.step {clock : EntityMatch → Nat} (h : planner.Keyed operate nonce s.placeholders.keys s.plan.reversal)
    (hlocal : planner.anonymizer.RewritesSpan operate) (hcache : planner.CacheSound nonce s.placeholders)
    (hspan : item.SpanWithin s.result.length) (hstep : planner.transform_match nonce clock s item = .ok s') :
    planner.Keyed operate nonce s'.placeholders.keys s'.plan.reversal := by
  cases transform_match_cases hstep with
  | inl hskip =>
    rw [hskip.2]
    exact h
  | inr hrun =>
    obtain ⟨-, rewritten, hrewritten, rfl⟩ := hrun
    have hkeyed := h.rewrite_match hlocal hcache hspan hrewritten
    exact hkeyed

/-- The reversal map of a transformed plan names digests of the values it cached. -/
theorem transform_keyed {plan plan' : LeafPlan} {clock : EntityMatch → Nat}
    (h : planner.transform plan nonce clock = .ok plan') (hlocal : planner.anonymizer.RewritesSpan operate)
    (hspans : ∀ region ∈ plan.effective_matches, region.SpanWithin plan.text.length)
    (hdisjoint : plan.effective_matches.Pairwise fun region later => region.stop ≤ later.start)
    (hreversal : plan.reversal = .empty) :
    planner.Keyed operate nonce (planner.digested plan nonce clock) plan'.reversal := by
  rw [transform, raiseIf_bind_eq_ok, bind_eq_ok] at h
  obtain ⟨-, final, hfinal, h⟩ := h
  have hstart : planner.Keyed operate nonce [] plan.reversal := by
    intro placeholder value hget
    rw [hreversal, OrderedDict.get?_empty] at hget
    cases hget
  obtain ⟨-, hkeyed⟩ := transform_loop
    (p := fun s => planner.Keyed operate nonce s.placeholders.keys s.plan.reversal) hfinal
    (obeys_writes hlocal nonce clock plan.effective_matches) hspans hdisjoint hreversal hstart
    fun s s' item hcache hspan hs hstep => hs.step hlocal hcache hspan hstep
  rw [← Except.ok.inj h, digested, hfinal]
  exact hkeyed

end keyed

end pii_engine.planner.ActionPlanner
