import PiiEngine.Planner.Digests

open checked collections slices
open pii_engine.config

namespace pii_engine.planner.ActionPlanner

/-- The operators answer on every span, under the parameters that the policy gives them. -/
structure Answered (planner : ActionPlanner) : Prop where
  encrypt : ∀ text (item : EntityMatch), item.SpanWithin text.length →
    ∃ output, planner.anonymizer.apply text item .encrypt {} = .ok output
  ordinary : ∀ text (item : EntityMatch), item.SpanWithin text.length → ∀ action ∈ [PIIAction.mask, .replace, .redact],
    ∃ output, planner.anonymizer.apply text item action
      (planner.operator_params action (planner.resolve item.entity_type).2 item.entity_type) = .ok output

/-- The placeholder that rewriting a match asks for: its prefix, entity type and value. -/
def placeholder_request (planner : ActionPlanner) (s : TransformState) (item : EntityMatch) :
    Option (String × String × Text) :=
  if planner.executes item.entity_type then
    match planner.executedAction item.entity_type with
    | .reversible_replace => some ("REV", item.entity_type, slice s.result item.start item.stop)
    | .encrypt =>
      match planner.anonymizer.apply s.result item .encrypt {} with
      | .ok encrypted => some ("ENCRYPTED", item.entity_type,
          slice encrypted item.start (encrypted.length - (s.result.length - item.stop)))
      | .error _ => none
    | _ => none
  else none

/-- The placeholders that rewriting some matches asks for, up to the first failure. -/
def placeholder_requests (planner : ActionPlanner) (nonce : Text) (clock : EntityMatch → Nat) :
    TransformState → List EntityMatch → List (String × String × Text)
  | _, [] => []
  | s, item :: items => (planner.placeholder_request s item).toList ++
      match planner.transform_match nonce clock s item with
      | .ok s' => planner.placeholder_requests nonce clock s' items
      | .error _ => []

/-- The placeholders that transforming a plan asks for. -/
def plan_requests (planner : ActionPlanner) (plan : LeafPlan) (nonce : Text) (clock : EntityMatch → Nat) :
    List (String × String × Text) :=
  planner.placeholder_requests nonce clock { result := plan.text, plan, placeholders := .empty }
    (sortOn descending_key plan.effective_matches)

/-- Different values have different digests. -/
def DigestsDistinct (planner : ActionPlanner) (nonce : Text) (keys : List (String × String × Text)) : Prop :=
  ∀ kind entity_type value value', (kind, entity_type, value) ∈ keys → (kind, entity_type, value') ∈ keys →
    planner.placeholder_digest entity_type value nonce = planner.placeholder_digest entity_type value' nonce →
    value = value'

instance (planner : ActionPlanner) (nonce : Text) (keys : List (String × String × Text)) :
    Decidable (planner.DigestsDistinct nonce keys) :=
  decidable_of_iff (∀ first ∈ keys, ∀ second ∈ keys, first.1 = second.1 → first.2.1 = second.2.1 →
      planner.placeholder_digest first.2.1 first.2.2 nonce = planner.placeholder_digest second.2.1 second.2.2 nonce →
      first.2.2 = second.2.2) <| by
    constructor
    · intro h kind entity_type value value' hvalue hvalue' hdigest
      exact h _ hvalue _ hvalue' rfl rfl hdigest
    · rintro h ⟨kind, entity_type, value⟩ hvalue ⟨kind', entity_type', value'⟩ hvalue' rfl rfl hdigest
      exact h kind entity_type value value' hvalue hvalue' hdigest

section completion
variable {planner : ActionPlanner} {nonce : Text} {s : TransformState} {item : EntityMatch}
  {operate : Nat → String → PIIAction → OperatorArguments → Text → Text} {decrypt : String → Text → Text}
  {keys : List (String × String × Text)} {reversal : OrderedDict Text Text}

theorem KeyedBy.kind {kind entity_type : String} {key value : Text} (h : KeyedBy operate kind entity_type key value) :
    kind = "REV" ∨ kind = "ENCRYPTED" :=
  h.imp And.left And.left

/-- A cached value stands for one plaintext. -/
theorem KeyedBy.unique {kind entity_type : String} {key value value' : Text}
    (hdecrypt : ∀ salt entity_type value, decrypt entity_type (operate salt entity_type .encrypt {} value) = value)
    (h : KeyedBy operate kind entity_type key value) (h' : KeyedBy operate kind entity_type key value') :
    value = value' := by
  rcases h with ⟨rfl, rfl⟩ | ⟨rfl, salt, hkey⟩
  · rcases h' with ⟨-, rfl⟩ | ⟨hkind, -⟩
    · rfl
    · exact absurd hkind (by decide)
  · rcases h' with ⟨hkind, -⟩ | ⟨-, salt', hkey'⟩
    · exact absurd hkind (by decide)
    · rw [← hdecrypt salt entity_type value, ← hkey, hkey', hdecrypt]

/-- One placeholder stands for one value, as long as digests differ. -/
theorem Keyed.unique (hkeyed : planner.Keyed operate nonce keys reversal)
    (hdecrypt : ∀ salt entity_type value, decrypt entity_type (operate salt entity_type .encrypt {} value) = value)
    (hdistinct : planner.DigestsDistinct nonce keys) {kind entity_type : String} {key value existing : Text}
    (hkey : (kind, entity_type, key) ∈ keys) (hvalue : KeyedBy operate kind entity_type key value)
    (hexisting : reversal.get? (placeholder_text kind entity_type nonce
      (planner.placeholder_digest entity_type key nonce)) = some existing) : existing = value := by
  obtain ⟨kind', entity_type', key', hkey', hvalue', htext⟩ := hkeyed _ _ hexisting
  obtain ⟨rfl, rfl, hdigest⟩ := placeholder_text_inj hvalue.kind hvalue'.kind
    (by rw [length_placeholder_digest, length_placeholder_digest]) htext
  rw [hdistinct _ _ _ _ hkey hkey' hdigest] at hvalue
  exact hvalue'.unique hdecrypt hvalue

theorem mem_keys_placeholder {entity_type : String} {value : Text} {kind : String} {cache : PlaceholderCache}
    {key : String × String × Text} (h : key ∈ (planner.placeholder entity_type value nonce kind cache).2.keys) :
    key = (kind, entity_type, value) ∨ key ∈ cache.keys := by
  unfold placeholder at h
  split at h
  · exact Or.inr h
  · exact OrderedDict.mem_keys_set.mp h

theorem insert_placeholder_total {kind : String} {value : Text}
    (hkeyed : planner.Keyed operate nonce s.placeholders.keys s.plan.reversal)
    (hcache : planner.CacheSound nonce s.placeholders)
    (hdecrypt : ∀ salt entity_type value, decrypt entity_type (operate salt entity_type .encrypt {} value) = value)
    (hdistinct : planner.DigestsDistinct nonce keys) (hcached : ∀ key ∈ s.placeholders.keys, key ∈ keys)
    (hkey : (kind, item.entity_type, value) ∈ keys)
    (hvalue : KeyedBy operate kind item.entity_type value (slice s.result item.start item.stop)) :
    ∃ s', planner.insert_placeholder nonce kind value s item = .ok s' ∧ ∀ key ∈ s'.placeholders.keys, key ∈ keys := by
  obtain ⟨htext, -⟩ := placeholder_spec hcache item.entity_type value kind
  have hadd : add_reversal s.plan.reversal (planner.placeholder item.entity_type value nonce kind s.placeholders).1
      (slice s.result item.start item.stop) = .ok (s.plan.reversal.set
        (planner.placeholder item.entity_type value nonce kind s.placeholders).1
        (slice s.result item.start item.stop)) := by
    rw [add_reversal, raiseIf_bind_eq_ok, htext]
    refine ⟨?_, rfl⟩
    rintro ⟨existing, hexisting, hne⟩
    exact hne ((hkeyed.mono hcached).unique hdecrypt hdistinct hkey hvalue hexisting)
  refine ⟨_, bind_eq_ok.mpr ⟨_, hadd, rfl⟩, ?_⟩
  intro key hmem
  cases mem_keys_placeholder hmem with
  | inl heq => exact heq ▸ hkey
  | inr hmem => exact hcached key hmem

/-- Rewriting an executed match succeeds. -/
theorem rewrite_match_total (now : Nat) (hanswered : planner.Answered)
    (hlocal : planner.anonymizer.RewritesSpan operate)
    (hkeyed : planner.Keyed operate nonce s.placeholders.keys s.plan.reversal)
    (hcache : planner.CacheSound nonce s.placeholders)
    (hdecrypt : ∀ salt entity_type value, decrypt entity_type (operate salt entity_type .encrypt {} value) = value)
    (hdistinct : planner.DigestsDistinct nonce keys) (hcached : ∀ key ∈ s.placeholders.keys, key ∈ keys)
    (hspan : item.SpanWithin s.result.length) (hexecutes : planner.executes item.entity_type = true)
    (hrequest : ∀ key ∈ planner.placeholder_request s item, key ∈ keys) :
    ∃ s', planner.rewrite_match nonce now (planner.executedAction item.entity_type)
      (planner.resolve item.entity_type).2 s item = .ok s' ∧ ∀ key ∈ s'.placeholders.keys, key ∈ keys := by
  obtain ⟨hpass, hblock, -⟩ := executes_iff.mp hexecutes
  have hordinary : ∀ action ∈ [PIIAction.mask, .replace, .redact],
      ∃ s', (planner.anonymizer.apply s.result item action
        (planner.operator_params action (planner.resolve item.entity_type).2 item.entity_type) >>=
          fun result => pure { s with result }) = .ok s' ∧ ∀ key ∈ s'.placeholders.keys, key ∈ keys := by
    intro action haction
    obtain ⟨output, houtput⟩ := hanswered.ordinary s.result item hspan action haction
    exact ⟨_, bind_eq_ok.mpr ⟨output, houtput, rfl⟩, hcached⟩
  rw [placeholder_request, if_pos hexecutes] at hrequest
  cases haction : planner.executedAction item.entity_type with
  | reversible_replace =>
    rw [haction] at hrequest
    exact insert_placeholder_total hkeyed hcache hdecrypt hdistinct hcached (hrequest _ rfl) (.inl ⟨rfl, rfl⟩)
  | hash => exact ⟨_, rfl, hcached⟩
  | encrypt =>
    obtain ⟨encrypted, hencrypted⟩ := hanswered.encrypt s.result item hspan
    rw [haction] at hrequest
    simp only [hencrypted] at hrequest
    have hvalue : KeyedBy operate "ENCRYPTED" item.entity_type
        (slice encrypted item.start (encrypted.length - (s.result.length - item.stop)))
        (slice s.result item.start item.stop) := by
      obtain ⟨salt, rfl⟩ := hlocal _ _ _ _ _ hspan hencrypted
      rw [cipher_eq hspan, slice_eq_originalValue hspan]
      exact .inr ⟨rfl, salt, rfl⟩
    obtain ⟨s', hs', hkeys⟩ := insert_placeholder_total hkeyed hcache hdecrypt hdistinct hcached (hrequest _ rfl) hvalue
    exact ⟨s', bind_eq_ok.mpr ⟨encrypted, hencrypted, hs'⟩, hkeys⟩
  | mask => exact hordinary .mask (by decide)
  | replace => exact hordinary .replace (by decide)
  | redact => exact hordinary .redact (by decide)
  | _ =>
    rw [executedAction] at haction
    split at haction
    · cases haction
    · simp_all

theorem transform_match_total (clock : EntityMatch → Nat) (hanswered : planner.Answered)
    (hlocal : planner.anonymizer.RewritesSpan operate)
    (hkeyed : planner.Keyed operate nonce s.placeholders.keys s.plan.reversal)
    (hcache : planner.CacheSound nonce s.placeholders)
    (hdecrypt : ∀ salt entity_type value, decrypt entity_type (operate salt entity_type .encrypt {} value) = value)
    (hdistinct : planner.DigestsDistinct nonce keys) (hcached : ∀ key ∈ s.placeholders.keys, key ∈ keys)
    (hspan : item.SpanWithin s.result.length)
    (hrequest : ∀ key ∈ planner.placeholder_request s item, key ∈ keys) :
    ∃ s', planner.transform_match nonce clock s item = .ok s' ∧ ∀ key ∈ s'.placeholders.keys, key ∈ keys := by
  unfold transform_match
  cases hexecutes : planner.executes item.entity_type with
  | false => exact ⟨s, rfl, hcached⟩
  | true =>
    obtain ⟨s', hs', hkeys⟩ :=
      rewrite_match_total (clock item) hanswered hlocal hkeyed hcache hdecrypt hdistinct hcached
      hspan hexecutes hrequest
    exact ⟨_, bind_eq_ok.mpr ⟨s', hs', rfl⟩, hkeys⟩

/-- Rewriting from right to left never gets stuck, and caches only what it asked for. -/
theorem transform_loop_total {clock : EntityMatch → Nat} {text : Text} {regions done : List EntityMatch}
    {rewrites : List Rewrite} (hanswered : planner.Answered) (hlocal : planner.anonymizer.RewritesSpan operate)
    (hdecrypt : ∀ salt entity_type value, decrypt entity_type (operate salt entity_type .encrypt {} value) = value)
    (hdistinct : planner.DigestsDistinct nonce keys)
    (hspans : ∀ region ∈ regions, region.SpanWithin text.length)
    (hordered : (done ++ regions).Pairwise fun later region => region.stop ≤ later.start)
    (hsubstituted : planner.Substituted (planner.Writes operate nonce clock) nonce text done s rewrites)
    (hkeyed : planner.Keyed operate nonce s.placeholders.keys s.plan.reversal)
    (hcached : ∀ key ∈ s.placeholders.keys, key ∈ keys)
    (hrequests : ∀ key ∈ planner.placeholder_requests nonce clock s regions, key ∈ keys) :
    ∃ t, regions.foldlM (planner.transform_match nonce clock) s = .ok t ∧ ∀ key ∈ t.placeholders.keys, key ∈ keys := by
  induction regions generalizing done s rewrites with
  | nil => exact ⟨s, rfl, hcached⟩
  | cons item regions ih =>
    rw [List.forall_mem_cons] at hspans
    have hbefore : ∀ region ∈ done, item.stop ≤ region.start :=
      fun region hregion => (List.pairwise_append.mp hordered).2.2 region hregion item (by simp)
    have hwithin := (hsubstituted.within hspans.1 hbefore).2
    rw [placeholder_requests, List.forall_mem_append] at hrequests
    obtain ⟨s', hs', hcached'⟩ := transform_match_total clock hanswered hlocal hkeyed hsubstituted.cache hdecrypt
      hdistinct hcached hwithin fun key hkey => hrequests.1 key (Option.mem_toList.mpr hkey)
    have hrest := hrequests.2
    rw [hs'] at hrest
    obtain ⟨rewrites', hsubstituted'⟩ := hsubstituted.step (obeys_writes hlocal nonce clock [item]) (by simp) hspans.1
      hbefore hs'
    obtain ⟨t, ht, hkeys⟩ := ih hspans.2 (by simpa using hordered) hsubstituted'
      (hkeyed.step hlocal hsubstituted.cache hwithin hs') hcached' hrest
    exact ⟨t, by rw [List.foldlM_cons, bind_eq_ok]; exact ⟨s', hs', ht⟩, hkeys⟩

/-- A plan that is not blocked is transformed, as long as the values it digests differ in
    their digests. -/
theorem transform_total {plan : LeafPlan} (clock : EntityMatch → Nat) (hanswered : planner.Answered)
    (hlocal : planner.anonymizer.RewritesSpan operate)
    (hdecrypt : ∀ salt entity_type value, decrypt entity_type (operate salt entity_type .encrypt {} value) = value)
    (hspans : ∀ region ∈ plan.effective_matches, region.SpanWithin plan.text.length)
    (hdisjoint : plan.effective_matches.Pairwise fun region later => region.stop ≤ later.start)
    (hreversal : plan.reversal = .empty) (hblocked : plan.blocked = false)
    (hdistinct : planner.DigestsDistinct nonce keys)
    (hrequests : ∀ key ∈ planner.plan_requests plan nonce clock, key ∈ keys) :
    ∃ plan', planner.transform plan nonce clock = .ok plan' ∧
      ∀ key ∈ planner.digested plan nonce clock, key ∈ keys := by
  have hsorted := sortOn_descending (fun region hregion => (hspans region hregion).2.1) hdisjoint
  have hsubstituted : planner.Substituted (planner.Writes operate nonce clock) nonce plan.text []
      { result := plan.text, plan, placeholders := .empty } [] := by
    refine ⟨by simp [executed], by simp, by simp, by simp [substitute], fun bound hbound _ => .nil hbound, ?_, ?_⟩
    · intro kind entity_type value cached hcached
      simp at hcached
    · simp [hreversal]
  have hkeyed : planner.Keyed operate nonce (OrderedDict.empty : PlaceholderCache).keys plan.reversal := by
    intro placeholder value hget
    rw [hreversal, OrderedDict.get?_empty] at hget
    cases hget
  rw [plan_requests, hsorted] at hrequests
  obtain ⟨final, hfinal, hkeys⟩ := transform_loop_total hanswered hlocal hdecrypt hdistinct
    (fun region hregion => hspans region (List.mem_reverse.mp hregion))
    (by rw [List.nil_append, List.pairwise_reverse]; exact hdisjoint) hsubstituted hkeyed (by simp) hrequests
  rw [← hsorted] at hfinal
  refine ⟨{ final.plan with text := final.result }, ?_, ?_⟩
  · rw [transform, raiseIf_bind_eq_ok]
    exact ⟨by simp [hblocked], bind_eq_ok.mpr ⟨final, hfinal, rfl⟩⟩
  · rw [digested, hfinal]
    exact hkeys

end completion

end pii_engine.planner.ActionPlanner
