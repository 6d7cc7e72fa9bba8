import PiiEngine.Planner.Transform

open checked collections slices
open pii_engine.config

namespace pii_engine.planner

/-- One executed region with its original value and what replaced it. -/
structure Rewrite where
  region : EntityMatch
  original : Text
  replacement : Text

def Rewrite.edit (rewrite : Rewrite) : Edit Char :=
  ⟨rewrite.region.start.toNat, rewrite.region.stop.toNat, rewrite.replacement⟩

/-- The value a region covers in the original text. -/
def originalValue (text : Text) (region : EntityMatch) : Text :=
  (text.take region.stop.toNat).drop region.start.toNat

namespace ActionPlanner

/-- The prefix of the placeholders an action inserts. -/
def placeholderKind : PIIAction → Option String
  | .reversible_replace => some "REV"
  | .encrypt => some "ENCRYPTED"
  | _ => none

/-- The action that rewrites the text: a masked reroute masks. -/
def executedAction (planner : ActionPlanner) (entity_type : String) : PIIAction :=
  if (planner.resolve entity_type).1 = .reroute then .mask else (planner.resolve entity_type).1

theorem placeholderKind_executedAction (planner : ActionPlanner) (entity_type : String) :
    placeholderKind (planner.executedAction entity_type) = placeholderKind (planner.resolve entity_type).1 := by
  unfold executedAction
  cases (planner.resolve entity_type).1 <;> rfl

/-- The string written over a region: a function of its entity type and original value,
    given the seconds read for a rolling hash and the salt drawn by the operator. -/
def replacementFor (planner : ActionPlanner)
    (operate : Nat → String → PIIAction → OperatorArguments → Text → Text) (nonce : Text)
    (now salt : Nat) (entity_type : String) (original : Text) : Text :=
  match planner.executedAction entity_type with
  | .reversible_replace =>
    placeholder_text "REV" entity_type nonce (planner.placeholder_digest entity_type original nonce)
  | .hash => planner.rolling_hash now entity_type original
  | .encrypt => placeholder_text "ENCRYPTED" entity_type nonce
      (planner.placeholder_digest entity_type (operate salt entity_type .encrypt {} original) nonce)
  | action => operate salt entity_type action
      (planner.operator_params action (planner.resolve entity_type).2 entity_type) original

/-- Every cached placeholder is the one its key names. -/
def CacheSound (planner : ActionPlanner) (nonce : Text) (cache : PlaceholderCache) : Prop :=
  ∀ kind entity_type value cached, cache.get? (kind, entity_type, value) = some cached →
    cached = placeholder_text kind entity_type nonce (planner.placeholder_digest entity_type value nonce)

theorem placeholder_spec {planner : ActionPlanner} {nonce : Text} {cache : PlaceholderCache}
    (hcache : planner.CacheSound nonce cache) (entity_type : String) (value : Text) (kind : String) :
    (planner.placeholder entity_type value nonce kind cache).1 =
        placeholder_text kind entity_type nonce (planner.placeholder_digest entity_type value nonce) ∧
      planner.CacheSound nonce (planner.placeholder entity_type value nonce kind cache).2 := by
  unfold placeholder
  split
  · next cached hcached => exact ⟨hcache _ _ _ _ hcached, hcache⟩
  · refine ⟨rfl, ?_⟩
    intro kind' entity_type' value' cached hcached
    rw [OrderedDict.get?_set] at hcached
    split at hcached
    · next hkey =>
      obtain ⟨rfl, rfl, rfl⟩ := Prod.mk.injEq .. ▸ hkey
      exact (Option.some.inj hcached).symm
    · exact hcache _ _ _ _ hcached

/-- How one rewriting step changes the reversal map. -/
def ReversalStep (action : PIIAction) (reversal reversal' : OrderedDict Text Text)
    (replacement original : Text) : Prop :=
  match placeholderKind action with
  | some _ => (∀ existing ∈ reversal.get? replacement, existing = original) ∧
      reversal' = reversal.set replacement original
  | none => reversal' = reversal

theorem add_reversal_eq_ok {reversal reversal' : OrderedDict Text Text} {placeholder value : Text}
    (h : add_reversal reversal placeholder value = .ok reversal') :
    (∀ existing ∈ reversal.get? placeholder, existing = value) ∧ reversal' = reversal.set placeholder value := by
  rw [add_reversal, raiseIf_bind_eq_ok] at h
  obtain ⟨hcheck, h⟩ := h
  refine ⟨?_, (Except.ok.inj h).symm⟩
  intro existing hexisting
  by_contra hne
  exact hcheck ⟨existing, hexisting, hne⟩

/-- What a rewriting step does to the text, the reversal map and the placeholder cache. -/
structure StepSpec (planner : ActionPlanner) (rule : EntityMatch → Text → Text → Prop) (nonce : Text)
    (s : TransformState) (item : EntityMatch) (replacement : Text) (s' : TransformState) : Prop where
  result : s'.result = s.result.take item.start.toNat ++ replacement ++ s.result.drop item.stop.toNat
  rule : rule item (originalValue s.result item) replacement
  cache : planner.CacheSound nonce s'.placeholders
  reversal : ReversalStep (planner.executedAction item.entity_type) s.plan.reversal s'.plan.reversal
    replacement (originalValue s.result item)

/-- The rule under which a region is replaced by a function of its type and value. -/
def Writes (planner : ActionPlanner)
    (operate : Nat → String → PIIAction → OperatorArguments → Text → Text) (nonce : Text)
    (clock : EntityMatch → Nat) (item : EntityMatch) (original replacement : Text) : Prop :=
  ∃ salt, replacement = planner.replacementFor operate nonce (clock item) salt item.entity_type original

/-- The rule under which a region is replaced by a placeholder of its type. -/
def WritesPlaceholder (planner : ActionPlanner) (nonce : Text) (item : EntityMatch)
    (_original replacement : Text) : Prop :=
  ∃ kind ∈ placeholderKind (planner.resolve item.entity_type).1, ∃ value, replacement =
    placeholder_text kind item.entity_type nonce (planner.placeholder_digest item.entity_type value nonce)

section rewrite_match
variable {planner : ActionPlanner} {nonce : Text} {s s' : TransformState} {item : EntityMatch}

theorem slice_eq_originalValue (hspan : item.SpanWithin s.result.length) :
    slice s.result item.start item.stop = originalValue s.result item :=
  slice_eq hspan.1 hspan.2.1.le hspan.2.2

private theorem splice_eq (hspan : item.SpanWithin s.result.length) (replacement : Text) :
    splice s.result item replacement =
      s.result.take item.start.toNat ++ replacement ++ s.result.drop item.stop.toNat := by
  obtain ⟨hstart, hlt, hstop⟩ := hspan
  rw [splice, sliceTo_eq hstart (by omega), sliceFrom_eq (by omega) hstop]

/-- An inserted placeholder names its value and is remembered for the original text. -/
theorem insert_placeholder_spec {kind : String} {value : Text}
    {rule : EntityMatch → Text → Text → Prop}
    (hkind : placeholderKind (planner.executedAction item.entity_type) = some kind)
    (hcache : planner.CacheSound nonce s.placeholders) (hspan : item.SpanWithin s.result.length)
    (hrule : rule item (originalValue s.result item) (placeholder_text kind item.entity_type nonce
      (planner.placeholder_digest item.entity_type value nonce)))
    (h : planner.insert_placeholder nonce kind value s item = .ok s') :
    planner.StepSpec rule nonce s item (placeholder_text kind item.entity_type nonce
      (planner.placeholder_digest item.entity_type value nonce)) s' := by
  obtain ⟨reversal, hreversal, h⟩ := bind_eq_ok.mp h
  obtain ⟨htext, hsound⟩ := placeholder_spec hcache item.entity_type value kind
  rw [htext, slice_eq_originalValue hspan] at hreversal
  rw [htext] at h
  rw [← Except.ok.inj h]
  refine ⟨splice_eq hspan _, hrule, hsound, ?_⟩
  rw [ReversalStep, hkind]
  exact add_reversal_eq_ok hreversal

/-- Placeholders are inserted whatever the operator does elsewhere in its output. -/
theorem rewrite_match_placeholder {now : Nat} {kind : String}
    (hkind : placeholderKind (planner.executedAction item.entity_type) = some kind)
    (hcache : planner.CacheSound nonce s.placeholders) (hspan : item.SpanWithin s.result.length)
    (h : planner.rewrite_match nonce now (planner.executedAction item.entity_type)
      (planner.resolve item.entity_type).2 s item = .ok s') :
    ∃ replacement, planner.StepSpec (planner.WritesPlaceholder nonce) nonce s item replacement s' := by
  have hrule : ∀ value, planner.WritesPlaceholder nonce item (originalValue s.result item)
      (placeholder_text kind item.entity_type nonce
        (planner.placeholder_digest item.entity_type value nonce)) := by
    intro value
    rw [placeholderKind_executedAction] at hkind
    exact ⟨kind, hkind, value, rfl⟩
  cases haction : planner.executedAction item.entity_type with
  | reversible_replace =>
    rw [haction] at h
    have hrev : "REV" = kind := by simpa [haction, placeholderKind] using hkind
    subst hrev
    exact ⟨_, insert_placeholder_spec hkind hcache hspan (hrule _) h⟩
  | encrypt =>
    rw [haction] at h
    have henc : "ENCRYPTED" = kind := by simpa [haction, placeholderKind] using hkind
    subst henc
    obtain ⟨encrypted, -, h⟩ := bind_eq_ok.mp h
    exact ⟨_, insert_placeholder_spec hkind hcache hspan (hrule _) h⟩
  | _ => simp [haction, placeholderKind] at hkind

/-- The cipher recovered from the change of length is what the operator wrote. -/
theorem cipher_eq {result cipher : Text} (hspan : item.SpanWithin result.length) :
    slice (result.take item.start.toNat ++ cipher ++ result.drop item.stop.toNat) item.start
      ((result.take item.start.toNat ++ cipher ++ result.drop item.stop.toNat).length -
        (result.length - item.stop)) = cipher := by
  obtain ⟨hstart, hlt, hstop⟩ := hspan
  have htake : (result.take item.start.toNat).length = item.start.toNat := by
    rw [List.length_take]
    omega
  have hlength : ((result.take item.start.toNat ++ cipher ++ result.drop item.stop.toNat).length : Int) -
      (result.length - item.stop) = item.start + cipher.length := by
    rw [List.length_append, List.length_append, htake, List.length_drop]
    omega
  have hnat : (item.start + cipher.length).toNat = (result.take item.start.toNat ++ cipher).length := by
    rw [List.length_append, htake]
    omega
  rw [hlength, slice_eq hstart (by omega) (by
    rw [List.length_append, List.length_append, htake]
    push_cast
    omega), hnat, List.take_left, List.drop_left' htake]

/-- An operator that rewrites only its span writes the replacement of the region. -/
theorem rewrite_match_writes {clock : EntityMatch → Nat}
    {operate : Nat → String → PIIAction → OperatorArguments → Text → Text}
    (hlocal : planner.anonymizer.RewritesSpan operate)
    (hcache : planner.CacheSound nonce s.placeholders) (hspan : item.SpanWithin s.result.length)
    (h : planner.rewrite_match nonce (clock item) (planner.executedAction item.entity_type)
      (planner.resolve item.entity_type).2 s item = .ok s') :
    ∃ replacement, planner.StepSpec (planner.Writes operate nonce clock) nonce s item replacement s' := by
  have hother : ∀ action, planner.executedAction item.entity_type = action → placeholderKind action = none →
      (∀ salt, planner.replacementFor operate nonce (clock item) salt item.entity_type (originalValue s.result item) =
        operate salt item.entity_type action
          (planner.operator_params action (planner.resolve item.entity_type).2 item.entity_type)
          (originalValue s.result item)) →
      (planner.anonymizer.apply s.result item action
        (planner.operator_params action (planner.resolve item.entity_type).2 item.entity_type) >>=
          fun result => pure { s with result }) = .ok s' →
      ∃ replacement, planner.StepSpec (planner.Writes operate nonce clock) nonce s item replacement s' := by
    intro action haction hkind hreplacement hrun
    obtain ⟨result, hresult, hrun⟩ := bind_eq_ok.mp hrun
    obtain ⟨salt, hsalt⟩ := hlocal _ _ _ _ _ hspan hresult
    refine ⟨operate salt item.entity_type action
      (planner.operator_params action (planner.resolve item.entity_type).2 item.entity_type)
      (originalValue s.result item), ?_⟩
    rw [← Except.ok.inj hrun]
    refine ⟨hsalt, ⟨salt, (hreplacement salt).symm⟩, hcache, ?_⟩
    rw [ReversalStep, haction, hkind]
  cases haction : planner.executedAction item.entity_type with
  | reversible_replace =>
    have hkind : placeholderKind (planner.executedAction item.entity_type) = some "REV" := by rw [haction]; rfl
    rw [haction] at h
    refine ⟨_, insert_placeholder_spec hkind hcache hspan ⟨0, ?_⟩ h⟩
    rw [replacementFor, haction, slice_eq_originalValue hspan]
  | encrypt =>
    have hkind : placeholderKind (planner.executedAction item.entity_type) = some "ENCRYPTED" := by
      rw [haction]; rfl
    rw [haction] at h
    obtain ⟨encrypted, hencrypted, h⟩ := bind_eq_ok.mp h
    obtain ⟨salt, rfl⟩ := hlocal _ _ _ _ _ hspan hencrypted
    refine ⟨_, insert_placeholder_spec hkind hcache hspan ⟨salt, ?_⟩ h⟩
    rw [replacementFor, haction, cipher_eq hspan]
    rfl
  | hash =>
    rw [haction] at h
    rw [← Except.ok.inj h]
    refine ⟨_, splice_eq hspan _, ⟨0, ?_⟩, hcache, ?_⟩
    · rw [replacementFor, haction, slice_eq_originalValue hspan]
    · rw [ReversalStep, haction]
      rfl
  | _ =>
    rw [haction] at h
    refine hother _ haction rfl ?_ h
    intro salt
    rw [replacementFor, haction]

end rewrite_match

/-- The text so far is the original with the regions handled so far substituted. The
    rewrites stand in text order, so each step adds one in front. -/
structure Substituted (planner : ActionPlanner) (rule : EntityMatch → Text → Text → Prop) (nonce text : Text)
    (done : List EntityMatch) (s : TransformState) (rewrites : List Rewrite) : Prop where
  regions : rewrites.map Rewrite.region = (planner.executed done).reverse
  originals : ∀ rewrite ∈ rewrites, rewrite.original = originalValue text rewrite.region
  rules : ∀ rewrite ∈ rewrites, rule rewrite.region rewrite.original rewrite.replacement
  result : s.result = substitute text 0 (rewrites.map Rewrite.edit)
  ordered : ∀ bound ≤ text.length, (∀ region ∈ done, bound ≤ region.start.toNat) →
    Ordered text.length bound (rewrites.map Rewrite.edit)
  cache : planner.CacheSound nonce s.placeholders
  reversal : ∀ placeholder value, s.plan.reversal.get? placeholder = some value ↔
    ∃ rewrite ∈ rewrites, (placeholderKind (planner.resolve rewrite.region.entity_type).1).isSome ∧
      rewrite.replacement = placeholder ∧ rewrite.original = value

/-- The rewriting of every executed region obeys a rule. -/
def Obeys (planner : ActionPlanner) (rule : EntityMatch → Text → Text → Prop) (nonce : Text)
    (clock : EntityMatch → Nat) (regions : List EntityMatch) : Prop :=
  ∀ s s' item, item ∈ planner.executed regions → planner.CacheSound nonce s.placeholders →
    item.SpanWithin s.result.length →
    planner.rewrite_match nonce (clock item) (planner.executedAction item.entity_type)
      (planner.resolve item.entity_type).2 s item = .ok s' →
    ∃ replacement, planner.StepSpec rule nonce s item replacement s'

theorem obeys_writes {planner : ActionPlanner}
    {operate : Nat → String → PIIAction → OperatorArguments → Text → Text}
    (hlocal : planner.anonymizer.RewritesSpan operate) (nonce : Text) (clock : EntityMatch → Nat)
    (regions : List EntityMatch) : planner.Obeys (planner.Writes operate nonce clock) nonce clock regions :=
  fun _ _ _ _ hcache hspan h => rewrite_match_writes hlocal hcache hspan h

theorem obeys_writesPlaceholder {planner : ActionPlanner} (nonce : Text) (clock : EntityMatch → Nat)
    {regions : List EntityMatch}
    (hreversible : ∀ region ∈ planner.executed regions,
      (placeholderKind (planner.resolve region.entity_type).1).isSome) :
    planner.Obeys (planner.WritesPlaceholder nonce) nonce clock regions := by
  intro s s' item hitem hcache hspan h
  obtain ⟨kind, hkind⟩ := Option.isSome_iff_exists.mp (hreversible item hitem)
  rw [← placeholderKind_executedAction] at hkind
  exact rewrite_match_placeholder hkind hcache hspan h

private theorem reversal_step {planner : ActionPlanner} {rewrites : List Rewrite}
    {reversal reversal' : OrderedDict Text Text} {item : EntityMatch} {original replacement : Text}
    (h : ∀ placeholder value, reversal.get? placeholder = some value ↔
      ∃ rewrite ∈ rewrites, (placeholderKind (planner.resolve rewrite.region.entity_type).1).isSome ∧
        rewrite.replacement = placeholder ∧ rewrite.original = value)
    (hstep : ReversalStep (planner.executedAction item.entity_type) reversal reversal' replacement original)
    (placeholder value : Text) :
    reversal'.get? placeholder = some value ↔
      ∃ rewrite ∈ ⟨item, original, replacement⟩ :: rewrites,
        (placeholderKind (planner.resolve rewrite.region.entity_type).1).isSome ∧
          rewrite.replacement = placeholder ∧ rewrite.original = value := by
  rw [List.exists_mem_cons_iff, ← h]
  rw [ReversalStep, placeholderKind_executedAction] at hstep
  cases hkind : placeholderKind (planner.resolve item.entity_type).1 with
  | none =>
    rw [hkind] at hstep
    simp [hstep]
  | some kind =>
    rw [hkind] at hstep
    obtain ⟨hconsistent, rfl⟩ := hstep
    rw [OrderedDict.get?_set]
    by_cases hplaceholder : placeholder = replacement
    · subst hplaceholder
      simp only [if_true, Option.some.injEq, Option.isSome_some, true_and]
      constructor
      · exact Or.inl
      · rintro (hvalue | hexisting)
        · exact hvalue
        · exact (hconsistent value hexisting).symm
    · simp [hplaceholder, Ne.symm hplaceholder]

/-- A region left of those handled so far stands in the current text where it stood in the
    original one. -/
theorem Substituted.within {planner : ActionPlanner} {rule : EntityMatch → Text → Text → Prop} {nonce text : Text}
    {done : List EntityMatch} {s : TransformState} {rewrites : List Rewrite} {item : EntityMatch}
    (h : planner.Substituted rule nonce text done s rewrites) (hspan : item.SpanWithin text.length)
    (hbefore : ∀ region ∈ done, item.stop ≤ region.start) :
    Ordered text.length item.stop.toNat (rewrites.map Rewrite.edit) ∧ item.SpanWithin s.result.length := by
  obtain ⟨hstart, hlt, hstop⟩ := hspan
  have hordered : Ordered text.length item.stop.toNat (rewrites.map Rewrite.edit) := by
    refine h.ordered _ (by omega) ?_
    intro region hregion
    have := hbefore region hregion
    omega
  refine ⟨hordered, hstart, hlt, ?_⟩
  have hlength := le_length_substitute hordered
  rw [← h.result] at hlength
  omega

theorem Substituted.step {planner : ActionPlanner} {rule : EntityMatch → Text → Text → Prop}
    {nonce text : Text} {clock : EntityMatch → Nat} {regions done : List EntityMatch}
    {s s' : TransformState} {rewrites : List Rewrite} {item : EntityMatch}
    (h : planner.Substituted rule nonce text done s rewrites) (hrule : planner.Obeys rule nonce clock regions)
    (hitem : item ∈ regions) (hspan : item.SpanWithin text.length)
    (hbefore : ∀ region ∈ done, item.stop ≤ region.start)
    (hstep : planner.transform_match nonce clock s item = .ok s') :
    ∃ rewrites', planner.Substituted rule nonce text (done ++ [item]) s' rewrites' := by
  obtain ⟨hordered, hwithin⟩ := h.within hspan hbefore
  obtain ⟨hstart, hlt, hstop⟩ := hspan
  cases transform_match_cases hstep with
  | inl hskip =>
    obtain ⟨hexec, rfl⟩ := hskip
    have hsame : planner.executed (done ++ [item]) = planner.executed done := by
      simp [executed_append_singleton, hexec]
    refine ⟨rewrites, hsame ▸ h.regions, h.originals, h.rules, h.result, ?_, h.cache, h.reversal⟩
    intro bound hbound hall
    exact h.ordered bound hbound fun region hregion => hall region (by simp [hregion])
  | inr hrun =>
    obtain ⟨hexec, rewritten, hrewritten, rfl⟩ := hrun
    have hsame : planner.executed (done ++ [item]) = planner.executed done ++ [item] := by
      simp [executed_append_singleton, hexec]
    have horiginal : originalValue s.result item = originalValue text item := by
      rw [originalValue, h.result]
      exact take_drop_substitute hordered
    have hexecuted : item ∈ planner.executed regions := List.mem_filter.mpr ⟨hitem, hexec⟩
    obtain ⟨replacement, hspec⟩ := hrule s rewritten item hexecuted h.cache hwithin hrewritten
    refine ⟨⟨item, originalValue text item, replacement⟩ :: rewrites, ?_, ?_, ?_, ?_, ?_, hspec.cache, ?_⟩
    · rw [List.map_cons, hsame, List.reverse_append, List.reverse_singleton, List.singleton_append, h.regions]
    · rw [List.forall_mem_cons]
      exact ⟨rfl, h.originals⟩
    · rw [List.forall_mem_cons]
      exact ⟨horiginal ▸ hspec.rule, h.rules⟩
    · rw [hspec.result, h.result, List.map_cons]
      exact substitute_cons (Rewrite.edit ⟨item, originalValue text item, replacement⟩) hordered
        (by simp only [Rewrite.edit]; omega)
    · intro bound hbound hall
      have := hall item (by simp)
      exact .cons this (by simp only [Rewrite.edit]; omega) hordered
    · have hreversal := hspec.reversal
      rw [horiginal] at hreversal
      exact fun placeholder value => reversal_step h.reversal hreversal placeholder value

/-- From right to left is the reverse of text order. -/
theorem sortOn_descending {regions : List EntityMatch} (hnonempty : ∀ region ∈ regions, region.start < region.stop)
    (hdisjoint : regions.Pairwise fun region later => region.stop ≤ later.start) :
    sortOn descending_key regions = regions.reverse := by
  have hascending : regions.Pairwise fun region later => region.start < later.start := by
    refine (List.Pairwise.and_mem.mp hdisjoint).imp ?_
    rintro a b ⟨ha, -, hab⟩
    have := hnonempty a ha
    omega
  have hsorted : regions.reverse.Pairwise fun a b => descending_key a ≤ descending_key b := by
    rw [List.pairwise_reverse]
    refine hascending.imp ?_
    intro a b hab
    rw [descending_key, descending_key, Prod.Lex.toLex_le_toLex]
    exact Or.inl (by show -b.start < -a.start; omega)
  rw [← sortOn_eq_self hsorted]
  refine sortOn_eq_of_perm (List.reverse_perm regions).symm ?_
  intro a ha b hb hkey
  have hstart : a.start = b.start := by
    simp only [descending_key, EmbeddingLike.apply_eq_iff_eq, Prod.mk.injEq, neg_inj] at hkey
    exact hkey.1
  by_contra hne
  have hsymm : Std.Symm fun a b : EntityMatch => a.start ≠ b.start := ⟨fun _ _ h => h.symm⟩
  have hdistinct : regions.Pairwise fun a b => a.start ≠ b.start := hascending.imp fun h => h.ne
  exact hdistinct.forall ha hb hne hstart

/-- The loop from right to left substitutes the executed regions, and keeps whatever a step on
    a region of the current text keeps. -/
theorem transform_loop {planner : ActionPlanner} {rule : EntityMatch → Text → Text → Prop} {plan : LeafPlan}
    {nonce : Text} {clock : EntityMatch → Nat} {final : TransformState} {p : TransformState → Prop}
    (hfinal : (sortOn descending_key plan.effective_matches).foldlM (planner.transform_match nonce clock)
      { result := plan.text, plan, placeholders := .empty } = .ok final)
    (hrule : planner.Obeys rule nonce clock plan.effective_matches)
    (hspans : ∀ region ∈ plan.effective_matches, region.SpanWithin plan.text.length)
    (hdisjoint : plan.effective_matches.Pairwise fun region later => region.stop ≤ later.start)
    (hreversal : plan.reversal = .empty) (hstart : p { result := plan.text, plan, placeholders := .empty })
    (hkept : ∀ s s' item, planner.CacheSound nonce s.placeholders → item.SpanWithin s.result.length → p s →
      planner.transform_match nonce clock s item = .ok s' → p s') :
    (∃ rewrites, planner.Substituted rule nonce plan.text plan.effective_matches.reverse final rewrites) ∧
      p final := by
  rw [sortOn_descending (fun region hregion => (hspans region hregion).2.1) hdisjoint] at hfinal
  have hempty : ∃ rewrites, planner.Substituted rule nonce plan.text []
      { result := plan.text, plan, placeholders := .empty } rewrites := by
    refine ⟨[], by simp [executed], by simp, by simp, by simp [substitute], fun bound hbound _ => .nil hbound,
      ?_, ?_⟩
    · intro kind entity_type value cached hcached
      simp at hcached
    · simp [hreversal]
  refine foldlM_split_invariant (fun done (s : TransformState) =>
    (∃ rewrites, planner.Substituted rule nonce plan.text done s rewrites) ∧ p s) ?_ ⟨hempty, hstart⟩ hfinal
  rintro before item after s s' hsplit ⟨⟨rewrites, hs⟩, hkept_s⟩ hstep
  change plan.effective_matches.reverse = _ at hsplit
  have hmem : item ∈ plan.effective_matches := by
    rw [← List.mem_reverse, hsplit]
    simp
  have hreverse : (before ++ item :: after).Pairwise fun later region => region.stop ≤ later.start := by
    rw [← hsplit, List.pairwise_reverse]
    exact hdisjoint
  have hbefore : ∀ region ∈ before, item.stop ≤ region.start :=
    fun region hregion => (List.pairwise_append.mp hreverse).2.2 region hregion item (by simp)
  exact ⟨hs.step hrule hmem (hspans item hmem) hbefore hstep,
    hkept s s' item hs.cache (hs.within (hspans item hmem) hbefore).2 hkept_s hstep⟩

/-- The loop from right to left substitutes all executed regions at once. -/
theorem transform_substituted {planner : ActionPlanner} {rule : EntityMatch → Text → Text → Prop}
    {plan plan' : LeafPlan} {nonce : Text} {clock : EntityMatch → Nat}
    (h : planner.transform plan nonce clock = .ok plan')
    (hrule : planner.Obeys rule nonce clock plan.effective_matches)
    (hspans : ∀ region ∈ plan.effective_matches, region.SpanWithin plan.text.length)
    (hdisjoint : plan.effective_matches.Pairwise fun region later => region.stop ≤ later.start)
    (hreversal : plan.reversal = .empty) :
    ∃ rewrites : List Rewrite,
      rewrites.map Rewrite.region = planner.executed plan.effective_matches ∧
      (∀ rewrite ∈ rewrites, rewrite.original = originalValue plan.text rewrite.region) ∧
      (∀ rewrite ∈ rewrites, rule rewrite.region rewrite.original rewrite.replacement) ∧
      Ordered plan.text.length 0 (rewrites.map Rewrite.edit) ∧
      plan'.text = substitute plan.text 0 (rewrites.map Rewrite.edit) ∧
      ∀ placeholder value, plan'.reversal.get? placeholder = some value ↔
        ∃ rewrite ∈ rewrites, (placeholderKind (planner.resolve rewrite.region.entity_type).1).isSome ∧
          rewrite.replacement = placeholder ∧ rewrite.original = value := by
  rw [transform, raiseIf_bind_eq_ok, bind_eq_ok] at h
  obtain ⟨-, final, hfinal, h⟩ := h
  obtain ⟨⟨rewrites, hrewrites⟩, -⟩ := transform_loop (p := fun _ => True) hfinal hrule hspans hdisjoint hreversal
    trivial fun _ _ _ _ _ _ _ => trivial
  refine ⟨rewrites, ?_, hrewrites.originals, hrewrites.rules, hrewrites.ordered 0 (Nat.zero_le _) (by simp),
    ?_, ?_⟩
  · rw [hrewrites.regions, executed, executed, List.filter_reverse, List.reverse_reverse]
  · rw [← Except.ok.inj h]
    exact hrewrites.result
  · rw [← Except.ok.inj h]
    exact hrewrites.reversal

end ActionPlanner

end pii_engine.planner
