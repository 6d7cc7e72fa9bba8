import PiiEngine.Planner.Substitution

open checked collections slices
open pii_engine.config

namespace pii_engine.planner.ActionPlanner
variable {planner : ActionPlanner} {nonce : Text} {s s' : TransformState} {item : EntityMatch} {types : List String}

/-- Every remembered placeholder names one of the given types, whatever the operators do to
    the text around it. -/
def Names (planner : ActionPlanner) (nonce : Text) (types : List String) (reversal : OrderedDict Text Text) : Prop :=
  ∀ placeholder value, reversal.get? placeholder = some value → ∃ kind, (kind = "REV" ∨ kind = "ENCRYPTED") ∧
    ∃ entity_type ∈ types, ∃ key, placeholder =
      placeholder_text kind entity_type nonce (planner.placeholder_digest entity_type key nonce)

theorem Names.mono {more : List String} {reversal : OrderedDict Text Text} (h : planner.Names nonce types reversal)
    (hsubset : types ⊆ more) : planner.Names nonce more reversal := by
  intro placeholder value hget
  obtain ⟨kind, hkind, entity_type, htype, hrest⟩ := h placeholder value hget
  exact ⟨kind, hkind, entity_type, hsubset htype, hrest⟩

theorem names_insert_placeholder {kind : String} {value : Text} (h : planner.Names nonce types s.plan.reversal)
    (hcache : planner.CacheSound nonce s.placeholders) (hkind : kind = "REV" ∨ kind = "ENCRYPTED")
    (htype : item.entity_type ∈ types) (hrun : planner.insert_placeholder nonce kind value s item = .ok s') :
    planner.CacheSound nonce s'.placeholders ∧ planner.Names nonce types s'.plan.reversal := by
  obtain ⟨reversal, hreversal, hrun⟩ := bind_eq_ok.mp hrun
  obtain ⟨htext, hsound⟩ := placeholder_spec hcache item.entity_type value kind
  obtain ⟨-, rfl⟩ := add_reversal_eq_ok hreversal
  rw [← Except.ok.inj hrun]
  refine ⟨hsound, ?_⟩
  intro placeholder original hget
  rw [OrderedDict.get?_set] at hget
  split at hget
  · next hcreated => exact ⟨kind, hkind, item.entity_type, htype, value, hcreated.trans htext⟩
  · exact h placeholder original hget

theorem names_rewrite_match {now : Nat} {action : PIIAction} {entry : Option EntityPolicy}
    (h : planner.Names nonce types s.plan.reversal) (hcache : planner.CacheSound nonce s.placeholders)
    (htype : item.entity_type ∈ types) (hrun : planner.rewrite_match nonce now action entry s item = .ok s') :
    planner.CacheSound nonce s'.placeholders ∧ planner.Names nonce types s'.plan.reversal := by
  unfold rewrite_match at hrun
  split at hrun
  · exact names_insert_placeholder h hcache (Or.inl rfl) htype hrun
  · rw [← Except.ok.inj hrun]
    exact ⟨hcache, h⟩
  · obtain ⟨encrypted, -, hrun⟩ := bind_eq_ok.mp hrun
    exact names_insert_placeholder h hcache (Or.inr rfl) htype hrun
  · obtain ⟨result, -, hrun⟩ := bind_eq_ok.mp hrun
    rw [← Except.ok.inj hrun]
    exact ⟨hcache, h⟩

/-- The placeholders of a transformed plan name the types of its regions. -/
theorem transform_names {plan plan' : LeafPlan} {clock : EntityMatch → Nat}
    (h : planner.transform plan nonce clock = .ok plan') (hreversal : plan.reversal = .empty) :
    planner.Names nonce (plan.effective_matches.map EntityMatch.entity_type) plan'.reversal := by
  rw [transform, raiseIf_bind_eq_ok, bind_eq_ok] at h
  obtain ⟨-, final, hfinal, h⟩ := h
  rw [← Except.ok.inj h]
  let Inv (done : List EntityMatch) (s : TransformState) : Prop := planner.CacheSound nonce s.placeholders ∧
    planner.Names nonce (done.map EntityMatch.entity_type) s.plan.reversal
  have hstart : Inv [] { result := plan.text, plan, placeholders := .empty } := by
    refine ⟨?_, ?_⟩
    · intro kind entity_type value cached hcached
      rw [OrderedDict.get?_empty] at hcached
      cases hcached
    · intro placeholder value hget
      rw [hreversal, OrderedDict.get?_empty] at hget
      cases hget
  have hloop : Inv (sortOn descending_key plan.effective_matches) final := by
    refine foldlM_invariant Inv ?_ hstart hfinal
    rintro done item s s' ⟨hcache, hnames⟩ hstep
    have hmore : planner.Names nonce ((done ++ [item]).map EntityMatch.entity_type) s.plan.reversal :=
      hnames.mono (List.map_subset _ (List.subset_append_left done [item]))
    have htype : item.entity_type ∈ (done ++ [item]).map EntityMatch.entity_type := by simp
    cases transform_match_cases hstep with
    | inl hskip =>
      rw [hskip.2]
      exact ⟨hcache, hmore⟩
    | inr hrun =>
      obtain ⟨-, rewritten, hrewritten, rfl⟩ := hrun
      have hnames := names_rewrite_match hmore hcache htype hrewritten
      exact hnames
  exact hloop.2.mono (List.map_subset _ fun region hregion => mem_sortOn.mp hregion)

theorem newline_not_mem_entity {entity_type : String} (h : isEntityType entity_type = true) :
    '\n' ∉ entity_type.toList := by
  intro hmem
  rw [isEntityType, Bool.and_eq_true] at h
  have hword := h.1
  cases hlist : entity_type.toList with
  | nil =>
    rw [hlist] at hmem
    cases hmem
  | cons first rest =>
    rw [hlist, isEntityWord, Bool.and_eq_true, List.all_eq_true] at hword
    rw [hlist] at hmem
    cases List.mem_cons.mp hmem with
    | inl hfirst => exact absurd (hfirst ▸ hword.1) (by decide)
    | inr hrest => exact absurd (hword.2 _ hrest) (by decide)

/-- A placeholder is a single line. -/
theorem newline_not_mem_placeholder {kind entity_type : String} {key : Text} (hkind : kind = "REV" ∨ kind = "ENCRYPTED")
    (htype : isEntityType entity_type = true) (hnonce : '\n' ∉ nonce) :
    '\n' ∉ placeholder_text kind entity_type nonce (planner.placeholder_digest entity_type key nonce) := by
  have hdigest : '\n' ∉ planner.placeholder_digest entity_type key nonce := fun hmem =>
    absurd (planner.hmac.isHexDigit_hexdigest _ _ (List.mem_of_mem_take hmem)) (by decide)
  have hprefix : '\n' ∉ kind.toList := by
    rcases hkind with rfl | rfl
    · decide
    · decide
  simp [placeholder_text, hprefix, newline_not_mem_entity htype, hnonce, hdigest]

end pii_engine.planner.ActionPlanner
