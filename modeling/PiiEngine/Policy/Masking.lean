import PiiEngine.Planner.Substitution
import PiiEngine.Policy.Plans

open checked collections slices
open pii_engine.config

namespace pii_engine.planner

/-- The parameters a mask takes from an entity's entry or from the default operator. -/
structure MaskParameters where
  masking_char : Char
  chars_to_mask : Nat
  from_end : Bool

namespace MaskParameters
variable (parameters : MaskParameters) {original : Text}

/-- A slice up to minus zero is empty. -/
def Empties : Prop := parameters.chars_to_mask = 0 ∧ parameters.from_end = true

instance : Decidable parameters.Empties := inferInstanceAs (Decidable (_ ∧ _))

/-- How many characters of a value are masked. -/
def count (width : Nat) : Nat := min parameters.chars_to_mask width

/-- A position of a value is under its mask. -/
def Covers (width i : Nat) : Prop :=
  parameters.from_end = true ∧ width - parameters.count width ≤ i ∨
    parameters.from_end = false ∧ i < parameters.count width

instance (width i : Nat) : Decidable (parameters.Covers width i) := inferInstanceAs (Decidable (_ ∨ _))

/-- A value with the characters at the configured end masked. -/
def mask (original : Text) : Text :=
  if parameters.from_end then
    original.take (original.length - parameters.count original.length) ++
      List.replicate (parameters.count original.length) parameters.masking_char
  else
    List.replicate (parameters.count original.length) parameters.masking_char ++
      original.drop (parameters.count original.length)

def arguments : OperatorArguments :=
  { masking_char := some parameters.masking_char
    chars_to_mask := some parameters.chars_to_mask
    from_end := some parameters.from_end }

theorem count_le (width : Nat) : parameters.count width ≤ width := Nat.min_le_right _ _

theorem length_mask (original : Text) : (parameters.mask original).length = original.length := by
  have hcount := parameters.count_le original.length
  unfold mask
  split
  · rw [List.length_append, List.length_take, List.length_replicate]
    omega
  · rw [List.length_append, List.length_drop, List.length_replicate]
    omega

/-- Under the mask stands the masking character, and beside it the value. -/
theorem getElem?_mask {i : Nat} (hi : i < original.length) :
    (parameters.mask original)[i]? =
      if parameters.Covers original.length i then some parameters.masking_char else original[i]? := by
  have hcount := parameters.count_le original.length
  rw [mask]
  cases hend : parameters.from_end with
  | true =>
    have hcovers : parameters.Covers original.length i ↔ original.length - parameters.count original.length ≤ i := by
      simp [Covers, hend]
    have hkept : (original.take (original.length - parameters.count original.length)).length =
        original.length - parameters.count original.length := by
      rw [List.length_take]
      omega
    rw [if_pos rfl]
    by_cases h : parameters.Covers original.length i
    · rw [if_pos h]
      rw [hcovers] at h
      rw [List.getElem?_append_right (by omega), List.getElem?_replicate, if_pos (by omega)]
    · rw [if_neg h]
      rw [hcovers] at h
      rw [List.getElem?_append_left (by omega), List.getElem?_take, if_pos (by omega)]
  | false =>
    have hcovers : parameters.Covers original.length i ↔ i < parameters.count original.length := by simp [Covers, hend]
    have hmasked := List.length_replicate (n := parameters.count original.length) (a := parameters.masking_char)
    rw [if_neg (by decide)]
    by_cases h : parameters.Covers original.length i
    · rw [if_pos h]
      rw [hcovers] at h
      rw [List.getElem?_append_left (by omega), List.getElem?_replicate, if_pos (by omega)]
    · rw [if_neg h]
      rw [hcovers] at h
      rw [List.getElem?_append_right (by omega), hmasked, List.getElem?_drop]
      congr 1
      omega

/-- The operator masks the value, unless it deletes it. -/
theorem operate_mask (salt : Nat) (entity_type : String) (original : Text) :
    test_anonymizer.operate salt entity_type .mask parameters.arguments original =
      if parameters.Empties then [] else parameters.mask original := by
  have hwritten : test_anonymizer.operate salt entity_type .mask parameters.arguments original =
      if parameters.from_end then
        sliceTo original (-(parameters.count original.length : Int)) ++
          List.replicate (parameters.count original.length) parameters.masking_char
      else
        List.replicate (parameters.count original.length) parameters.masking_char ++
          sliceFrom original (parameters.count original.length) := rfl
  have hcount := parameters.count_le original.length
  have hempties : parameters.Empties ↔ parameters.chars_to_mask = 0 ∧ parameters.from_end = true := Iff.rfl
  rw [hwritten, mask]
  cases hend : parameters.from_end with
  | true =>
    simp only [hempties, hend, if_true, and_true]
    rw [sliceTo, bound]
    by_cases hzero : parameters.count original.length = 0
    · rw [hzero]
      by_cases hchars : parameters.chars_to_mask = 0
      · simp [hchars]
      · -- an empty value has nothing to mask
        have hempty : original.length = 0 := by
          rw [count] at hzero
          omega
        simp [List.length_eq_zero_iff.mp hempty]
    · have hchars : parameters.chars_to_mask ≠ 0 := by
        intro h
        rw [count, h, Nat.zero_min] at hzero
        exact hzero rfl
      rw [if_pos (by omega), if_neg hchars]
      congr 2
      omega
  | false =>
    simp only [hempties, hend, Bool.false_eq_true, if_false, and_false]
    rw [sliceFrom_eq (by omega) (by omega), Int.toNat_natCast]

end MaskParameters

namespace ActionPlanner
variable {planner : ActionPlanner} {text : Text} {items : List EntityMatch} {reroute_as_block : Bool}
  {plan : LeafPlan} {nonce : Text} {clock : EntityMatch → Nat}

/-- An entity with an entry is masked by its parameters, any other by the default operator. -/
def mask_parameters (planner : ActionPlanner) (entity_type : String) : MaskParameters :=
  match (planner.resolve entity_type).2 with
  | some entry => ⟨entry.masking_char, entry.chars_to_mask, entry.from_end⟩
  | none =>
    let defaults := planner.policy.pii.default_operator
    ⟨defaults.masking_char, defaults.chars_to_mask, defaults.from_end⟩

theorem operator_params_mask (planner : ActionPlanner) (entity_type : String) :
    planner.operator_params .mask (planner.resolve entity_type).2 entity_type =
      (planner.mask_parameters entity_type).arguments := by
  unfold mask_parameters
  cases (planner.resolve entity_type).2 <;> rfl

/-- The positions of a region that its mask covers: as many as configured, but no more than
    the region has, at the configured end. -/
def masked_points (planner : ActionPlanner) (region : EntityMatch) : Set Int :=
  let parameters := planner.mask_parameters region.entity_type
  let count := min (parameters.chars_to_mask : Int) (region.stop - region.start)
  if parameters.from_end then {i | region.stop - count ≤ i ∧ i < region.stop}
  else {i | region.start ≤ i ∧ i < region.start + count}

/-- A text is the plan's text with the executed regions masked and nothing else changed. -/
structure MasksExactly (planner : ActionPlanner) (plan : LeafPlan) (masked : Text) : Prop where
  length_eq : masked.length = plan.text.length
  under : ∀ region ∈ planner.executed plan.effective_matches, ∀ i : Nat, (i : Int) ∈ planner.masked_points region →
    masked[i]? = some (planner.mask_parameters region.entity_type).masking_char
  beside : ∀ region ∈ planner.executed plan.effective_matches, ∀ i : Nat, (i : Int) ∈ EntityMatch.spans.points region →
    (i : Int) ∉ planner.masked_points region → masked[i]? = plan.text[i]?
  outside : ∀ i : Nat,
    (∀ region ∈ planner.executed plan.effective_matches, (i : Int) ∉ EntityMatch.spans.points region) →
      masked[i]? = plan.text[i]?

theorem mem_masked_points {region : EntityMatch} (hstart : 0 ≤ region.start) (hle : region.start ≤ region.stop)
    {i : Nat} :
    (i : Int) ∈ planner.masked_points region ↔ (region.start.toNat ≤ i ∧ i < region.stop.toNat) ∧
      (planner.mask_parameters region.entity_type).Covers (region.stop.toNat - region.start.toNat)
        (i - region.start.toNat) := by
  have hmin := (planner.mask_parameters region.entity_type).count_le (region.stop.toNat - region.start.toNat)
  have hcount : min ((planner.mask_parameters region.entity_type).chars_to_mask : Int) (region.stop - region.start) =
      (planner.mask_parameters region.entity_type).count (region.stop.toNat - region.start.toNat) := by
    rw [MaskParameters.count]
    omega
  rw [masked_points, MaskParameters.Covers, hcount]
  cases (planner.mask_parameters region.entity_type).from_end with
  | true =>
    rw [if_pos rfl, Set.mem_ofPred_eq]
    simp only [true_and, Bool.true_eq_false, false_and, or_false]
    omega
  | false =>
    rw [if_neg (by decide), Set.mem_ofPred_eq]
    simp only [Bool.false_eq_true, false_and, true_and, false_or]
    omega

/-- The operator of the unit-test runtime masks every span. -/
theorem transform_match_masked {s : TransformState} {item : EntityMatch}
    (hanonymizer : planner.anonymizer = TestAnonymizer)
    (hmask : planner.executes item.entity_type = true → planner.executedAction item.entity_type = .mask) :
    ∃ s', planner.transform_match nonce clock s item = .ok s' := by
  unfold transform_match
  cases hexecutes : planner.executes item.entity_type with
  | false => exact ⟨s, rfl⟩
  | true =>
    have haction := hmask hexecutes
    obtain ⟨result, hresult⟩ : ∃ result, planner.anonymizer.apply s.result item .mask
        (planner.operator_params .mask (planner.resolve item.entity_type).2 item.entity_type) = .ok result := by
      rw [hanonymizer]
      exact ⟨_, rfl⟩
    have hrewritten : planner.rewrite_match nonce (clock item) (planner.executedAction item.entity_type)
        (planner.resolve item.entity_type).2 s item = .ok { s with result } := by
      rw [haction]
      exact bind_eq_ok.mpr ⟨result, hresult, rfl⟩
    exact ⟨_, bind_eq_ok.mpr ⟨_, hrewritten, rfl⟩⟩

theorem transform_masked (nonce : Text) (clock : EntityMatch → Nat) (hanonymizer : planner.anonymizer = TestAnonymizer)
    (hblocked : plan.blocked = false)
    (hmask : ∀ region ∈ planner.executed plan.effective_matches, planner.executedAction region.entity_type = .mask) :
    ∃ plan', planner.transform plan nonce clock = .ok plan' := by
  have hstep : ∀ item ∈ sortOn descending_key plan.effective_matches, ∀ s,
      ∃ s', planner.transform_match nonce clock s item = .ok s' := by
    intro item hitem s
    refine transform_match_masked hanonymizer fun hexecutes => hmask item ?_
    exact List.mem_filter.mpr ⟨mem_sortOn.mp hitem, hexecutes⟩
  obtain ⟨final, hfinal⟩ := foldlM_total_of_step hstep { result := plan.text, plan, placeholders := .empty }
  refine ⟨{ final.plan with text := final.result }, ?_⟩
  rw [transform, raiseIf_bind_eq_ok]
  exact ⟨by simp [hblocked], bind_eq_ok.mpr ⟨final, hfinal, rfl⟩⟩

/-- What is written over a region that is masked. -/
theorem replacementFor_mask {now salt : Nat} {entity_type : String} (original : Text)
    (hmask : planner.executedAction entity_type = .mask) :
    planner.replacementFor test_anonymizer.operate nonce now salt entity_type original =
      if (planner.mask_parameters entity_type).Empties then []
      else (planner.mask_parameters entity_type).mask original := by
  rw [replacementFor, hmask]
  dsimp only
  rw [operator_params_mask, MaskParameters.operate_mask]

def mask_edit (planner : ActionPlanner) (text : Text) (region : EntityMatch) : Edit Char :=
  ⟨region.start.toNat, region.stop.toNat,
    if (planner.mask_parameters region.entity_type).Empties then []
    else (planner.mask_parameters region.entity_type).mask (originalValue text region)⟩

/-- A transformation that masks substitutes each executed region by its mask, or by nothing. -/
theorem transform_masks {plan' : LeafPlan} (hanonymizer : planner.anonymizer = TestAnonymizer)
    (h : planner.transform plan nonce clock = .ok plan') (hprepared : planner.Prepared text items reroute_as_block plan)
    (hmask : ∀ region ∈ planner.executed plan.effective_matches, planner.executedAction region.entity_type = .mask) :
    Ordered plan.text.length 0 ((planner.executed plan.effective_matches).map (planner.mask_edit plan.text)) ∧
      plan'.text =
        substitute plan.text 0 ((planner.executed plan.effective_matches).map (planner.mask_edit plan.text)) := by
  have hlocal : planner.anonymizer.RewritesSpan test_anonymizer.operate := by
    rw [hanonymizer]
    exact TestAnonymizer_rewritesSpan
  obtain ⟨rewrites, hregions, horiginals, hrules, hordered, htext, -⟩ := transform_substituted h
    (obeys_writes hlocal nonce clock plan.effective_matches) hprepared.spans hprepared.resolved.disjoint
    hprepared.untransformed.2.2
  have hedits : (planner.executed plan.effective_matches).map (planner.mask_edit plan.text) =
      rewrites.map Rewrite.edit := by
    rw [← hregions, List.map_map]
    refine List.map_congr_left fun rewrite hrewrite => ?_
    have hregion : rewrite.region ∈ planner.executed plan.effective_matches := by
      rw [← hregions]
      exact List.mem_map_of_mem hrewrite
    obtain ⟨salt, hreplacement⟩ := hrules rewrite hrewrite
    rw [replacementFor_mask _ (hmask _ hregion), horiginals rewrite hrewrite] at hreplacement
    rw [Rewrite.edit, hreplacement]
    rfl
  rw [hedits]
  exact ⟨hordered, htext⟩

section region
variable {region : EntityMatch}

theorem length_originalValue (hspan : region.SpanWithin text.length) :
    (originalValue text region).length = region.stop.toNat - region.start.toNat := by
  obtain ⟨hstart, hlt, hstop⟩ := hspan
  rw [originalValue, List.length_drop, List.length_take]
  omega

theorem getElem?_originalValue {i : Nat} (hstart : region.start.toNat ≤ i) (hi : i < region.stop.toNat) :
    (originalValue text region)[i - region.start.toNat]? = text[i]? := by
  rw [originalValue, List.getElem?_drop, List.getElem?_take, if_pos (by omega)]
  congr 1
  omega

theorem length_mask_edit_le (hspan : region.SpanWithin text.length) :
    (planner.mask_edit text region).replacement.length ≤
      (planner.mask_edit text region).stop - (planner.mask_edit text region).start := by
  change (if _ then _ else _ : Text).length ≤ region.stop.toNat - region.start.toNat
  rw [← length_originalValue hspan]
  split
  · exact Nat.zero_le _
  · exact Nat.le_of_eq (MaskParameters.length_mask _ _)

/-- Only a deletion changes the length. -/
theorem length_mask_edit_iff (hspan : region.SpanWithin text.length) :
    (planner.mask_edit text region).replacement.length =
        (planner.mask_edit text region).stop - (planner.mask_edit text region).start ↔
      ¬ (planner.mask_parameters region.entity_type).Empties := by
  have hwidth : 0 < (originalValue text region).length := by
    rw [length_originalValue hspan]
    obtain ⟨hstart, hlt, -⟩ := hspan
    omega
  change (if _ then _ else _ : Text).length = region.stop.toNat - region.start.toNat ↔ _
  rw [← length_originalValue hspan]
  split
  case isTrue hempties =>
    refine iff_of_false ?_ (not_not.mpr hempties)
    rw [List.length_nil]
    omega
  case isFalse hempties => exact iff_of_true (MaskParameters.length_mask _ _) hempties

end region

/-- Masking keeps the length and touches only what it should, exactly when no executed region
    has nothing to mask at its end. -/
theorem transform_masks_exactly_iff (hanonymizer : planner.anonymizer = TestAnonymizer)
    (hprepared : planner.prepare text items reroute_as_block = .ok plan) (hblocked : plan.blocked = false)
    (hmask : ∀ region ∈ planner.executed plan.effective_matches, planner.executedAction region.entity_type = .mask) :
    (∃ plan', planner.transform plan nonce clock = .ok plan' ∧ planner.MasksExactly plan plan'.text) ↔
      ∀ region ∈ planner.executed plan.effective_matches,
        ¬ ((planner.mask_parameters region.entity_type).chars_to_mask = 0 ∧
          (planner.mask_parameters region.entity_type).from_end = true) := by
  have hprepared' := prepare_prepared hprepared
  have hspans : ∀ region ∈ planner.executed plan.effective_matches, region.SpanWithin plan.text.length :=
    fun region hregion => hprepared'.spans region (List.mem_of_mem_filter hregion)
  obtain ⟨plan', htransform⟩ := transform_masked nonce clock hanonymizer hblocked hmask
  obtain ⟨hordered, htext⟩ := transform_masks hanonymizer htransform hprepared' hmask
  have hlength := length_substitute_eq_iff hordered
    (List.forall_mem_map.mpr fun region hregion => length_mask_edit_le (hspans region hregion))
  have hkept : (∀ edit ∈ (planner.executed plan.effective_matches).map (planner.mask_edit plan.text),
      edit.replacement.length = edit.stop - edit.start) ↔ ∀ region ∈ planner.executed plan.effective_matches,
        ¬ (planner.mask_parameters region.entity_type).Empties :=
    List.forall_mem_map.trans (forall₂_congr fun region hregion => length_mask_edit_iff (hspans region hregion))
  rw [hkept, ← htext, Nat.sub_zero] at hlength
  constructor
  · rintro ⟨other, hother, hexact⟩
    rw [htransform] at hother
    cases hother
    exact hlength.mp hexact.length_eq
  · intro hkeeps
    have hinside : ∀ region ∈ planner.executed plan.effective_matches, ∀ i, region.start.toNat ≤ i →
        i < region.stop.toNat → plan'.text[i]? =
          if (planner.mask_parameters region.entity_type).Covers (region.stop.toNat - region.start.toNat)
              (i - region.start.toNat) then
            some (planner.mask_parameters region.entity_type).masking_char
          else plan.text[i]? := by
      intro region hregion i hstart hi
      have hat := getElem?_substitute_mem hordered (hkept.mpr hkeeps) (List.mem_map_of_mem hregion) hstart hi
      rw [Nat.sub_zero, ← htext] at hat
      rw [hat]
      change (if _ then _ else _ : Text)[i - region.start.toNat]? = _
      have hmasks : ¬ (planner.mask_parameters region.entity_type).Empties := hkeeps region hregion
      rw [if_neg hmasks, MaskParameters.getElem?_mask _ (by rw [length_originalValue (hspans region hregion)]; omega),
        length_originalValue (hspans region hregion), getElem?_originalValue hstart hi]
    refine ⟨plan', htransform, hlength.mpr hkeeps, ?_, ?_, ?_⟩
    · intro region hregion i hi
      obtain ⟨hstart, hlt, -⟩ := hspans region hregion
      obtain ⟨⟨hfirst, hlast⟩, hcovers⟩ := (mem_masked_points hstart hlt.le).mp hi
      rw [hinside region hregion i hfirst hlast, if_pos hcovers]
    · intro region hregion i hpoint hi
      obtain ⟨hstart, hlt, -⟩ := hspans region hregion
      have hrange : region.start.toNat ≤ i ∧ i < region.stop.toNat := by
        obtain ⟨hfirst, hlast⟩ : region.start ≤ i ∧ (i : Int) < region.stop := hpoint
        omega
      rw [mem_masked_points hstart hlt.le, and_iff_right hrange] at hi
      rw [hinside region hregion i hrange.1 hrange.2, if_neg hi]
    · intro i houtside
      have hat := getElem?_substitute_outside hordered (hkept.mpr hkeeps) (Nat.zero_le i) ?_
      · rw [Nat.sub_zero, ← htext] at hat
        exact hat
      · refine List.forall_mem_map.mpr fun region hregion hrange => houtside region hregion ?_
        obtain ⟨hstart, hlt, -⟩ := hspans region hregion
        obtain ⟨hfirst, hlast⟩ : region.start.toNat ≤ i ∧ i < region.stop.toNat := hrange
        exact ⟨by change region.start ≤ i; omega, by change (i : Int) < region.stop; omega⟩

def mail_match : EntityMatch := ⟨"EMAIL_ADDRESS", 6, 12, some 1, "regex"⟩

/-- A whole address under the mask of its entry. -/
theorem transform_masks_exactly_mail : ∃ plan plan',
    test_planner.prepare "write a@b.de".toList [mail_match] false = .ok plan ∧
    test_planner.transform plan [] (fun _ => 0) = .ok plan' ∧ test_planner.MasksExactly plan plan'.text := by
  have hprepare : (test_planner.prepare "write a@b.de".toList [mail_match] false).map (fun plan =>
      (plan.blocked, plan.effective_matches)) = .ok (false, [mail_match]) := by decide +kernel
  obtain ⟨plan, hplan, hfacts⟩ := map_eq_ok.mp hprepare
  rw [Prod.mk.injEq] at hfacts
  have hexecuted : ∀ region ∈ test_planner.executed plan.effective_matches,
      test_planner.executedAction region.entity_type = .mask ∧
        (test_planner.mask_parameters region.entity_type).chars_to_mask ≠ 0 := by
    rw [hfacts.2]
    decide +kernel
  obtain ⟨plan', hplan', hexact⟩ :=
    (transform_masks_exactly_iff rfl hplan hfacts.1 fun region hregion => (hexecuted region hregion).1).mpr
      fun region hregion hempties => (hexecuted region hregion).2 hempties.1
  exact ⟨plan, plan', hplan, hplan', hexact⟩

def unmasked_entry : EntityPolicy := { mail_entry with chars_to_mask := 0, chars_to_mask_le := Nat.zero_le _ }

def unmasked_pii : PiiSettings := { test_pii with entity_policies := [unmasked_entry], entity_nodup := by decide }

/-- Mail addresses are masked, but none of their characters. -/
def unmasked_planner : ActionPlanner := { test_planner with policy := { test_policy with pii := unmasked_pii } }

/-- Where no character is to be masked at the end, the whole region is deleted. -/
theorem mask_deletes_region : ∃ plan,
    unmasked_planner.prepare "write a@b.de".toList [mail_match] false = .ok plan ∧ plan.blocked = false ∧
    (∀ region ∈ unmasked_planner.executed plan.effective_matches,
      unmasked_planner.executedAction region.entity_type = .mask) ∧
    (unmasked_planner.transform plan [] fun _ => 0).map LeafPlan.text = .ok "write ".toList ∧
    ¬ ∃ plan', unmasked_planner.transform plan [] (fun _ => 0) = .ok plan' ∧
      unmasked_planner.MasksExactly plan plan'.text := by
  have hrun : (unmasked_planner.prepare "write a@b.de".toList [mail_match] false).map (fun plan =>
      (plan.text, plan.blocked, plan.effective_matches,
        (unmasked_planner.transform plan [] fun _ => 0).map LeafPlan.text)) =
      .ok ("write a@b.de".toList, false, [mail_match], .ok "write ".toList) := by decide +kernel
  obtain ⟨plan, hplan, hfacts⟩ := map_eq_ok.mp hrun
  rw [Prod.mk.injEq, Prod.mk.injEq, Prod.mk.injEq] at hfacts
  obtain ⟨htext, hblocked, hregions, hresult⟩ := hfacts
  refine ⟨plan, hplan, hblocked, ?_, hresult, ?_⟩
  · rw [hregions]
    decide +kernel
  · rintro ⟨plan', htransform, hexact⟩
    have hlength := hexact.length_eq
    rw [htransform] at hresult
    rw [Except.ok.inj hresult, htext] at hlength
    exact absurd hlength (by decide)

end ActionPlanner

end pii_engine.planner
