import Mathlib.Algebra.Order.Field.Basic
import PiiEngine.Rules.Model

open checked collections

namespace pii_engine.config

/-- The policy with another score threshold. -/
def PolicySettings.with_threshold (policy : PolicySettings) (threshold : ℚ) (h : 0 ≤ threshold ∧ threshold ≤ 1) :
    PolicySettings :=
  { policy with pii := { policy.pii with score_threshold := threshold, score_threshold_ok := h } }

end pii_engine.config

namespace pii_engine.rules
open config

/-- Evidence that analysis accepts for a text of the given length. -/
def RuleResult.Valid (result : RuleResult) (text_length : Nat) (entities : List String) : Prop :=
  ∃ score, result.score = some score ∧ (0 ≤ result.start ∧ result.start < result.stop ∧ result.stop ≤ text_length) ∧
    (0 ≤ score ∧ score ≤ 1) ∧ result.entity_type ∈ entities

theorem validated_score_eq_ok {result : RuleResult} {text_length : Nat} {entities : List String} {score : ℚ} :
    validated_score result text_length entities = .ok score ↔
      result.Valid text_length entities ∧ result.score = some score := by
  unfold validated_score RuleResult.Valid
  cases hscore : result.score with
  | none => simp [throw, throwThe, MonadExceptOf.throw]
  | some value =>
    dsimp only
    rw [raiseIf_bind_eq_ok]
    simp only [pure, Except.pure, Except.ok.injEq, Option.some.injEq, not_or, not_not]
    constructor
    · rintro ⟨⟨hspan, hvalue, hentity⟩, rfl⟩
      exact ⟨⟨value, rfl, hspan, hvalue, hentity⟩, rfl⟩
    · rintro ⟨⟨_, rfl, hspan, hvalue, hentity⟩, heq⟩
      exact ⟨⟨hspan, hvalue, hentity⟩, heq⟩

theorem validated_score_eq_error {result : RuleResult} {text_length : Nat} {entities : List String}
    (h : ¬ result.Valid text_length entities) :
    validated_score result text_length entities =
      .error (.value_error "rule recognizer returned an invalid result") := by
  cases hrun : validated_score result text_length entities with
  | ok score => exact absurd (validated_score_eq_ok.mp hrun).1 h
  | error e =>
    unfold validated_score at hrun
    split at hrun
    · rw [raiseIf_bind_eq_error] at hrun
      rcases hrun with ⟨-, rfl⟩ | ⟨-, hrun⟩
      · rfl
      · cases hrun
    · cases hrun
      rfl

/-- What a rule reports about the text of a scan. -/
def Rule.results (rule : Rule) (scan : Scan) : List RuleResult :=
  if rule.entities scan.policy ≠ [] then rule.recognizer.analyze scan.text (rule.entities scan.policy) else []

/-- The candidate that a result of a positive score stands for, before any threshold: it bears
    the policy's name and the score that its context gives it. -/
def finding (scan : Scan) (rule : Rule) (result : RuleResult) : Option EntityMatch :=
  let entity := rule.entity_name result.entity_type
  let supported := !rule.custom &&
    scan.context.supports scan.unicode result.start rule.recognizer.context entity
  match result.score with
  | some score =>
    if score ≤ 0 then none
    else some ⟨entity, result.start, result.stop, some (if supported then scan.boost score else score),
      "deterministic"⟩
  | none => none

/-- The candidates of every rule. -/
def findings (scan : Scan) (rules : List Rule) : List EntityMatch :=
  rules.flatMap fun rule => (rule.results scan).filterMap (finding scan rule)

/-- Every rule returns valid results. -/
def ResultsValid (scan : Scan) (rules : List Rule) : Prop :=
  ∀ rule ∈ rules, ∀ result ∈ rule.results scan, result.Valid scan.text.length (rule.entities scan.policy)

/-- The candidates that reach the threshold of the policy. -/
def reached (scan : Scan) (items : List EntityMatch) : List EntityMatch :=
  items.filter fun item => scan.policy.pii.score_threshold ≤ match_score item

variable {scan : Scan} {rule : Rule} {rules other_rules : List Rule} {item : EntityMatch}
  {found : OrderedDict (String × Int × Int) EntityMatch}

theorem finding_eq_some {result : RuleResult} (h : finding scan rule result = some item) :
    (∃ score, item.score = some score ∧ 0 < score) ∧ item.source = "deterministic" := by
  unfold finding at h
  dsimp only at h
  split at h
  · next score hscore =>
    split at h
    · cases h
    · next hpos =>
      rw [Option.some.injEq] at h
      subst h
      refine ⟨⟨_, rfl, ?_⟩, rfl⟩
      split
      · -- The floor keeps a boosted score positive however the floats add up.
        exact lt_min one_pos (lt_max_of_lt_left (by decide +kernel))
      · exact not_le.mp hpos
  · cases h

theorem score_of_finding {result : RuleResult} (h : finding scan rule result = some item) :
    ∃ score, result.score = some score ∧ 0 < score := by
  unfold finding at h
  dsimp only at h
  split at h
  · next score hscore =>
    split at h
    · cases h
    · next hpos => exact ⟨score, hscore, not_le.mp hpos⟩
  · cases h

theorem match_score_pos (h : item ∈ findings scan rules) : 0 < match_score item := by
  obtain ⟨rule, -, hmem⟩ := List.mem_flatMap.mp h
  obtain ⟨result, -, hfinding⟩ := List.mem_filterMap.mp hmem
  obtain ⟨⟨score, hscore, hpos⟩, -⟩ := finding_eq_some hfinding
  rwa [match_score, hscore]

theorem determined_findings (scan : Scan) (rules : List Rule) :
    best.Determined match_key match_score (findings scan rules) := by
  have hparts : ∀ item ∈ findings scan rules,
      item = ⟨item.entity_type, item.start, item.stop, some (match_score item), "deterministic"⟩ := by
    intro item hitem
    obtain ⟨rule, -, hmem⟩ := List.mem_flatMap.mp hitem
    obtain ⟨result, -, hfinding⟩ := List.mem_filterMap.mp hmem
    obtain ⟨⟨score, hscore, -⟩, hsource⟩ := finding_eq_some hfinding
    obtain ⟨entity, start, stop, _, source⟩ := item
    cases hscore
    cases hsource
    rfl
  intro a ha b hb hkey hscore
  simp only [match_key, Prod.mk.injEq] at hkey
  rw [hparts a ha, hparts b hb, hkey.1, hkey.2.1, hkey.2.2, hscore]

open Classical in
theorem add_result_eq (scan : Scan) (rule : Rule) (result : RuleResult)
    (found : OrderedDict (String × Int × Int) EntityMatch) :
    add_result scan rule found result =
      if result.Valid scan.text.length (rule.entities scan.policy) then
        .ok ((reached scan (finding scan rule result).toList).foldl (best.keep match_key match_score) found)
      else .error (.value_error "rule recognizer returned an invalid result") := by
  by_cases hvalid : result.Valid scan.text.length (rule.entities scan.policy)
  · obtain ⟨score, hscore, -⟩ := id hvalid
    have hrun := validated_score_eq_ok.mpr ⟨hvalid, hscore⟩
    rw [if_pos hvalid, add_result, hrun, finding, hscore]
    simp only [bind, Except.bind]
    by_cases hpos : score ≤ 0
    · simp [hpos, reached, pure, Except.pure]
    · simp only [hpos, if_false, Option.toList_some, reached, List.filter_cons, List.filter_nil, match_score,
        Option.getD_some]
      generalize (if (!rule.custom && scan.context.supports scan.unicode result.start rule.recognizer.context
        (rule.entity_name result.entity_type)) = true then scan.boost score else score) = boosted
      by_cases hreached : scan.policy.pii.score_threshold ≤ boosted <;> simp [hreached, pure, Except.pure]
  · rw [if_neg hvalid, add_result, validated_score_eq_error hvalid]
    rfl

open Classical in
theorem analyze_rule_eq (scan : Scan) (rule : Rule) (found : OrderedDict (String × Int × Int) EntityMatch) :
    analyze_rule scan found rule =
      if ∀ result ∈ rule.results scan, result.Valid scan.text.length (rule.entities scan.policy) then
        .ok ((reached scan ((rule.results scan).filterMap (finding scan rule))).foldl
          (best.keep match_key match_score) found)
      else .error (.value_error "rule recognizer returned an invalid result") := by
  have hloop : analyze_rule scan found rule = (rule.results scan).foldlM (add_result scan rule) found := by
    unfold analyze_rule Rule.results
    dsimp only
    split <;> rfl
  rw [hloop, foldlM_eq_ite fun result s => add_result_eq scan rule result s]
  congr 2
  rw [reached, List.filterMap_eq_flatMap_toList, List.filter_flatMap, List.foldl_flatMap]
  rfl

open Classical in
theorem analyze_rules_eq (scan : Scan) (rules : List Rule) :
    rules.foldlM (analyze_rule scan) .empty =
      if ResultsValid scan rules then
        .ok ((reached scan (findings scan rules)).foldl (best.keep match_key match_score) .empty)
      else .error (.value_error "rule recognizer returned an invalid result") := by
  rw [foldlM_eq_ite fun rule s => analyze_rule_eq scan rule s]
  congr 2
  rw [reached, findings, List.filter_flatMap, List.foldl_flatMap]
  rfl

/-- The best matches of some candidates, in the order in which they are reported. -/
def ranked (items : List EntityMatch) : List EntityMatch := sortOn span_key (best.kept match_key match_score items)

theorem span_key_injective {items : List EntityMatch} :
    ∀ a ∈ best.kept match_key match_score items, ∀ b ∈ best.kept match_key match_score items,
      span_key a = span_key b → a = b := by
  intro a ha b hb hkey
  apply best.kept_injective ha hb
  simp only [span_key, EmbeddingLike.apply_eq_iff_eq, Prod.mk.injEq] at hkey
  rw [match_key, match_key, hkey.1, hkey.2.1, hkey.2.2]

theorem ranked_filter {items : List EntityMatch} (h : best.Determined match_key match_score items) (threshold : ℚ) :
    ranked (items.filter fun item => threshold ≤ match_score item) =
      (ranked items).filter fun item => threshold ≤ match_score item := by
  have hsorted : ((ranked items).filter fun item => threshold ≤ match_score item).Pairwise
      fun a b => span_key a ≤ span_key b := (sortOn_pairwise _).filter _
  have hperm : (best.kept match_key match_score (items.filter fun item => threshold ≤ match_score item)).Perm
      ((ranked items).filter fun item => threshold ≤ match_score item) :=
    (best.kept_filter_perm h threshold).trans ((sortOn_perm _).symm.filter _)
  rw [ranked, sortOn_eq_of_perm hperm span_key_injective, sortOn_eq_self hsorted]

theorem ranked_pairwise (items : List EntityMatch) :
    (ranked items).Pairwise fun a b => span_key a < span_key b := by
  have hnodup : (ranked items).Nodup := (sortOn_perm _).nodup_iff.mpr (best.nodup_keys_kept items).of_map
  refine ((sortOn_pairwise _).and hnodup).imp_of_mem ?_
  rintro a b ha hb ⟨hle, hne⟩
  refine lt_of_le_of_ne hle fun heq => hne ?_
  exact span_key_injective a (mem_sortOn.mp ha) b (mem_sortOn.mp hb) heq

theorem ranked_congr {first second : List EntityMatch} (h : best.Determined match_key match_score first)
    (hmem : ∀ item, item ∈ first ↔ item ∈ second) : ranked first = ranked second :=
  sortOn_eq_of_perm (best.kept_perm h hmem) span_key_injective

theorem determined_reached (scan : Scan) (rules : List Rule) :
    best.Determined match_key match_score (reached scan (findings scan rules)) := by
  intro a ha b hb
  exact determined_findings scan rules a (List.mem_of_mem_filter ha) b (List.mem_of_mem_filter hb)

namespace RulesAnalyzer
variable {self : RulesAnalyzer} {text : Text} {policy : PolicySettings}

/-- The checks that analysis makes of a request policy. -/
def check (self : RulesAnalyzer) (active : PolicySettings) : Except AnalysisError Unit := do
  validate_policy active
  raiseIf (active.pii.custom_recognizers ≠ self.policy.pii.custom_recognizers ∨
      ¬ active.pii.analyzer_languages ⊆ self.policy.pii.supported_languages)
    (.value_error "request policy changes loaded rule configuration")

open Classical in
theorem analyze_eq (self : RulesAnalyzer) (text : Text) (policy : PolicySettings) :
    self.analyze text (some policy) = (do
      self.check policy
      if ResultsValid (self.scan text policy) (self.active_rules policy) then
        .ok (ranked (reached (self.scan text policy) (findings (self.scan text policy) (self.active_rules policy))))
      else .error (.value_error "rule recognizer returned an invalid result")) := by
  rw [analyze, check]
  simp only [Option.getD_some, bind_assoc]
  congr 1
  funext _
  congr 1
  funext _
  rw [analyze_rules_eq]
  split <;> rfl

theorem analyze_eq_ok {found : List EntityMatch} :
    self.analyze text (some policy) = .ok found ↔
      self.check policy = .ok () ∧ ResultsValid (self.scan text policy) (self.active_rules policy) ∧
        found = ranked (reached (self.scan text policy)
          (findings (self.scan text policy) (self.active_rules policy))) := by
  rw [analyze_eq, bind_eq_ok]
  constructor
  · rintro ⟨⟨⟩, hcheck, hrun⟩
    split at hrun
    · next hvalid => exact ⟨hcheck, hvalid, (Except.ok.inj hrun).symm⟩
    · cases hrun
  · rintro ⟨hcheck, hvalid, rfl⟩
    exact ⟨(), hcheck, if_pos hvalid⟩

open Classical in
/-- Raising the threshold filters the result. -/
theorem analyze_with_threshold (self : RulesAnalyzer) (text : Text) {threshold : ℚ}
    (hthreshold : 0 ≤ threshold ∧ threshold ≤ 1) (hle : policy.pii.score_threshold ≤ threshold) :
    self.analyze text (some (policy.with_threshold threshold hthreshold)) =
      (self.analyze text (some policy)).map (List.filter fun item => threshold ≤ match_score item) := by
  have hreached : reached (self.scan text (policy.with_threshold threshold hthreshold))
        (findings (self.scan text policy) (self.active_rules policy)) =
      (reached (self.scan text policy) (findings (self.scan text policy) (self.active_rules policy))).filter
        fun item => threshold ≤ match_score item := by
    rw [reached, reached, List.filter_filter]
    refine List.filter_congr fun item _ => ?_
    change decide (threshold ≤ match_score item) = (decide (threshold ≤ match_score item) &&
      decide (policy.pii.score_threshold ≤ match_score item))
    by_cases hitem : threshold ≤ match_score item
    · simp [hitem, hle.trans hitem]
    · simp [hitem]
  rw [analyze_eq, analyze_eq, map_bind]
  -- Nothing but the filter reads the threshold.
  change (self.check policy >>= fun _ => if ResultsValid (self.scan text policy) (self.active_rules policy) then
    Except.ok (ranked (reached (self.scan text (policy.with_threshold threshold hthreshold))
      (findings (self.scan text policy) (self.active_rules policy)))) else _) = _
  rw [hreached, ranked_filter (determined_reached _ _)]
  congr 1
  funext _
  split <;> rfl

open Classical in
/-- The order of the recognizers does not show in the result. -/
theorem analyze_perm (self : RulesAnalyzer) (text : Text) (policy : PolicySettings) {rules : List Recognizer}
    {custom : List (CustomRecognizer × Recognizer)} (hrules : rules.Perm self.rules)
    (hcustom : custom.Perm self.custom) :
    { self with rules := rules, custom := custom }.analyze text (some policy) = self.analyze text (some policy) := by
  have hactive : ({ self with rules := rules, custom := custom }.active_rules policy).Perm
      (self.active_rules policy) := (hrules.map _).append ((hcustom.filter _).map _)
  have hvalid : ResultsValid (self.scan text policy)
        ({ self with rules := rules, custom := custom }.active_rules policy) ↔
      ResultsValid (self.scan text policy) (self.active_rules policy) :=
    forall_congr' fun rule => by rw [hactive.mem_iff]
  have hranked : ranked (reached (self.scan text policy) (findings (self.scan text policy)
        ({ self with rules := rules, custom := custom }.active_rules policy))) =
      ranked (reached (self.scan text policy) (findings (self.scan text policy) (self.active_rules policy))) :=
    ranked_congr (determined_reached _ _) fun item => ((hactive.flatMap_right _).filter _).mem_iff
  rw [analyze_eq, analyze_eq]
  change (self.check policy >>= fun _ => if ResultsValid (self.scan text policy) _ then
    Except.ok (ranked (reached (self.scan text policy) (findings (self.scan text policy) _))) else _) = _
  rw [hranked]
  congr 1
  funext _
  exact if_congr hvalid rfl rfl

/-- Filtering by a higher threshold commutes with rule analysis: the result holds the best
    positive candidate of every entity and span, once and in order, and no order of the
    recognizers shows in it. -/
theorem analyze_threshold_commutes (self : RulesAnalyzer) (text : Text) (policy : PolicySettings) {threshold : ℚ}
    (hthreshold : 0 ≤ threshold ∧ threshold ≤ 1) (hle : policy.pii.score_threshold ≤ threshold) :
    self.analyze text (some (policy.with_threshold threshold hthreshold)) =
      (self.analyze text (some policy)).map (List.filter fun item => threshold ≤ match_score item) ∧
    (self.check policy = .ok () → ResultsValid (self.scan text policy) (self.active_rules policy) →
      ∃ found, self.analyze text (some policy) = .ok found) ∧
    (∀ found, self.analyze text (some policy) = .ok found →
      (found.map match_key).Nodup ∧ found.Pairwise (fun a b => span_key a < span_key b) ∧
      (∀ item, item ∈ found ↔ policy.pii.score_threshold ≤ match_score item ∧
        best.IsBest match_key match_score (findings (self.scan text policy) (self.active_rules policy)) item) ∧
      ∀ item ∈ found, 0 < match_score item ∧ ∃ rule ∈ self.active_rules policy,
        ∃ result ∈ rule.results (self.scan text policy), (∃ score, result.score = some score ∧ 0 < score) ∧
          finding (self.scan text policy) rule result = some item) ∧
    ∀ (rules : List Recognizer) (custom : List (CustomRecognizer × Recognizer)), rules.Perm self.rules →
      custom.Perm self.custom →
      { self with rules := rules, custom := custom }.analyze text (some policy) =
        self.analyze text (some policy) := by
  refine ⟨self.analyze_with_threshold text hthreshold hle, ?_, ?_, ?_⟩
  · intro hcheck hvalid
    exact ⟨_, analyze_eq_ok.mpr ⟨hcheck, hvalid, rfl⟩⟩
  · intro found hfound
    obtain ⟨-, -, rfl⟩ := analyze_eq_ok.mp hfound
    have hmem : ∀ item, item ∈ ranked (reached (self.scan text policy)
          (findings (self.scan text policy) (self.active_rules policy))) ↔
        policy.pii.score_threshold ≤ match_score item ∧
          best.IsBest match_key match_score (findings (self.scan text policy) (self.active_rules policy)) item := by
      intro item
      rw [ranked, mem_sortOn, best.mem_kept_iff (determined_reached _ _), reached, best.isBest_filter, and_comm]
      rfl
    refine ⟨?_, ranked_pairwise _, hmem, ?_⟩
    · exact ((sortOn_perm _).map _).nodup_iff.mpr (best.nodup_keys_kept _)
    · intro item hitem
      obtain ⟨-, hcandidate, -⟩ := (hmem item).mp hitem
      refine ⟨match_score_pos hcandidate, ?_⟩
      obtain ⟨rule, hrule, hresults⟩ := List.mem_flatMap.mp hcandidate
      obtain ⟨result, hresult, hfinding⟩ := List.mem_filterMap.mp hresults
      exact ⟨rule, hrule, result, hresult, score_of_finding hfinding, hfinding⟩
  · intro rules custom hrules hcustom
    exact self.analyze_perm text policy hrules hcustom

/-- Two recognizers that report one span, of which only the first has its words before it. -/
def phone_analyzer : RulesAnalyzer where
  unicode := ⟨Char.isAlphanum, List.map Char.toLower⟩
  add := (· + ·)
  policy := test_policy
  rules := [
    ⟨["PHONE_NUMBER"], none, fun _ _ => [⟨"PHONE_NUMBER", 8, 16, some (2 / 5)⟩]⟩,
    ⟨["US_SSN", "BSN"], none, fun _ _ => [⟨"US_SSN", 8, 16, some (1 / 2)⟩, ⟨"BSN", 8, 16, some 0⟩]⟩,
    ⟨["PHONE_NUMBER"], none, fun _ _ => [⟨"PHONE_NUMBER", 8, 16, some (1 / 10)⟩]⟩]
  custom := []

theorem analyze_threshold_commutes_phone :
    phone_analyzer.analyze "Phones: 12345678".toList
        (some (test_policy.with_threshold (7 / 10) (by decide +kernel))) =
      .ok [⟨"PHONE_NUMBER", 8, 16, some (3 / 4), "deterministic"⟩] ∧
    phone_analyzer.analyze "Phones: 12345678".toList (some test_policy) =
      .ok [⟨"NATIONAL_ID_NUMBER", 8, 16, some (1 / 2), "deterministic"⟩,
        ⟨"PHONE_NUMBER", 8, 16, some (3 / 4), "deterministic"⟩] := by
  have hlow : phone_analyzer.analyze "Phones: 12345678".toList (some test_policy) =
      .ok [⟨"NATIONAL_ID_NUMBER", 8, 16, some (1 / 2), "deterministic"⟩,
        ⟨"PHONE_NUMBER", 8, 16, some (3 / 4), "deterministic"⟩] := by decide +kernel
  refine ⟨?_, hlow⟩
  rw [(analyze_threshold_commutes phone_analyzer "Phones: 12345678".toList test_policy (by decide +kernel)
    (by decide +kernel)).1, hlow]
  decide +kernel

end RulesAnalyzer

end pii_engine.rules
