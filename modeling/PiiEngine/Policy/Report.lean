import Mathlib.Algebra.Order.BigOperators.Group.List
import PiiEngine.Policy.Model

open checked collections
open pii_engine.config pii_engine.planner

namespace pii_engine.policy.PolicyService

/-- A plan whose details a report can carry: its actions are the given ones, and what it
    transformed is part of what it detected. -/
structure Reportable (action : String → PIIAction) (plan : LeafPlan) : Prop where
  actions : ∀ e ∈ plan.entity_counts.keys, plan.entity_actions.get? e = some (action e)
  detected : ∀ e ∈ plan.entity_counts.keys, 1 ≤ plan.entity_counts.getD e 0
  transformed : ∀ e, plan.transformed_counts.getD e 0 ≤ plan.entity_counts.getD e 0
  unique : ∀ e, (plan.transformed_values.getD e .empty).card ≤ plan.transformed_counts.getD e 0
  untouched : ∀ e, action e = .pass ∨ action e = .block → plan.transformed_counts.getD e 0 = 0

/-- The occurrences of a type that a list of plans detected and transformed. -/
def detectedCount (prepared : List (TextLeaf × LeafPlan)) (e : String) : Nat :=
  (prepared.map fun entry => entry.2.entity_counts.getD e 0).sum

def transformedCount (prepared : List (TextLeaf × LeafPlan)) (e : String) : Nat :=
  (prepared.map fun entry => entry.2.transformed_counts.getD e 0).sum

/-- The totals after some entries of one plan were added to those of the plans before. -/
structure EntitiesTotalled (action : String → PIIAction) (plan : LeafPlan) (base : ReportTotals)
    (done : List (String × Nat)) (acc : ReportTotals) : Prop where
  keys : ∀ e, e ∈ acc.detected.keys ↔ e ∈ base.detected.keys ∨ e ∈ done.map Prod.fst
  action_keys : ∀ e, e ∈ acc.actions.keys ↔ e ∈ acc.detected.keys
  actions : ∀ e found, acc.actions.get? e = some found → found = action e
  detected : ∀ e, acc.detected.getD e 0 =
    base.detected.getD e 0 + if e ∈ done.map Prod.fst then plan.entity_counts.getD e 0 else 0
  transformed : ∀ e, acc.transformed.getD e 0 =
    base.transformed.getD e 0 + if e ∈ done.map Prod.fst then plan.transformed_counts.getD e 0 else 0
  unique : ∀ e, (acc.transformed_values.getD e .empty).card ≤ acc.transformed.getD e 0

theorem EntitiesTotalled.step {action : String → PIIAction} {plan : LeafPlan} {base acc : ReportTotals}
    {before after : List (String × Nat)} {entry : String × Nat}
    (h : EntitiesTotalled action plan base before acc) (hplan : Reportable action plan)
    (hsplit : plan.entity_counts.items = before ++ entry :: after) :
    ∃ acc', report_entity plan acc entry = .ok acc' ∧
      EntitiesTotalled action plan base (before ++ [entry]) acc' := by
  obtain ⟨e, count⟩ := entry
  have hmem : (e, count) ∈ plan.entity_counts.items := by
    rw [hsplit]
    simp
  have hcount : plan.entity_counts.getD e 0 = count := by
    rw [OrderedDict.getD, OrderedDict.mem_items_iff.mp hmem, Option.getD_some]
  have haction := hplan.actions e (List.mem_map_of_mem hmem)
  have hfresh : e ∉ before.map Prod.fst := by
    have hnodup := plan.entity_counts.nodup
    rw [hsplit, List.map_append, List.nodup_append] at hnodup
    exact fun hbefore => hnodup.2.2 e hbefore e (by simp) rfl
  have hdone : ∀ e', e' ∈ (before ++ [(e, count)]).map Prod.fst ↔ e' = e ∨ e' ∈ before.map Prod.fst := by
    intro e'
    rw [List.map_append, List.mem_append, List.map_singleton, List.mem_singleton, or_comm]
  refine ⟨{
    actions := acc.actions.set e (action e)
    detected := acc.detected.addCount e count
    transformed := acc.transformed.addCount e (plan.transformed_counts.getD e 0)
    transformed_values := acc.transformed_values.set e ((acc.transformed_values.getD e .empty).update
      (plan.transformed_values.getD e .empty).elems) }, ?_, ?_⟩
  · rw [report_entity, haction]
    refine raiseIf_bind_eq_ok.mpr ⟨?_, rfl⟩
    rintro ⟨existing, hexisting, hne⟩
    exact hne (h.actions e existing hexisting)
  · constructor
    · intro e'
      rw [OrderedDict.mem_keys_addCount, h.keys, hdone, or_left_comm]
    · intro e'
      rw [OrderedDict.mem_keys_set, OrderedDict.mem_keys_addCount, h.action_keys]
    · intro e' found hfound
      rw [OrderedDict.get?_set] at hfound
      split at hfound
      · next heq =>
        rw [heq]
        exact (Option.some.inj hfound).symm
      · exact h.actions e' found hfound
    · intro e'
      simp only [OrderedDict.getD_addCount, h.detected, hdone]
      by_cases heq : e' = e
      · subst heq
        simp [hfresh, hcount]
      · rw [if_neg heq, Nat.add_zero, if_congr (or_iff_right heq) rfl rfl]
    · intro e'
      simp only [OrderedDict.getD_addCount, h.transformed, hdone]
      by_cases heq : e' = e
      · subst heq
        simp [hfresh]
      · rw [if_neg heq, Nat.add_zero, if_congr (or_iff_right heq) rfl rfl]
    · intro e'
      simp only [OrderedDict.getD_addCount, OrderedDict.getD_set]
      split
      · next heq =>
        subst heq
        have hupdate := (acc.transformed_values.getD e' .empty).card_update_le
          (plan.transformed_values.getD e' .empty).elems
        have hold := h.unique e'
        have hnew : (plan.transformed_values.getD e' .empty).elems.length ≤
            plan.transformed_counts.getD e' 0 := hplan.unique e'
        omega
      · exact h.unique e'

/-- The totals over the plans handled so far. -/
structure PlansTotalled (action : String → PIIAction) (done : List (TextLeaf × LeafPlan))
    (acc : ReportTotals) : Prop where
  keys : ∀ e, e ∈ acc.detected.keys ↔ ∃ entry ∈ done, e ∈ entry.2.entity_counts.keys
  action_keys : ∀ e, e ∈ acc.actions.keys ↔ e ∈ acc.detected.keys
  actions : ∀ e found, acc.actions.get? e = some found → found = action e
  detected : ∀ e, acc.detected.getD e 0 = detectedCount done e
  transformed : ∀ e, acc.transformed.getD e 0 = transformedCount done e
  unique : ∀ e, (acc.transformed_values.getD e .empty).card ≤ acc.transformed.getD e 0

theorem PlansTotalled.step {action : String → PIIAction} {done : List (TextLeaf × LeafPlan)}
    {acc : ReportTotals} {entry : TextLeaf × LeafPlan} (h : PlansTotalled action done acc)
    (hplan : Reportable action entry.2) :
    ∃ acc', entry.2.entity_counts.items.foldlM (report_entity entry.2) acc = .ok acc' ∧
      PlansTotalled action (done ++ [entry]) acc' := by
  have hstart : EntitiesTotalled action entry.2 acc [] acc :=
    ⟨by simp, h.action_keys, h.actions, by simp, by simp, h.unique⟩
  obtain ⟨acc', hacc', htotal⟩ : ∃ acc',
      entry.2.entity_counts.items.foldlM (report_entity entry.2) acc = .ok acc' ∧
        EntitiesTotalled action entry.2 acc ([] ++ entry.2.entity_counts.items) acc' :=
    foldlM_split_total _ hstart fun before item after s hsplit hs => hs.step hplan hsplit
  rw [List.nil_append] at htotal
  have hmissing : ∀ e, e ∉ entry.2.entity_counts.items.map Prod.fst → entry.2.entity_counts.getD e 0 = 0 :=
    fun e he => OrderedDict.getD_eq_of_not_mem he 0
  refine ⟨acc', hacc', ?_, htotal.action_keys, htotal.actions, ?_, ?_, htotal.unique⟩
  · intro e
    rw [htotal.keys, h.keys, exists_mem_append_singleton]
    rfl
  · intro e
    rw [htotal.detected, h.detected, detectedCount, detectedCount, List.map_append, List.sum_append]
    split
    · simp
    · next he => simp [hmissing e he]
  · intro e
    rw [htotal.transformed, h.transformed, transformedCount, transformedCount, List.map_append, List.sum_append]
    split
    · simp
    · next he =>
      have hle := hplan.transformed e
      rw [hmissing e he] at hle
      simp [Nat.le_zero.mp hle]

/-- What the rows of a report say about the plans they collapse. -/
structure ReportRows (action : String → PIIAction) (prepared : List (TextLeaf × LeafPlan))
    (rows : List PIIReportRow) : Prop where
  sorted : (rows.map PIIReportRow.entity_type).Pairwise (· < ·)
  types : ∀ e, e ∈ rows.map PIIReportRow.entity_type ↔ ∃ entry ∈ prepared, e ∈ entry.2.entity_counts.keys
  actions : ∀ row ∈ rows, row.action = .pii (action row.entity_type)
  detected : ∀ row ∈ rows, row.detected_count = detectedCount prepared row.entity_type
  transformed : ∀ row ∈ rows, row.transformed_count = transformedCount prepared row.entity_type

/-- A type that the report contract admits from text analysis. -/
def ReportedType (e : String) : Prop := isEntityType e = true ∧ e ≠ "FACE"

/-- The row of one entity type. -/
def report_row (totals : ReportTotals) (e : String) : Except AnalysisError PIIReportRow :=
  match totals.actions.get? e with
  | some action => PIIReportRow.create e (.pii action) (totals.detected.getD e 0)
      (totals.transformed.getD e 0) (totals.transformed_values.getD e .empty).card
  | none => .error (.value_error "detected entity has no resolved action")

/-- The totals of reportable plans can be gathered. -/
theorem gather_totals {action : String → PIIAction} {prepared : List (TextLeaf × LeafPlan)}
    (hplans : ∀ entry ∈ prepared, Reportable action entry.2) :
    ∃ totals, prepared.foldlM (fun acc entry => entry.2.entity_counts.items.foldlM (report_entity entry.2) acc) {} =
      .ok totals ∧ PlansTotalled action prepared totals := by
  have hstart : PlansTotalled action [] {} := by
    constructor <;> simp [OrderedDict.getD, detectedCount, transformedCount, UniqueList.card, UniqueList.empty]
  exact foldlM_total (PlansTotalled action) hstart fun done entry acc hentry hs => hs.step (hplans entry hentry)

theorem report_rows_eq {prepared : List (TextLeaf × LeafPlan)} {totals : ReportTotals}
    (h : prepared.foldlM (fun acc entry => entry.2.entity_counts.items.foldlM (report_entity entry.2) acc) {} =
      .ok totals) :
    report_rows prepared = (sortOn id totals.detected.keys).mapM (report_row totals) := by
  rw [report_rows, h]
  rfl

theorem plans_totalled {action : String → PIIAction} {prepared : List (TextLeaf × LeafPlan)}
    (hplans : ∀ entry ∈ prepared, Reportable action entry.2) :
    ∃ totals, PlansTotalled action prepared totals ∧
      report_rows prepared = (sortOn id totals.detected.keys).mapM (report_row totals) := by
  obtain ⟨totals, htotals, hall⟩ := gather_totals hplans
  exact ⟨totals, hall, report_rows_eq htotals⟩

theorem PlansTotalled.report_row_eq {action : String → PIIAction} {prepared : List (TextLeaf × LeafPlan)}
    {totals : ReportTotals} (h : PlansTotalled action prepared totals) {e : String}
    (he : e ∈ totals.detected.keys) :
    report_row totals e = PIIReportRow.create e (.pii (action e)) (detectedCount prepared e)
      (transformedCount prepared e) (totals.transformed_values.getD e .empty).card := by
  obtain ⟨found, hfound⟩ := Option.isSome_iff_exists.mp
    (OrderedDict.mem_keys_iff.mp ((h.action_keys e).mpr he))
  rw [report_row, hfound, ← h.actions e found hfound, h.detected, h.transformed]

private theorem sorted_keys_lt (d : OrderedDict String Nat) : (sortOn id d.keys).Pairwise (· < ·) := by
  have hnodup : (sortOn id d.keys).Nodup := (sortOn_perm d.keys).nodup_iff.mpr d.keys_nodup
  exact (sortOn_pairwise d.keys).imp₂ (fun _ _ hle hne => lt_of_le_of_ne hle hne) hnodup

theorem report_rows_eq_ok {action : String → PIIAction} {prepared : List (TextLeaf × LeafPlan)}
    {rows : List PIIReportRow} (hplans : ∀ entry ∈ prepared, Reportable action entry.2)
    (h : report_rows prepared = .ok rows) : ReportRows action prepared rows := by
  obtain ⟨totals, htotals, heq⟩ := plans_totalled hplans
  rw [heq, mapM_eq_ok] at h
  have hrows : ∀ row ∈ rows, ∃ e ∈ totals.detected.keys, row.entity_type = e ∧
      row.action = .pii (action e) ∧ row.detected_count = detectedCount prepared e ∧
      row.transformed_count = transformedCount prepared e := by
    intro row hrow
    obtain ⟨e, he, hcreate⟩ := exists_left_of_forall₂ h hrow
    rw [mem_sortOn] at he
    rw [htotals.report_row_eq he, PIIReportRow.create_eq_ok] at hcreate
    exact ⟨e, he, hcreate.1, hcreate.2.1, hcreate.2.2.1, hcreate.2.2.2.1⟩
  have htypes : rows.map PIIReportRow.entity_type = sortOn id totals.detected.keys := by
    have hkeys : ∀ e ∈ sortOn id totals.detected.keys, e ∈ totals.detected.keys := fun e he => mem_sortOn.mp he
    generalize sortOn id totals.detected.keys = types at h hkeys
    clear hrows heq
    induction h with
    | nil => rfl
    | @cons e row types rows hcreate _ ih =>
      rw [List.map_cons, ih fun other hother => hkeys other (by simp [hother])]
      rw [htotals.report_row_eq (hkeys e (by simp)), PIIReportRow.create_eq_ok] at hcreate
      rw [hcreate.1]
  constructor
  · rw [htypes]
    exact sorted_keys_lt totals.detected
  · intro e
    rw [htypes, mem_sortOn, htotals.keys]
  · intro row hrow
    obtain ⟨e, -, rfl, haction, -⟩ := hrows row hrow
    exact haction
  · intro row hrow
    obtain ⟨e, -, rfl, -, hdetected, -⟩ := hrows row hrow
    exact hdetected
  · intro row hrow
    obtain ⟨e, -, rfl, -, -, htransformed⟩ := hrows row hrow
    exact htransformed

/-- Plans with admitted types and bounded counts are always reported. -/
theorem report_rows_total {action : String → PIIAction} {prepared : List (TextLeaf × LeafPlan)}
    (hplans : ∀ entry ∈ prepared, Reportable action entry.2)
    (htypes : ∀ entry ∈ prepared, ∀ e ∈ entry.2.entity_counts.keys, ReportedType e)
    (hcounts : ∀ e, detectedCount prepared e ≤ 10000000) : ∃ rows, report_rows prepared = .ok rows := by
  obtain ⟨totals, htotals, heq⟩ := plans_totalled hplans
  rw [heq]
  refine mapM_total ?_
  intro e he
  rw [mem_sortOn] at he
  rw [htotals.report_row_eq he]
  obtain ⟨entry, hentry, hkey⟩ := (htotals.keys e).mp he
  obtain ⟨htype, hface⟩ := htypes entry hentry e hkey
  have hpos : 1 ≤ detectedCount prepared e :=
    (hplans entry hentry).detected e hkey |>.trans
      (List.le_sum_of_mem (List.mem_map_of_mem (f := fun entry => entry.2.entity_counts.getD e 0) hentry))
  have hle : transformedCount prepared e ≤ detectedCount prepared e :=
    List.sum_le_sum fun entry hentry => (hplans entry hentry).transformed e
  have hunique : (totals.transformed_values.getD e .empty).card ≤ transformedCount prepared e := by
    rw [← htotals.transformed]
    exact htotals.unique e
  have huntouched : ReportAction.pii (action e) = .pii .pass ∨ ReportAction.pii (action e) = .pii .block →
      transformedCount prepared e = 0 := by
    intro haction
    rw [ReportAction.pii.injEq, ReportAction.pii.injEq] at haction
    rw [transformedCount, List.sum_eq_zero_iff]
    intro n hn
    obtain ⟨entry, hentry, rfl⟩ := List.mem_map.mp hn
    exact (hplans entry hentry).untouched e haction
  exact ⟨_, PIIReportRow.create_total (PIIReportRow.validate_eq_ok.mpr
    ⟨htype, ⟨hpos, hcounts e⟩, fun h => absurd h hface, fun h => ReportAction.noConfusion h, hle, hunique,
      huntouched⟩)⟩

end pii_engine.policy.PolicyService
