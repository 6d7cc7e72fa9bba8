import Mathlib.Order.Basic
import Mathlib.Order.Lattice
import Mathlib.Order.Nat
import Mathlib.Tactic.Common

namespace pii_engine

/-- The decision of a request, from the weakest to the strictest. -/
inductive Decision where
  | pass
  | apply_actions
  | reroute
  | block
  deriving DecidableEq, Repr

namespace Decision

def rank : Decision → Nat
  | pass => 0
  | apply_actions => 1
  | reroute => 2
  | block => 3

theorem rank_injective : Function.Injective rank := by
  intro first second h
  cases first <;> cases second <;> simp_all [rank]

instance : LinearOrder Decision := LinearOrder.lift' rank rank_injective

instance : OrderBot Decision where
  bot := pass
  bot_le decision := Nat.zero_le decision.rank

theorem le_block (decision : Decision) : decision ≤ block := by
  cases decision <;> decide

theorem block_le_iff {decision : Decision} : block ≤ decision ↔ decision = block := by
  cases decision <;> decide

theorem pass_le (decision : Decision) : pass ≤ decision := bot_le

/-- The strictest of some decisions, `pass` when there are none. -/
def strictest (decisions : List Decision) : Decision := decisions.foldr max .pass

theorem le_strictest {decisions : List Decision} {decision : Decision} (h : decision ∈ decisions) :
    decision ≤ strictest decisions := by
  induction decisions with
  | nil => simp at h
  | cons first rest ih =>
    rw [strictest, List.foldr_cons]
    cases List.mem_cons.mp h with
    | inl heq => exact heq ▸ le_max_left _ _
    | inr hrest => exact (ih hrest).trans (le_max_right _ _)

theorem strictest_le_iff {decisions : List Decision} {bound : Decision} :
    strictest decisions ≤ bound ↔ ∀ decision ∈ decisions, decision ≤ bound := by
  constructor
  · intro h decision hdecision
    exact (le_strictest hdecision).trans h
  · intro h
    induction decisions with
    | nil => exact pass_le bound
    | cons first rest ih =>
      rw [strictest, List.foldr_cons]
      exact max_le (h first (by simp)) (ih fun decision hdecision => h decision (by simp [hdecision]))

/-- A decision that bounds all others and occurs, or is the weakest one, is the strictest. -/
theorem strictest_eq {decisions : List Decision} {decision : Decision}
    (hbound : ∀ other ∈ decisions, other ≤ decision) (hmem : decision = .pass ∨ decision ∈ decisions) :
    strictest decisions = decision := by
  refine le_antisymm (strictest_le_iff.mpr hbound) ?_
  cases hmem with
  | inl hpass => exact hpass ▸ pass_le _
  | inr hmem => exact le_strictest hmem

/-- Lists whose decisions bound each other have the same strictest decision. -/
theorem strictest_congr {decisions others : List Decision}
    (h : ∀ decision ∈ decisions, ∃ other ∈ others, decision ≤ other)
    (h' : ∀ other ∈ others, ∃ decision ∈ decisions, other ≤ decision) :
    strictest decisions = strictest others := by
  refine le_antisymm (strictest_le_iff.mpr ?_) (strictest_le_iff.mpr ?_)
  · intro decision hdecision
    obtain ⟨other, hother, hle⟩ := h decision hdecision
    exact hle.trans (le_strictest hother)
  · intro other hother
    obtain ⟨decision, hdecision, hle⟩ := h' other hother
    exact hle.trans (le_strictest hdecision)

def name : Decision → String
  | pass => "pass"
  | apply_actions => "apply_actions"
  | reroute => "reroute"
  | block => "block"

end Decision

inductive PIIAction where
  | pass
  | block
  | reroute
  | mask
  | replace
  | redact
  | hash
  | encrypt
  | reversible_replace
  deriving DecidableEq, Repr

/-- What the policy engine reads of one registered action. -/
structure ActionSpec where
  name : String
  decision : Decision
  strictness : Nat
  deriving DecidableEq, Repr

def ACTION_BY_NAME : PIIAction → ActionSpec
  | .pass => ⟨"pass", .pass, 1⟩
  | .block => ⟨"block", .block, 9⟩
  | .reroute => ⟨"reroute", .reroute, 8⟩
  | .mask => ⟨"mask", .apply_actions, 2⟩
  | .replace => ⟨"replace", .apply_actions, 6⟩
  | .redact => ⟨"redact", .apply_actions, 7⟩
  | .hash => ⟨"hash", .apply_actions, 3⟩
  | .encrypt => ⟨"encrypt", .apply_actions, 4⟩
  | .reversible_replace => ⟨"reversible_replace", .apply_actions, 5⟩

namespace PIIAction

def name (action : PIIAction) : String := (ACTION_BY_NAME action).name

def decision (action : PIIAction) : Decision := (ACTION_BY_NAME action).decision

def strictness (action : PIIAction) : Nat := (ACTION_BY_NAME action).strictness

/-- The order of the registry, which lists every action once. -/
def all : List PIIAction :=
  [pass, block, reroute, mask, replace, redact, hash, encrypt, reversible_replace]

theorem mem_all (action : PIIAction) : action ∈ all := by
  cases action <;> decide

def ofName? (name : String) : Option PIIAction := all.find? fun action => action.name = name

theorem ofName?_name (action : PIIAction) : ofName? action.name = some action := by
  cases action <;> decide

theorem name_injective : Function.Injective name := by
  intro first second h
  have hsome : some first = some second := by rw [← ofName?_name, h, ofName?_name]
  exact Option.some.inj hsome

theorem strictness_injective : Function.Injective strictness := by
  intro first second h
  cases first <;> cases second <;> first | rfl | (exact absurd h (by decide))

/-- A stricter action never leads to a weaker decision. -/
theorem decision_mono {first second : PIIAction} (h : first.strictness ≤ second.strictness) :
    first.decision ≤ second.decision := by
  cases first <;> cases second <;> first | decide | (exact absurd h (by decide))

theorem decision_eq_block_iff {action : PIIAction} : action.decision = .block ↔ action = .block := by
  cases action <;> decide

theorem decision_eq_reroute_iff {action : PIIAction} :
    action.decision = .reroute ↔ action = .reroute := by
  cases action <;> decide

theorem decision_eq_apply_iff {action : PIIAction} :
    action.decision = .apply_actions ↔ action ≠ .pass ∧ action ≠ .block ∧ action ≠ .reroute := by
  cases action <;> decide

end PIIAction

end pii_engine
