import Mathlib.Algebra.BigOperators.Group.List.Basic
import Mathlib.Algebra.Order.Monoid.NatCast
import Mathlib.Data.List.Forall2
import PiiEngine.Lib.Checked
import PiiEngine.Lib.Collections

open checked collections

namespace worklist
variable {ε α β : Type} {size : α → Nat}

/-- What handling an item leads to: its result, or two smaller items in its place, the
    first of which is handled next. -/
inductive Handled (size : α → Nat) (β : Type) (item : α) where
  | done (result : β)
  | split (first second : α) (hfirst : size first < size item) (hsecond : size second < size item)

/-- A handler may answer one item differently on different calls. -/
abbrev Handler (ε : Type) (size : α → Nat) (β : Type) := Nat → (item : α) → Except ε (Handled size β item)

/-- Two smaller items weigh less than the item they replace. -/
def weight (size : α → Nat) (pending : List α) : Nat := (pending.map fun item => 3 ^ size item).sum

theorem weight_rest_lt (size : α → Nat) (item : α) (pending : List α) :
    weight size pending < weight size (item :: pending) := by
  have hpos : 0 < 3 ^ size item := Nat.pow_pos (by omega)
  rw [weight, weight, List.map_cons, List.sum_cons]
  omega

theorem weight_split_lt {item first second : α} (hfirst : size first < size item)
    (hsecond : size second < size item) (pending : List α) :
    weight size (first :: second :: pending) < weight size (item :: pending) := by
  have hstep : 3 ^ size item = 3 * 3 ^ (size item - 1) := by
    rw [← Nat.pow_succ', Nat.succ_eq_add_one, Nat.sub_add_cancel (by omega)]
  have hpos : 0 < 3 ^ (size item - 1) := Nat.pow_pos (by omega)
  have hleft : 3 ^ size first ≤ 3 ^ (size item - 1) := Nat.pow_le_pow_right (by omega) (by omega)
  have hright : 3 ^ size second ≤ 3 ^ (size item - 1) := Nat.pow_le_pow_right (by omega) (by omega)
  simp only [weight, List.map_cons, List.sum_cons]
  omega

/-- Handle the items from the top of a stack until none is left, counting the calls. -/
def drain (handle : Handler ε size β) (call : Nat) (pending : List α) : Except ε (List (α × β)) :=
  match pending with
  | [] => .ok []
  | item :: pending =>
    match handle call item with
    | .error e => .error e
    | .ok (.done result) => (drain handle (call + 1) pending).map ((item, result) :: ·)
    | .ok (.split first second _ _) => drain handle (call + 1) (first :: second :: pending)
termination_by weight size pending
decreasing_by
  · exact weight_rest_lt size item pending
  · exact weight_split_lt ‹_› ‹_› pending

/-- The items handled, in order. A failing call is the last one. -/
def submitted (handle : Handler ε size β) (call : Nat) (pending : List α) : List α :=
  match pending with
  | [] => []
  | item :: pending =>
    match handle call item with
    | .error _ => [item]
    | .ok (.done _) => item :: submitted handle (call + 1) pending
    | .ok (.split first second _ _) => item :: submitted handle (call + 1) (first :: second :: pending)
termination_by weight size pending
decreasing_by
  · exact weight_rest_lt size item pending
  · exact weight_split_lt ‹_› ‹_› pending

/-- An item is subdivided into the results that stand in its place. -/
inductive Subdivided (handle : Handler ε size β) : Nat → α → List (α × β) → Nat → Prop where
  | done {call item result} : handle call item = .ok (.done result) →
      Subdivided handle call item [(item, result)] (call + 1)
  | split {call next last item first second hfirst hsecond results others} :
      handle call item = .ok (.split first second hfirst hsecond) →
      Subdivided handle (call + 1) first results next → Subdivided handle next second others last →
      Subdivided handle call item (results ++ others) last

section drain
variable {handle : Handler ε size β}

theorem drain_nil (call : Nat) : drain handle call [] = .ok [] := by
  rw [drain]

theorem drain_error {call : Nat} {item : α} {e : ε} (h : handle call item = .error e) (pending : List α) :
    drain handle call (item :: pending) = .error e := by
  rw [drain, h]

theorem drain_done {call : Nat} {item : α} {result : β} (h : handle call item = .ok (.done result))
    (pending : List α) : drain handle call (item :: pending) =
      (drain handle (call + 1) pending).map ((item, result) :: ·) := by
  rw [drain, h]

theorem drain_split {call : Nat} {item first second : α} {hfirst : size first < size item}
    {hsecond : size second < size item} (h : handle call item = .ok (.split first second hfirst hsecond))
    (pending : List α) : drain handle call (item :: pending) =
      drain handle (call + 1) (first :: second :: pending) := by
  rw [drain, h]

/-- A stack is drained by subdividing its top item and then draining the rest. -/
theorem drain_cons {call : Nat} {item : α} {pending : List α} {results : List (α × β)}
    (h : drain handle call (item :: pending) = .ok results) :
    ∃ mine next rest, Subdivided handle call item mine next ∧ drain handle next pending = .ok rest ∧
      results = mine ++ rest := by
  generalize hweight : weight size (item :: pending) = n
  induction n using Nat.strongRecOn generalizing call item pending results with
  | ind n ih =>
    subst hweight
    cases hhandle : handle call item with
    | error e =>
      rw [drain_error hhandle] at h
      cases h
    | ok handled =>
      cases handled with
      | done result =>
        rw [drain_done hhandle, map_eq_ok] at h
        obtain ⟨rest, hrest, rfl⟩ := h
        exact ⟨[(item, result)], call + 1, rest, .done hhandle, hrest, rfl⟩
      | split first second hfirst hsecond =>
        rw [drain_split hhandle] at h
        have hlt := weight_split_lt hfirst hsecond pending
        obtain ⟨mine, next, rest, hmine, hrest, rfl⟩ := ih _ hlt h rfl
        have hlt' := (weight_rest_lt size first (second :: pending)).trans hlt
        obtain ⟨others, last, rest', hothers, hrest', rfl⟩ := ih _ hlt' hrest rfl
        exact ⟨mine ++ others, last, rest', .split hhandle hmine hothers, hrest', (List.append_assoc ..).symm⟩

/-- The results of a stack are those of its items, one item after the other. -/
theorem drain_groups {call : Nat} {pending : List α} {results : List (α × β)}
    (h : drain handle call pending = .ok results) :
    ∃ groups, results = groups.flatten ∧
      List.Forall₂ (fun item group => ∃ call next, Subdivided handle call item group next) pending groups := by
  induction pending generalizing call results with
  | nil =>
    rw [drain_nil] at h
    exact ⟨[], (Except.ok.inj h).symm, .nil⟩
  | cons item pending ih =>
    obtain ⟨mine, next, rest, hmine, hrest, rfl⟩ := drain_cons h
    obtain ⟨groups, rfl, hgroups⟩ := ih hrest
    exact ⟨mine :: groups, rfl, .cons ⟨call, next, hmine⟩ hgroups⟩

/-- What every split keeps holds of every item with a result. -/
theorem Subdivided.forall_results {P : α → Prop}
    (hsplit : ∀ call item first second hfirst hsecond, P item →
      handle call item = .ok (.split first second hfirst hsecond) → P first ∧ P second)
    {call next : Nat} {item : α} {results : List (α × β)} (h : Subdivided handle call item results next)
    (hitem : P item) : ∀ entry ∈ results, P entry.1 ∧ ∃ call, handle call entry.1 = .ok (.done entry.2) := by
  induction h with
  | done hdone =>
    intro entry hentry
    rw [List.mem_singleton] at hentry
    rw [hentry]
    exact ⟨hitem, _, hdone⟩
  | split hhandle _ _ ihfirst ihsecond =>
    obtain ⟨hfirst, hsecond⟩ := hsplit _ _ _ _ _ _ hitem hhandle
    intro entry hentry
    cases List.mem_append.mp hentry with
    | inl hleft => exact ihfirst hfirst entry hleft
    | inr hright => exact ihsecond hsecond entry hright

/-- What a split hands to one of its parts reaches an item with a result. -/
theorem Subdivided.exists_result {Q : α → Prop}
    (hsplit : ∀ call item first second hfirst hsecond, Q item →
      handle call item = .ok (.split first second hfirst hsecond) → Q first ∨ Q second)
    {call next : Nat} {item : α} {results : List (α × β)} (h : Subdivided handle call item results next)
    (hitem : Q item) : ∃ entry ∈ results, Q entry.1 := by
  induction h with
  | done _ => exact ⟨_, List.mem_singleton_self _, hitem⟩
  | split hhandle _ _ ihfirst ihsecond =>
    cases hsplit _ _ _ _ _ _ hitem hhandle with
    | inl hfirst =>
      obtain ⟨entry, hentry, hq⟩ := ihfirst hfirst
      exact ⟨entry, List.mem_append_left _ hentry, hq⟩
    | inr hsecond =>
      obtain ⟨entry, hentry, hq⟩ := ihsecond hsecond
      exact ⟨entry, List.mem_append_right _ hentry, hq⟩

/-- What every split keeps of the pending items holds of every item with a result. -/
theorem drain_forall_results {P : α → Prop}
    (hsplit : ∀ call item first second hfirst hsecond, P item →
      handle call item = .ok (.split first second hfirst hsecond) → P first ∧ P second)
    {call : Nat} {pending : List α} {results : List (α × β)} (h : drain handle call pending = .ok results)
    (hpending : ∀ item ∈ pending, P item) :
    ∀ entry ∈ results, P entry.1 ∧ ∃ call, handle call entry.1 = .ok (.done entry.2) := by
  obtain ⟨groups, rfl, hgroups⟩ := drain_groups h
  intro entry hentry
  obtain ⟨group, hgroup, hentry⟩ := List.mem_flatten.mp hentry
  obtain ⟨item, hitem, call, next, hsubdivided⟩ := exists_left_of_forall₂ hgroups hgroup
  exact hsubdivided.forall_results hsplit (hpending item hitem) entry hentry

theorem drain_exists_result {Q : α → Prop}
    (hsplit : ∀ call item first second hfirst hsecond, Q item →
      handle call item = .ok (.split first second hfirst hsecond) → Q first ∨ Q second)
    {call : Nat} {pending : List α} {results : List (α × β)} (h : drain handle call pending = .ok results)
    {item : α} (hitem : item ∈ pending) (hq : Q item) : ∃ entry ∈ results, Q entry.1 := by
  obtain ⟨groups, rfl, hgroups⟩ := drain_groups h
  obtain ⟨group, hgroup, call, next, hsubdivided⟩ := exists_right_of_forall₂ hgroups hitem
  obtain ⟨entry, hentry, hq⟩ := hsubdivided.exists_result hsplit hq
  exact ⟨entry, List.mem_flatten.mpr ⟨group, hgroup, hentry⟩, hq⟩

theorem submitted_nil (call : Nat) : submitted handle call [] = [] := by
  rw [submitted]

theorem submitted_cons (call : Nat) (item : α) (pending : List α) :
    submitted handle call (item :: pending) = item :: match handle call item with
      | .error _ => []
      | .ok (.done _) => submitted handle (call + 1) pending
      | .ok (.split first second _ _) => submitted handle (call + 1) (first :: second :: pending) := by
  rw [submitted]
  split <;> rfl

/-- A handler that fails on a submitted item makes the whole run fail. -/
theorem drain_error_of_submitted {call i : Nat} {pending : List α} {item : α} {e : ε}
    (hitem : (submitted handle call pending)[i]? = some item) (hfail : handle (call + i) item = .error e) :
    drain handle call pending = .error e := by
  generalize hweight : weight size pending = n
  induction n using Nat.strongRecOn generalizing call pending i with
  | ind n ih =>
    subst hweight
    cases pending with
    | nil =>
      rw [submitted_nil] at hitem
      cases hitem
    | cons top pending =>
      rw [submitted_cons] at hitem
      cases i with
      | zero =>
        rw [List.getElem?_cons_zero] at hitem
        rw [← Option.some.inj hitem] at hfail
        exact drain_error hfail pending
      | succ i =>
        rw [List.getElem?_cons_succ] at hitem
        have hcall : call + (i + 1) = call + 1 + i := by omega
        rw [hcall] at hfail
        cases hhandle : handle call top with
        | error e' =>
          rw [hhandle] at hitem
          cases hitem
        | ok handled =>
          rw [hhandle] at hitem
          cases handled with
          | done result =>
            rw [drain_done hhandle, ih _ (weight_rest_lt size top pending) hitem hfail rfl]
            rfl
          | split first second hfirst hsecond =>
            rw [drain_split hhandle]
            exact ih _ (weight_split_lt hfirst hsecond pending) hitem hfail rfl

/-- The result that a call gives for its item. -/
def settled (handle : Handler ε size β) (entry : α × Nat) : Option (α × β) :=
  match handle entry.2 entry.1 with
  | .ok (.done result) => some (entry.1, result)
  | _ => none

/-- The results are those of the submitted items that were not split, in their order. -/
theorem drain_eq_settled {call : Nat} {pending : List α} {results : List (α × β)}
    (h : drain handle call pending = .ok results) :
    results = ((submitted handle call pending).zipIdx call).filterMap (settled handle) := by
  generalize hweight : weight size pending = n
  induction n using Nat.strongRecOn generalizing call pending results with
  | ind n ih =>
    subst hweight
    cases pending with
    | nil =>
      rw [drain_nil] at h
      rw [← Except.ok.inj h, submitted_nil]
      rfl
    | cons top pending =>
      rw [submitted_cons, List.zipIdx_cons]
      cases hhandle : handle call top with
      | error e =>
        rw [drain_error hhandle] at h
        cases h
      | ok handled =>
        cases handled with
        | done result =>
          rw [drain_done hhandle, map_eq_ok] at h
          obtain ⟨rest, hrest, rfl⟩ := h
          have hsettled : settled handle (top, call) = some (top, result) := by rw [settled, hhandle]
          rw [List.filterMap_cons_some hsettled, ← ih _ (weight_rest_lt size top pending) hrest rfl]
        | split first second hfirst hsecond =>
          rw [drain_split hhandle] at h
          have hsettled : settled handle (top, call) = none := by rw [settled, hhandle]
          rw [List.filterMap_cons_none hsettled]
          exact ih _ (weight_split_lt hfirst hsecond pending) h rfl

/-- What every split keeps holds of every submitted item. -/
theorem forall_submitted {P : α → Prop}
    (hsplit : ∀ call item first second hfirst hsecond, P item →
      handle call item = .ok (.split first second hfirst hsecond) → P first ∧ P second)
    {call : Nat} {pending : List α} (hpending : ∀ item ∈ pending, P item) :
    ∀ item ∈ submitted handle call pending, P item := by
  generalize hweight : weight size pending = n
  induction n using Nat.strongRecOn generalizing call pending with
  | ind n ih =>
    subst hweight
    cases pending with
    | nil => simp [submitted_nil]
    | cons top pending =>
      obtain ⟨htop, hrest⟩ := List.forall_mem_cons.mp hpending
      rw [submitted_cons, List.forall_mem_cons]
      refine ⟨htop, ?_⟩
      cases hhandle : handle call top with
      | error e => simp
      | ok handled =>
        cases handled with
        | done result => exact ih _ (weight_rest_lt size top pending) hrest rfl
        | split first second hfirst hsecond =>
          obtain ⟨hpfirst, hpsecond⟩ := hsplit _ _ _ _ _ _ htop hhandle
          refine ih _ (weight_split_lt hfirst hsecond pending) ?_ rfl
          rw [List.forall_mem_cons, List.forall_mem_cons]
          exact ⟨hpfirst, hpsecond, hrest⟩

end drain

end worklist
