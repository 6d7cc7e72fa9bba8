import Mathlib.Algebra.BigOperators.Group.List.Basic
import PiiEngine.Requests.Legacy

open checked

namespace pii_engine.request_segments

mutual

/-- The nodes of a document, the root included. -/
def node_count : JsonValue → Nat
  | .list items => 1 + item_node_count items
  | .dict entries => 1 + entry_node_count entries
  | _ => 1

def item_node_count : List JsonValue → Nat
  | [] => 0
  | item :: items => node_count item + item_node_count items

def entry_node_count : List (String × JsonValue) → Nat
  | [] => 0
  | (_, item) :: entries => node_count item + entry_node_count entries

end

mutual

/-- The lists and objects of a document. -/
def container_count : JsonValue → Nat
  | .list items => 1 + item_container_count items
  | .dict entries => 1 + entry_container_count entries
  | _ => 0

def item_container_count : List JsonValue → Nat
  | [] => 0
  | item :: items => container_count item + item_container_count items

def entry_container_count : List (String × JsonValue) → Nat
  | [] => 0
  | (_, item) :: entries => container_count item + entry_container_count entries

end

/-- A node of a document stands at a depth. The root stands at depth 0. -/
inductive NodeAt : JsonValue → Nat → Prop
  | root (value : JsonValue) : NodeAt value 0
  | child {value child : JsonValue} {depth : Nat} (hchild : child ∈ children value) (h : NodeAt child depth) :
      NodeAt value (depth + 1)

/-- Documents that differ in the order of keys and of list items, at any depth. -/
inductive Reordered : JsonValue → JsonValue → Prop
  | refl (value : JsonValue) : Reordered value value
  | trans {first second third : JsonValue} (h : Reordered first second) (h' : Reordered second third) :
      Reordered first third
  | items {items items' : List JsonValue} (h : items.Perm items') : Reordered (.list items) (.list items')
  | entries {entries entries' : List (String × JsonValue)} (h : entries.Perm entries') :
      Reordered (.dict entries) (.dict entries')
  | item {before after : List JsonValue} {value value' : JsonValue} (h : Reordered value value') :
      Reordered (.list (before ++ value :: after)) (.list (before ++ value' :: after))
  | entry {before after : List (String × JsonValue)} {key : String} {value value' : JsonValue}
      (h : Reordered value value') :
      Reordered (.dict (before ++ (key, value) :: after)) (.dict (before ++ (key, value') :: after))

section counts

theorem item_node_count_eq (items : List JsonValue) : item_node_count items = (items.map node_count).sum := by
  induction items with
  | nil => rfl
  | cons item items ih => rw [item_node_count, ih, List.map_cons, List.sum_cons]

theorem entry_node_count_eq (entries : List (String × JsonValue)) :
    entry_node_count entries = ((entries.map Prod.snd).map node_count).sum := by
  induction entries with
  | nil => rfl
  | cons entry entries ih => rw [entry_node_count, ih, List.map_cons, List.map_cons, List.sum_cons]

theorem item_container_count_eq (items : List JsonValue) :
    item_container_count items = (items.map container_count).sum := by
  induction items with
  | nil => rfl
  | cons item items ih => rw [item_container_count, ih, List.map_cons, List.sum_cons]

theorem entry_container_count_eq (entries : List (String × JsonValue)) :
    entry_container_count entries = ((entries.map Prod.snd).map container_count).sum := by
  induction entries with
  | nil => rfl
  | cons entry entries ih => rw [entry_container_count, ih, List.map_cons, List.map_cons, List.sum_cons]

theorem node_count_eq (value : JsonValue) : node_count value = 1 + ((children value).map node_count).sum := by
  cases value with
  | list items => rw [node_count, item_node_count_eq, children]
  | dict entries => rw [node_count, entry_node_count_eq, children]
  | _ => rfl

theorem container_count_eq {value : JsonValue} (h : isContainer value = true) :
    container_count value = 1 + ((children value).map container_count).sum := by
  cases value with
  | list items => rw [container_count, item_container_count_eq, children]
  | dict entries => rw [container_count, entry_container_count_eq, children]
  | _ => cases h

theorem children_eq_nil {value : JsonValue} (h : isContainer value = false) : children value = [] := by
  cases value with
  | list _ => cases h
  | dict _ => cases h
  | _ => rfl

theorem container_count_eq_zero {value : JsonValue} (h : isContainer value = false) : container_count value = 0 := by
  cases value with
  | list _ => cases h
  | dict _ => cases h
  | _ => rfl

theorem node_count_eq_one {value : JsonValue} (h : isContainer value = false) : node_count value = 1 := by
  rw [node_count_eq, children_eq_nil h]
  rfl

theorem nodeAt_zero {value : JsonValue} {depth : Nat} (h : NodeAt value depth) (hscalar : isContainer value = false) :
    depth = 0 := by
  cases h with
  | root _ => rfl
  | child hchild _ =>
    rw [children_eq_nil hscalar] at hchild
    cases hchild

/-- Scalars hold no container. -/
theorem container_count_filter (values : List JsonValue) :
    ((values.filter isContainer).map container_count).sum = (values.map container_count).sum := by
  induction values with
  | nil => rfl
  | cons value values ih =>
    cases hcontainer : isContainer value with
    | true => rw [List.filter_cons_of_pos hcontainer, List.map_cons, List.map_cons, List.sum_cons, List.sum_cons, ih]
    | false =>
      have hskip : ¬ isContainer value = true := by simp [hcontainer]
      rw [List.filter_cons_of_neg hskip, List.map_cons, List.sum_cons, container_count_eq_zero hcontainer, ih,
        Nat.zero_add]

/-- The nodes below a document's root. -/
def below_count (value : JsonValue) : Nat := ((children value).map node_count).sum

theorem below_count_filter (values : List JsonValue) :
    values.length + ((values.filter isContainer).map below_count).sum = (values.map node_count).sum := by
  induction values with
  | nil => rfl
  | cons value values ih =>
    have hvalue : node_count value = 1 + below_count value := node_count_eq value
    cases hcontainer : isContainer value with
    | true =>
      rw [List.filter_cons_of_pos hcontainer]
      simp only [List.map_cons, List.sum_cons, List.length_cons]
      omega
    | false =>
      have hskip : ¬ isContainer value = true := by simp [hcontainer]
      have hone := node_count_eq_one hcontainer
      rw [List.filter_cons_of_neg hskip]
      simp only [List.map_cons, List.sum_cons, List.length_cons]
      omega

end counts

section walk
variable {max_depth : Nat}

/-- A node below a pending value is deeper than admitted. -/
def TooDeep (max_depth : Nat) (item : JsonValue × Nat) : Prop :=
  ∃ depth, NodeAt item.1 depth ∧ max_depth < item.2 + depth

/-- The rounds that the walk takes for a pending value. -/
def rounds (item : JsonValue × Nat) : Nat := if isContainer item.1 then container_count item.1 else 1

/-- What a container leaves to be visited: the containers it holds, the last one first. -/
def pushed (value : JsonValue) (depth : Nat) : List (JsonValue × Nat) :=
  (((children value).filter isContainer).map (·, depth + 1)).reverse

theorem pushed_sum (value : JsonValue) (depth : Nat) (f : JsonValue → Nat) :
    ((pushed value depth).map fun item => f item.1).sum = (((children value).filter isContainer).map f).sum := by
  rw [pushed, List.map_reverse, List.sum_reverse, List.map_map]
  rfl

theorem mem_pushed {value : JsonValue} {depth : Nat} {item : JsonValue × Nat} :
    item ∈ pushed value depth ↔ item.1 ∈ children value ∧ isContainer item.1 = true ∧ item.2 = depth + 1 := by
  rw [pushed, List.mem_reverse, List.mem_map]
  constructor
  · rintro ⟨child, hchild, rfl⟩
    obtain ⟨hmem, hcontainer⟩ := List.mem_filter.mp hchild
    exact ⟨hmem, hcontainer, rfl⟩
  · rintro ⟨hmem, hcontainer, hdepth⟩
    exact ⟨item.1, List.mem_filter.mpr ⟨hmem, hcontainer⟩, by rw [← hdepth]⟩

theorem pushed_rounds (value : JsonValue) (depth : Nat) :
    ((pushed value depth).map rounds).sum = ((children value).map container_count).sum := by
  rw [← container_count_filter, ← pushed_sum value depth container_count]
  refine congrArg List.sum (List.map_congr_left ?_)
  intro item hitem
  rw [rounds, if_pos (mem_pushed.mp hitem).2.1]

/-- A container at an admitted depth is too deep where it holds something at the last depth or
    one of the containers it holds is too deep. -/
theorem tooDeep_iff {value : JsonValue} {depth : Nat} (hdepth : depth ≤ max_depth) :
    TooDeep max_depth (value, depth) ↔
      children value ≠ [] ∧ depth = max_depth ∨ ∃ item ∈ pushed value depth, TooDeep max_depth item := by
  constructor
  · rintro ⟨deep, hnode, hexceeds⟩
    dsimp only at hnode hexceeds
    cases hnode with
    | root _ => omega
    | @child _ child rest hchild hrest =>
      cases hcontainer : isContainer child with
      | true =>
        refine Or.inr ⟨(child, depth + 1), mem_pushed.mpr ⟨hchild, hcontainer, rfl⟩, rest, hrest, ?_⟩
        dsimp only
        omega
      | false =>
        have hzero := nodeAt_zero hrest hcontainer
        exact Or.inl ⟨List.ne_nil_of_mem hchild, by omega⟩
  · rintro (⟨hchildren, rfl⟩ | ⟨item, hitem, deep, hnode, hexceeds⟩)
    · obtain ⟨child, hchild⟩ := List.exists_mem_of_ne_nil _ hchildren
      exact ⟨1, .child hchild (.root child), Nat.lt_succ_self depth⟩
    · obtain ⟨hchild, -, hnext⟩ := mem_pushed.mp hitem
      refine ⟨deep + 1, .child hchild hnode, ?_⟩
      dsimp only
      omega

/-- A scalar at an admitted depth is not too deep. -/
theorem not_tooDeep_scalar {value : JsonValue} {depth : Nat} (hscalar : isContainer value = false)
    (hdepth : depth ≤ max_depth) : ¬ TooDeep max_depth (value, depth) := by
  rintro ⟨deep, hnode, hexceeds⟩
  have hzero := nodeAt_zero hnode hscalar
  dsimp only at hexceeds
  omega

/-- With a round for each container the walk finds a node that is too deep, if there is one, and
    else counts all nodes. -/
theorem structure_walk_spec {fuel nodes containers : Nat} {pending : List (JsonValue × Nat)}
    (hfuel : (pending.map rounds).sum ≤ fuel)
    (hcontainers : containers + (pending.map fun item => container_count item.1).sum ≤ MAX_ADMITTED_JSON_NODES)
    (hdepths : ∀ item ∈ pending, item.2 ≤ max_depth) :
    ((∃ item ∈ pending, TooDeep max_depth item) →
      structure_walk max_depth fuel nodes containers pending = .error (nesting_limit (Nat.lt_succ_self max_depth))) ∧
    ((∀ item ∈ pending, ¬ TooDeep max_depth item) →
      structure_walk max_depth fuel nodes containers pending =
        .ok (nodes + (pending.map fun item => below_count item.1).sum)) := by
  induction fuel generalizing nodes containers pending with
  | zero =>
    cases pending with
    | nil => exact ⟨fun h => by simp at h, fun _ => rfl⟩
    | cons item pending =>
      -- every pending value takes a round of its own
      have hround : 0 < rounds item := by
        rw [rounds]
        split
        case isTrue hcontainer =>
          rw [container_count_eq hcontainer]
          omega
        case isFalse => omega
      rw [List.map_cons, List.sum_cons] at hfuel
      omega
  | succ fuel ih =>
    cases pending with
    | nil => exact ⟨fun h => by simp at h, fun _ => rfl⟩
    | cons item pending =>
      obtain ⟨value, depth⟩ := item
      rw [List.forall_mem_cons] at hdepths
      obtain ⟨hdepth, hrest⟩ := hdepths
      rw [List.map_cons, List.sum_cons] at hfuel hcontainers
      rw [structure_walk, dif_neg (Nat.not_lt.mpr hdepth)]
      simp only [List.exists_mem_cons_iff, List.forall_mem_cons, List.map_cons, List.sum_cons]
      cases hcontainer : isContainer value with
      | false =>
        rw [if_pos rfl]
        rw [rounds, if_neg (by simp [hcontainer])] at hfuel
        rw [container_count_eq_zero hcontainer, Nat.zero_add] at hcontainers
        have hskip := not_tooDeep_scalar hcontainer hdepth
        have hbelow : below_count value = 0 := by
          rw [below_count, children_eq_nil hcontainer]
          rfl
        have hwalk := @ih nodes containers pending (by omega) hcontainers hrest
        rw [hbelow, Nat.zero_add]
        exact ⟨fun h => hwalk.1 (h.resolve_left hskip), fun h => hwalk.2 h.2⟩
      | true =>
        rw [if_neg (by simp)]
        rw [rounds, if_pos hcontainer, container_count_eq hcontainer] at hfuel
        rw [container_count_eq hcontainer] at hcontainers
        rw [dif_neg (by omega)]
        by_cases hlast : children value ≠ [] ∧ depth = max_depth
        · rw [dif_pos hlast]
          have hdeep : TooDeep max_depth (value, depth) := (tooDeep_iff hdepth).mpr (Or.inl hlast)
          obtain ⟨-, rfl⟩ := hlast
          exact ⟨fun _ => rfl, fun h => absurd hdeep h.1⟩
        · rw [dif_neg hlast]
          rw [← pushed, tooDeep_iff hdepth, or_iff_right hlast]
          have hsum : below_count value + (pending.map fun item => below_count item.1).sum =
              (children value).length + ((pushed value depth ++ pending).map fun item => below_count item.1).sum := by
            rw [List.map_append, List.sum_append, pushed_sum value depth below_count, below_count, ← below_count_filter,
              Nat.add_assoc]
          have hnext : ∀ item ∈ pushed value depth ++ pending, item.2 ≤ max_depth := by
            intro item hitem
            cases List.mem_append.mp hitem with
            | inl hpushed =>
              obtain ⟨hchild, -, hdeeper⟩ := mem_pushed.mp hpushed
              have hinner : depth ≠ max_depth := fun heq => hlast ⟨List.ne_nil_of_mem hchild, heq⟩
              omega
            | inr hpending => exact hrest item hpending
          have hwalk := @ih (nodes + (children value).length) (containers + 1) (pushed value depth ++ pending)
            (by rw [List.map_append, List.sum_append, pushed_rounds]; omega)
            (by
              rw [List.map_append, List.sum_append, pushed_sum value depth container_count, container_count_filter]
              omega)
            hnext
          rw [hsum, ← Nat.add_assoc]
          refine ⟨fun h => hwalk.1 ?_, fun h => hwalk.2 ?_⟩
          · obtain ⟨item, hitem, hdeep⟩ | ⟨item, hitem, hdeep⟩ := h
            · exact ⟨item, List.mem_append_left _ hitem, hdeep⟩
            · exact ⟨item, List.mem_append_right _ hitem, hdeep⟩
          · intro item hitem hdeep
            cases List.mem_append.mp hitem with
            | inl hpushed => exact h.1 ⟨item, hpushed, hdeep⟩
            | inr hpending => exact h.2 item hpending hdeep

end walk

section reorder
variable {value other : JsonValue}

theorem Reordered.symm (h : Reordered value other) : Reordered other value := by
  induction h with
  | refl value => exact .refl value
  | trans _ _ ih ih' => exact ih'.trans ih
  | items h => exact .items h.symm
  | entries h => exact .entries h.symm
  | item _ ih => exact .item ih
  | entry _ ih => exact .entry ih

/-- A count that adds up over the values a container holds does not depend on their order. -/
theorem Reordered.count_eq {count : JsonValue → Nat} (h : Reordered value other)
    (hlist : ∀ items, count (.list items) = 1 + (items.map count).sum)
    (hdict : ∀ entries, count (.dict entries) = 1 + ((entries.map Prod.snd).map count).sum) :
    count other = count value := by
  induction h with
  | refl value => rfl
  | trans _ _ ih ih' => exact ih'.trans ih
  | items h => rw [hlist, hlist, (h.map count).sum_eq]
  | entries h => rw [hdict, hdict, ((h.map Prod.snd).map count).sum_eq]
  | item _ ih => simp only [hlist, List.map_append, List.map_cons, List.sum_append, List.sum_cons, ih]
  | entry _ ih => simp only [hdict, List.map_append, List.map_cons, List.sum_append, List.sum_cons, ih]

theorem Reordered.node_count_eq (h : Reordered value other) : node_count other = node_count value := by
  apply h.count_eq
  · intro items
    rw [node_count, item_node_count_eq]
  · intro entries
    rw [node_count, entry_node_count_eq]

theorem Reordered.container_count_eq (h : Reordered value other) : container_count other = container_count value := by
  apply h.count_eq
  · intro items
    rw [container_count, item_container_count_eq]
  · intro entries
    rw [container_count, entry_container_count_eq]

theorem Reordered.nodeAt {depth : Nat} (h : Reordered value other) (hnode : NodeAt value depth) :
    NodeAt other depth := by
  induction h generalizing depth with
  | refl value => exact hnode
  | trans _ _ ih ih' => exact ih' (ih hnode)
  | items h =>
    cases hnode with
    | root _ => exact .root _
    | child hchild hrest => exact .child (h.mem_iff.mp hchild) hrest
  | entries h =>
    cases hnode with
    | root _ => exact .root _
    | child hchild hrest => exact .child ((h.map Prod.snd).mem_iff.mp hchild) hrest
  | @item before after value value' _ ih =>
    cases hnode with
    | root _ => exact .root _
    | @child _ child _ hchild hrest =>
      cases List.mem_append.mp hchild with
      | inl hbefore => exact .child (List.mem_append_left _ hbefore) hrest
      | inr hlater =>
        cases hlater with
        | head => exact .child (List.mem_append_right _ List.mem_cons_self) (ih hrest)
        | tail _ hafter => exact .child (List.mem_append_right _ (List.mem_cons_of_mem _ hafter)) hrest
  | @entry before after key value value' _ ih =>
    have hvalues : ∀ value, children (.dict (before ++ (key, value) :: after)) =
        before.map Prod.snd ++ value :: after.map Prod.snd := fun value => by simp [children]
    cases hnode with
    | root _ => exact .root _
    | @child _ child _ hchild hrest =>
      rw [hvalues] at hchild
      cases List.mem_append.mp hchild with
      | inl hbefore => exact .child (by rw [hvalues]; exact List.mem_append_left _ hbefore) hrest
      | inr hlater =>
        cases hlater with
        | head => exact .child (by rw [hvalues]; exact List.mem_append_right _ List.mem_cons_self) (ih hrest)
        | tail _ hafter =>
          exact .child (by rw [hvalues]; exact List.mem_append_right _ (List.mem_cons_of_mem _ hafter)) hrest

theorem Reordered.nodeAt_iff {depth : Nat} (h : Reordered value other) : NodeAt other depth ↔ NodeAt value depth :=
  ⟨h.symm.nodeAt, h.nodeAt⟩

theorem Reordered.eq_null (h : Reordered value other) (hnull : value = .null) : other = .null := by
  induction h with
  | refl value => exact hnull
  | trans _ _ ih ih' => exact ih' (ih hnull)
  | _ => cases hnull

end reorder

section validation
variable {max_depth : Nat} {max_nodes : Option Nat} {value : JsonValue}

/-- A node of a document is deeper than admitted. -/
def Deep (max_depth : Nat) (value : JsonValue) : Prop := ∃ depth, NodeAt value depth ∧ max_depth < depth

theorem deep_iff : Deep max_depth value ↔ TooDeep max_depth (value, 0) := by
  simp only [Deep, TooDeep, Nat.zero_add]

/-- The walk over one document, with a round for each of its containers. -/
theorem structure_walk_root {fuel : Nat} (hcontainers : container_count value ≤ MAX_ADMITTED_JSON_NODES)
    (hfuel : container_count value < fuel) :
    (Deep max_depth value →
      structure_walk max_depth fuel 1 0 [(value, 0)] = .error (nesting_limit (Nat.lt_succ_self max_depth))) ∧
    (¬ Deep max_depth value → structure_walk max_depth fuel 1 0 [(value, 0)] = .ok (node_count value)) := by
  have hrounds : rounds (value, 0) ≤ fuel := by
    change (if isContainer value then container_count value else 1) ≤ fuel
    split <;> omega
  have hwalk :=
    @structure_walk_spec max_depth fuel 1 0 [(value, 0)] (by simpa using hrounds) (by simpa using hcontainers)
    (by simp)
  have hcount : 1 + ([(value, 0)].map fun item : JsonValue × Nat => below_count item.1).sum = node_count value := by
    rw [List.map_singleton, List.sum_singleton, below_count, ← node_count_eq]
  rw [hcount] at hwalk
  rw [deep_iff]
  exact ⟨fun h => hwalk.1 ⟨_, List.mem_singleton_self _, h⟩, fun h => hwalk.2 (by simpa using h)⟩

theorem validate_json_structure_error {e : AnalysisError} (hnull : value ≠ .null)
    (hwalk : structure_walk max_depth (MAX_ADMITTED_JSON_NODES + 2) 1 0 [(value, 0)] = .error e) :
    validate_json_structure max_depth max_nodes (some value) = .error e := by
  rw [validate_json_structure, hwalk]
  · rfl
  · exact hnull

theorem validate_json_structure_ok {nodes : Nat} (hnull : value ≠ .null)
    (hwalk : structure_walk max_depth (MAX_ADMITTED_JSON_NODES + 2) 1 0 [(value, 0)] = .ok nodes) :
    (∀ maximum (h : maximum < nodes), max_nodes = some maximum →
      validate_json_structure max_depth max_nodes (some value) =
        .error (nodes_exceeded "MCP metadata contains too many JSON nodes" .pii_engine true h)) ∧
    ((∀ maximum ∈ max_nodes, nodes ≤ maximum) → validate_json_structure max_depth max_nodes (some value) = .ok ()) := by
  constructor
  · rintro maximum h rfl
    rw [validate_json_structure, hwalk]
    · exact dif_pos h
    · exact hnull
  · intro h
    rw [validate_json_structure, hwalk]
    · cases max_nodes with
      | none => rfl
      | some maximum => exact dif_neg (Nat.not_lt.mpr (h maximum rfl))
    · exact hnull

theorem nodes_exceeded_inj {measured maximum maximum' : Nat} {message : String} {component : LimitComponent}
    {exact : Bool} {h : maximum < measured} {h' : maximum' < measured} :
    nodes_exceeded message component exact h = nodes_exceeded message component exact h' ↔ maximum = maximum' := by
  constructor
  · intro heq
    injection heq with _ hdetail
    injection hdetail with hdetail
    exact congrArg LimitDetail.maximum hdetail
  · rintro rfl
    rfl

/-- What the validation of a document that is not null comes to. -/
theorem validate_json_structure_spec (hnull : value ≠ .null)
    (hcontainers : container_count value ≤ MAX_ADMITTED_JSON_NODES) :
    (Deep max_depth value →
      validate_json_structure max_depth max_nodes (some value) = .error (nesting_limit (Nat.lt_succ_self max_depth))) ∧
    (∀ maximum (h : maximum < node_count value), ¬ Deep max_depth value → max_nodes = some maximum →
      validate_json_structure max_depth max_nodes (some value) =
        .error (nodes_exceeded "MCP metadata contains too many JSON nodes" .pii_engine true h)) ∧
    (¬ Deep max_depth value → (∀ maximum ∈ max_nodes, node_count value ≤ maximum) →
      validate_json_structure max_depth max_nodes (some value) = .ok ()) := by
  obtain ⟨hdeep, hshallow⟩ := @structure_walk_root max_depth value _ hcontainers
    (show container_count value < MAX_ADMITTED_JSON_NODES + 2 by omega)
  refine ⟨fun h => validate_json_structure_error hnull (hdeep h), ?_, ?_⟩
  · intro maximum hmaximum h hnodes
    exact (validate_json_structure_ok hnull (hshallow h)).1 maximum hmaximum hnodes
  · intro h hmaximum
    exact (validate_json_structure_ok hnull (hshallow h)).2 hmaximum

/-- The walk takes no more rounds than a document has containers. A null document is accepted
    at once; any other is refused for its depth, for its exact number of nodes or not at all,
    in whatever order its keys and items stand. -/
theorem validate_json_structure_exact (hcontainers : container_count value ≤ MAX_ADMITTED_JSON_NODES) :
    (∀ fuel, container_count value < fuel → structure_walk max_depth fuel 1 0 [(value, 0)] =
      structure_walk max_depth (MAX_ADMITTED_JSON_NODES + 2) 1 0 [(value, 0)]) ∧
    (value = .null → validate_json_structure max_depth max_nodes (some value) = .ok ()) ∧
    (value ≠ .null →
      (validate_json_structure max_depth max_nodes (some value) =
          .error (nesting_limit (Nat.lt_succ_self max_depth)) ↔ ∃ depth, NodeAt value depth ∧ max_depth < depth) ∧
      (∀ maximum (h : maximum < node_count value),
        validate_json_structure max_depth max_nodes (some value) =
            .error (nodes_exceeded "MCP metadata contains too many JSON nodes" .pii_engine true h) ↔
          (∀ depth, NodeAt value depth → depth ≤ max_depth) ∧ max_nodes = some maximum) ∧
      (validate_json_structure max_depth max_nodes (some value) = .ok () ↔
        (∀ depth, NodeAt value depth → depth ≤ max_depth) ∧ ∀ maximum ∈ max_nodes, node_count value ≤ maximum)) ∧
    (∀ other, Reordered value other → validate_json_structure max_depth max_nodes (some other) =
      validate_json_structure max_depth max_nodes (some value)) ∧
    (∀ message detail, validate_json_structure max_depth max_nodes (some value) =
      .error (.request_too_large message (some detail)) → detail.maximum < detail.measured) := by
  have hadmitted : (∀ depth, NodeAt value depth → depth ≤ max_depth) ↔ ¬ Deep max_depth value := by
    simp only [Deep, not_exists, not_and, Nat.not_lt]
  refine ⟨?_, ?_, ?_, ?_, fun _ detail _ => detail.exceeded⟩
  · intro fuel hfuel
    obtain ⟨hdeep, hshallow⟩ := @structure_walk_root max_depth value _ hcontainers hfuel
    obtain ⟨hdeep', hshallow'⟩ := @structure_walk_root max_depth value _ hcontainers
      (show container_count value < MAX_ADMITTED_JSON_NODES + 2 by omega)
    by_cases h : Deep max_depth value
    · rw [hdeep h, hdeep' h]
    · rw [hshallow h, hshallow' h]
  · rintro rfl
    rfl
  · intro hnull
    obtain ⟨hdeep, hnodes, hok⟩ := @validate_json_structure_spec max_depth max_nodes value hnull hcontainers
    rw [hadmitted]
    change (_ ↔ Deep max_depth value) ∧ _
    by_cases h : Deep max_depth value
    · rw [hdeep h]
      refine ⟨iff_of_true rfl h, fun maximum hmaximum => ?_, ?_⟩
      · exact iff_of_false (by simp [nesting_limit, nodes_exceeded]) fun hshallow => hshallow.1 h
      · exact iff_of_false (by simp) fun hshallow => hshallow.1 h
    · by_cases hmaximum : ∀ maximum ∈ max_nodes, node_count value ≤ maximum
      · rw [hok h hmaximum]
        refine ⟨iff_of_false (by simp) h, fun maximum hless => ?_, iff_of_true rfl ⟨h, hmaximum⟩⟩
        exact iff_of_false (by simp) fun hsome => absurd (hmaximum maximum hsome.2) (Nat.not_le.mpr hless)
      · push Not at hmaximum
        obtain ⟨limit, hlimit, hless⟩ := hmaximum
        rw [hnodes limit hless h hlimit]
        refine ⟨iff_of_false (by simp [nesting_limit, nodes_exceeded]) h, fun maximum hmaximum => ?_, ?_⟩
        · rw [Option.mem_def.mp hlimit, and_iff_right h, Except.error.injEq, Option.some.injEq]
          exact nodes_exceeded_inj
        · exact iff_of_false (by simp) fun hall => absurd (hall.2 limit hlimit) (Nat.not_le.mpr hless)
  · intro other hreordered
    by_cases hnull : value = .null
    · rw [hreordered.eq_null hnull, hnull]
    · have hother : other ≠ .null := fun h => hnull (hreordered.symm.eq_null h)
      have hdeep_iff : Deep max_depth other ↔ Deep max_depth value := by simp only [Deep, hreordered.nodeAt_iff]
      have hcount := hreordered.node_count_eq
      obtain ⟨hdeep, hshallow⟩ := @structure_walk_root max_depth other
        (MAX_ADMITTED_JSON_NODES + 2) (by rwa [hreordered.container_count_eq])
        (by rw [hreordered.container_count_eq]; omega)
      obtain ⟨hdeep', hshallow'⟩ := @structure_walk_root max_depth value _ hcontainers
        (show container_count value < MAX_ADMITTED_JSON_NODES + 2 by omega)
      rw [hdeep_iff] at hdeep hshallow
      rw [validate_json_structure, validate_json_structure]
      · by_cases h : Deep max_depth value
        · rw [hdeep h, hdeep' h]
        · rw [hshallow h, hshallow' h, hcount]
      · exact hnull
      · exact hother

theorem validate_json_structure_exact_nested :
    validate_json_structure 1 none (some (.list [.list [.bool true]])) = .error (nesting_limit (Nat.lt_succ_self 1)) :=
  ((@validate_json_structure_exact _ _ (.list [.list [.bool true]]) (by decide)).2.2.1 (fun h => by cases h)).1.mpr
    ⟨2, .child List.mem_cons_self (.child List.mem_cons_self (.root _)), by decide⟩

/-- A null document is accepted even where no node is admitted. -/
theorem validate_json_structure_null :
    validate_json_structure 1 (some 0) (some .null) = .ok () ∧ 0 < node_count .null := by
  decide

end validation

end pii_engine.request_segments
