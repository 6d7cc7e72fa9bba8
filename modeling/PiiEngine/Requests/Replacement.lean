import PiiEngine.Requests.Edits

open checked collections prefixes

namespace pii_engine.request_segments

/-- Leaves and what is written over them. -/
abbrev Changes := List (RootedLeaf × Fill)

/-- What is written over the leaves of one document: the request, or the one encoded at a root. -/
def fills (changes : Changes) (root : Option (List PathPart)) : Writes := fun path =>
  (changes.find? fun change => change.1.json_root = root ∧ change.1.path = path).map Prod.snd

/-- The roots of the encoded documents that some leaves stand in, each at its first leaf. -/
def roots (leaves : List RootedLeaf) : List (List PathPart) :=
  leaves.foldl (fun roots leaf =>
    leaf.json_root.elim roots fun root => if root ∈ roots then roots else roots ++ [root]) []

/-- Every leaf stands where its path says, and none stands in the way of another. -/
structure Sound (loads : Loads) (max_depth : Nat) (data : JsonValue) (leaves : List RootedLeaf) : Prop where
  distinct : Distinct data
  paths : (leaves.map fun leaf => leaf.path).Nodup
  direct : ∀ leaf ∈ leaves, leaf.json_root = none → leaf.path ≠ [] ∧ StringAt data leaf.path leaf.text
  encoded : ∀ leaf ∈ leaves, ∀ root, leaf.json_root = some root → root ≠ [] ∧ ∃ encoded decoded nested,
    Reaches data root (.string encoded) ∧ checked_loads loads max_depth encoded.toList = .ok decoded ∧
      Distinct decoded ∧
    leaf.path = root ++ nested ∧ StringAt decoded nested leaf.text
  apart : ∀ leaf ∈ leaves, ∀ other ∈ leaves, leaf.json_root = none → other.json_root ≠ some leaf.path

/-- The document that the text at a root encodes. -/
def document (loads : Loads) (max_depth : Nat) (data : JsonValue) (root : List PathPart) : JsonValue :=
  match decoded_root loads max_depth data root with
  | .ok value => value
  | .error _ => .null

/-- The request and its encoded documents with some changes. -/
def rebuilding (loads : Loads) (max_depth : Nat) (data : JsonValue) (changes : Changes) : Rebuild where
  data := overwrite (fills changes none) [] data
  encoded := (roots (changes.map Prod.fst)).map fun root =>
    (root, overwrite (fills changes (some root)) root (document loads max_depth data root))

theorem Sound.sublist {loads : Loads} {max_depth : Nat} {data : JsonValue} {leaves some_leaves : List RootedLeaf}
    (h : Sound loads max_depth data leaves) (hsub : some_leaves.Sublist leaves) :
    Sound loads max_depth data some_leaves where
  distinct := h.distinct
  paths := h.paths.sublist (hsub.map _)
  direct leaf hleaf := h.direct leaf (hsub.subset hleaf)
  encoded leaf hleaf := h.encoded leaf (hsub.subset hleaf)
  apart leaf hleaf other hother := h.apart leaf (hsub.subset hleaf) other (hsub.subset hother)

section roots
variable {leaves : List RootedLeaf} {leaf : RootedLeaf} {root : List PathPart}

theorem roots_append_none (h : leaf.json_root = none) : roots (leaves ++ [leaf]) = roots leaves := by
  rw [roots, List.foldl_append, List.foldl_cons, List.foldl_nil, h]
  rfl

theorem roots_append_some (h : leaf.json_root = some root) :
    roots (leaves ++ [leaf]) = if root ∈ roots leaves then roots leaves else roots leaves ++ [root] := by
  rw [roots, List.foldl_append, List.foldl_cons, List.foldl_nil, h]
  rfl

theorem mem_roots : root ∈ roots leaves ↔ ∃ leaf ∈ leaves, leaf.json_root = some root := by
  induction leaves using List.reverseRecOn with
  | nil => simp [roots]
  | append_singleton leaves leaf ih =>
    rw [exists_mem_append_singleton, ← ih]
    cases hroot : leaf.json_root with
    | none =>
      rw [roots_append_none hroot]
      simp
    | some own =>
      rw [roots_append_some hroot, Option.some.injEq]
      split
      case isTrue hmem =>
        refine ⟨Or.inl, ?_⟩
        rintro (h | rfl)
        · exact h
        · exact hmem
      case isFalse => rw [List.mem_append, List.mem_singleton, eq_comm]

theorem roots_nodup (leaves : List RootedLeaf) : (roots leaves).Nodup := by
  induction leaves using List.reverseRecOn with
  | nil => exact List.nodup_nil
  | append_singleton leaves leaf ih =>
    cases hroot : leaf.json_root with
    | none =>
      rw [roots_append_none hroot]
      exact ih
    | some own =>
      rw [roots_append_some hroot]
      split
      case isTrue => exact ih
      case isFalse hmem =>
        rw [← List.concat_eq_append]
        exact ih.concat hmem

/-- Assigning to an entry of a function on some keys. -/
theorem assign_map {ν : Type} (f f' : List PathPart → ν) {keys : List (List PathPart)} {key : List PathPart} {v : ν}
    (hnodup : keys.Nodup) (hkey : f' key = v) (hrest : ∀ other, other ≠ key → f' other = f other) :
    OrderedDict.assign key v (keys.map fun k => (k, f k)) =
      (if key ∈ keys then keys else keys ++ [key]).map fun k => (k, f' k) := by
  by_cases hmem : key ∈ keys
  · rw [if_pos hmem]
    induction keys with
    | nil => cases hmem
    | cons first keys ih =>
      rw [List.nodup_cons] at hnodup
      rw [List.map_cons, OrderedDict.assign]
      by_cases hfirst : first = key
      · subst hfirst
        rw [if_pos rfl, List.map_cons, hkey]
        refine congrArg (_ :: ·) (List.map_congr_left fun other hother => ?_)
        rw [hrest other (ne_of_mem_of_not_mem hother hnodup.1)]
      · rw [if_neg hfirst, ih hnodup.2 ((List.mem_cons.mp hmem).resolve_left (Ne.symm hfirst)), List.map_cons,
          hrest first hfirst]
  · have hmap : keys.map (fun k => (k, f k)) = keys.map fun k => (k, f' k) :=
      List.map_congr_left fun other hother => by rw [hrest other (ne_of_mem_of_not_mem hother hmem)]
    have hnot : key ∉ (keys.map fun k => (k, f k)).map Prod.fst := by
      rw [List.map_map]
      simpa using hmem
    rw [if_neg hmem, OrderedDict.assign_of_not_mem v hnot, hmap, List.map_append, List.map_singleton, hkey]

theorem lookup_map {ν : Type} {keys : List (List PathPart)} (f : List PathPart → ν) (key : List PathPart) :
    (keys.map fun k => (k, f k)).lookup key = if key ∈ keys then some (f key) else none := by
  induction keys with
  | nil => rfl
  | cons first keys ih =>
    rw [List.map_cons, List.lookup_cons]
    by_cases hfirst : key = first
    · subst hfirst
      simp
    · rw [beq_eq_false_iff_ne.mpr hfirst]
      simp only [ih, List.mem_cons, hfirst, false_or]

end roots

section fills
variable {changes : Changes} {change : RootedLeaf × Fill} {root : Option (List PathPart)} {path : List PathPart}

theorem fills_eq_none (h : path ∉ changes.map fun change => change.1.path) : fills changes root path = none := by
  rw [fills, Option.map_eq_none_iff, List.find?_eq_none]
  intro change hchange hfound
  rw [decide_eq_true_eq] at hfound
  exact h (List.mem_map.mpr ⟨change, hchange, hfound.2⟩)

theorem fills_of_no_root (h : ∀ change ∈ changes, change.1.json_root ≠ root) (path : List PathPart) :
    fills changes root path = none := by
  rw [fills, Option.map_eq_none_iff, List.find?_eq_none]
  intro change hchange hfound
  rw [decide_eq_true_eq] at hfound
  exact h change hchange hfound.1

theorem fills_append_other (h : change.1.json_root ≠ root) : fills (changes ++ [change]) root = fills changes root := by
  funext path
  rw [fills, fills, List.find?_append, List.find?_singleton, if_neg (by simp [h]), Option.or_none]

/-- A further change is written after the others. -/
theorem fills_append (h : change.1.json_root = root) (hpath : change.1.path ∉ changes.map fun change => change.1.path) :
    fills (changes ++ [change]) root = (Writes.single change.1.path change.2).after (fills changes root) := by
  funext path
  rw [Writes.after, Writes.single, fills, List.find?_append, List.find?_singleton]
  by_cases hsame : path = change.1.path
  · subst hsame
    have hnone : fills changes root change.1.path = none := fills_eq_none hpath
    have hfind : changes.find? (fun other => other.1.json_root = root ∧ other.1.path = change.1.path) = none :=
      Option.map_eq_none_iff.mp hnone
    have hhere : decide (change.1.json_root = root ∧ change.1.path = change.1.path) = true := decide_eq_true ⟨h, rfl⟩
    rw [hnone, hfind, Option.none_or, if_pos hhere, if_neg (by simp), if_pos rfl, Option.or_none, Option.map_some]
  · have hother : ¬ change.1.path = path := Ne.symm hsame
    rw [if_neg hsame, if_neg (by simp [hother]), Option.or_none, Option.none_or, ← fills]
    split
    case isTrue hnull => exact hnull
    case isFalse => rfl

end fills

section replace
variable {loads : Loads} {max_depth : Nat} {data value : JsonValue} {done changes : Changes}
  {change : RootedLeaf × Fill} {root nested : List PathPart} {text : Text}

/-- A leaf of a document is written over, also where the document is the leaf. -/
theorem replace_nested_eq (hstands : StringAt value nested text) (hdistinct : Distinct value) (root : List PathPart)
    (fill : Fill) : replace_nested value nested fill = .ok (overwrite (.single (root ++ nested) fill) root value) := by
  rw [replace_nested]
  by_cases hnested : nested = []
  · subst hnested
    cases hstands
    rw [if_pos rfl, overwrite, List.append_nil, single_self]
    rfl
  · rw [if_neg hnested, set_eq_overwrite hstands rfl hdistinct hnested root]
    rfl

/-- No change of the request writes over encoded arguments. -/
theorem fills_root (hsound : Sound loads max_depth data ((done ++ [change]).map Prod.fst))
    (hroot : change.1.json_root = some root) : fills done none root = none := by
  rw [fills, Option.map_eq_none_iff, List.find?_eq_none]
  intro other hother hfound
  rw [decide_eq_true_eq] at hfound
  have hmem : other.1 ∈ (done ++ [change]).map Prod.fst := List.mem_map.mpr ⟨other, List.mem_append_left _ hother, rfl⟩
  have hlast : change.1 ∈ (done ++ [change]).map Prod.fst := List.mem_map.mpr ⟨change, by simp, rfl⟩
  refine hsound.apart other.1 hmem change.1 hlast hfound.1 ?_
  rw [hroot, hfound.2]

theorem not_mem_done (hsound : Sound loads max_depth data ((done ++ [change]).map Prod.fst)) :
    change.1.path ∉ done.map fun change => change.1.path := by
  have hnodup := hsound.paths
  rw [List.map_map, List.map_append, List.map_singleton, List.nodup_append] at hnodup
  intro hmem
  exact hnodup.2.2 _ hmem _ (List.mem_singleton_self _) rfl

theorem document_eq {encoded : String} {decoded : JsonValue} (hdistinct : Distinct data)
    (hreaches : Reaches data root (.string encoded))
    (hloads : checked_loads loads max_depth encoded.toList = .ok decoded) :
    document loads max_depth data root = decoded := by
  rw [document, decoded_root, get_of_reaches hreaches hdistinct]
  dsimp only
  rw [hloads]

/-- An encoded document, as far as it is changed already. -/
theorem root_document_eq {encoded : String} {decoded : JsonValue}
    (hsound : Sound loads max_depth data ((done ++ [change]).map Prod.fst)) (hroot : change.1.json_root = some root)
    (hreaches : Reaches data root (.string encoded))
    (hloads : checked_loads loads max_depth encoded.toList = .ok decoded) :
    root_document loads max_depth (rebuilding loads max_depth data done) root =
      .ok (overwrite (fills done (some root)) root decoded) := by
  dsimp only [root_document, rebuilding]
  rw [lookup_map]
  by_cases hmem : root ∈ roots (done.map Prod.fst)
  · rw [if_pos hmem, document_eq hsound.distinct hreaches hloads]
    rfl
  · have hnone : ∀ other ∈ done, other.1.json_root ≠ some root := by
      intro other hother hsome
      exact hmem (mem_roots.mpr ⟨other.1, List.mem_map.mpr ⟨other, hother, rfl⟩, hsome⟩)
    have hstays := reaches_overwrite (fills done none) hreaches []
    rw [List.nil_append, overwrite_string (fills_root hsound hroot)] at hstays
    rw [if_neg hmem, overwrite_of_none root (fun rest => fills_of_no_root hnone _) decoded]
    dsimp only
    rw [decoded_root, get_of_reaches hstays (hsound.distinct.overwrite [])]
    exact hloads

/-- One step of the loop. -/
theorem replace_leaf_eq (hsound : Sound loads max_depth data ((done ++ [change]).map Prod.fst)) :
    replace_leaf loads max_depth (rebuilding loads max_depth data done) change.1 change.2 =
      .ok (rebuilding loads max_depth data (done ++ [change])) := by
  have hlast : change.1 ∈ (done ++ [change]).map Prod.fst := List.mem_map.mpr ⟨change, by simp, rfl⟩
  have hpath := not_mem_done hsound
  rw [replace_leaf]
  cases hroot : change.1.json_root with
  | none =>
    obtain ⟨hne, hstands⟩ := hsound.direct change.1 hlast hroot
    have hreaches := reaches_overwrite (fills done none) hstands []
    rw [List.nil_append, overwrite_string (fills_eq_none hpath)] at hreaches
    have hset := set_eq_overwrite hreaches rfl (hsound.distinct.overwrite []) hne [] change.2
    rw [List.nil_append, overwrite_overwrite, ← fills_append hroot hpath] at hset
    have hencoded : (rebuilding loads max_depth data (done ++ [change])).encoded =
        (rebuilding loads max_depth data done).encoded := by
      dsimp only [rebuilding]
      rw [List.map_append, List.map_singleton, roots_append_none hroot]
      refine List.map_congr_left fun root _ => ?_
      rw [fills_append_other (by rw [hroot]; simp)]
    dsimp only
    rw [show (rebuilding loads max_depth data done).data = overwrite (fills done none) [] data from rfl, hset,
      ← hencoded]
    rfl
  | some root =>
    obtain ⟨-, encoded, decoded, nested, hreaches, hloads, hdistinct, hleaf, hstands⟩ :=
      hsound.encoded change.1 hlast root hroot
    have hdrop : change.1.path.drop root.length = nested := by rw [hleaf, List.drop_left]
    have hinner := reaches_overwrite (fills done (some root)) hstands root
    rw [← hleaf, overwrite_string (fills_eq_none hpath)] at hinner
    have hreplaced := replace_nested_eq hinner (hdistinct.overwrite root) root change.2
    rw [← hleaf, overwrite_overwrite, ← fills_append hroot hpath] at hreplaced
    have hrest : ∀ other, other ≠ root → overwrite (fills (done ++ [change]) (some other)) other
        (document loads max_depth data other) =
          overwrite (fills done (some other)) other (document loads max_depth data other) := by
      intro other hother
      rw [fills_append_other (by rw [hroot]; simpa using Ne.symm hother)]
    have hassign := assign_map (fun key => overwrite (fills done (some key)) key (document loads max_depth data key))
      (fun key => overwrite (fills (done ++ [change]) (some key)) key (document loads max_depth data key))
      (roots_nodup (done.map Prod.fst)) rfl hrest
    dsimp only
    rw [hdrop, root_document_eq hsound hroot hreaches hloads]
    have hdata : (rebuilding loads max_depth data (done ++ [change])).data =
        (rebuilding loads max_depth data done).data := by
      dsimp only [rebuilding]
      rw [fills_append_other (by rw [hroot]; simp)]
    have hencoded : (rebuilding loads max_depth data (done ++ [change])).encoded =
        OrderedDict.assign root (overwrite (fills (done ++ [change]) (some root)) root decoded)
          (rebuilding loads max_depth data done).encoded := by
      dsimp only [rebuilding]
      rw [List.map_append, List.map_singleton, roots_append_some hroot, ← hassign,
        document_eq hsound.distinct hreaches hloads]
    change (replace_nested (overwrite (fills done (some root)) root decoded) nested change.2 >>= fun value => pure _) =
      _
    rw [hreplaced]
    change Except.ok (Rebuild.mk (rebuilding loads max_depth data done).data
      (OrderedDict.assign root _ (rebuilding loads max_depth data done).encoded)) = .ok (Rebuild.mk _ _)
    rw [← hencoded, ← hdata]
    rfl

/-- The loop writes every change over its leaf. -/
theorem replace_leaves_eq (hsound : Sound loads max_depth data (changes.map Prod.fst)) :
    changes.foldlM (fun s change => replace_leaf loads max_depth s change.1 change.2) { data := data } =
      .ok (rebuilding loads max_depth data changes) := by
  induction changes using List.reverseRecOn with
  | nil =>
    have hnone : overwrite (fills [] none) [] data = data := overwrite_of_none [] (fun _ => rfl) data
    change Except.ok (Rebuild.mk data []) = .ok (Rebuild.mk _ [])
    rw [hnone]
  | append_singleton done change ih =>
    have hdone : (done.map Prod.fst).Sublist ((done ++ [change]).map Prod.fst) :=
      (List.sublist_append_left done [change]).map _
    rw [List.foldlM_append, ih (hsound.sublist hdone)]
    change (replace_leaf loads max_depth (rebuilding loads max_depth data done) change.1 change.2 >>= pure) = _
    rw [replace_leaf_eq hsound]
    rfl

end replace

end pii_engine.request_segments
