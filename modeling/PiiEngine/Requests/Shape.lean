import PiiEngine.Requests.Soundness

open checked collections json_text prefixes

namespace pii_engine.request_segments

namespace Writes

/-- Writes at listed paths. -/
def of (entries : List (List PathPart × Fill)) : Writes := fun path => entries.lookup path

theorem nil_after (writes : Writes) : (of []).after writes = writes := by
  funext path
  rw [after]
  split
  case isTrue hnull => exact hnull.symm
  case isFalse => rfl

/-- Writing at listed paths is writing at the first and then at the others. -/
theorem cons_after {entry : List PathPart × Fill} {entries : List (List PathPart × Fill)} {writes : Writes}
    (hentry : entry.1 ∉ entries.map Prod.fst) (hnone : writes entry.1 = none) :
    (of (entry :: entries)).after writes = (of entries).after ((single entry.1 entry.2).after writes) := by
  have hlookup : of entries entry.1 = none := by
    rw [of, List.lookup_eq_none_iff]
    intro other hother
    rw [bne_iff_ne]
    exact fun heq => hentry (heq ▸ List.mem_map.mpr ⟨other, hother, rfl⟩)
  funext path
  rw [after, after, after, of, List.lookup_cons]
  by_cases hpath : path = entry.1
  · subst hpath
    rw [hnone, beq_self_eq_true, hlookup]
    cases hfill : entry.2 with
    | null => simp [single]
    | text text => simp [single]
  · rw [beq_eq_false_iff_ne.mpr hpath, single, if_neg hpath, Option.none_or]
    dsimp only
    by_cases hnull : writes path = some .null
    · rw [if_pos hnull, if_pos hnull, if_pos rfl]
    · rw [if_neg hnull, if_neg hnull, if_neg hnull, of]

end Writes

section set
variable {data : JsonValue} {entries : List (List PathPart × Fill)} {writes : Writes}

/-- Setting strings at different paths one after the other writes over them. -/
theorem set_all_eq (hdistinct : Distinct data) (hnodup : (entries.map Prod.fst).Nodup)
    (hstands : ∀ entry ∈ entries, entry.1 ≠ [] ∧ ∃ text, Reaches data entry.1 (.string text))
    (hnone : ∀ entry ∈ entries, writes entry.1 = none) :
    entries.foldlM (fun data entry =>
      orRaise (data.set entry.1 entry.2.value) invalid_path) (overwrite writes [] data) =
      .ok (overwrite ((Writes.of entries).after writes) [] data) := by
  induction entries generalizing writes with
  | nil =>
    rw [Writes.nil_after]
    rfl
  | cons entry entries ih =>
    rw [List.map_cons, List.nodup_cons] at hnodup
    rw [List.forall_mem_cons] at hstands hnone
    obtain ⟨⟨hne, text, hreaches⟩, hrest⟩ := hstands
    have hstays := reaches_overwrite writes hreaches []
    rw [List.nil_append, overwrite_string hnone.1] at hstays
    have hset := set_eq_overwrite hstays rfl (hdistinct.overwrite []) hne [] entry.2
    rw [List.nil_append, overwrite_overwrite] at hset
    have hlater : ∀ other ∈ entries, (Writes.single entry.1 entry.2).after writes other.1 = none := by
      intro other hother
      have hother_ne : other.1 ≠ entry.1 := by
        intro heq
        exact hnodup.1 (heq ▸ List.mem_map.mpr ⟨other, hother, rfl⟩)
      rw [Writes.after, hnone.2 other hother, if_neg (by simp), Writes.single, if_neg hother_ne]
      rfl
    rw [List.foldlM_cons, hset, Writes.cons_after hnodup.1 hnone.1]
    exact ih hnodup.2 hrest hlater

end set

/-- The leaves whose text is to be another. -/
def changed (leaves : List RootedLeaf) (texts : List Text) : Changes :=
  (leaves.zip texts).filterMap fun entry =>
    if entry.1.text = entry.2 then none else some (entry.1, .text (String.ofList entry.2))

/-- Every leaf, with a null for its text. -/
def blanked (leaves : List RootedLeaf) : Changes := leaves.map fun leaf => (leaf, .null)

/-- What is written over the roots of a request under reconstruction. -/
def root_entries (fill : JsonValue → Fill) (s : Rebuild) : List (List PathPart × Fill) :=
  s.encoded.map fun entry => (entry.1, fill entry.2)

/-- What is written over the strings of a request when its leaves are changed. -/
def edits (fill : JsonValue → Fill) (loads : Loads) (max_depth : Nat) (data : JsonValue) (changes : Changes) : Writes :=
  (Writes.of (root_entries fill (rebuilding loads max_depth data changes))).after (fills changes none)

/-- A document as the text that encodes it. -/
def encoded_fill (dumps : Dumps) (value : JsonValue) : Fill := .text (String.ofList ((dumps value).getD []))

section runs
variable {loads : Loads} {dumps : Dumps} {max_depth : Nat} {data : JsonValue} {changes : Changes}
  {leaves : List RootedLeaf}

theorem keys_root_entries (fill : JsonValue → Fill) :
    (root_entries fill (rebuilding loads max_depth data changes)).map Prod.fst = roots (changes.map Prod.fst) := by
  rw [root_entries, List.map_map, rebuilding, List.map_map]
  exact List.map_id _

theorem root_stands (hsound : Sound loads max_depth data (changes.map Prod.fst)) {root : List PathPart}
    (h : root ∈ roots (changes.map Prod.fst)) :
    (root ≠ [] ∧ ∃ text, Reaches data root (.string text)) ∧ fills changes none root = none := by
  obtain ⟨leaf, hleaf, hroot⟩ := mem_roots.mp h
  obtain ⟨hne, encoded, -, -, hreaches, -⟩ := hsound.encoded leaf hleaf root hroot
  refine ⟨⟨hne, encoded, hreaches⟩, ?_⟩
  rw [fills, Option.map_eq_none_iff, List.find?_eq_none]
  intro change hchange hfound
  rw [decide_eq_true_eq] at hfound
  refine hsound.apart change.1 (List.mem_map.mpr ⟨change, hchange, rfl⟩) leaf hleaf hfound.1 ?_
  rw [hroot, hfound.2]

/-- Writing the changed documents over their roots. -/
theorem set_roots_eq (hsound : Sound loads max_depth data (changes.map Prod.fst)) (fill : JsonValue → Fill) :
    (root_entries fill (rebuilding loads max_depth data changes)).foldlM
      (fun data entry => orRaise (data.set entry.1 entry.2.value) invalid_path)
      (rebuilding loads max_depth data changes).data =
      .ok (overwrite (edits fill loads max_depth data changes) [] data) := by
  have hmem : ∀ entry ∈ root_entries fill (rebuilding loads max_depth data changes),
      entry.1 ∈ roots (changes.map Prod.fst) := by
    intro entry hentry
    have hkeys : (root_entries fill (rebuilding loads max_depth data changes)).map Prod.fst =
        roots (changes.map Prod.fst) := keys_root_entries fill
    rw [← hkeys]
    exact List.mem_map.mpr ⟨entry, hentry, rfl⟩
  refine set_all_eq hsound.distinct ?_ (fun entry hentry => (root_stands hsound (hmem entry hentry)).1)
    fun entry hentry => (root_stands hsound (hmem entry hentry)).2
  rw [keys_root_entries]
  exact roots_nodup _

theorem sublist_changed (leaves : List RootedLeaf) (texts : List Text) :
    ((changed leaves texts).map Prod.fst).Sublist leaves := by
  induction leaves generalizing texts with
  | nil => exact List.Sublist.refl _
  | cons leaf leaves ih =>
    cases texts with
    | nil => exact List.nil_sublist _
    | cons text texts =>
      rw [changed, List.zip_cons_cons, List.filterMap_cons]
      dsimp only
      split
      case h_1 => exact (ih texts).cons leaf
      case h_2 heq =>
        split at heq
        · cases heq
        · cases heq
          exact (ih texts).cons_cons leaf

theorem map_blanked (leaves : List RootedLeaf) : (blanked leaves).map Prod.fst = leaves := by
  rw [blanked, List.map_map]
  exact List.map_id leaves

/-- Encoding the changed documents. -/
theorem encode_roots_eq (hsound : Sound loads max_depth data (changes.map Prod.fst))
    (hdumps : ∀ entry ∈ (rebuilding loads max_depth data changes).encoded, (dumps entry.2).isSome) :
    encode_roots dumps (rebuilding loads max_depth data changes) =
      .ok (overwrite (edits (encoded_fill dumps) loads max_depth data changes) [] data) := by
  rw [← set_roots_eq hsound, encode_roots, root_entries, List.foldlM_map]
  refine foldlM_congr (fun entry hentry data => ?_) _
  obtain ⟨encoded, hencoded⟩ := Option.isSome_iff_exists.mp (hdumps entry hentry)
  obtain ⟨root, value⟩ := entry
  dsimp only at hencoded ⊢
  rw [encoded_fill, hencoded]
  rfl

namespace CanonicalExtraction

/-- What rebuilding makes of the data of a request. -/
theorem rebuild_eq {ρ : Type} {parse_request : ProtocolKind → JsonValue → Except AnalysisError ρ}
    {extraction : CanonicalExtraction} {segments : List (String × Text)}
    (hsound : Sound loads extraction.max_depth extraction.request extraction.leaves)
    (hids : segments.map Prod.fst = extraction.segments.map Prod.fst)
    (hdumps : ∀ entry ∈ (rebuilding loads extraction.max_depth extraction.request
      (changed extraction.leaves (segments.map Prod.snd))).encoded, (dumps entry.2).isSome) :
    extraction.rebuild loads dumps parse_request segments = parse_request extraction.protocol_kind
      (overwrite (edits (encoded_fill dumps) loads extraction.max_depth extraction.request
        (changed extraction.leaves (segments.map Prod.snd))) [] extraction.request) := by
  have hchanged := hsound.sublist (sublist_changed extraction.leaves (segments.map Prod.snd))
  have hloop : (extraction.leaves.zip (segments.map Prod.snd)).foldlM (fun s entry =>
      if entry.1.text = entry.2 then pure s
      else replace_leaf loads extraction.max_depth s entry.1 (.text (String.ofList entry.2)))
        { data := extraction.request } =
      Except.ok (rebuilding loads extraction.max_depth extraction.request
        (changed extraction.leaves (segments.map Prod.snd))) := by
    rw [← replace_leaves_eq hchanged, changed, List.foldlM_filterMap]
    refine foldlM_congr (fun entry _ s => ?_) _
    split
    · rfl
    · rfl
  rw [rebuild, if_neg (not_not.mpr hids)]
  change ((extraction.leaves.zip (segments.map Prod.snd)).foldlM (fun s entry =>
      if entry.1.text = entry.2 then pure s
      else replace_leaf loads extraction.max_depth s entry.1 (.text (String.ofList entry.2)))
        { data := extraction.request } >>=
    fun s => encode_roots dumps s >>= fun data => parse_request extraction.protocol_kind data) = _
  rw [hloop]
  change (encode_roots dumps _ >>= fun data => parse_request extraction.protocol_kind data) = _
  rw [encode_roots_eq hchanged hdumps]
  rfl

/-- The shape of a request: nulls for its texts and for those of the documents that it encodes. -/
theorem control_shape_eq {extraction : CanonicalExtraction}
    (hsound : Sound loads extraction.max_depth extraction.request extraction.leaves) :
    extraction.control_shape loads = .ok {
      data :=
        overwrite (edits (fun _ => .null) loads extraction.max_depth extraction.request (blanked extraction.leaves)) []
        extraction.request
      encoded := (rebuilding loads extraction.max_depth extraction.request (blanked extraction.leaves)).encoded } := by
  have hblanked : Sound loads extraction.max_depth extraction.request ((blanked extraction.leaves).map Prod.fst) := by
    rwa [map_blanked]
  have hloop : extraction.leaves.foldlM (fun s leaf => replace_leaf loads extraction.max_depth s leaf .null)
      { data := extraction.request } =
      Except.ok (rebuilding loads extraction.max_depth extraction.request (blanked extraction.leaves)) := by
    rw [← replace_leaves_eq hblanked, blanked, List.foldlM_map]
  have hroots := set_roots_eq hblanked fun _ => .null
  rw [root_entries, List.foldlM_map] at hroots
  rw [control_shape, hloop]
  change (List.foldlM (fun (data : JsonValue) (entry : List PathPart × JsonValue) =>
      orRaise (data.set entry.1 Fill.null.value) invalid_path) _ _ >>= fun data => pure _) = _
  rw [hroots]
  rfl

end CanonicalExtraction

end runs

end pii_engine.request_segments
