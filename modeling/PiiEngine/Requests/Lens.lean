import PiiEngine.Requests.Frame

open checked collections json_text prefixes

namespace pii_engine.request_segments

/-- A request whose texts are read, and texts to write over some of them. -/
structure Edited (codec : Codec) (max_depth : Nat) (kind : ProtocolKind) (data : JsonValue) (changes : Changes) :
    Prop where
  distinct : Distinct data
  read : ∀ region ∈ regions kind data,
    region.leaves codec.loads max_depth = .ok (region_leaves codec.loads max_depth region)
  some_leaves : (changes.map Prod.fst).Sublist ((regions kind data).flatMap (region_leaves codec.loads max_depth))
  texts : ∀ change ∈ changes, change.2 ≠ .null

/-- What is written over the strings of a request. -/
def Codec.edits (codec : Codec) (max_depth : Nat) (data : JsonValue) (changes : Changes) : Writes :=
  request_segments.edits (encoded_fill codec.dumps) codec.loads max_depth data changes

namespace Edited
variable {codec : Codec} {max_depth : Nat} {kind : ProtocolKind} {data : JsonValue} {changes : Changes}
  {region : Region} {root : List PathPart}

theorem sound (h : Edited codec max_depth kind data changes) :
    Sound codec.loads max_depth data ((regions kind data).flatMap (region_leaves codec.loads max_depth)) := by
  obtain ⟨parts, hplaced⟩ := placed_regions kind data
  exact sound_regions (fun _ _ hloads => codec.loads_distinct hloads) h.distinct hplaced h.read

theorem sound_changes (h : Edited codec max_depth kind data changes) :
    Sound codec.loads max_depth data (changes.map Prod.fst) := h.sound.sublist h.some_leaves

/-- A changed leaf is one of a region. -/
theorem mem_region (h : Edited codec max_depth kind data changes) {leaf : RootedLeaf}
    (hleaf : leaf ∈ changes.map Prod.fst) :
    ∃ region ∈ regions kind data, leaf ∈ region_leaves codec.loads max_depth region :=
  List.mem_flatMap.mp (h.some_leaves.subset hleaf)

theorem spares (h : Edited codec max_depth kind data changes) : Spares (codec.edits max_depth data changes) := by
  refine ⟨fun path hcontrol => ?_, edits_onlyTexts h.texts⟩
  by_contra hwritten
  obtain ⟨change, hchange, hnone, hpath⟩ | hroot := exists_of_edits hwritten
  · obtain ⟨region, hregion, hleaf⟩ := h.mem_region (List.mem_map.mpr ⟨change, hchange, rfl⟩)
    obtain ⟨-, -, rest, -, hrest, -⟩ := mem_region_leaves (h.read region hregion) hleaf
    have hfalse := uncontrolled_leaf (uncontrolled_regions hregion) hleaf hrest
    rw [hpath, hcontrol] at hfalse
    cases hfalse
  · obtain ⟨leaf, hleaf, hsome⟩ := mem_roots.mp hroot
    obtain ⟨region, hregion, hleaf⟩ := h.mem_region hleaf
    obtain ⟨hregion_root, -⟩ := mem_region_leaves (h.read region hregion) hleaf
    have hfalse := uncontrolled_root (uncontrolled_regions hregion) (hregion_root.symm.trans hsome)
    rw [hcontrol] at hfalse
    cases hfalse

/-- No text is written where an encoded document stands. -/
theorem fills_region_root (h : Edited codec max_depth kind data changes) (hregion : region ∈ regions kind data)
    (hroot : region.json_root = some root) : fills changes none root = none := by
  by_contra hsome
  obtain ⟨fill, hfill⟩ := Option.ne_none_iff_exists'.mp hsome
  obtain ⟨change, hchange, hnone, hpath, -⟩ := exists_of_fills hfill
  obtain ⟨parts, hplaced⟩ := placed_regions kind data
  have hleaf := h.some_leaves.subset (List.mem_map.mpr ⟨change, hchange, rfl⟩)
  exact path_ne_root hplaced h.read hregion hroot hleaf hnone hpath

theorem reaches_region (hregion : region ∈ regions kind data) : Reaches data region.path region.value := by
  obtain ⟨parts, hplaced⟩ := placed_regions kind data
  obtain ⟨part, rest, -, hpath, hreaches⟩ := hplaced.stands region hregion
  rw [hpath]
  exact hreaches

/-- An encoded document is written over as the document that it encodes. -/
theorem encoded_overwritten (h : Edited codec max_depth kind data changes) (hregion : region ∈ regions kind data)
    (hroot : region.json_root = some root) {encoded : String} {decoded : JsonValue}
    (hvalue : region.value = .string encoded)
    (hloads : checked_loads codec.loads max_depth encoded.toList = .ok decoded) :
    ∃ encoded' : String, overwrite (codec.edits max_depth data changes) root (.string encoded) = .string encoded' ∧
      checked_loads codec.loads max_depth encoded'.toList =
        .ok (overwrite (fills changes (some root)) root decoded) := by
  have hnone := h.fills_region_root hregion hroot
  by_cases hmem : root ∈ roots (changes.map Prod.fst)
  · obtain ⟨rfl, -⟩ := json_root_eq_some hroot
    have hreaches := reaches_region hregion
    rw [hvalue] at hreaches
    obtain ⟨hcheck, hdecoded⟩ := checked_loads_eq_ok.mp hloads
    have hdistinct := codec.loads_distinct hdecoded
    obtain ⟨text, hdumps⟩ := codec.dumps_overwrite region.path hdecoded (fills_onlyTexts h.texts (some region.path))
    refine ⟨String.ofList text, ?_, ?_⟩
    · rw [overwrite, Codec.edits, edits_eq, hnone, if_neg (by simp), if_pos hmem,
        document_eq h.distinct hreaches hloads, encoded_fill, hdumps]
      rfl
    · rw [String.toList_ofList, checked_loads_eq_ok]
      refine ⟨?_, codec.loads_dumps (hdistinct.overwrite region.path) hdumps⟩
      rw [check_encoded_depth_eq (codec.loads_written hdecoded)] at hcheck
      rw [check_encoded_depth_eq (codec.dumps_written hdumps), nesting_overwrite]
      exact hcheck
  · have hother : ∀ change ∈ changes, change.1.json_root ≠ some root := by
      intro change hchange hsome
      exact hmem (mem_roots.mpr ⟨change.1, List.mem_map.mpr ⟨change, hchange, rfl⟩, hsome⟩)
    refine ⟨encoded, overwrite_string ?_ encoded, ?_⟩
    · rw [Codec.edits, edits_of_not_root hmem, hnone]
    · rw [overwrite_of_none root (fun rest => fills_of_no_root hother _)]
      exact hloads

/-- A region that is written over holds the texts that were written. -/
theorem leaves_overwritten (h : Edited codec max_depth kind data changes) (hregion : region ∈ regions kind data) :
    (region.overwritten (codec.edits max_depth data changes)).leaves codec.loads max_depth =
      .ok ((region_leaves codec.loads max_depth region).map (RootedLeaf.refilled changes)) := by
  obtain ⟨found, hread, hleaves⟩ := bind_eq_ok.mp (h.read region hregion)
  have hgroup : region_leaves codec.loads max_depth region = found.map fun leaf => ⟨leaf, region.json_root⟩ :=
    (Except.ok.inj hleaves).symm
  have hread' : (region.overwritten (codec.edits max_depth data changes)).read codec.loads max_depth =
      .ok (found.map (Leaf.refill (fills changes region.json_root))) := by
    cases hroot : region.json_root with
    | none =>
      rw [read_overwritten h.spares.texts hroot, hread]
      refine congrArg Except.ok (List.map_congr_left fun leaf hleaf => ?_)
      have hmem : (⟨leaf, none⟩ : RootedLeaf) ∈ (regions kind data).flatMap (region_leaves codec.loads max_depth) := by
        refine List.mem_flatMap.mpr ⟨region, hregion, ?_⟩
        rw [hgroup, hroot]
        exact List.mem_map.mpr ⟨leaf, hleaf, rfl⟩
      have hnot : leaf.path ∉ roots (changes.map Prod.fst) := by
        intro hpath
        obtain ⟨other, hother, hsome⟩ := mem_roots.mp hpath
        exact h.sound.apart _ hmem other (h.some_leaves.subset hother) rfl hsome
      rw [Leaf.refill, Leaf.refill, Codec.edits, edits_of_not_root hnot]
    | some root =>
      obtain ⟨rfl, encoded, hvalue⟩ := json_root_eq_some hroot
      obtain ⟨reader, path, value⟩ := region
      cases reader with
      | arguments =>
        dsimp only at hvalue
        subst hvalue
        change arguments codec.loads max_depth path (.string encoded) = .ok found at hread
        rw [arguments_string] at hread
        obtain ⟨decoded, hloads, hread⟩ := bind_eq_ok.mp hread
        obtain ⟨encoded', hwritten, hloads'⟩ := h.encoded_overwritten hregion hroot rfl hloads
        change arguments codec.loads max_depth path (overwrite _ path (.string encoded)) = _
        rw [hwritten, arguments_string, hloads']
        change json_leaves max_depth path 0 (overwrite _ path decoded) = _
        rw [json_leaves_overwrite (fills_onlyTexts h.texts _), hread]
        rfl
      | _ => cases hroot
  rw [Region.leaves, hread', json_root_overwritten h.spares.texts, hgroup, List.map_map]
  change Except.ok ((found.map _).map _) = _
  rw [List.map_map]
  rfl

/-- The leaves of a request that is written over have the texts that were written. -/
theorem mapM_leaves_overwritten (h : Edited codec max_depth kind data changes) :
    (regions kind (overwrite (codec.edits max_depth data changes) [] data)).mapM (Region.leaves codec.loads max_depth) =
      .ok ((regions kind data).map fun region =>
        (region_leaves codec.loads max_depth region).map (RootedLeaf.refilled changes)) := by
  rw [regions_overwrite h.spares, mapM_eq_ok, List.forall₂_map_left_iff, List.forall₂_map_right_iff, List.forall₂_same]
  exact fun region hregion => h.leaves_overwritten hregion

/-- Extracting the texts of a request that is written over gives the texts that were written. -/
theorem extract_eq (h : Edited codec max_depth kind data changes)
    (hmetadata : validate_mcp_metadata max_depth (metadata kind data) = .ok ()) :
    extract_request codec.loads max_depth kind (overwrite (codec.edits max_depth data changes) [] data) = .ok {
      protocol_kind := kind
      request := overwrite (codec.edits max_depth data changes) [] data
      leaves := ((regions kind data).flatMap (region_leaves codec.loads max_depth)).map (RootedLeaf.refilled changes)
      attachments_present := attachments_present kind data
      max_depth } := by
  rw [extract_request, metadata_overwrite h.spares, hmetadata, h.mapM_leaves_overwritten,
    attachments_present_overwrite h.spares]
  change Except.ok (CanonicalExtraction.mk _ _ _ _ _) = _
  rw [← List.flatMap_def, List.map_flatMap]

end Edited

section changed
variable {leaves : List RootedLeaf} {texts : List Text} {leaf : RootedLeaf} {text : Text}

theorem changed_cons (leaf : RootedLeaf) (leaves : List RootedLeaf) (text : Text) (texts : List Text) :
    changed (leaf :: leaves) (text :: texts) =
      if leaf.text = text then changed leaves texts
        else (leaf, .text (String.ofList text)) :: changed leaves texts := by
  rw [changed, List.zip_cons_cons, List.filterMap_cons]
  dsimp only
  by_cases h : leaf.text = text
  · rw [if_pos h, if_pos h]
    rfl
  · rw [if_neg h, if_neg h]
    rfl

/-- What is written over a leaf is its new text, unless it has it already. -/
theorem fills_changed (hnodup : (leaves.map fun leaf => leaf.path).Nodup) (hmem : (leaf, text) ∈ leaves.zip texts) :
    fills (changed leaves texts) leaf.json_root leaf.path =
      if leaf.text = text then none else some (.text (String.ofList text)) := by
  induction leaves generalizing texts with
  | nil => cases hmem
  | cons first leaves ih =>
    cases texts with
    | nil => cases hmem
    | cons first_text texts =>
      rw [List.map_cons, List.nodup_cons] at hnodup
      rw [List.zip_cons_cons, List.mem_cons] at hmem
      rw [changed_cons]
      obtain heq | hmem := hmem
      · cases heq
        by_cases htext : leaf.text = text
        · rw [if_pos htext, if_pos htext]
          refine fills_eq_none fun hpath => hnodup.1 ?_
          obtain ⟨change, hchange, hpath⟩ := List.mem_map.mp hpath
          have hleaf := (sublist_changed leaves texts).subset (List.mem_map.mpr ⟨change, hchange, rfl⟩)
          exact List.mem_map.mpr ⟨change.1, hleaf, hpath⟩
        · rw [if_neg htext, if_neg htext, fills, List.find?_cons_of_pos (by simp)]
          rfl
      · have hleaf : leaf ∈ leaves := (List.of_mem_zip hmem).1
        have hne : first.path ≠ leaf.path := fun heq => hnodup.1 (heq ▸ List.mem_map.mpr ⟨leaf, hleaf, rfl⟩)
        split
        · exact ih hnodup.2 hmem
        · rw [fills, List.find?_cons_of_neg (by simp [hne])]
          exact ih hnodup.2 hmem

/-- Leaves with other texts. -/
def retexted (leaves : List RootedLeaf) (texts : List Text) : List RootedLeaf :=
  (leaves.zip texts).map fun (leaf, text) => { leaf with text }

theorem map_refilled (hnodup : (leaves.map fun leaf => leaf.path).Nodup) (hlength : leaves.length = texts.length) :
    leaves.map (RootedLeaf.refilled (changed leaves texts)) = retexted leaves texts := by
  have hfst : (leaves.zip texts).map Prod.fst = leaves := List.map_fst_zip hlength.le
  have hzip : leaves.map (RootedLeaf.refilled (changed leaves texts)) =
      (leaves.zip texts).map fun entry => entry.1.refilled (changed leaves texts) := by
    conv_lhs => rw [← hfst, List.map_map]
    rw [hfst]
    rfl
  rw [hzip, retexted]
  refine List.map_congr_left fun entry hentry => ?_
  obtain ⟨leaf, text⟩ := entry
  have hfills := fills_changed hnodup hentry
  dsimp only
  rw [RootedLeaf.refilled]
  by_cases htext : leaf.text = text
  · rw [if_pos htext] at hfills
    rw [refill_of_none hfills, ← htext]
  · rw [if_neg htext] at hfills
    rw [Leaf.refill, hfills]
    dsimp only
    rw [String.toList_ofList]

theorem changed_self (leaves : List RootedLeaf) : changed leaves (leaves.map fun leaf => leaf.text) = [] := by
  induction leaves with
  | nil => rfl
  | cons leaf leaves ih => rw [List.map_cons, changed_cons, if_pos rfl, ih]

end changed

section blanked
variable {loads : Loads} {max_depth : Nat} {data : JsonValue} {leaves : List RootedLeaf}

theorem fills_blanked (leaves : List RootedLeaf) (root : Option (List PathPart)) (path : List PathPart) :
    fills (blanked leaves) root path =
      if ∃ leaf ∈ leaves, leaf.json_root = root ∧ leaf.path = path then some .null else none := by
  by_cases h : ∃ leaf ∈ leaves, leaf.json_root = root ∧ leaf.path = path
  · rw [if_pos h]
    cases hfills : fills (blanked leaves) root path with
    | none =>
      rw [fills, Option.map_eq_none_iff, List.find?_eq_none] at hfills
      obtain ⟨leaf, hleaf, hhere⟩ := h
      exact absurd (decide_eq_true hhere) (hfills (leaf, .null) (List.mem_map.mpr ⟨leaf, hleaf, rfl⟩))
    | some fill =>
      obtain ⟨change, hchange, -, -, rfl⟩ := exists_of_fills hfills
      obtain ⟨leaf, -, rfl⟩ := List.mem_map.mp hchange
      rfl
  · rw [if_neg h, fills, Option.map_eq_none_iff, List.find?_eq_none]
    intro change hchange hfound
    rw [decide_eq_true_eq] at hfound
    obtain ⟨leaf, hleaf, rfl⟩ := List.mem_map.mp hchange
    exact h ⟨leaf, hleaf, hfound⟩

theorem edits_blanked (path : List PathPart) : edits (fun _ => .null) loads max_depth data (blanked leaves) path =
    if path ∈ roots leaves ∨ ∃ leaf ∈ leaves, leaf.json_root = none ∧ leaf.path = path then some .null else none := by
  rw [edits_eq, map_blanked, fills_blanked]
  by_cases hleaf : ∃ leaf ∈ leaves, leaf.json_root = none ∧ leaf.path = path
  · rw [if_pos hleaf, if_pos rfl, if_pos (Or.inr hleaf)]
  · rw [if_neg hleaf, if_neg (by simp), Option.or_none]
    exact if_congr (or_iff_left hleaf).symm rfl rfl

theorem roots_map (f : RootedLeaf → RootedLeaf) (h : ∀ leaf, (f leaf).json_root = leaf.json_root)
    (leaves : List RootedLeaf) :
    roots (leaves.map f) = roots leaves := by
  rw [roots, roots, List.foldl_map]
  refine congrArg (fun g => List.foldl g [] leaves) (funext fun found => funext fun leaf => ?_)
  rw [h]

/-- Writes over strings that are written over again leave no trace. -/
theorem after_eq_of_covers {later earlier : Writes} (htexts : earlier.OnlyTexts)
    (hcovers : ∀ path, earlier path ≠ none → later path ≠ none) : later.after earlier = later := by
  funext path
  rw [Writes.after, if_neg (htexts path)]
  cases hlater : later path with
  | some fill => rfl
  | none =>
    rw [Option.none_or]
    by_contra hne
    exact hcovers path hne hlater

end blanked

theorem refilled_path (changes : Changes) (leaf : RootedLeaf) : (leaf.refilled changes).path = leaf.path := by
  rw [RootedLeaf.refilled, Leaf.refill]
  dsimp only
  split
  · rfl
  · rfl

namespace Edited
variable {codec : Codec} {max_depth : Nat} {kind : ProtocolKind} {data : JsonValue} {changes : Changes}
  {root : List PathPart}

/-- The leaves of a request. -/
abbrev leaves (_ : Edited codec max_depth kind data changes) : List RootedLeaf :=
  (regions kind data).flatMap (region_leaves codec.loads max_depth)

/-- The leaves of the request that is written over stand in it. -/
theorem sound_overwritten (h : Edited codec max_depth kind data changes) :
    Sound codec.loads max_depth (overwrite (codec.edits max_depth data changes) [] data)
      (h.leaves.map (RootedLeaf.refilled changes)) := by
  have hread := regions_leaves_eq_ok h.mapM_leaves_overwritten
  obtain ⟨parts, hplaced⟩ := placed_regions kind (overwrite (codec.edits max_depth data changes) [] data)
  have hsound := sound_regions (fun _ _ hloads => codec.loads_distinct hloads) (h.distinct.overwrite []) hplaced hread.2
  rw [← hread.1, ← List.flatMap_def] at hsound
  rwa [leaves, List.map_flatMap]

/-- The document at a root, when it is written over. -/
theorem document_overwritten (h : Edited codec max_depth kind data changes) (hroot : root ∈ roots h.leaves) :
    document codec.loads max_depth (overwrite (codec.edits max_depth data changes) [] data) root =
      overwrite (fills changes (some root)) root (document codec.loads max_depth data root) := by
  obtain ⟨leaf, hleaf, hsome⟩ := mem_roots.mp hroot
  obtain ⟨region, hregion, hmem⟩ := List.mem_flatMap.mp hleaf
  obtain ⟨hregion_root, -⟩ := mem_region_leaves (h.read region hregion) hmem
  rw [hsome] at hregion_root
  obtain ⟨-, encoded, decoded, -, hreaches, hloads, -⟩ := h.sound.encoded leaf hleaf root hsome
  obtain ⟨hpath, own, hvalue⟩ := json_root_eq_some hregion_root.symm
  have hown := reaches_region hregion
  rw [← hpath, hvalue] at hown
  have heq := (get_of_reaches hown h.distinct).symm.trans (get_of_reaches hreaches h.distinct)
  rw [Option.some.injEq, JsonValue.string.injEq] at heq
  obtain ⟨encoded', hwritten, hloads'⟩ :=
    h.encoded_overwritten hregion hregion_root.symm (hvalue.trans (congrArg JsonValue.string heq)) hloads
  have hstays := reaches_overwrite (codec.edits max_depth data changes) hreaches []
  rw [List.nil_append, hwritten] at hstays
  rw [document_eq h.distinct hreaches hloads, document_eq (h.distinct.overwrite []) hstays hloads']

/-- The changed documents can be encoded. -/
theorem encodable (h : Edited codec max_depth kind data changes) :
    ∀ entry ∈ (rebuilding codec.loads max_depth data changes).encoded, (codec.dumps entry.2).isSome := by
  intro entry hentry
  obtain ⟨root, hroot, rfl⟩ := List.mem_map.mp hentry
  obtain ⟨leaf, hleaf, hsome⟩ := mem_roots.mp hroot
  obtain ⟨-, encoded, decoded, -, hreaches, hloads, -⟩ := h.sound_changes.encoded leaf hleaf root hsome
  obtain ⟨text, htext⟩ :=
    codec.dumps_overwrite root (checked_loads_eq_ok.mp hloads).2 (fills_onlyTexts h.texts (some root))
  dsimp only
  rw [document_eq h.distinct hreaches hloads, htext]
  rfl

/-- The shape of a request does not depend on its texts. -/
theorem shape_overwritten (h : Edited codec max_depth kind data changes) :
    overwrite (edits (fun _ => .null) codec.loads max_depth (overwrite (codec.edits max_depth data changes) [] data)
        (blanked (h.leaves.map (RootedLeaf.refilled changes)))) []
          (overwrite (codec.edits max_depth data changes) [] data) =
      overwrite (edits (fun _ => .null) codec.loads max_depth data (blanked h.leaves)) [] data ∧
    (rebuilding codec.loads max_depth (overwrite (codec.edits max_depth data changes) [] data)
        (blanked (h.leaves.map (RootedLeaf.refilled changes)))).encoded =
      (rebuilding codec.loads max_depth data (blanked h.leaves)).encoded := by
  have hroots : roots (h.leaves.map (RootedLeaf.refilled changes)) = roots h.leaves :=
    roots_map (RootedLeaf.refilled changes) (fun _ => rfl) h.leaves
  have hfills (root : Option (List PathPart)) :
      fills (blanked (h.leaves.map (RootedLeaf.refilled changes))) root = fills (blanked h.leaves) root := by
    funext path
    rw [fills_blanked, fills_blanked]
    refine if_congr ?_ rfl rfl
    constructor
    · rintro ⟨leaf, hleaf, hroot, hpath⟩
      obtain ⟨before, hbefore, rfl⟩ := List.mem_map.mp hleaf
      rw [refilled_path] at hpath
      exact ⟨before, hbefore, hroot, hpath⟩
    · rintro ⟨leaf, hleaf, hroot, hpath⟩
      refine ⟨leaf.refilled changes, List.mem_map.mpr ⟨leaf, hleaf, rfl⟩, hroot, ?_⟩
      rw [refilled_path]
      exact hpath
  constructor
  · have hedits : edits (fun _ => .null) codec.loads max_depth (overwrite (codec.edits max_depth data changes) [] data)
        (blanked (h.leaves.map (RootedLeaf.refilled changes))) =
        edits (fun _ => .null) codec.loads max_depth data (blanked h.leaves) := by
      funext path
      rw [edits_eq, edits_eq, map_blanked, map_blanked, hroots, hfills]
    rw [hedits, overwrite_overwrite, after_eq_of_covers h.spares.texts]
    intro path hwritten
    rw [edits_blanked, if_pos]
    · simp
    obtain ⟨change, hchange, hnone, hpath⟩ | hroot := exists_of_edits hwritten
    · exact Or.inr ⟨change.1, h.some_leaves.subset (List.mem_map.mpr ⟨change, hchange, rfl⟩), hnone, hpath⟩
    · obtain ⟨leaf, hleaf, hsome⟩ := mem_roots.mp hroot
      exact Or.inl (mem_roots.mpr ⟨leaf, h.some_leaves.subset hleaf, hsome⟩)
  · dsimp only [rebuilding]
    rw [map_blanked, map_blanked, hroots]
    refine List.map_congr_left fun root hroot => ?_
    rw [hfills, h.document_overwritten hroot, overwrite_overwrite, after_eq_of_covers (fills_onlyTexts h.texts _)]
    intro path hwritten
    obtain ⟨fill, hfill⟩ := Option.ne_none_iff_exists'.mp hwritten
    obtain ⟨change, hchange, hsome, hpath, -⟩ := exists_of_fills hfill
    rw [fills_blanked, if_pos]
    · simp
    exact ⟨change.1, h.some_leaves.subset (List.mem_map.mpr ⟨change, hchange, rfl⟩), hsome, hpath⟩

end Edited

/-- A string after its opening quote, with its escapes undone, and what is left of the text. -/
def unquote : Text → Option (Text × Text)
  | [] => none
  | '"' :: rest => some ([], rest)
  | '\\' :: c :: rest => (unquote rest).map fun (text, rest) => (c :: text, rest)
  | c :: rest => (unquote rest).map fun (text, rest) => (c :: text, rest)

/-- A string between its quotes. -/
def quoted (text : Text) : Text := text.flatMap fun c => if c = '"' ∨ c = '\\' then ['\\', c] else [c]

theorem unquote_quoted (text rest : Text) : unquote (quoted text ++ '"' :: rest) = some (text, rest) := by
  induction text with
  | nil => rfl
  | cons c text ih =>
    rw [quoted, List.flatMap_cons]
    by_cases hmark : c = '"' ∨ c = '\\'
    · rw [if_pos hmark]
      change (unquote (quoted text ++ '"' :: rest)).map _ = _
      rw [ih]
      rfl
    · rw [not_or] at hmark
      rw [if_neg (not_or.mpr hmark), List.append_assoc, List.singleton_append, unquote]
      · change (unquote (quoted text ++ '"' :: rest)).map _ = _
        rw [ih]
        rfl
      · exact hmark.1
      · intro _ _ heq
        exact absurd heq hmark.2

theorem quoted_of_unquote {body text rest : Text} (h : unquote body = some (text, rest)) : Quoted body rest := by
  induction body using unquote.induct generalizing text with
  | case1 => cases h
  | case2 rest' =>
    cases h
    exact .close _
  | case3 c rest' ih =>
    obtain ⟨⟨inner, last⟩, hinner, heq⟩ := Option.map_eq_some_iff.mp h
    cases heq
    exact .escape c (ih hinner)
  | case4 c rest' hquote hescape ih =>
    rw [unquote] at h
    · obtain ⟨⟨inner, last⟩, hinner, heq⟩ := Option.map_eq_some_iff.mp h
      cases heq
      by_cases hc : c = '\\'
      · subst hc
        cases rest' with
        | nil => cases hinner
        | cons c' rest' => exact absurd rfl (hescape c' rest' rfl)
      · exact .char hquote hc (ih hinner)
    · exact hquote
    · exact hescape

/-- The arguments of a call that takes a name. -/
def name_arguments (name : Text) : JsonValue := .dict [("name", .string (String.ofList name))]

def name_opening : Text := "\x7b\"name\":\"".toList

def name_loads : Loads := fun text =>
  if name_opening <+: text then
    match unquote (text.drop name_opening.length) with
    | some (name, ['\x7d']) => some (name_arguments name)
    | _ => none
  else none

def name_dumps : Dumps
  | .dict [(key, .string name)] =>
    if key = "name" then some (name_opening ++ (quoted name.toList ++ '"' :: ['\x7d'])) else none
  | _ => none

theorem name_loads_eq_some {text : Text} {value : JsonValue} (h : name_loads text = some value) :
    ∃ name rest, text = name_opening ++ rest ∧ unquote rest = some (name, ['\x7d']) ∧ value = name_arguments name := by
  unfold name_loads at h
  split at h
  case isFalse => cases h
  case isTrue hpre =>
    split at h
    case h_2 => cases h
    case h_1 name hname =>
      exact ⟨name, _, (List.prefix_iff_eq_append.mp hpre).symm, hname, (Option.some.inj h).symm⟩

theorem name_dumps_eq_some {value : JsonValue} {text : Text} (h : name_dumps value = some text) :
    ∃ name, value = name_arguments name ∧ text = name_opening ++ (quoted name ++ '"' :: ['\x7d']) := by
  unfold name_dumps at h
  split at h
  case h_2 => cases h
  case h_1 key name =>
    split at h
    case isFalse => cases h
    case isTrue hkey =>
      subst hkey
      refine ⟨name.toList, ?_, (Option.some.inj h).symm⟩
      rw [name_arguments, String.ofList_toList]

theorem name_written {name rest : Text} (h : Quoted rest ['\x7d']) :
    Written (name_arguments name) (name_opening ++ rest) [] := by
  have hkey : Quoted ('n' :: 'a' :: 'm' :: 'e' :: '"' :: ':' :: '"' :: rest) (':' :: '"' :: rest) := by
    iterate 4 refine .char (by decide) (by decide) ?_
    exact .close _
  have hitem : Written (.string (String.ofList name)) (':' :: '"' :: rest) ['\x7d'] :=
    .string _ (.cons (by decide) (.nil _)) h (.nil _)
  have hentries := WrittenEntries.cons "name" (.nil _) hkey hitem (.nil _)
  exact .dict (.nil _) hentries (.nil _) (.nil _)

theorem name_distinct (name : Text) : Distinct (name_arguments name) := by
  intro path entries hreaches
  cases hreaches with
  | here _ => exact List.nodup_singleton _
  | key hitem hrest =>
    obtain ⟨-, rfl⟩ := Prod.mk.inj (List.mem_singleton.mp hitem)
    cases hrest

/-- A codec for the arguments of calls that take a name. -/
def name_codec : Codec where
  loads := name_loads
  dumps := name_dumps
  loads_written h := by
    obtain ⟨name, rest, rfl, hname, rfl⟩ := name_loads_eq_some h
    exact name_written (quoted_of_unquote hname)
  loads_distinct h := by
    obtain ⟨name, rest, -, -, rfl⟩ := name_loads_eq_some h
    exact name_distinct name
  dumps_written h := by
    obtain ⟨name, rfl, rfl⟩ := name_dumps_eq_some h
    exact name_written (quoted_of_unquote (unquote_quoted name _))
  loads_dumps _ h := by
    obtain ⟨name, rfl, rfl⟩ := name_dumps_eq_some h
    rw [name_loads, if_pos (List.prefix_append _ _), List.drop_left, unquote_quoted]
    rfl
  dumps_overwrite path h htexts := by
    obtain ⟨name, rest, -, -, rfl⟩ := name_loads_eq_some h
    obtain ⟨text, htext⟩ := overwrite_text htexts (path ++ [.key "name"]) (String.ofList name)
    rw [name_arguments, overwrite, overwrite_entries, overwrite_entries, htext]
    exact ⟨_, rfl⟩

def call_request : JsonValue := .dict [("messages", .list [.dict [
  ("role", .string "assistant"), ("content", .string "I call Ada."),
  ("tool_calls", .list [.dict [("function", .dict [
    ("name", .string "call"), ("arguments", .string "\x7b\"name\":\"Ada\"\x7d")])]])]])]

def call_extraction : CanonicalExtraction where
  protocol_kind := .chat
  request := call_request
  leaves := [
    ⟨⟨[.key "messages", .index 0, .key "content"], "I call Ada.".toList⟩, none⟩,
    ⟨⟨[.key "messages", .index 0, .key "tool_calls", .index 0, .key "function", .key "arguments", .key "name"],
      "Ada".toList⟩, some [.key "messages", .index 0, .key "tool_calls", .index 0, .key "function", .key "arguments"]⟩]
  attachments_present := false
  max_depth := 32

theorem extract_call_request : extract_request name_codec.loads 32 .chat call_request = .ok call_extraction := by
  have hrun : (extract_request name_codec.loads 32 .chat call_request).toOption.any (fun extraction =>
      extraction.leaves = call_extraction.leaves ∧ extraction.attachments_present = false) = true := by
    decide +kernel
  cases hextract : extract_request name_codec.loads 32 .chat call_request with
  | error e =>
    rw [hextract] at hrun
    cases hrun
  | ok extraction =>
    rw [hextract] at hrun
    obtain ⟨hleaves, hattachments⟩ := of_decide_eq_true hrun
    obtain ⟨-, -, hextract⟩ := bind_eq_ok.mp hextract
    obtain ⟨groups, -, hextract⟩ := bind_eq_ok.mp hextract
    cases hextract
    exact congrArg Except.ok (congrArg₂ (fun leaves attachments =>
      CanonicalExtraction.mk .chat call_request leaves attachments 32) hleaves hattachments)

namespace CanonicalExtraction

/-- The same extraction of a request with other texts. -/
def with_texts (extraction : CanonicalExtraction) (request : JsonValue) (texts : List Text) : CanonicalExtraction :=
  { extraction with request, leaves := retexted extraction.leaves texts }

theorem texts_of_segments (extraction : CanonicalExtraction) :
    extraction.segments.map Prod.snd = extraction.leaves.map fun leaf => leaf.text := by
  rw [CanonicalExtraction.segments, List.map_map]
  refine List.ext_getElem? fun index => ?_
  rw [List.getElem?_map, List.getElem?_zipIdx, Option.map_map, List.getElem?_map]
  rfl

theorem length_segments (extraction : CanonicalExtraction) : extraction.segments.length = extraction.leaves.length := by
  rw [CanonicalExtraction.segments, List.length_map, List.length_zipIdx]

/-- A request is rebuilt by writing over its strings. -/
theorem rebuild_writes (codec : Codec) {max_depth : Nat} {kind : ProtocolKind} {data : JsonValue}
    {extraction : CanonicalExtraction} {segments : List (String × Text)} (hdistinct : Distinct data)
    (hextract : extract_request codec.loads max_depth kind data = .ok extraction)
    (hids : segments.map Prod.fst = extraction.segments.map Prod.fst) :
    ∃ writes, Spares writes ∧
      (∀ {ρ : Type} (parse_request : ProtocolKind → JsonValue → Except AnalysisError ρ),
        extraction.rebuild codec.loads codec.dumps parse_request segments =
          parse_request kind (overwrite writes [] data)) ∧
      extract_request codec.loads max_depth kind (overwrite writes [] data) =
        .ok (extraction.with_texts (overwrite writes [] data) (segments.map Prod.snd)) ∧
      (extraction.with_texts (overwrite writes [] data) (segments.map Prod.snd)).control_shape codec.loads =
        extraction.control_shape codec.loads ∧
      DiffersOnlyAt (changed_paths (extraction.leaves.map RootedLeaf.toLeaf) segments) data (overwrite writes [] data) ∧
      (segments = extraction.segments → overwrite writes [] data = data) ∧
      ∀ path, writes path ≠ none → (∃ leaf ∈ extraction.leaves, leaf.json_root = none ∧ leaf.path = path) ∨
        ∃ leaf ∈ extraction.leaves, leaf.json_root = some path := by
  obtain ⟨_, hmetadata, hextract⟩ := bind_eq_ok.mp hextract
  obtain ⟨groups, hgroups, hextract⟩ := bind_eq_ok.mp hextract
  cases hextract
  obtain ⟨hleaves, hread⟩ := regions_leaves_eq_ok hgroups
  have hedited : Edited codec max_depth kind data (changed groups.flatten (segments.map Prod.snd)) := by
    refine ⟨hdistinct, hread, hleaves ▸ sublist_changed _ _, fun change hchange => ?_⟩
    obtain ⟨entry, -, hentry⟩ := List.mem_filterMap.mp hchange
    split at hentry
    · cases hentry
    · cases hentry
      simp
  have hleaves' : hedited.leaves = groups.flatten := hleaves.symm
  have hsound : Sound codec.loads max_depth data groups.flatten := hleaves' ▸ hedited.sound
  have hlength : groups.flatten.length = (segments.map Prod.snd).length := by
    have hcount := congrArg List.length hids
    rw [List.length_map, List.length_map, length_segments] at hcount
    rw [List.length_map, hcount]
  have hrefilled := map_refilled hsound.paths hlength
  refine ⟨codec.edits max_depth data (changed groups.flatten (segments.map Prod.snd)), hedited.spares,
    fun parse_request => rebuild_eq hsound hids hedited.encodable, ?_, ?_, ?_, ?_, ?_⟩
  · have hextracted := hedited.extract_eq hmetadata
    rw [← hleaves, hrefilled] at hextracted
    exact hextracted
  · have hsound' := hedited.sound_overwritten
    have hshape := hedited.shape_overwritten
    rw [hleaves', hrefilled] at hsound' hshape
    refine Eq.trans (control_shape_eq hsound') (Eq.trans ?_ (Eq.symm (control_shape_eq hsound)))
    exact congrArg Except.ok (congrArg₂ Rebuild.mk hshape.1 hshape.2)
  · refine blank_overwrite hedited.spares.texts data [] _ fun rest hwritten => ?_
    exact on_way_of_edits hsound hwritten
  · rintro rfl
    rw [texts_of_segments, changed_self]
    refine overwrite_of_none [] (fun rest => ?_) data
    by_contra hwritten
    obtain ⟨change, hchange, -⟩ | hroot := exists_of_edits hwritten
    · cases hchange
    · cases hroot
  · intro path hwritten
    have hleaf : ∀ leaf ∈ (changed groups.flatten (segments.map Prod.snd)).map Prod.fst, leaf ∈ groups.flatten :=
      fun leaf hleaf => (sublist_changed _ _).subset hleaf
    obtain ⟨change, hchange, hnone, hpath⟩ | hroot := exists_of_edits hwritten
    · exact Or.inl ⟨change.1, hleaf _ (List.mem_map.mpr ⟨change, hchange, rfl⟩), hnone, hpath⟩
    · obtain ⟨leaf, hchanged, hsome⟩ := mem_roots.mp hroot
      exact Or.inr ⟨leaf, hleaf _ hchanged, hsome⟩

/-- Rebuilding a request with other texts gives a request from which these texts are extracted,
    each at the path where the old one was. It has the shape of the old one and differs from it at
    most on the way to changed texts; with the old texts it is the old one. -/
theorem rebuild_then_extract (codec : Codec) {max_depth : Nat} {kind : ProtocolKind} {data : JsonValue}
    {extraction : CanonicalExtraction} {segments : List (String × Text)} (hdistinct : Distinct data)
    (hextract : extract_request codec.loads max_depth kind data = .ok extraction)
    (hids : segments.map Prod.fst = extraction.segments.map Prod.fst) :
    ∃ rebuilt, (∀ {ρ : Type} (parse_request : ProtocolKind → JsonValue → Except AnalysisError ρ),
        extraction.rebuild codec.loads codec.dumps parse_request segments = parse_request kind rebuilt) ∧
      extract_request codec.loads max_depth kind rebuilt =
        .ok (extraction.with_texts rebuilt (segments.map Prod.snd)) ∧
      (extraction.with_texts rebuilt (segments.map Prod.snd)).control_shape codec.loads =
        extraction.control_shape codec.loads ∧
      DiffersOnlyAt (changed_paths (extraction.leaves.map RootedLeaf.toLeaf) segments) data rebuilt ∧
      (segments = extraction.segments → rebuilt = data) := by
  obtain ⟨writes, -, hrebuild, hextracted, hshape, hdiffers, hsame, -⟩ := rebuild_writes codec hdistinct hextract hids
  exact ⟨overwrite writes [] data, hrebuild, hextracted, hshape, hdiffers, hsame⟩

end CanonicalExtraction

theorem rebuild_then_extract_call : ∃ rebuilt,
    (∀ {ρ : Type} (parse_request : ProtocolKind → JsonValue → Except AnalysisError ρ),
      call_extraction.rebuild name_codec.loads name_codec.dumps parse_request
        [("s0", "I call Bo.".toList), ("s1", "Bo".toList)] = parse_request .chat rebuilt) ∧
    extract_request name_codec.loads 32 .chat rebuilt =
      .ok (call_extraction.with_texts rebuilt ["I call Bo.".toList, "Bo".toList]) := by
  have hdistinct : Distinct call_request := distinct_of_keys (by decide +kernel)
  have hids : [("s0", "I call Bo.".toList), ("s1", "Bo".toList)].map Prod.fst =
      call_extraction.segments.map Prod.fst := by
    decide
  obtain ⟨rebuilt, hrebuild, hrebuilt, -⟩ :=
    CanonicalExtraction.rebuild_then_extract name_codec hdistinct extract_call_request hids
  exact ⟨rebuilt, hrebuild, hrebuilt⟩

end pii_engine.request_segments
