import PiiEngine.Requests.Refill
import PiiEngine.Requests.Replacement

open checked collections json_text prefixes

namespace pii_engine.request_segments

section strings
variable {path : List PathPart}

theorem item_strings_eq (index : Nat) (items : List JsonValue) : item_strings path index items =
    (items.zipIdx index).flatMap fun entry => strings (path ++ [.index entry.2]) entry.1 := by
  induction items generalizing index with
  | nil => rfl
  | cons item items ih => rw [item_strings, ih, List.zipIdx_cons, List.flatMap_cons]

theorem entry_strings_eq (entries : List (String × JsonValue)) : entry_strings path entries =
    entries.flatMap fun entry => strings (path ++ [.key entry.1]) entry.2 := by
  induction entries with
  | nil => rfl
  | cons entry entries ih => rw [entry_strings, ih, List.flatMap_cons]

theorem strings_below (path : List PathPart) (value : JsonValue) : Below path ((strings path value).map Leaf.path) := by
  intro p hp
  obtain ⟨leaf, hleaf, rfl⟩ := List.mem_map.mp hp
  obtain ⟨rest, hpath, -⟩ := mem_strings.mp hleaf
  exact ⟨rest, hpath.symm⟩

mutual

/-- No string of a document stands on the way to another. -/
theorem strings_antichain (value : JsonValue) (hdistinct : Distinct value) (path : List PathPart) :
    Antichain ((strings path value).map Leaf.path) := by
  cases value with
  | string text => exact Antichain.singleton path
  | list items =>
    rw [strings, item_strings_eq, List.map_flatMap]
    refine antichain_flatMap path (fun entry => PathPart.index entry.2) ?_ (fun entry _ => strings_below _ _) ?_
    · have hindices : (items.zipIdx.map fun entry => PathPart.index entry.2) =
          (items.zipIdx.map Prod.snd).map .index := by
        rw [List.map_map]
        rfl
      rw [hindices, List.zipIdx_map_snd]
      exact List.Nodup.map (fun _ _ heq => PathPart.index.inj heq) List.nodup_range'
    · intro entry hentry
      have hitem := List.mem_zipIdx_iff_getElem?.mp hentry
      exact items_antichain items entry.1 (List.mem_of_getElem? hitem) (hdistinct.item hitem) _
  | dict entries =>
    rw [strings, entry_strings_eq, List.map_flatMap]
    refine antichain_flatMap path (fun entry => PathPart.key entry.1) ?_ (fun entry _ => strings_below _ _) ?_
    · have hkeys : (entries.map fun entry => PathPart.key entry.1) = (entries.map Prod.fst).map .key := by
        rw [List.map_map]
        rfl
      rw [hkeys]
      exact hdistinct.nodup.map fun _ _ heq => PathPart.key.inj heq
    · intro entry hentry
      exact entries_antichain entries entry hentry (hdistinct.entry hentry) _
  | _ => exact Antichain.nil

theorem items_antichain (items : List JsonValue) : ∀ item ∈ items, Distinct item → ∀ path : List PathPart,
    Antichain ((strings path item).map Leaf.path) := by
  cases items with
  | nil =>
    intro item hitem
    cases hitem
  | cons first items =>
    intro item hitem hdistinct path
    cases List.mem_cons.mp hitem with
    | inl hfirst => exact hfirst ▸ strings_antichain first (hfirst ▸ hdistinct) path
    | inr hrest => exact items_antichain items item hrest hdistinct path

theorem entries_antichain (entries : List (String × JsonValue)) : ∀ entry ∈ entries, Distinct entry.2 →
    ∀ path : List PathPart, Antichain ((strings path entry.2).map Leaf.path) := by
  cases entries with
  | nil =>
    intro entry hentry
    cases hentry
  | cons first entries =>
    obtain ⟨key, item⟩ := first
    intro entry hentry hdistinct path
    cases List.mem_cons.mp hentry with
    | inl hfirst =>
      subst hfirst
      exact strings_antichain item hdistinct path
    | inr hrest => exact entries_antichain entries entry hrest hdistinct path

end

end strings

section schema
variable {max_depth : Nat}

theorem json_leaves_eq_ok {depth : Nat} {path : List PathPart} {value : JsonValue} {leaves : List Leaf}
    (h : json_leaves max_depth path depth value = .ok leaves) : leaves = strings path value := by
  by_cases hdepth : depth ≤ max_depth + 1
  · rw [json_leaves_eq path hdepth] at h
    split at h
    · exact (Except.ok.inj h).symm
    · cases h
  · rw [json_leaves_of_lt (by omega)] at h
    cases h

/-- Two parts one after the other read some of the strings of both. -/
theorem sublist_both {first rest : List Leaf} {read read_more : Except AnalysisError (List Leaf)} {leaves : List Leaf}
    (hread : ∀ leaves, read = .ok leaves → leaves.Sublist first)
    (hmore : ∀ leaves, read_more = .ok leaves → leaves.Sublist rest)
    (h : (do
      let first ← read
      let rest ← read_more
      pure (first ++ rest)) = .ok leaves) : leaves.Sublist (first ++ rest) := by
  obtain ⟨some_first, hfirst, h⟩ := bind_eq_ok.mp h
  obtain ⟨some_rest, hrest, h⟩ := bind_eq_ok.mp h
  cases h
  exact (hread some_first hfirst).append (hmore some_rest hrest)

theorem sublist_nothing {first : List Leaf} (leaves : List Leaf)
    (h : (pure [] : Except AnalysisError (List Leaf)) = .ok leaves) : leaves.Sublist first := by
  cases h
  exact List.nil_sublist first

mutual

/-- The prose of a schema is some of its strings. -/
theorem schema_sublist {depth : Nat} {value : JsonValue} {path : List PathPart} {leaves : List Leaf}
    (h : schema max_depth path depth value = .ok leaves) : leaves.Sublist (strings path value) := by
  cases value with
  | dict entries =>
    obtain ⟨-, -, h⟩ := bind_eq_ok.mp h
    exact schema_keywords_sublist h
  | _ =>
    obtain ⟨-, -, h⟩ := bind_eq_ok.mp h
    exact sublist_nothing leaves h

theorem schema_keywords_sublist {depth : Nat} {entries : List (String × JsonValue)} {path : List PathPart}
    {leaves : List Leaf} (h : schema_keywords max_depth path depth entries = .ok leaves) :
    leaves.Sublist (entry_strings path entries) := by
  cases entries with
  | nil => exact sublist_nothing leaves h
  | cons entry entries =>
    obtain ⟨key, item⟩ := entry
    have hrest : ∀ leaves, schema_keywords max_depth path depth entries = .ok leaves →
        leaves.Sublist (entry_strings path entries) := fun _ hrest => schema_keywords_sublist hrest
    unfold schema_keywords at h
    rw [entry_strings]
    -- the keyword decides how its value is read
    split at h
    · exact sublist_both (fun leaves hfirst => json_leaves_eq_ok hfirst ▸ List.Sublist.refl _) hrest h
    · split at h
      · exact sublist_both (fun leaves hfirst => schema_sublist hfirst) hrest h
      · split at h
        · cases item with
          | dict schemas => exact sublist_both (fun leaves hfirst => named_schemas_sublist hfirst) hrest h
          | _ => exact sublist_both sublist_nothing hrest h
        · split at h
          · cases item with
            | list schemas => exact sublist_both (fun leaves hfirst => listed_schemas_sublist hfirst) hrest h
            | _ => exact sublist_both sublist_nothing hrest h
          · exact sublist_both sublist_nothing hrest h

theorem named_schemas_sublist {depth : Nat} {entries : List (String × JsonValue)} {path : List PathPart}
    {leaves : List Leaf} (h : named_schemas max_depth path depth entries = .ok leaves) :
    leaves.Sublist (entry_strings path entries) := by
  cases entries with
  | nil => exact sublist_nothing leaves h
  | cons entry entries =>
    obtain ⟨key, item⟩ := entry
    exact sublist_both (fun leaves hfirst => schema_sublist hfirst) (fun leaves hrest => named_schemas_sublist hrest) h

theorem listed_schemas_sublist {depth index : Nat} {items : List JsonValue} {path : List PathPart} {leaves : List Leaf}
    (h : listed_schemas max_depth path depth index items = .ok leaves) :
    leaves.Sublist (item_strings path index items) := by
  cases items with
  | nil => exact sublist_nothing leaves h
  | cons item items =>
    exact sublist_both (fun leaves hfirst => schema_sublist hfirst) (fun leaves hrest => listed_schemas_sublist hrest) h

end

end schema

/-- The JSON decoder and encoder, as far as the program relies on them. -/
structure Codec where
  loads : Loads
  dumps : Dumps
  loads_written : ∀ {text value}, loads text = some value → Written value text []
  loads_distinct : ∀ {text value}, loads text = some value → Distinct value
  dumps_written : ∀ {value text}, dumps value = some text → Written value text []
  loads_dumps : ∀ {value text}, Distinct value → dumps value = some text → loads text = some value
  /-- What is decoded can be encoded, also with other strings in it. -/
  dumps_overwrite : ∀ {text value} {writes : Writes} (path : List PathPart), loads text = some value →
    writes.OnlyTexts →
    ∃ encoded, dumps (overwrite writes path value) = some encoded

/-- The document that the texts of a region stand in: its value, or the one that its value encodes. -/
def Region.Holds (loads : Loads) (max_depth : Nat) (region : Region) (value : JsonValue) : Prop :=
  match region.json_root with
  | none => value = region.value
  | some _ => ∃ encoded, region.value = .string encoded ∧ checked_loads loads max_depth encoded.toList = .ok value

section regions
variable {loads : Loads} {max_depth : Nat} {region : Region}

theorem checked_loads_eq_ok {encoded : Text} {value : JsonValue} : checked_loads loads max_depth encoded = .ok value ↔
    check_encoded_depth max_depth {} encoded = .ok () ∧ loads encoded = some value := by
  rw [checked_loads, bind_eq_ok]
  constructor
  · rintro ⟨_, hcheck, h⟩
    cases hloads : loads encoded with
    | none =>
      rw [hloads] at h
      cases h
    | some decoded =>
      rw [hloads] at h
      cases h
      exact ⟨hcheck, rfl⟩
  · rintro ⟨hcheck, hloads⟩
    refine ⟨(), hcheck, ?_⟩
    rw [hloads]
    rfl

theorem text_leaf_sublist (value : JsonValue) (path : List PathPart) :
    (text_leaf (some value) path).Sublist (strings path value) := by
  cases value with
  | string text => exact List.Sublist.refl _
  | _ => exact List.nil_sublist _

/-- Encoded arguments are checked, decoded and read. -/
theorem arguments_string (encoded : String) (path : List PathPart) :
    arguments loads max_depth path (.string encoded) = (do
    let value ← checked_loads loads max_depth encoded.toList
    json_leaves max_depth path 0 value) := by
  rw [arguments, checked_loads]
  cases check_encoded_depth max_depth {} encoded.toList with
  | error e => rfl
  | ok _ => cases loads encoded.toList <;> rfl

/-- The leaves of a region are some of the strings of the document that it holds. -/
theorem region_leaves_eq_ok {leaves : List RootedLeaf} (h : region.leaves loads max_depth = .ok leaves) :
    ∃ value, region.Holds loads max_depth value ∧ (leaves.map RootedLeaf.toLeaf).Sublist (strings region.path value) ∧
      ∀ leaf ∈ leaves, leaf.json_root = region.json_root := by
  obtain ⟨found, hread, h⟩ := bind_eq_ok.mp h
  cases h
  have hroot : ∀ leaf ∈ found.map fun leaf => RootedLeaf.mk leaf region.json_root,
      leaf.json_root = region.json_root := by
    intro leaf hleaf
    obtain ⟨-, -, rfl⟩ := List.mem_map.mp hleaf
    rfl
  have hleaves : (found.map fun leaf => RootedLeaf.mk leaf region.json_root).map RootedLeaf.toLeaf = found := by
    rw [List.map_map]
    exact List.map_id found
  rw [hleaves]
  have hdirect : ∀ value, json_leaves max_depth region.path 0 value = .ok found →
      found.Sublist (strings region.path value) := by
    intro value hfound
    rw [json_leaves_eq_ok hfound]
  obtain ⟨reader, path, value⟩ := region
  cases reader with
  | text =>
    cases hread
    exact ⟨value, rfl, text_leaf_sublist value path, hroot⟩
  | json => exact ⟨value, rfl, hdirect value hread, hroot⟩
  | schema => exact ⟨value, rfl, schema_sublist hread, hroot⟩
  | arguments =>
    cases value with
    | string encoded =>
      change arguments loads max_depth path (.string encoded) = .ok found at hread
      rw [arguments_string] at hread
      obtain ⟨decoded, hloads, hread⟩ := bind_eq_ok.mp hread
      exact ⟨decoded, ⟨encoded, rfl, hloads⟩, hdirect decoded hread, hroot⟩
    | null => exact ⟨_, rfl, hdirect _ hread, hroot⟩
    | bool b => exact ⟨_, rfl, hdirect _ hread, hroot⟩
    | int n => exact ⟨_, rfl, hdirect _ hread, hroot⟩
    | float q => exact ⟨_, rfl, hdirect _ hread, hroot⟩
    | list items => exact ⟨_, rfl, hdirect _ hread, hroot⟩
    | dict entries => exact ⟨_, rfl, hdirect _ hread, hroot⟩

theorem placed_regions (kind : ProtocolKind) (data : JsonValue) :
    ∃ parts, Placed data [] parts (regions kind data) := by
  cases kind with
  | chat => exact ⟨_, Placed.chat data⟩
  | responses => exact ⟨_, Placed.responses data⟩
  | mcp => exact ⟨_, Placed.mcp data⟩
  | anthropic => exact ⟨_, Placed.anthropic data⟩
  | google => exact ⟨_, Placed.google data⟩

/-- The leaves of a region that can be read. -/
def region_leaves (loads : Loads) (max_depth : Nat) (region : Region) : List RootedLeaf :=
  (region.leaves loads max_depth).toOption.getD []

theorem regions_leaves_eq_ok {regions : List Region} {groups : List (List RootedLeaf)}
    (h : regions.mapM (Region.leaves loads max_depth) = .ok groups) :
    groups.flatten = regions.flatMap (region_leaves loads max_depth) ∧
      ∀ region ∈ regions, region.leaves loads max_depth = .ok (region_leaves loads max_depth region) := by
  have hgroups := mapM_eq_ok.mp h
  clear h
  induction hgroups with
  | nil =>
    refine ⟨rfl, fun region hregion => ?_⟩
    cases hregion
  | @cons region group regions groups hgroup _ ih =>
    have hleaves : region_leaves loads max_depth region = group := by
      rw [region_leaves, hgroup]
      rfl
    rw [List.flatten_cons, List.flatMap_cons, hleaves, ih.1, List.forall_mem_cons, hleaves]
    exact ⟨rfl, hgroup, ih.2⟩

/-- A leaf of a region stands in the document that the region holds. -/
theorem mem_region_leaves {leaf : RootedLeaf}
    (h : region.leaves loads max_depth = .ok (region_leaves loads max_depth region))
    (hleaf : leaf ∈ region_leaves loads max_depth region) : leaf.json_root = region.json_root ∧
      ∃ value rest, region.Holds loads max_depth value ∧ leaf.path = region.path ++ rest ∧
        StringAt value rest leaf.text := by
  obtain ⟨value, hholds, hsub, hroot⟩ := region_leaves_eq_ok h
  have hmem := hsub.subset (List.mem_map.mpr ⟨leaf, hleaf, rfl⟩)
  obtain ⟨rest, hpath, hstands⟩ := mem_strings.mp hmem
  exact ⟨hroot leaf hleaf, value, rest, hholds, hpath, hstands⟩

theorem json_root_eq_some {root : List PathPart} (h : region.json_root = some root) :
    root = region.path ∧ ∃ encoded, region.value = .string encoded := by
  unfold Region.json_root at h
  split at h
  case h_1 encoded _ hvalue => exact ⟨(Option.some.inj h).symm, encoded, hvalue⟩
  case h_2 => cases h

theorem holds_distinct {value : JsonValue} (hloads : ∀ text value, loads text = some value → Distinct value)
    (hregion : Distinct region.value) (h : region.Holds loads max_depth value) : Distinct value := by
  unfold Region.Holds at h
  split at h
  · rw [h]
    exact hregion
  · obtain ⟨encoded, -, hchecked⟩ := h
    exact hloads _ _ (checked_loads_eq_ok.mp hchecked).2

/-- No text stands where an encoded document does, nor on the way to it. -/
theorem path_ne_root {data : JsonValue} {parts : PathPart → Prop} {regions : List Region}
    (hplaced : Placed data [] parts regions)
    (hread : ∀ region ∈ regions, region.leaves loads max_depth = .ok (region_leaves loads max_depth region))
    (hregion : region ∈ regions) {root : List PathPart} (hroot : region.json_root = some root) {leaf : RootedLeaf}
    (hleaf : leaf ∈ regions.flatMap (region_leaves loads max_depth)) (hnone : leaf.json_root = none) :
    leaf.path ≠ root := by
  intro heq
  obtain ⟨other, hother, hleaf⟩ := List.mem_flatMap.mp hleaf
  obtain ⟨hroot', -, rest, -, hpath, -⟩ := mem_region_leaves (hread other hother) hleaf
  obtain ⟨rfl, -⟩ := json_root_eq_some hroot
  have hpre : other.path <+: region.path := ⟨rest, by rw [← heq, hpath]⟩
  have hsame := hplaced.apart.eq_of_prefix (List.mem_map.mpr ⟨other, hother, rfl⟩)
    (List.mem_map.mpr ⟨region, hregion, rfl⟩) hpre
  have hregions : other = region := List.inj_on_of_nodup_map hplaced.apart.nodup hother hregion hsame
  rw [hnone, hregions, hroot] at hroot'
  cases hroot'

/-- The leaves of a request stand where their paths say, and none in the way of another. -/
theorem sound_regions {data : JsonValue} {parts : PathPart → Prop} {regions : List Region}
    (hloads : ∀ text value, loads text = some value → Distinct value) (hdistinct : Distinct data)
    (hplaced : Placed data [] parts regions)
    (hread : ∀ region ∈ regions, region.leaves loads max_depth = .ok (region_leaves loads max_depth region)) :
    Sound loads max_depth data (regions.flatMap (region_leaves loads max_depth)) where
  distinct := hdistinct
  paths := by
    rw [List.map_flatMap]
    refine Antichain.nodup (List.pairwise_flatMap.mpr ⟨fun region hregion => ?_, ?_⟩)
    · obtain ⟨value, hholds, hsub, -⟩ := region_leaves_eq_ok (hread region hregion)
      obtain ⟨part, rest, -, -, hreaches⟩ := hplaced.stands region hregion
      have hchain := strings_antichain value (holds_distinct hloads (hdistinct.below hreaches) hholds) region.path
      have hpaths := hsub.map Leaf.path
      rw [List.map_map] at hpaths
      exact hchain.sublist hpaths
    · refine (List.pairwise_map.mp hplaced.apart).imp_of_mem fun hregion hother hapart p hp q hq => ?_
      obtain ⟨leaf, hleaf, rfl⟩ := List.mem_map.mp hp
      obtain ⟨leaf', hleaf', rfl⟩ := List.mem_map.mp hq
      obtain ⟨-, -, rest, -, hpath, -⟩ := mem_region_leaves (hread _ hregion) hleaf
      obtain ⟨-, -, rest', -, hpath', -⟩ := mem_region_leaves (hread _ hother) hleaf'
      exact hapart.below ⟨rest, hpath.symm⟩ ⟨rest', hpath'.symm⟩
  direct leaf hleaf hnone := by
    obtain ⟨region, hregion, hleaf⟩ := List.mem_flatMap.mp hleaf
    obtain ⟨hroot, value, rest, hholds, hpath, hstands⟩ := mem_region_leaves (hread region hregion) hleaf
    obtain ⟨part, inner, -, hregion_path, hreaches⟩ := hplaced.stands region hregion
    rw [hnone] at hroot
    rw [Region.Holds, ← hroot] at hholds
    dsimp only at hholds
    subst hholds
    rw [List.nil_append] at hregion_path
    rw [hpath, hregion_path]
    exact ⟨by simp, hreaches.trans hstands⟩
  encoded leaf hleaf root hsome := by
    obtain ⟨region, hregion, hleaf⟩ := List.mem_flatMap.mp hleaf
    obtain ⟨hroot, value, rest, hholds, hpath, hstands⟩ := mem_region_leaves (hread region hregion) hleaf
    obtain ⟨part, inner, -, hregion_path, hreaches⟩ := hplaced.stands region hregion
    rw [hsome] at hroot
    obtain ⟨rfl, -⟩ := json_root_eq_some hroot.symm
    have hvalue := holds_distinct hloads (hdistinct.below hreaches) hholds
    rw [Region.Holds, ← hroot] at hholds
    obtain ⟨encoded, hencoded, hchecked⟩ := hholds
    rw [List.nil_append] at hregion_path
    rw [hencoded, ← hregion_path] at hreaches
    exact ⟨by rw [hregion_path]; simp, encoded, value, rest, hreaches, hchecked, hvalue, hpath, hstands⟩
  apart leaf hleaf other hother hnone hsome := by
    obtain ⟨region, hregion, hother⟩ := List.mem_flatMap.mp hother
    obtain ⟨hroot, -⟩ := mem_region_leaves (hread region hregion) hother
    rw [hsome] at hroot
    exact path_ne_root hplaced hread hregion hroot.symm hleaf hnone rfl

end regions

end pii_engine.request_segments
