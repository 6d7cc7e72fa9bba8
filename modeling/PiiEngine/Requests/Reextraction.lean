import PiiEngine.Requests.Shape

open checked collections json_text prefixes

namespace pii_engine.request_segments

section edits
variable {loads : Loads} {max_depth : Nat} {data : JsonValue} {changes : Changes} {fill : JsonValue → Fill}
  {path : List PathPart}

theorem edits_eq (fill : JsonValue → Fill) (path : List PathPart) : edits fill loads max_depth data changes path =
    if fills changes none path = some .null then some .null
    else (if path ∈ roots (changes.map Prod.fst) then
      some (fill (overwrite (fills changes (some path)) path (document loads max_depth data path)))
      else none).or (fills changes none path) := by
  rw [edits, Writes.after, Writes.of, root_entries, rebuilding, List.map_map]
  exact congrArg (fun entry : Option Fill => if fills changes none path = some .null then some .null
    else entry.or (fills changes none path)) (lookup_map _ path)

theorem exists_of_fills {root : Option (List PathPart)} {fill : Fill} (h : fills changes root path = some fill) :
    ∃ change ∈ changes, change.1.json_root = root ∧ change.1.path = path ∧ change.2 = fill := by
  obtain ⟨change, hfound, hfill⟩ := Option.map_eq_some_iff.mp h
  have hsome := List.find?_some hfound
  rw [decide_eq_true_eq] at hsome
  exact ⟨change, List.mem_of_find?_eq_some hfound, hsome.1, hsome.2, hfill⟩

theorem fills_onlyTexts (htexts : ∀ change ∈ changes, change.2 ≠ .null) (root : Option (List PathPart)) :
    (fills changes root).OnlyTexts := by
  intro path hnull
  obtain ⟨change, hchange, -, -, hfill⟩ := exists_of_fills hnull
  exact htexts change hchange hfill

theorem edits_onlyTexts {dumps : Dumps} (htexts : ∀ change ∈ changes, change.2 ≠ .null) :
    (edits (encoded_fill dumps) loads max_depth data changes).OnlyTexts := by
  intro path hnull
  rw [edits_eq, if_neg (fills_onlyTexts htexts none path)] at hnull
  split at hnull
  · cases hnull
  · exact fills_onlyTexts htexts none path hnull

/-- Only changed texts and the roots of changed documents are written over. -/
theorem exists_of_edits (h : edits fill loads max_depth data changes path ≠ none) :
    (∃ change ∈ changes, change.1.json_root = none ∧ change.1.path = path) ∨ path ∈ roots (changes.map Prod.fst) := by
  by_cases hroot : path ∈ roots (changes.map Prod.fst)
  · exact Or.inr hroot
  · left
    rw [edits_eq, if_neg hroot] at h
    cases hfills : fills changes none path with
    | none =>
      rw [hfills] at h
      exact absurd rfl h
    | some fill =>
      obtain ⟨change, hchange, hnone, hpath, -⟩ := exists_of_fills hfills
      exact ⟨change, hchange, hnone, hpath⟩

theorem edits_of_not_root (hroot : path ∉ roots (changes.map Prod.fst)) :
    edits fill loads max_depth data changes path = fills changes none path := by
  rw [edits_eq, if_neg hroot, Option.none_or]
  split
  case isTrue hnull => exact hnull.symm
  case isFalse => rfl

end edits

/-- A leaf with the text that is written over it in its document. -/
def RootedLeaf.refilled (changes : Changes) (leaf : RootedLeaf) : RootedLeaf :=
  ⟨leaf.toLeaf.refill (fills changes leaf.json_root), leaf.json_root⟩

section region
variable {loads : Loads} {max_depth : Nat} {region : Region} {writes : Writes}

theorem text_path {leaf : RootedLeaf} (hreader : region.reader = .text)
    (hleaf : leaf ∈ region_leaves loads max_depth region) :
    leaf.path = region.path := by
  obtain ⟨reader, path, value⟩ := region
  dsimp only at hreader
  subst hreader
  cases value with
  | string text =>
    obtain rfl := List.mem_singleton.mp hleaf
    rfl
  | _ => cases hleaf

/-- No text of a region is a control, and no encoded document is one. -/
theorem uncontrolled_leaf (h : region.Uncontrolled) {leaf : RootedLeaf} {rest : List PathPart}
    (hleaf : leaf ∈ region_leaves loads max_depth region) (hpath : leaf.path = region.path ++ rest) :
    is_control leaf.path = false := by
  cases h with
  | text hreader hcontrol => rwa [text_path hreader hleaf]
  | below hcontrol =>
    rw [hpath]
    exact hcontrol rest

theorem uncontrolled_root (h : region.Uncontrolled) {root : List PathPart} (hroot : region.json_root = some root) :
    is_control root = false := by
  obtain ⟨rfl, -⟩ := json_root_eq_some hroot
  cases h with
  | text hreader hcontrol => exact hcontrol
  | below hcontrol =>
    have hhere := hcontrol []
    rwa [List.append_nil] at hhere

theorem uncontrolled_regions {kind : ProtocolKind} {data : JsonValue} (h : region ∈ regions kind data) :
    region.Uncontrolled := by
  cases kind with
  | chat => exact uncontrolled_chat h
  | responses => exact uncontrolled_responses h
  | mcp => exact uncontrolled_mcp h
  | anthropic => exact uncontrolled_anthropic h
  | google => exact uncontrolled_google h

theorem regions_overwrite (hspares : Spares writes) (kind : ProtocolKind) (data : JsonValue) :
    regions kind (overwrite writes [] data) = (regions kind data).map (Region.overwritten writes) := by
  cases kind with
  | chat => exact chat_regions_overwrite hspares data
  | responses => exact responses_regions_overwrite hspares data
  | mcp => exact mcp_regions_overwrite data
  | anthropic => exact anthropic_regions_overwrite hspares data
  | google => exact google_regions_overwrite hspares data

theorem json_root_overwritten (htexts : writes.OnlyTexts) (region : Region) :
    (region.overwritten writes).json_root = region.json_root := by
  obtain ⟨reader, path, value⟩ := region
  cases reader with
  | arguments =>
    cases value with
    | string text =>
      obtain ⟨text', hwritten⟩ := overwrite_text htexts path text
      change Region.json_root ⟨.arguments, path, overwrite writes path (.string text)⟩ = _
      rw [hwritten]
      rfl
    | list items =>
      change Region.json_root ⟨.arguments, path, overwrite writes path (.list items)⟩ = _
      rw [overwrite]
      rfl
    | dict entries =>
      change Region.json_root ⟨.arguments, path, overwrite writes path (.dict entries)⟩ = _
      rw [overwrite]
      rfl
    | _ => rfl
  | _ => rfl

/-- A region that is read as it stands is read as it stands when it is written over. -/
theorem read_overwritten (htexts : writes.OnlyTexts) (hroot : region.json_root = none) :
    (region.overwritten writes).read loads max_depth = refilled writes (region.read loads max_depth) := by
  obtain ⟨reader, path, value⟩ := region
  cases reader with
  | text =>
    change Except.ok (text_leaf (some (overwrite writes path value)) path) =
      .ok ((text_leaf (some value) path).map (Leaf.refill writes))
    cases value with
    | string text =>
      obtain ⟨text', hwritten, hleaf⟩ := refill_text htexts path text
      rw [hwritten, text_leaf, text_leaf, List.map_singleton, hleaf]
    | list items =>
      rw [overwrite]
      rfl
    | dict entries =>
      rw [overwrite]
      rfl
    | _ => rfl
  | json => exact json_leaves_overwrite htexts path value
  | schema => exact schema_overwrite htexts path value
  | arguments =>
    have hread : json_leaves max_depth path 0 (overwrite writes path value) =
        refilled writes (json_leaves max_depth path 0 value) := json_leaves_overwrite htexts path value
    change arguments loads max_depth path (overwrite writes path value) =
      refilled writes (arguments loads max_depth path value)
    cases value with
    | string text => cases hroot
    | list items =>
      rw [overwrite] at hread ⊢
      exact hread
    | dict entries =>
      rw [overwrite] at hread ⊢
      exact hread
    | _ => exact hread

end region

section attachments
variable {writes : Writes} {path : List PathPart} {value : Option JsonValue}

theorem any_items_overwrite {p : JsonValue → Bool}
    (h : ∀ index item, p (overwrite writes (path ++ [.index index]) item) = p item) :
    (JsonValue.itemsOf (value.map (overwrite writes path))).any p = (JsonValue.itemsOf value).any p := by
  have hmap (items : List JsonValue) :
      (items.mapIdx fun index item => overwrite writes (path ++ [.index index]) item).map p = items.map p := by
    refine List.ext_getElem? fun index => ?_
    rw [List.getElem?_map, List.getElem?_mapIdx, List.getElem?_map, Option.map_map]
    exact congrArg (fun f => Option.map f items[index]?) (funext fun item => h index item)
  have hany (items : List JsonValue) : items.any p = (items.map p).any id := by
    rw [List.any_map]
    rfl
  rw [itemsOf_overwrite, hany, hmap, ← hany]

theorem has_attachment_overwrite (hcontrol : ∀ index, writes (path ++ [.index index] ++ [.key "type"]) = none) :
    has_attachment (value.map (overwrite writes path)) = has_attachment value :=
  any_items_overwrite fun index part => by rw [isTextPart_overwrite (hcontrol index)]

theorem isMessage_overwrite {item : JsonValue} (hnone : writes (path ++ [.key "type"]) = none) :
    isMessage (overwrite writes path item) = isMessage item := by
  unfold isMessage
  rw [get?_overwrite]
  cases item.get? "type" with
  | none => rfl
  | some kind =>
    cases kind with
    | string text => rw [Option.map_some, overwrite_string hnone]
    | list items => rw [Option.map_some, overwrite_list]
    | dict entries => rw [Option.map_some, overwrite]
    | _ => rfl

theorem attachments_present_overwrite (hspares : Spares writes) (kind : ProtocolKind) (data : JsonValue) :
    attachments_present kind (overwrite writes [] data) = attachments_present kind data := by
  cases kind with
  | chat =>
    rw [attachments_present, attachments_present, get?_overwrite]
    refine any_items_overwrite fun index message => ?_
    rw [get?_overwrite]
    exact has_attachment_overwrite fun part => hspares.controls _ rfl
  | responses =>
    rw [attachments_present, attachments_present, get?_overwrite]
    refine any_items_overwrite fun index item => ?_
    rw [get?_overwrite, isMessage_overwrite (hspares.controls _ rfl),
      has_attachment_overwrite fun part => hspares.controls _ rfl]
  | _ => rfl

theorem metadata_overwrite (hspares : Spares writes) (kind : ProtocolKind) (data : JsonValue) :
    metadata kind (overwrite writes [] data) = metadata kind data := by
  cases kind with
  | mcp =>
    rw [metadata, metadata, get?_overwrite]
    cases data.get? "params" with
    | none => rfl
    | some params =>
      rw [Option.map_some, Option.bind_some, Option.bind_some, get?_overwrite]
      cases params.get? "_meta" with
      | none => rfl
      | some value =>
        rw [Option.map_some, overwrite_of_none]
        exact fun rest => hspares.controls _ rfl
  | _ => rfl

end attachments

end pii_engine.request_segments
