import PiiEngine.Requests.Addresses
import PiiEngine.Requests.Envelope

open checked

namespace pii_engine.request_segments

mutual

/-- A document with its strings at some paths emptied: what is left to compare when those
    strings may differ. -/
def blank (emptied : List PathPart → Bool) : JsonValue → JsonValue
  | .string text => .string (if emptied [] then "" else text)
  | .list items => .list (blank_items emptied 0 items)
  | .dict entries => .dict (blank_entries emptied entries)
  | value => value

def blank_items (emptied : List PathPart → Bool) (index : Nat) : List JsonValue → List JsonValue
  | [] => []
  | item :: items => blank (fun rest => emptied (.index index :: rest)) item :: blank_items emptied (index + 1) items

def blank_entries (emptied : List PathPart → Bool) : List (String × JsonValue) → List (String × JsonValue)
  | [] => []
  | (key, item) :: entries => (key, blank (fun rest => emptied (.key key :: rest)) item) ::
    blank_entries emptied entries

end

section blank
variable {emptied emptied' : List PathPart → Bool}

theorem blank_items_eq (index : Nat) (items : List JsonValue) : blank_items emptied index items =
    items.mapIdx fun offset item => blank (fun rest => emptied (.index (index + offset) :: rest)) item := by
  induction items generalizing index with
  | nil => rfl
  | cons item items ih =>
    rw [blank_items, ih, List.mapIdx_cons]
    refine congrArg₂ List.cons rfl (List.ext_getElem? fun offset => ?_)
    rw [List.getElem?_mapIdx, List.getElem?_mapIdx, Nat.add_assoc, Nat.add_comm 1]

theorem blank_entries_eq (entries : List (String × JsonValue)) : blank_entries emptied entries =
    entries.map fun entry => (entry.1, blank (fun rest => emptied (.key entry.1 :: rest)) entry.2) := by
  induction entries with
  | nil => rfl
  | cons entry entries ih => rw [blank_entries, ih, List.map_cons]

theorem lookup_blank_entries (entries : List (String × JsonValue)) (key : String) :
    (blank_entries emptied entries).lookup key =
      (entries.lookup key).map (blank fun rest => emptied (.key key :: rest)) := by
  induction entries with
  | nil => rfl
  | cons entry entries ih =>
    obtain ⟨other, item⟩ := entry
    rw [blank_entries, List.lookup_cons, List.lookup_cons]
    by_cases h : key = other
    · rw [h, beq_self_eq_true]
      rfl
    · rw [beq_eq_false_iff_ne.mpr h]
      exact ih

theorem filter_blank_entries (entries : List (String × JsonValue)) (p : String → Bool) :
    (blank_entries emptied entries).filter (fun entry => p entry.1) =
      blank_entries emptied (entries.filter fun entry => p entry.1) := by
  rw [blank_entries_eq, blank_entries_eq, List.filter_map]
  rfl

theorem get?_blank (data : JsonValue) (key : String) :
    (blank emptied data).get? key = (data.get? key).map (blank fun rest => emptied (.key key :: rest)) := by
  cases data with
  | dict entries => exact lookup_blank_entries entries key
  | _ => rfl

theorem length_itemsOf_blank (value : Option JsonValue) :
    (JsonValue.itemsOf (value.map (blank emptied))).length = (JsonValue.itemsOf value).length := by
  cases value with
  | none => rfl
  | some value =>
    cases value with
    | list items =>
      change (blank_items emptied 0 items).length = items.length
      rw [blank_items_eq, List.length_mapIdx]
    | _ => rfl

end blank

/-- Two sets of paths agree up to the envelopes around tools. -/
structure Corresponds (nested_tools : List Nat) (flat legacy : List PathPart → Bool) : Prop where
  outside : ∀ key rest, key ≠ "tools" → legacy (.key key :: rest) = flat (.key key :: rest)
  flat_tool : ∀ index rest, index ∉ nested_tools →
    legacy (.key "tools" :: .index index :: rest) = flat (.key "tools" :: .index index :: rest)
  nested_type : ∀ index rest, index ∈ nested_tools →
    legacy (.key "tools" :: .index index :: .key "type" :: rest) =
      flat (.key "tools" :: .index index :: .key "type" :: rest)
  nested_function : ∀ index key rest, index ∈ nested_tools → key ≠ "type" →
    legacy (.key "tools" :: .index index :: .key "function" :: .key key :: rest) =
      flat (.key "tools" :: .index index :: .key key :: rest)

/-- A dumped request whose tools are objects. -/
def ObjectTools (data : JsonValue) : Prop :=
  ∃ entries, data = .dict entries ∧ ∀ item, ("tools", item) ∈ entries →
    item = .null ∨ ∃ tools, item = .list tools ∧ ∀ tool ∈ tools, ∃ fields, tool = .dict fields

section envelopes
variable {shared : SharedChecks} {nested_tools : List Nat} {flat legacy : List PathPart → Bool}

theorem objectTools_dumped (request : EngineResponsesRequest shared) : ObjectTools request.dumped := by
  refine ⟨_, rfl, fun item hitem => ?_⟩
  rw [List.mem_append, List.mem_append] at hitem
  obtain hfront | htools | hback := hitem
  · exact absurd rfl (request.keys_ok _ (List.mem_append_left _ hfront))
  · obtain ⟨value, hvalue, hentry⟩ := List.mem_map.mp htools
    cases hentry
    rw [Option.mem_toList] at hvalue
    cases htools' : request.tools with
    | omitted =>
      rw [htools'] at hvalue
      cases hvalue
    | null =>
      rw [htools'] at hvalue
      cases hvalue
      exact Or.inl rfl
    | given tools =>
      rw [htools'] at hvalue
      cases hvalue
      refine Or.inr ⟨_, rfl, fun tool htool => ?_⟩
      obtain ⟨definition, -, rfl⟩ := List.mem_map.mp htool
      exact ⟨_, rfl⟩
  · exact absurd rfl (request.keys_ok _ (List.mem_append_right _ hback))

/-- Emptying strings and putting an envelope around a tool commute. -/
theorem blank_nest_tool {emptied emptied' : List PathPart → Bool} {fields : List (String × JsonValue)}
    (htype : ∀ rest, emptied' (.key "type" :: rest) = emptied (.key "type" :: rest))
    (hfunction : ∀ key rest, key ≠ "type" →
      emptied' (.key "function" :: .key key :: rest) = emptied (.key key :: rest)) :
    blank emptied' (nest_tool (.dict fields)) = nest_tool (blank emptied (.dict fields)) := by
  have hkind : blank (fun rest => emptied' (.key "type" :: rest)) ((fields.lookup "type").getD .null) =
      ((blank_entries emptied fields).lookup "type").getD .null := by
    rw [lookup_blank_entries, funext htype]
    cases fields.lookup "type" <;> rfl
  have hfields : blank_entries (fun rest => emptied' (.key "function" :: rest)) (fields.filter (·.1 ≠ "type")) =
      (blank_entries emptied fields).filter (·.1 ≠ "type") := by
    rw [filter_blank_entries fields fun key => decide (key ≠ "type"), blank_entries_eq, blank_entries_eq]
    refine List.map_congr_left fun entry hentry => ?_
    have hkey : entry.1 ≠ "type" := of_decide_eq_true (List.mem_filter.mp hentry).2
    rw [funext fun rest => hfunction entry.1 rest hkey]
  change JsonValue.dict [("type", blank _ ((fields.lookup "type").getD .null)),
    ("function", .dict (blank_entries _ (fields.filter (·.1 ≠ "type"))))] =
    .dict [("type", ((blank_entries emptied fields).lookup "type").getD .null),
      ("function", .dict ((blank_entries emptied fields).filter (·.1 ≠ "type")))]
  rw [hkind, hfields]

/-- Emptying strings and restoring the envelopes commute. -/
theorem blank_restore_envelopes {data : JsonValue} (hcorresponds : Corresponds nested_tools flat legacy)
    (hdata : ObjectTools data) :
    blank legacy (restore_envelopes nested_tools data) = restore_envelopes nested_tools (blank flat data) := by
  obtain ⟨entries, rfl, htools⟩ := hdata
  refine congrArg JsonValue.dict ?_
  rw [blank_entries_eq, blank_entries_eq, List.map_map, List.map_map]
  refine List.map_congr_left fun entry hentry => ?_
  obtain ⟨key, item⟩ := entry
  dsimp only [Function.comp_apply]
  by_cases hkey : key = "tools"
  · subst hkey
    obtain rfl | ⟨tools, rfl, hobjects⟩ := htools item hentry
    · rfl
    · refine congrArg (fun items => ("tools", JsonValue.list items)) ?_
      rw [blank_items_eq, blank_items_eq]
      refine List.ext_getElem? fun index => ?_
      simp only [List.getElem?_mapIdx, Option.map_map, Nat.zero_add]
      cases htool : tools[index]? with
      | none => rfl
      | some tool =>
        refine congrArg some ?_
        dsimp only [Function.comp_apply]
        obtain ⟨fields, rfl⟩ := hobjects tool (List.mem_of_getElem? htool)
        by_cases hnested : index ∈ nested_tools
        · rw [if_pos hnested, if_pos hnested]
          exact blank_nest_tool (fun rest => hcorresponds.nested_type index rest hnested)
            fun key rest hne => hcorresponds.nested_function index key rest hnested hne
        · rw [if_neg hnested, if_neg hnested]
          exact congrArg (fun emptied => blank emptied _) (funext fun rest => hcorresponds.flat_tool index rest hnested)
  · rw [replace_entry, if_neg hkey, replace_entry, if_neg hkey]
    dsimp only
    rw [funext fun rest => hcorresponds.outside key rest hkey]

/-- A string in a tool is reached through the envelope around the tool. -/
theorem reaches_in_tool {data target : JsonValue} {index : Nat} {key : String} {rest : List PathPart}
    (hdata : ObjectTools data) (hkey : key ≠ "type")
    (h : Reaches data (.key "tools" :: .index index :: .key key :: rest) target) :
    Reaches (restore_envelopes nested_tools data)
      (if index ∈ nested_tools then .key "tools" :: .index index :: .key "function" :: .key key :: rest
        else .key "tools" :: .index index :: .key key :: rest) target := by
  obtain ⟨entries, rfl, htools⟩ := hdata
  cases h with
  | @key _ _ item _ _ hitem hrest =>
    obtain rfl | ⟨tools, rfl, hobjects⟩ := htools item hitem
    · cases hrest
    · cases hrest with
      | @index _ _ tool _ _ htool hrest =>
        obtain ⟨fields, rfl⟩ := hobjects tool (List.mem_of_getElem? htool)
        cases hrest with
        | @key _ _ value _ _ hvalue hrest =>
          have hentry : ("tools", JsonValue.list (tools.mapIdx fun index tool =>
              if index ∈ nested_tools then nest_tool tool else tool)) ∈
              entries.map (replace_entry (List.mapIdx fun index tool =>
                if index ∈ nested_tools then nest_tool tool else tool)) :=
            List.mem_map.mpr ⟨_, hitem, rfl⟩
          by_cases hnested : index ∈ nested_tools
          · rw [if_pos hnested]
            have hindex :
                (tools.mapIdx fun index tool => if index ∈ nested_tools then nest_tool tool else tool)[index]? =
                some (nest_tool (.dict fields)) := by
              rw [List.getElem?_mapIdx, htool, Option.map_some, if_pos hnested]
            have hfield : (key, value) ∈ fields.filter (·.1 ≠ "type") :=
              List.mem_filter.mpr ⟨hvalue, decide_eq_true hkey⟩
            exact .key hentry (.index hindex (.key (List.mem_cons_of_mem _ List.mem_cons_self) (.key hfield hrest)))
          · rw [if_neg hnested]
            have hindex :
                (tools.mapIdx fun index tool => if index ∈ nested_tools then nest_tool tool else tool)[index]? =
                some (.dict fields) := by
              rw [List.getElem?_mapIdx, htool, Option.map_some, if_neg hnested]
            exact .key hentry (.index hindex (.key hvalue hrest))

/-- What stands outside the tools stays where it is. -/
theorem reaches_outside_tools {data target : JsonValue} {key : String} {rest : List PathPart} (hkey : key ≠ "tools")
    (h : Reaches data (.key key :: rest) target) :
    Reaches (restore_envelopes nested_tools data) (.key key :: rest) target := by
  cases h with
  | @key entries _ item _ _ hitem hrest =>
    have hentry : (key, item) ∈ entries.map (replace_entry (List.mapIdx fun index tool =>
        if index ∈ nested_tools then nest_tool tool else tool)) :=
      List.mem_map.mpr ⟨_, hitem, if_neg hkey⟩
    exact .key hentry hrest

end envelopes

section paths
variable {loads : Loads} {extracted : ExtractedRequest} {path : List PathPart}

theorem original_path_outside (h : OutsideTools path) : extracted.original_path path = path := by
  obtain ⟨key, rest, rfl, hkey⟩ := h
  unfold ExtractedRequest.original_path
  split
  case h_1 heq => exact absurd (List.cons.inj heq).1 (by simpa using hkey)
  case h_2 => rfl

theorem original_path_in_tool (index : Nat) (key : String) (rest : List PathPart) :
    extracted.original_path (.key "tools" :: .index index :: .key key :: rest) =
      if index ∈ extracted.nested_tools then .key "tools" :: .index index :: .key "function" :: .key key :: rest
      else .key "tools" :: .index index :: .key key :: rest := rfl

theorem reaches_restored {data target : JsonValue} (hdata : ObjectTools data) (hpath : OutsideTools path ∨ InTool path)
    (h : Reaches data path target) :
    Reaches (restore_envelopes extracted.nested_tools data) (extracted.original_path path) target := by
  cases hpath with
  | inl houtside =>
    rw [original_path_outside houtside]
    obtain ⟨key, rest, rfl, hkey⟩ := houtside
    exact reaches_outside_tools hkey h
  | inr htool =>
    obtain ⟨index, key, rest, rfl, hkey⟩ := htool
    rw [original_path_in_tool]
    exact reaches_in_tool hdata hkey h

/-- No string stands on the way to a tool's fields. -/
theorem string_in_tool {data : JsonValue} {root rest tail : List PathPart} {index : Nat} {key text : String}
    (hdata : ObjectTools data) (hroot : Reaches data root (.string text))
    (hpath : .key "tools" :: .index index :: .key key :: tail = root ++ rest) :
    ∃ inner, root = .key "tools" :: .index index :: .key key :: inner ∧ tail = inner ++ rest := by
  obtain ⟨entries, rfl, htools⟩ := hdata
  cases hroot with
  | @key _ _ item _ root hitem hroot =>
    rw [List.cons_append, List.cons.injEq] at hpath
    obtain ⟨hkey, hpath⟩ := hpath
    cases hkey
    obtain rfl | ⟨tools, rfl, hobjects⟩ := htools item hitem
    · cases hroot
    · cases hroot with
      | @index _ _ tool _ root htool hroot =>
        rw [List.cons_append, List.cons.injEq] at hpath
        obtain ⟨hindex, hpath⟩ := hpath
        cases hindex
        obtain ⟨fields, rfl⟩ := hobjects tool (List.mem_of_getElem? htool)
        cases hroot with
        | @key _ _ _ _ inner _ _ =>
          rw [List.cons_append, List.cons.injEq] at hpath
          obtain ⟨hfield, hpath⟩ := hpath
          cases hfield
          exact ⟨inner, rfl, hpath⟩

/-- A text keeps standing at its path when the path is translated. -/
theorem textAt_restored {data : JsonValue} {text : Text} (hdata : ObjectTools data)
    (hpath : OutsideTools path ∨ InTool path) (h : TextAt loads data path text) :
    TextAt loads (restore_envelopes extracted.nested_tools data) (extracted.original_path path) text := by
  obtain hdirect | ⟨root, rest, encoded, decoded, heq, hroot, hloads, hrest⟩ := h
  · exact Or.inl (reaches_restored hdata hpath hdirect)
  -- the encoded document stands at the front of the path, on the same side of the tools
  obtain ⟨hside, htranslated⟩ : (OutsideTools root ∨ InTool root) ∧
      extracted.original_path path = extracted.original_path root ++ rest := by
    obtain houtside | ⟨index, key, tail, rfl, hkey⟩ := hpath
    · have hroot_outside : OutsideTools root := by
        obtain ⟨key, tail, hcons, hkey⟩ := houtside
        cases hroot with
        | here _ =>
          obtain ⟨entries, hentries, -⟩ := hdata
          cases hentries
        | @key _ name _ _ inner _ _ =>
          rw [heq, List.cons_append] at hcons
          obtain ⟨hname, -⟩ := List.cons.inj hcons
          cases hname
          exact ⟨key, inner, rfl, hkey⟩
        | index _ _ =>
          obtain ⟨entries, hentries, -⟩ := hdata
          cases hentries
      rw [original_path_outside houtside, original_path_outside hroot_outside]
      exact ⟨Or.inl hroot_outside, heq⟩
    · obtain ⟨inner, rfl, rfl⟩ := string_in_tool hdata hroot heq
      refine ⟨Or.inr ⟨index, key, inner, rfl, hkey⟩, ?_⟩
      rw [original_path_in_tool, original_path_in_tool]
      split <;> rfl
  exact Or.inr ⟨extracted.original_path root, rest, encoded, decoded, htranslated, reaches_restored hdata hside hroot,
    hloads, hrest⟩

/-- Whether a path leads to one of some texts, or to an encoded document on the way to it. -/
def on_way (targets : List (List PathPart)) (path : List PathPart) : Bool :=
  targets.any fun target => decide (path <+: target)

theorem on_way_map {targets : List (List PathPart)} {f : List PathPart → List PathPart} {path path' : List PathPart}
    (h : ∀ target ∈ targets, path' <+: f target ↔ path <+: target) :
    on_way (targets.map f) path' = on_way targets path := by
  rw [on_way, on_way, List.any_map, Bool.eq_iff_iff, List.any_eq_true, List.any_eq_true]
  refine exists_congr fun target => and_congr_right fun htarget => ?_
  rw [Function.comp_apply, decide_eq_true_eq, decide_eq_true_eq]
  exact h target htarget

/-- The ways to texts correspond to the ways to them through the envelopes. -/
theorem corresponds_on_way {targets : List (List PathPart)}
    (htargets : ∀ path ∈ targets, OutsideTools path ∨ InTool path) :
    Corresponds extracted.nested_tools (on_way targets) (on_way (targets.map extracted.original_path)) := by
  constructor
  · intro key rest hkey
    refine on_way_map fun target htarget => ?_
    obtain houtside | ⟨index, field, tail, rfl, -⟩ := htargets target htarget
    · rw [original_path_outside houtside]
    · rw [original_path_in_tool]
      split <;> simp [List.cons_prefix_cons, hkey]
  · intro index rest hindex
    refine on_way_map fun target htarget => ?_
    obtain houtside | ⟨other, field, tail, rfl, -⟩ := htargets target htarget
    · rw [original_path_outside houtside]
    · rw [original_path_in_tool]
      split
      case isTrue hnested =>
        have hne : index ≠ other := fun heq => hindex (heq ▸ hnested)
        simp [List.cons_prefix_cons, hne]
      case isFalse => rfl
  · intro index rest hindex
    refine on_way_map fun target htarget => ?_
    obtain houtside | ⟨other, field, tail, rfl, hfield⟩ := htargets target htarget
    · rw [original_path_outside houtside]
    · rw [original_path_in_tool]
      split
      case isTrue => simp [List.cons_prefix_cons, hfield.symm]
      case isFalse => rfl
  · intro index key rest hindex hkey
    refine on_way_map fun target htarget => ?_
    obtain ⟨head, tail, rfl, hhead⟩ | ⟨other, field, tail, rfl, hfield⟩ := htargets target htarget
    · rw [original_path_outside ⟨head, tail, rfl, hhead⟩]
      simp [List.cons_prefix_cons, hhead.symm]
    · rw [original_path_in_tool]
      split
      case isTrue => simp [List.cons_prefix_cons]
      case isFalse hflat =>
        have hne : index ≠ other := fun heq => hflat (heq ▸ hindex)
        simp [List.cons_prefix_cons, hne]

end paths

section round_trip
variable {shared : SharedChecks} {loads : Loads} {max_depth : Nat} {request : OpenAIResponsesRequest shared}
  {extracted : ExtractedRequest}
  {canonical : List (String × Text) → Except AnalysisError (EngineResponsesRequest shared)}

/-- The ways to the leaves whose text is to be replaced by another. -/
def changed_paths (leaves : List Leaf) (segments : List (String × Text)) : List (List PathPart) :=
  (leaves.zip segments).filterMap fun (leaf, segment) => if segment.2 = leaf.text then none else some leaf.path

/-- Two documents differ at most in strings on the way to some texts. -/
def DiffersOnlyAt (targets : List (List PathPart)) (data rebuilt : JsonValue) : Prop :=
  blank (on_way targets) rebuilt = blank (on_way targets) data

/-- The canonical rebuild changes only the text leaves: with the texts that were extracted it
    gives the request again, and otherwise one that differs at most on the way to changed texts. -/
structure RebuildsLeaves (canonical : List (String × Text) → Except AnalysisError (EngineResponsesRequest shared))
    (original : EngineResponsesRequest shared) (extracted : ExtractedRequest) : Prop where
  unchanged : canonical extracted.segments = .ok original
  changed : ∀ segments rebuilt, canonical segments = .ok rebuilt →
    DiffersOnlyAt (changed_paths extracted.leaves segments) original.dumped rebuilt.dumped

theorem extract_responses_eq_ok {data : JsonValue} (h : extract loads max_depth (.responses data) = .ok extracted) :
    responses_leaves loads max_depth (canonical_responses data) = .ok extracted.leaves ∧
      extracted.nested_tools = (JsonValue.itemsOf (data.get? "tools")).zipIdx.filterMap fun (tool, index) =>
        if isNestedTool tool then some index else none := by
  obtain ⟨-, -, h⟩ := bind_eq_ok.mp h
  obtain ⟨leaves, hleaves, h⟩ := bind_eq_ok.mp h
  cases h
  exact ⟨hleaves, rfl⟩

theorem mem_changed_paths {leaves : List Leaf} {segments : List (String × Text)} {path : List PathPart}
    (h : path ∈ changed_paths leaves segments) : ∃ leaf ∈ leaves, leaf.path = path := by
  obtain ⟨entry, hentry, hpath⟩ := List.mem_filterMap.mp h
  dsimp only at hpath
  split at hpath
  · cases hpath
  · cases hpath
    exact ⟨entry.1, (List.of_mem_zip hentry).1, rfl⟩

theorem segment_id_injective : Function.Injective ExtractedRequest.segment_id := by
  intro first second h
  apply Text.ofNat_injective
  have hlist := congrArg String.toList h
  simpa [ExtractedRequest.segment_id, Text.ofNat] using hlist

/-- A segment identity leads back to the leaf it was given to. -/
theorem diagnostic_path_of_leaf {leaf : Leaf} {index : Nat} (h : (leaf, index) ∈ extracted.leaves.zipIdx) :
    extracted.diagnostic_path (ExtractedRequest.segment_id index) = some (extracted.original_path leaf.path) := by
  cases hlookup : extracted.paths.lookup (ExtractedRequest.segment_id index) with
  | none =>
    rw [List.lookup_eq_none_iff] at hlookup
    simpa using hlookup _ (List.mem_map.mpr ⟨_, h, rfl⟩)
  | some path =>
    obtain ⟨front, back, hpaths, -⟩ := List.lookup_eq_some_iff.mp hlookup
    have hmem : (ExtractedRequest.segment_id index, path) ∈ extracted.paths := by
      rw [hpaths]
      exact List.mem_append_right _ List.mem_cons_self
    obtain ⟨⟨other, position⟩, hother, hentry⟩ := List.mem_map.mp hmem
    obtain ⟨hid, rfl⟩ := Prod.mk.inj hentry
    have hposition : position = index := segment_id_injective hid
    rw [List.mem_zipIdx_iff_getElem?] at h hother
    dsimp only at h hother
    rw [hposition, h] at hother
    rw [ExtractedRequest.diagnostic_path, hlookup, Option.some.inj hother]

theorem DiffersOnlyAt.tool_count {targets : List (List PathPart)} {data rebuilt : JsonValue}
    (h : DiffersOnlyAt targets data rebuilt) :
    (JsonValue.itemsOf (rebuilt.get? "tools")).length = (JsonValue.itemsOf (data.get? "tools")).length := by
  have hcount := congrArg (fun value : JsonValue => (JsonValue.itemsOf (value.get? "tools")).length) h
  rwa [get?_blank, get?_blank, length_itemsOf_blank, length_itemsOf_blank] at hcount

/-- A rebuilt canonical request with as many tools gets its envelopes back. -/
theorem rebuild_eq_ok {nested_tools : List Nat} {segments : List (String × Text)} {flat : EngineResponsesRequest shared}
    (hflat : canonical segments = .ok flat) (hnested : ∀ index ∈ nested_tools, index < flat.items.length) :
    rebuild canonical nested_tools segments = .ok (flat.enveloped nested_tools) := by
  have hvalidated : OpenAIResponsesRequest.validated shared (restore_envelopes nested_tools flat.dumped) =
      some (flat.enveloped nested_tools) := by
    rw [restore_envelopes_dumped, OpenAIResponsesRequest.validated_dumped]
  have hcount : ¬ ∃ index ∈ nested_tools, (JsonValue.itemsOf (flat.dumped.get? "tools")).length ≤ index := by
    rintro ⟨index, hindex, hle⟩
    rw [EngineResponsesRequest.dumped, ResponsesBody.itemsOf_tools, List.length_map] at hle
    have hlt := hnested index hindex
    omega
  rw [rebuild, hflat]
  change (raiseIf _ _ >>= fun _ => _) = _
  rw [raiseIf_bind_eq_ok, hvalidated]
  exact ⟨hcount, rfl⟩

theorem nested_tools_lt {index : Nat} (h : index ∈ request.nested_tools) : index < request.items.length := by
  obtain ⟨tool, htool, -⟩ := mem_nested_tools.mp h
  exact (List.getElem?_eq_some_iff.mp htool).1

theorem length_items_flattened (request : OpenAIResponsesRequest shared) :
    request.flattened.items.length = request.items.length := by
  rw [OpenAIResponsesRequest.flattened, ResponsesBody.items_withTools, List.length_map]

/-- With its envelopes put back a request has the same tools nested. -/
theorem is_nested_enveloped {flat : EngineResponsesRequest shared}
    (hlength : flat.items.length = request.items.length) :
    (flat.enveloped request.nested_tools).items.map LegacyTool.is_nested = request.items.map LegacyTool.is_nested := by
  rw [EngineResponsesRequest.enveloped, ResponsesBody.items_withTools]
  refine List.ext_getElem? fun index => ?_
  rw [List.getElem?_map, List.getElem?_mapIdx, List.getElem?_map, Option.map_map]
  cases htool : request.items[index]? with
  | none =>
    rw [List.getElem?_eq_none_iff, ← hlength, ← List.getElem?_eq_none_iff] at htool
    rw [htool]
    rfl
  | some tool =>
    have hindex : index < flat.items.length := by
      rw [hlength]
      exact (List.getElem?_eq_some_iff.mp htool).1
    have hnested : index ∈ request.nested_tools ↔ tool.is_nested = true := by
      rw [mem_nested_tools, htool]
      simp
    rw [List.getElem?_eq_getElem hindex, Option.map_some, Option.map_some, Function.comp_apply]
    cases hkind : tool.is_nested with
    | true => rw [if_pos (hnested.mpr hkind), LegacyTool.is_nested]
    | false =>
      rw [if_neg fun h => by rw [hnested.mp h] at hkind; cases hkind]
      rfl

/-- Extraction works on a canonical request that is accepted, and the path of a segment leads to
    its text in the request as it came. The envelopes of nested tools come back: unchanged texts
    give the request again, and changed texts give one that differs from it only there, with the
    same tools nested. -/
theorem nested_tools_round_trip (request : OpenAIResponsesRequest shared) (loads : Loads) (max_depth : Nat) :
    EngineResponsesRequest.validated shared (canonical_responses request.dumped) = some request.flattened ∧
    ∀ extracted, extract loads max_depth (.responses request.dumped) = .ok extracted →
      (∀ id text, (id, text) ∈ extracted.segments → ∃ path, extracted.diagnostic_path id = some path ∧
        TextAt loads request.dumped path text) ∧
      ∀ canonical, RebuildsLeaves canonical request.flattened extracted →
        rebuild canonical extracted.nested_tools extracted.segments = .ok request ∧
        ∀ segments flat, canonical segments = .ok flat → ∃ rebuilt,
          rebuild canonical extracted.nested_tools segments = .ok rebuilt ∧
          DiffersOnlyAt ((changed_paths extracted.leaves segments).map extracted.original_path) request.dumped
            rebuilt.dumped ∧
          rebuilt.items.map LegacyTool.is_nested = request.items.map LegacyTool.is_nested ∧
          ∀ leaf ∈ extracted.leaves, ∀ text, TextAt loads flat.dumped leaf.path text →
            TextAt loads rebuilt.dumped (extracted.original_path leaf.path) text := by
  rw [canonical_responses_dumped]
  refine ⟨EngineResponsesRequest.validated_dumped _, fun extracted hextract => ?_⟩
  obtain ⟨hleaves, hnested⟩ := extract_responses_eq_ok hextract
  rw [canonical_responses_dumped] at hleaves
  rw [nested_tools_dumped] at hnested
  have hfound := responses_leaves_found hleaves
  have hside : ∀ leaf ∈ extracted.leaves, OutsideTools leaf.path ∨ InTool leaf.path := fun leaf hleaf =>
    (hfound leaf hleaf).imp And.left And.left
  have hlegacy : restore_envelopes extracted.nested_tools request.flattened.dumped = request.dumped := by
    rw [hnested, restore_envelopes_dumped, enveloped_flattened]
  have hlength := length_items_flattened request
  refine ⟨?_, fun canonical hrebuild => ⟨?_, ?_⟩⟩
  · intro id text hsegment
    obtain ⟨⟨leaf, index⟩, hleaf, hentry⟩ := List.mem_map.mp hsegment
    cases hentry
    have hmem : leaf ∈ extracted.leaves := List.mem_of_getElem? (List.mem_zipIdx_iff_getElem?.mp hleaf)
    refine ⟨_, diagnostic_path_of_leaf hleaf, ?_⟩
    have htext : TextAt loads request.flattened.dumped leaf.path leaf.text :=
      (hfound leaf hmem).elim (fun h => h.2) fun h => h.2.textAt
    rw [← hlegacy]
    exact textAt_restored (objectTools_dumped _) (hside leaf hmem) htext
  · rw [hnested, rebuild_eq_ok hrebuild.unchanged, enveloped_flattened]
    intro index hindex
    rw [hlength]
    exact nested_tools_lt hindex
  · intro segments flat hflat
    have hdiffers := hrebuild.changed segments flat hflat
    have hcount : flat.items.length = request.items.length := by
      have htools := hdiffers.tool_count
      rwa [EngineResponsesRequest.dumped, EngineResponsesRequest.dumped, ResponsesBody.itemsOf_tools,
        ResponsesBody.itemsOf_tools, List.length_map, List.length_map, hlength] at htools
    refine ⟨flat.enveloped extracted.nested_tools, rebuild_eq_ok hflat ?_, ?_, ?_, ?_⟩
    · intro index hindex
      rw [hnested] at hindex
      rw [hcount]
      exact nested_tools_lt hindex
    · have hcorresponds : Corresponds extracted.nested_tools (on_way (changed_paths extracted.leaves segments))
          (on_way ((changed_paths extracted.leaves segments).map extracted.original_path)) := by
        refine corresponds_on_way fun path hpath => ?_
        obtain ⟨leaf, hleaf, rfl⟩ := mem_changed_paths hpath
        exact hside leaf hleaf
      rw [DiffersOnlyAt, ← restore_envelopes_dumped, blank_restore_envelopes hcorresponds (objectTools_dumped flat),
        hdiffers, ← blank_restore_envelopes hcorresponds (objectTools_dumped _), hlegacy]
    · rw [hnested]
      exact is_nested_enveloped hcount
    · intro leaf hleaf text htext
      rw [← restore_envelopes_dumped]
      exact textAt_restored (objectTools_dumped flat) (hside leaf hleaf) htext

/-- A request with one nested tool, whose description is given. -/
def described_request (text : String) (h : text.length ≤ 20000) :
    OpenAIResponsesRequest ⟨fun _ => true, fun _ => true⟩ where
  front := [("model", .string "m"), ("input", .string "hi")]
  tools := .given [.nested ⟨{
    name := "f", description := .given text, parameters := .omitted, strict := .null, name_ok := by decide
    description_ok := fun other hother => by cases hother; exact h
    parameters_ok := fun _ hentries => by cases hentries }⟩]
  back := []
  fields_ok := rfl
  keys_ok := by decide
  tools_ok := fun items hitems => by cases hitems; exact (by decide : 1 ≤ 128)
  back_ok := fun _ => rfl

/-- The rebuild of that request replaces the description by the text of its last segment. -/
def rebuild_described (segments : List (String × Text)) :
    Except AnalysisError (EngineResponsesRequest ⟨fun _ => true, fun _ => true⟩) :=
  match segments with
  | [_, (_, text)] =>
    if h : (String.ofList text).length ≤ 20000 then .ok (described_request (String.ofList text) h).flattened
    else .error (.validation_error "EngineResponsesRequest" "invalid field")
  | _ => .error (.value_error "segment identities or order changed")

/-- What is extracted of that request. -/
def described_extraction : ExtractedRequest where
  request_kind := .responses
  leaves := [⟨[.key "input"], "hi".toList⟩, ⟨[.key "tools", .index 0, .key "description"], "Ada".toList⟩]
  attachments_present := false
  nested_tools := [0]

theorem blank_described {emptied : List PathPart → Bool} {text other : String} (h : text.length ≤ 20000)
    (h' : other.length ≤ 20000) (hemptied : emptied [.key "tools", .index 0, .key "description"] = true) :
    blank emptied (described_request text h).flattened.dumped =
      blank emptied (described_request other h').flattened.dumped := by
  change JsonValue.dict [_, _, ("tools",
    .list [.dict [_, _, ("description", .string (if emptied _ then "" else text)), _]])] =
    .dict [_, _, ("tools", .list [.dict [_, _, ("description", .string (if emptied _ then "" else other)), _]])]
  rw [hemptied]
  rfl

theorem rebuild_described_leaves (h : "Ada".length ≤ 20000) :
    RebuildsLeaves rebuild_described (described_request "Ada" h).flattened described_extraction := by
  refine ⟨rfl, fun segments rebuilt hrebuilt => ?_⟩
  unfold rebuild_described at hrebuilt
  split at hrebuilt
  case h_2 => cases hrebuilt
  case h_1 first id text =>
    split at hrebuilt
    case isFalse => cases hrebuilt
    case isTrue hlength =>
      cases hrebuilt
      by_cases htext : text = "Ada".toList
      · subst htext
        rfl
      · refine blank_described hlength h ?_
        have hmem : [PathPart.key "tools", .index 0, .key "description"] ∈
            changed_paths described_extraction.leaves [first, (id, text)] :=
          List.mem_filterMap.mpr ⟨_, List.mem_cons_of_mem _ List.mem_cons_self, if_neg htext⟩
        exact List.any_eq_true.mpr ⟨_, hmem, decide_eq_true (List.prefix_refl _)⟩

theorem nested_tools_round_trip_described : ∃ extracted rebuilt,
    extract (fun _ => none) 32 (.responses (described_request "Ada" (by decide)).dumped) = .ok extracted ∧
    extracted.diagnostic_path "s1" = some [.key "tools", .index 0, .key "function", .key "description"] ∧
    rebuild rebuild_described extracted.nested_tools [("s0", "hi".toList), ("s1", "<NAME>".toList)] = .ok rebuilt ∧
    rebuilt.items.map LegacyTool.is_nested = [true] := by
  have hextract : extract (fun _ => none) 32 (.responses (described_request "Ada" (by decide)).dumped) =
      .ok described_extraction := rfl
  obtain ⟨-, hround_trip⟩ := nested_tools_round_trip (described_request "Ada" (by decide)) (fun _ => none) 32
  obtain ⟨-, hrebuild⟩ := hround_trip described_extraction hextract
  obtain ⟨-, hchanged⟩ := hrebuild rebuild_described (rebuild_described_leaves (by decide))
  obtain ⟨rebuilt, hrebuilt, -, hnested, -⟩ := hchanged [("s0", "hi".toList), ("s1", "<NAME>".toList)] _ rfl
  exact ⟨described_extraction, rebuilt, hextract, by decide, hrebuilt, hnested⟩

end round_trip

end pii_engine.request_segments
