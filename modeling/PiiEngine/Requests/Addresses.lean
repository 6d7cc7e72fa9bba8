import PiiEngine.Requests.Extraction

open checked

namespace pii_engine.request_segments
variable {loads : Loads} {max_depth : Nat}

/-- A path leads from a document to a value in it. -/
inductive Reaches : JsonValue → List PathPart → JsonValue → Prop
  | here (value : JsonValue) : Reaches value [] value
  | key {entries : List (String × JsonValue)} {name : String} {item target : JsonValue} {rest : List PathPart}
      (hitem : (name, item) ∈ entries) (hrest : Reaches item rest target) :
      Reaches (.dict entries) (.key name :: rest) target
  | index {items : List JsonValue} {n : Nat} {item target : JsonValue} {rest : List PathPart}
      (hitem : items[n]? = some item) (hrest : Reaches item rest target) :
      Reaches (.list items) (.index n :: rest) target

/-- A text stands at a path, where a path may continue into an encoded document. -/
def TextAt (loads : Loads) (value : JsonValue) (path : List PathPart) (text : Text) : Prop :=
  Reaches value path (.string (String.ofList text)) ∨
    ∃ root rest encoded decoded, path = root ++ rest ∧ Reaches value root (.string encoded) ∧
      loads encoded.toList = some decoded ∧ Reaches decoded rest (.string (String.ofList text))

/-- Leaves that were found in a value at a path stand in it. -/
def Found (stands : JsonValue → List PathPart → Text → Prop) (value : JsonValue) (path : List PathPart)
    (leaves : List Leaf) : Prop :=
  ∀ leaf ∈ leaves, ∃ rest, leaf.path = path ++ rest ∧ stands value rest leaf.text

/-- A text stands at a path itself. -/
def StringAt (value : JsonValue) (path : List PathPart) (text : Text) : Prop :=
  Reaches value path (.string (String.ofList text))

/-- What stands in a part of a value stands in the value. -/
def Inherited (stands : JsonValue → List PathPart → Text → Prop) : Prop :=
  ∀ value part item rest text, Reaches value [part] item → stands item rest text → stands value (part :: rest) text

namespace Found
variable {stands : JsonValue → List PathPart → Text → Prop} {value item : JsonValue} {path : List PathPart}
  {leaves : List Leaf}

theorem nil : Found stands value path [] := by
  intro leaf hleaf
  cases hleaf

theorem append {more : List Leaf} (h : Found stands value path leaves) (h' : Found stands value path more) :
    Found stands value path (leaves ++ more) := by
  intro leaf hleaf
  cases List.mem_append.mp hleaf with
  | inl hfirst => exact h leaf hfirst
  | inr hmore => exact h' leaf hmore

theorem flatMap {α : Type} {items : List α} {f : α → List Leaf} (h : ∀ item ∈ items, Found stands value path (f item)) :
    Found stands value path (items.flatMap f) := by
  intro leaf hleaf
  obtain ⟨item, hitem, hleaf⟩ := List.mem_flatMap.mp hleaf
  exact h item hitem leaf hleaf

theorem step {part : PathPart} (hinherited : Inherited stands) (hitem : Reaches value [part] item)
    (h : Found stands item (path ++ [part]) leaves) : Found stands value path leaves := by
  intro leaf hleaf
  obtain ⟨rest, hpath, hrest⟩ := h leaf hleaf
  refine ⟨part :: rest, ?_, hinherited _ _ _ _ _ hitem hrest⟩
  rw [hpath, List.append_assoc]
  rfl

theorem mono {stands' : JsonValue → List PathPart → Text → Prop} (h : Found stands value path leaves)
    (hstands : ∀ rest text, stands value rest text → stands' value rest text) : Found stands' value path leaves := by
  intro leaf hleaf
  obtain ⟨rest, hpath, hrest⟩ := h leaf hleaf
  exact ⟨rest, hpath, hstands rest leaf.text hrest⟩

end Found

theorem inherited_stringAt : Inherited StringAt := by
  intro value part item rest text hitem hrest
  cases hitem with
  | key hmem hhere =>
    cases hhere
    exact .key hmem hrest
  | index hget hhere =>
    cases hhere
    exact .index hget hrest

theorem inherited_textAt : Inherited (TextAt loads) := by
  intro value part item rest text hitem hrest
  obtain hdirect | ⟨root, inner, encoded, decoded, rfl, hroot, hloads, hinner⟩ := hrest
  · exact Or.inl (inherited_stringAt value part item rest text hitem hdirect)
  · refine Or.inr ⟨part :: root, inner, encoded, decoded, rfl, ?_, hloads, hinner⟩
    rw [← String.ofList_toList (s := encoded)] at hroot ⊢
    exact inherited_stringAt value part item root encoded.toList hitem hroot

theorem reaches_get? {value item : JsonValue} {key : String} (h : value.get? key = some item) :
    Reaches value [.key key] item := by
  cases value with
  | dict entries =>
    obtain ⟨front, back, hentries, -⟩ := List.lookup_eq_some_iff.mp h
    refine .key ?_ (.here item)
    rw [hentries]
    exact List.mem_append_right _ List.mem_cons_self
  | _ => cases h

theorem reaches_item {value item : JsonValue} {index : Nat}
    (h : (item, index) ∈ (JsonValue.itemsOf (some value)).zipIdx) :
    Reaches value [.index index] item := by
  cases value with
  | list items => exact .index (List.mem_zipIdx_iff_getElem?.mp h) (.here item)
  | _ => cases h

section leaves
variable {stands : JsonValue → List PathPart → Text → Prop} {path : List PathPart} {leaves : List Leaf}

theorem found_here (text : String) (path : List PathPart) :
    Found StringAt (.string text) path [⟨path, text.toList⟩] := by
  intro leaf hleaf
  rw [List.mem_singleton] at hleaf
  rw [hleaf]
  refine ⟨[], (List.append_nil path).symm, ?_⟩
  rw [StringAt, String.ofList_toList]
  exact .here _

theorem text_leaf_here (item : JsonValue) (path : List PathPart) :
    Found StringAt item path (text_leaf (some item) path) := by
  cases item with
  | string text => exact found_here text path
  | _ => exact .nil

theorem text_leaf_found (value : JsonValue) (key : String) (path : List PathPart) :
    Found StringAt value path (text_leaf (value.get? key) (path ++ [.key key])) := by
  cases hvalue : value.get? key with
  | none => exact .nil
  | some item => exact .step inherited_stringAt (reaches_get? hvalue) (text_leaf_here item _)

/-- The leaves of one entry and then those of the rest. -/
theorem found_entry {before entries : List (String × JsonValue)} {key : String} {item : JsonValue}
    {first : List Leaf} {later : Except AnalysisError (List Leaf)}
    (hfirst : Found StringAt item (path ++ [.key key]) first)
    (hlater : ∀ rest, later = .ok rest → Found StringAt (.dict (before ++ (key, item) :: entries)) path rest)
    (h : (later >>= fun rest => pure (first ++ rest)) = .ok leaves) :
    Found StringAt (.dict (before ++ (key, item) :: entries)) path leaves := by
  obtain ⟨rest, hrest, h⟩ := bind_eq_ok.mp h
  cases h
  have hmem : (key, item) ∈ before ++ (key, item) :: entries := List.mem_append_right _ List.mem_cons_self
  exact .append (.step inherited_stringAt (.key hmem (.here item)) hfirst) (hlater rest hrest)

/-- The leaves of one item and then those of the rest. -/
theorem found_item {before items : List JsonValue} {item : JsonValue} {first : List Leaf}
    {later : Except AnalysisError (List Leaf)} (hfirst : Found StringAt item (path ++ [.index before.length]) first)
    (hlater : ∀ rest, later = .ok rest → Found StringAt (.list (before ++ item :: items)) path rest)
    (h : (later >>= fun rest => pure (first ++ rest)) = .ok leaves) :
    Found StringAt (.list (before ++ item :: items)) path leaves := by
  obtain ⟨rest, hrest, h⟩ := bind_eq_ok.mp h
  cases h
  have hget : (before ++ item :: items)[before.length]? = some item := by
    rw [List.getElem?_append_right (Nat.le_refl _), Nat.sub_self]
    rfl
  exact .append (.step inherited_stringAt (.index hget (.here item)) hfirst) (hlater rest hrest)

mutual

theorem json_leaves_found {depth : Nat} {value : JsonValue} {path : List PathPart} {leaves : List Leaf}
    (h : json_leaves max_depth path depth value = .ok leaves) : Found StringAt value path leaves := by
  cases value with
  | string text =>
    obtain ⟨-, -, h⟩ := bind_eq_ok.mp h
    cases h
    exact found_here text path
  | list items =>
    obtain ⟨-, -, h⟩ := bind_eq_ok.mp h
    exact json_items_found [] h
  | dict entries =>
    obtain ⟨-, -, h⟩ := bind_eq_ok.mp h
    exact json_entries_found [] h
  | null =>
    obtain ⟨-, -, h⟩ := bind_eq_ok.mp h
    cases h
    exact .nil
  | bool _ =>
    obtain ⟨-, -, h⟩ := bind_eq_ok.mp h
    cases h
    exact .nil
  | int _ =>
    obtain ⟨-, -, h⟩ := bind_eq_ok.mp h
    cases h
    exact .nil
  | float _ =>
    obtain ⟨-, -, h⟩ := bind_eq_ok.mp h
    cases h
    exact .nil

theorem json_items_found {depth : Nat} (before : List JsonValue) {items : List JsonValue} {path : List PathPart}
    {leaves : List Leaf}
    (h : json_items max_depth path depth before.length items = .ok leaves) :
    Found StringAt (.list (before ++ items)) path leaves := by
  cases items with
  | nil =>
    cases h
    exact .nil
  | cons item items =>
    obtain ⟨first, hfirst, h⟩ := bind_eq_ok.mp h
    refine found_item (json_leaves_found hfirst) (fun rest hrest => ?_) h
    have hnext : json_items max_depth path depth (before ++ [item]).length items = .ok rest := by
      rw [List.length_append]
      exact hrest
    have hlater := json_items_found (before ++ [item]) hnext
    rwa [List.append_assoc] at hlater

theorem json_entries_found {depth : Nat} (before : List (String × JsonValue)) {entries : List (String × JsonValue)}
    {path : List PathPart} {leaves : List Leaf} (h : json_entries max_depth path depth entries = .ok leaves) :
    Found StringAt (.dict (before ++ entries)) path leaves := by
  cases entries with
  | nil =>
    cases h
    exact .nil
  | cons entry entries =>
    obtain ⟨key, item⟩ := entry
    obtain ⟨first, hfirst, h⟩ := bind_eq_ok.mp h
    refine found_entry (json_leaves_found hfirst) (fun rest hrest => ?_) h
    have hlater := json_entries_found (before ++ [(key, item)]) hrest
    rwa [List.append_assoc] at hlater

end

mutual

theorem schema_found {depth : Nat} {value : JsonValue} {path : List PathPart} {leaves : List Leaf}
    (h : schema max_depth path depth value = .ok leaves) : Found StringAt value path leaves := by
  cases value with
  | dict entries =>
    obtain ⟨-, -, h⟩ := bind_eq_ok.mp h
    exact schema_keywords_found [] h
  | _ =>
    obtain ⟨-, -, h⟩ := bind_eq_ok.mp h
    cases h
    exact .nil

theorem schema_keywords_found {depth : Nat} (before : List (String × JsonValue)) {entries : List (String × JsonValue)}
    {path : List PathPart} {leaves : List Leaf} (h : schema_keywords max_depth path depth entries = .ok leaves) :
    Found StringAt (.dict (before ++ entries)) path leaves := by
  cases entries with
  | nil =>
    cases h
    exact .nil
  | cons entry entries =>
    obtain ⟨key, item⟩ := entry
    have hlater : ∀ rest, schema_keywords max_depth path depth entries = .ok rest →
        Found StringAt (.dict (before ++ (key, item) :: entries)) path rest := by
      intro rest hrest
      have hfound := schema_keywords_found (before ++ [(key, item)]) hrest
      rwa [List.append_assoc] at hfound
    unfold schema_keywords at h
    -- the keyword decides how its value is read
    split at h
    · obtain ⟨first, hfirst, h⟩ := bind_eq_ok.mp h
      exact found_entry (json_leaves_found hfirst) hlater h
    · split at h
      · obtain ⟨first, hfirst, h⟩ := bind_eq_ok.mp h
        exact found_entry (schema_found hfirst) hlater h
      · split at h
        · cases item with
          | dict schemas =>
            obtain ⟨first, hfirst, h⟩ := bind_eq_ok.mp h
            exact found_entry (named_schemas_found [] hfirst) hlater h
          | _ => exact found_entry .nil hlater h
        · split at h
          · cases item with
            | list schemas =>
              obtain ⟨first, hfirst, h⟩ := bind_eq_ok.mp h
              exact found_entry (listed_schemas_found [] hfirst) hlater h
            | _ => exact found_entry .nil hlater h
          · exact found_entry .nil hlater h

theorem named_schemas_found {depth : Nat} (before : List (String × JsonValue)) {entries : List (String × JsonValue)}
    {path : List PathPart} {leaves : List Leaf} (h : named_schemas max_depth path depth entries = .ok leaves) :
    Found StringAt (.dict (before ++ entries)) path leaves := by
  cases entries with
  | nil =>
    cases h
    exact .nil
  | cons entry entries =>
    obtain ⟨key, item⟩ := entry
    obtain ⟨first, hfirst, h⟩ := bind_eq_ok.mp h
    refine found_entry (schema_found hfirst) (fun rest hrest => ?_) h
    have hlater := named_schemas_found (before ++ [(key, item)]) hrest
    rwa [List.append_assoc] at hlater

theorem listed_schemas_found {depth : Nat} (before : List JsonValue) {items : List JsonValue} {path : List PathPart}
    {leaves : List Leaf}
    (h : listed_schemas max_depth path depth before.length items = .ok leaves) :
    Found StringAt (.list (before ++ items)) path leaves := by
  cases items with
  | nil =>
    cases h
    exact .nil
  | cons item items =>
    obtain ⟨first, hfirst, h⟩ := bind_eq_ok.mp h
    refine found_item (schema_found hfirst) (fun rest hrest => ?_) h
    have hnext : listed_schemas max_depth path depth (before ++ [item]).length items = .ok rest := by
      rw [List.length_append]
      exact hrest
    have hlater := listed_schemas_found (before ++ [item]) hnext
    rwa [List.append_assoc] at hlater

end

theorem StringAt.textAt {value : JsonValue} {rest : List PathPart} {text : Text} (h : StringAt value rest text) :
    TextAt loads value rest text :=
  Or.inl h

/-- Call arguments stand in their value, or in the document that it encodes. -/
theorem arguments_found {value : JsonValue} (h : arguments loads max_depth path value = .ok leaves) :
    Found (TextAt loads) value path leaves := by
  cases value with
  | string encoded =>
    obtain ⟨-, -, h⟩ := bind_eq_ok.mp h
    cases hloads : loads encoded.toList with
    | none =>
      rw [hloads] at h
      cases h
    | some decoded =>
      rw [hloads] at h
      intro leaf hleaf
      obtain ⟨rest, hpath, hrest⟩ := json_leaves_found h leaf hleaf
      exact ⟨rest, hpath, Or.inr ⟨[], rest, encoded, decoded, rfl, .here _, hloads, hrest⟩⟩
  | _ => exact (json_leaves_found h).mono fun _ _ hrest => hrest.textAt

theorem given_arguments_found {function : JsonValue} (h : given_arguments loads max_depth path function = .ok leaves) :
    Found (TextAt loads) function path leaves := by
  unfold given_arguments at h
  cases hvalue : function.get? "arguments" with
  | none =>
    rw [hvalue] at h
    cases h
    exact .nil
  | some value =>
    rw [hvalue] at h
    exact .step inherited_textAt (reaches_get? hvalue) (arguments_found h)

theorem content_leaves_found (value : JsonValue) (key : String) (path : List PathPart) :
    Found StringAt value path (content_leaves (value.get? key) (path ++ [.key key])) := by
  cases hvalue : value.get? key with
  | none => exact .nil
  | some content =>
    refine .step inherited_stringAt (reaches_get? hvalue) ?_
    cases content with
    | string text => exact found_here text _
    | list parts =>
      refine .flatMap fun entry hentry => ?_
      obtain ⟨part, index⟩ := entry
      dsimp only
      split
      case isTrue =>
        have htext := text_leaf_found part "text" (path ++ [.key key] ++ [.index index])
        rw [List.append_assoc _ [PathPart.index index]] at htext
        exact .step inherited_stringAt (.index (List.mem_zipIdx_iff_getElem?.mp hentry) (.here part)) htext
      case isFalse => exact .nil
    | _ => exact .nil

/-- The leaves of the items of a list below a key. -/
theorem mem_collect {value : JsonValue} {key : String} {f : Nat → JsonValue → Except AnalysisError (List Leaf)}
    (h : collect (JsonValue.itemsOf (value.get? key)) f = .ok leaves) {leaf : Leaf} (hleaf : leaf ∈ leaves) :
    ∃ list index item group, value.get? key = some list ∧ Reaches list [.index index] item ∧
      f index item = .ok group ∧ leaf ∈ group := by
  cases hvalue : value.get? key with
  | none =>
    rw [hvalue] at h
    cases h
    cases hleaf
  | some list =>
    rw [hvalue] at h
    obtain ⟨groups, hgroups, h⟩ := bind_eq_ok.mp h
    cases h
    obtain ⟨group, hgroup, hleaf⟩ := List.mem_flatten.mp hleaf
    obtain ⟨entry, hentry, hitem⟩ := collections.exists_left_of_forall₂ (mapM_eq_ok.mp hgroups) hgroup
    exact ⟨list, entry.2, entry.1, group, rfl, reaches_item hentry, hitem, hleaf⟩

/-- One item of a Responses input. -/
theorem response_item_found {index : Nat} {item : JsonValue}
    (h : response_item loads max_depth index item = .ok leaves) :
    Found (TextAt loads) item [.key "input", .index index] leaves := by
  have hcontent : Found (TextAt loads) item [.key "input", .index index]
      (content_leaves (item.get? "content") ([.key "input", .index index] ++ [.key "content"])) :=
    (content_leaves_found item "content" _).mono fun _ _ hrest => hrest.textAt
  unfold response_item at h
  dsimp only at h
  split at h
  · cases h
    exact hcontent
  · cases h
    exact hcontent
  · exact given_arguments_found h
  · cases houtput : item.get? "output" with
    | none =>
      rw [houtput] at h
      cases h
      exact .nil
    | some output =>
      rw [houtput] at h
      exact .step inherited_textAt (reaches_get? houtput) ((json_leaves_found h).mono fun _ _ hrest => hrest.textAt)
  · cases h
    refine .flatMap fun field _ => ?_
    cases hparts : item.get? field with
    | none => exact .nil
    | some parts =>
      refine .step inherited_textAt (reaches_get? hparts) (.flatMap fun entry hentry => ?_)
      obtain ⟨part, part_index⟩ := entry
      have htext := (text_leaf_found part "text" ([.key "input", .index index] ++ [.key field] ++
        [.index part_index])).mono fun _ _ hrest => (hrest.textAt : TextAt loads _ _ _)
      exact .step inherited_textAt (reaches_item hentry) htext
  · cases h
    exact .nil

/-- The paths of the texts that are no part of a tool, and of those that are. -/
def OutsideTools (path : List PathPart) : Prop := ∃ key rest, path = .key key :: rest ∧ key ≠ "tools"

def InTool (path : List PathPart) : Prop :=
  ∃ index key rest, path = .key "tools" :: .index index :: .key key :: rest ∧ key ≠ "type"

/-- Leaves found below a key have it on their paths. -/
theorem Found.under_key {value item : JsonValue} {key : String} (hinherited : Inherited stands)
    (h : Found stands item (path ++ [.key key]) leaves) (hitem : value.get? key = some item) :
    ∀ leaf ∈ leaves, ∃ rest, leaf.path = path ++ .key key :: rest ∧ stands value (.key key :: rest) leaf.text := by
  intro leaf hleaf
  obtain ⟨rest, hpath, hrest⟩ := h leaf hleaf
  refine ⟨rest, ?_, hinherited _ _ _ _ _ (reaches_get? hitem) hrest⟩
  rw [hpath, List.append_assoc]
  rfl

theorem text_leaf_under_key (value : JsonValue) (key : String) (path : List PathPart) :
    ∀ leaf ∈ text_leaf (value.get? key) (path ++ [.key key]), ∃ rest,
      leaf.path = path ++ .key key :: rest ∧ StringAt value (.key key :: rest) leaf.text := by
  cases hvalue : value.get? key with
  | none => exact fun leaf hleaf => by cases hleaf
  | some item => exact (text_leaf_here item _).under_key inherited_stringAt hvalue

theorem optional_schema_under_key {value : JsonValue} {key : String}
    (h : optional_schema max_depth (path ++ [.key key]) (value.get? key) = .ok leaves) :
    ∀ leaf ∈ leaves, ∃ rest, leaf.path = path ++ .key key :: rest ∧ StringAt value (.key key :: rest) leaf.text := by
  cases hvalue : value.get? key with
  | none =>
    rw [hvalue] at h
    cases h
    exact fun leaf hleaf => by cases hleaf
  | some item =>
    rw [hvalue] at h
    exact (schema_found h).under_key inherited_stringAt hvalue

/-- The leaves of a function definition stand below its description and its parameters. -/
theorem definition_found {value : JsonValue} (h : definition max_depth path value = .ok leaves) :
    ∀ leaf ∈ leaves, ∃ key rest, leaf.path = path ++ .key key :: rest ∧ key ≠ "type" ∧
      StringAt value (.key key :: rest) leaf.text := by
  obtain ⟨parameters, hparameters, h⟩ := bind_eq_ok.mp h
  cases h
  intro leaf hleaf
  cases List.mem_append.mp hleaf with
  | inl hdescription =>
    obtain ⟨rest, hpath, hstands⟩ := text_leaf_under_key value "description" path leaf hdescription
    exact ⟨"description", rest, hpath, by decide, hstands⟩
  | inr hschema =>
    obtain ⟨rest, hpath, hstands⟩ := optional_schema_under_key hparameters leaf hschema
    exact ⟨"parameters", rest, hpath, by decide, hstands⟩

/-- Where the texts of a Responses request stand. -/
theorem responses_leaves_found {data : JsonValue} (h : responses_leaves loads max_depth data = .ok leaves) :
    ∀ leaf ∈ leaves, OutsideTools leaf.path ∧ TextAt loads data leaf.path leaf.text ∨
      InTool leaf.path ∧ StringAt data leaf.path leaf.text := by
  obtain ⟨items, hitems, h⟩ := bind_eq_ok.mp h
  obtain ⟨tools, htools, h⟩ := bind_eq_ok.mp h
  obtain ⟨format, hformat, h⟩ := bind_eq_ok.mp h
  cases h
  intro leaf hleaf
  simp only [List.mem_append, or_assoc] at hleaf
  obtain hinstructions | hinput | hitem | htool | hschema := hleaf
  · obtain ⟨rest, hpath, hstands⟩ := text_leaf_under_key data "instructions" [] leaf hinstructions
    rw [hpath]
    exact Or.inl ⟨⟨_, _, rfl, by decide⟩, hstands.textAt⟩
  · obtain ⟨rest, hpath, hstands⟩ := text_leaf_under_key data "input" [] leaf hinput
    rw [hpath]
    exact Or.inl ⟨⟨_, _, rfl, by decide⟩, hstands.textAt⟩
  · obtain ⟨list, index, item, group, hlist, hreached, hgroup, hleaf⟩ := mem_collect hitems hitem
    obtain ⟨rest, hpath, hstands⟩ := response_item_found hgroup leaf hleaf
    rw [hpath]
    have hinput := inherited_textAt _ _ _ _ _ hreached hstands
    exact Or.inl ⟨⟨_, _, rfl, by decide⟩, inherited_textAt _ _ _ _ _ (reaches_get? hlist) hinput⟩
  · obtain ⟨list, index, tool, group, hlist, hreached, hgroup, hleaf⟩ := mem_collect htools htool
    obtain ⟨key, rest, hpath, hkey, hstands⟩ := definition_found hgroup leaf hleaf
    rw [hpath]
    have htool := inherited_stringAt _ _ _ _ _ hreached hstands
    exact Or.inr ⟨⟨index, key, rest, rfl, hkey⟩, inherited_stringAt _ _ _ _ _ (reaches_get? hlist) htool⟩
  · cases hconfig : data.get? "text" with
    | none =>
      rw [hconfig] at hformat
      cases hformat
      cases hschema
    | some config =>
      rw [hconfig] at hformat
      have hread : optional_schema max_depth ([.key "text"] ++ [.key "format"]) (config.get? "format") = .ok format :=
        hformat
      obtain ⟨rest, hpath, hstands⟩ := optional_schema_under_key hread leaf hschema
      rw [hpath]
      exact Or.inl ⟨⟨_, _, rfl, by decide⟩,
        (inherited_stringAt _ _ _ _ _ (reaches_get? hconfig) hstands).textAt⟩

end leaves

end pii_engine.request_segments
