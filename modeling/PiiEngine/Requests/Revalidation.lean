import PiiEngine.Requests.Envelope
import PiiEngine.Requests.Overwrite

open checked

namespace pii_engine.request_segments

section fields
variable {α : Type} {encode : α → JsonValue} {decode : JsonValue → Option α}

/-- Entries whose keys stand in a given order are what a lookup of each key gives. -/
theorem filterMap_lookup {keys : List String} {entries : List (String × JsonValue)} (hnodup : keys.Nodup)
    (hkeys : (entries.map Prod.fst).Sublist keys) :
    (keys.filterMap fun key => (entries.lookup key).map (key, ·)) = entries := by
  induction keys generalizing entries with
  | nil =>
    rw [List.sublist_nil, List.map_eq_nil_iff] at hkeys
    rw [hkeys, List.filterMap_nil]
  | cons key keys ih =>
    rw [List.nodup_cons] at hnodup
    have hlookup (rest : List (String × JsonValue)) (hrest : (rest.map Prod.fst).Sublist keys) :
        rest.lookup key = none := by
      rw [List.lookup_eq_none_iff]
      intro entry hentry
      rw [bne_iff_ne]
      rintro rfl
      exact hnodup.1 (hrest.subset (List.mem_map.mpr ⟨entry, hentry, rfl⟩))
    rw [List.filterMap_cons]
    cases entries with
    | nil => exact ih hnodup.2 (List.nil_sublist keys)
    | cons entry entries =>
      obtain ⟨first, value⟩ := entry
      rw [List.map_cons, List.sublist_cons_iff] at hkeys
      obtain hskip | ⟨rest, hfirst, hrest⟩ := hkeys
      · rw [hlookup _ (by simpa using hskip)]
        exact ih hnodup.2 (by simpa using hskip)
      · obtain ⟨rfl, rfl⟩ := List.cons.inj hfirst
        rw [List.lookup_cons, beq_self_eq_true]
        refine congrArg _ (Eq.trans (List.filterMap_congr fun other hother => ?_) (ih hnodup.2 hrest))
        have hne : other ≠ first := by
          rintro rfl
          exact hnodup.1 hother
        rw [List.lookup_cons, beq_eq_false_iff_ne.mpr hne]

/-- A field that is read from a value has that value. -/
theorem FieldState.encoded_of_validate {value : Option JsonValue} {field : FieldState α}
    (hencode : ∀ item ∈ value, ∀ decoded, decode item = some decoded → encode decoded = item)
    (h : FieldState.validate decode value = some field) : field.encoded encode = value := by
  unfold FieldState.validate at h
  split at h
  case h_1 =>
    cases h
    rfl
  case h_2 =>
    cases h
    rfl
  case h_3 value hnull =>
    obtain ⟨decoded, hdecoded, rfl⟩ := Option.map_eq_some_iff.mp h
    exact congrArg some (hencode value rfl decoded hdecoded)

end fields

section tools
variable {shared : SharedChecks}

namespace EngineToolFunction

theorem asString_eq_some {value : JsonValue} {text : String} (h : asString value = some text) :
    JsonValue.string text = value := by
  cases value with
  | string text => exact congrArg JsonValue.string (Option.some.inj h).symm
  | _ => cases h

theorem asDict_eq_some {value : JsonValue} {entries : List (String × JsonValue)} (h : asDict value = some entries) :
    JsonValue.dict entries = value := by
  cases value with
  | dict entries => exact congrArg JsonValue.dict (Option.some.inj h).symm
  | _ => cases h

theorem asBool_eq_some {value : JsonValue} {b : Bool} (h : asBool value = some b) : JsonValue.bool b = value := by
  cases value with
  | bool b => exact congrArg JsonValue.bool (Option.some.inj h).symm
  | _ => cases h

theorem keys_model_dump (function : EngineToolFunction shared) : (function.model_dump.map Prod.fst).Sublist FIELDS := by
  have hfield {α : Type} (key : String) (encode : α → JsonValue) (field : FieldState α) :
      ((field.dump key encode).map Prod.fst).Sublist [key] := by
    rw [FieldState.dump]
    cases field.encoded encode with
    | none => exact List.nil_sublist _
    | some value => exact List.Sublist.refl _
  rw [model_dump, List.map_cons, List.map_append, List.map_append]
  exact ((hfield _ _ _).append ((hfield _ _ _).append (hfield _ _ _))).cons_cons "name"

theorem model_dump_eq (function : EngineToolFunction shared) : function.model_dump =
    FIELDS.filterMap fun key => (function.model_dump.lookup key).map (key, ·) :=
  (filterMap_lookup (by decide) function.keys_model_dump).symm

/-- A function that is read from entries in the order of its fields is dumped as these entries. -/
theorem model_dump_of_validate {entries : List (String × JsonValue)} {function : EngineToolFunction shared}
    (hkeys : (entries.map Prod.fst).Sublist FIELDS) (h : model_validate shared entries = some function) :
    function.model_dump = entries := by
  obtain ⟨name, hname, h⟩ := Option.bind_eq_some_iff.mp h
  obtain ⟨description, hdescription, h⟩ := Option.bind_eq_some_iff.mp h
  obtain ⟨parameters, hparameters, h⟩ := Option.bind_eq_some_iff.mp h
  obtain ⟨strict, hstrict, h⟩ := Option.bind_eq_some_iff.mp h
  obtain ⟨value, hvalue, hname⟩ := Option.bind_eq_some_iff.mp hname
  split at h
  case isFalse => cases h
  case isTrue hchecks =>
    cases h
    have hlookup :=
      lookup_model_dump (⟨name, description, parameters, strict, hchecks.2.1, hchecks.2.2.1, hchecks.2.2.2⟩ :
      EngineToolFunction shared)
    refine (model_dump_eq _).trans
      (Eq.trans (List.filterMap_congr fun key hkey => ?_) (filterMap_lookup (by decide) hkeys))
    refine congrArg (Option.map (key, ·)) ?_
    have hcases : key = "name" ∨ key = "description" ∨ key = "parameters" ∨ key = "strict" := by
      simpa [FIELDS] using hkey
    obtain rfl | rfl | rfl | rfl := hcases
    · rw [hlookup.1, hvalue, asString_eq_some hname]
    · rw [hlookup.2.1]
      exact FieldState.encoded_of_validate (fun _ _ _ => asString_eq_some) hdescription
    · rw [hlookup.2.2.1]
      exact FieldState.encoded_of_validate (fun _ _ _ => asDict_eq_some) hparameters
    · rw [hlookup.2.2.2]
      exact FieldState.encoded_of_validate (fun _ _ _ => asBool_eq_some) hstrict

end EngineToolFunction

/-- A tool is an object with its fields in the order in which they are dumped. -/
def OrderedTool (tool : JsonValue) : Prop :=
  ∃ entries, tool = .dict entries ∧ (entries.map Prod.fst).Sublist ("type" :: EngineToolFunction.FIELDS)

namespace EngineResponseToolDefinition

theorem orderedTool_model_dump (tool : EngineResponseToolDefinition shared) : OrderedTool tool.model_dump :=
  ⟨_, rfl, tool.function.keys_model_dump.cons_cons "type"⟩

theorem model_dump_of_validate {value : JsonValue} {tool : EngineResponseToolDefinition shared}
    (hordered : OrderedTool value) (h : model_validate shared value = some tool) : tool.model_dump = value := by
  obtain ⟨entries, rfl, hkeys⟩ := hordered
  rw [model_validate] at h
  split at h
  case h_2 => cases h
  case h_1 htype =>
    obtain ⟨function, hfunction, rfl⟩ := Option.map_eq_some_iff.mp h
    cases entries with
    | nil => cases htype
    | cons entry entries =>
      obtain ⟨first, item⟩ := entry
      rw [List.map_cons, List.sublist_cons_iff] at hkeys
      have hfields : ∀ entry ∈ entries, entry.1 ∈ EngineToolFunction.FIELDS → entry.1 ≠ "type" := by
        intro entry _ hfield heq
        rw [heq] at hfield
        exact absurd hfield (by decide)
      obtain hskip | ⟨rest, hfirst, hrest⟩ := hkeys
      · obtain ⟨front, back, hentries, -⟩ := List.lookup_eq_some_iff.mp htype
        have hmem : "type" ∈ ((first, item) :: entries).map Prod.fst := by
          rw [hentries]
          simp
        exact absurd (hskip.subset hmem) (by decide)
      · obtain ⟨rfl, rfl⟩ := List.cons.inj hfirst
        have hkept : entries.filter (·.1 ≠ "type") = entries := by
          rw [List.filter_eq_self]
          intro entry hentry
          exact decide_eq_true (hfields entry hentry (hrest.subset (List.mem_map.mpr ⟨entry, hentry, rfl⟩)))
        rw [List.filter_cons_of_neg (by simp), hkept] at hfunction
        rw [List.lookup_cons, beq_self_eq_true] at htype
        rw [model_dump, EngineToolFunction.model_dump_of_validate hrest hfunction, Option.some.inj htype]

end EngineResponseToolDefinition

/-- The tools of a request, where it has any, are ordered. -/
def OrderedTools (data : JsonValue) : Prop :=
  ∀ tools, data.get? "tools" = some (.list tools) → ∀ tool ∈ tools, OrderedTool tool

namespace EngineResponsesRequest

theorem orderedTools_dumped (request : EngineResponsesRequest shared) : OrderedTools request.dumped := by
  intro tools htools tool htool
  rw [dumped, ResponsesBody.get?_tools] at htools
  cases hgiven : request.tools with
  | omitted =>
    rw [hgiven] at htools
    cases htools
  | null =>
    rw [hgiven] at htools
    cases htools
  | given items =>
    rw [hgiven] at htools
    cases htools
    obtain ⟨item, -, rfl⟩ := List.mem_map.mp htool
    exact item.orderedTool_model_dump

theorem mapM_model_dump {tools : List JsonValue} {items : List (EngineResponseToolDefinition shared)}
    (hordered : ∀ tool ∈ tools, OrderedTool tool)
    (h : tools.mapM (EngineResponseToolDefinition.model_validate shared) = some items) :
    items.map EngineResponseToolDefinition.model_dump = tools := by
  induction tools generalizing items with
  | nil =>
    cases h
    rfl
  | cons tool tools ih =>
    rw [List.forall_mem_cons] at hordered
    rw [List.mapM_cons] at h
    obtain ⟨item, hitem, h⟩ := Option.bind_eq_some_iff.mp h
    obtain ⟨rest, hrest, h⟩ := Option.bind_eq_some_iff.mp h
    cases h
    rw [List.map_cons, ih hordered.2 hrest, EngineResponseToolDefinition.model_dump_of_validate hordered.1 hitem]

theorem key_of_head {entries rest : List (String × JsonValue)} {entry : String × JsonValue}
    (h : entries.dropWhile (·.1 ≠ "tools") = entry :: rest) : entry.1 = "tools" := by
  have hhead := List.head?_dropWhile_not (·.1 ≠ "tools") entries
  rw [h] at hhead
  simpa using hhead

theorem lookup_tools (entries : List (String × JsonValue)) :
    entries.lookup "tools" = (entries.dropWhile (·.1 ≠ "tools")).head?.map Prod.snd := by
  induction entries with
  | nil => rfl
  | cons entry entries ih =>
    obtain ⟨key, value⟩ := entry
    by_cases h : key = "tools"
    · simp [h]
    · have hne : ("tools" == key) = false := beq_eq_false_iff_ne.mpr fun heq => h heq.symm
      rw [List.lookup_cons, hne, List.dropWhile_cons_of_pos (by simpa using h)]
      exact ih

/-- A request that is read from a document is dumped as this document again. -/
theorem dumped_of_validated {data : JsonValue} {request : EngineResponsesRequest shared} (hordered : OrderedTools data)
    (h : validated shared data = some request) : request.dumped = data := by
  cases data with
  | dict entries =>
    obtain ⟨tools, htools, h⟩ := Option.bind_eq_some_iff.mp h
    have hparts : request.front = entries.takeWhile (·.1 ≠ "tools") ∧ request.tools = tools ∧
        request.back = (entries.dropWhile (·.1 ≠ "tools")).tail := by
      rw [ResponsesBody.ofParts] at h
      split at h
      case isFalse => cases h
      case isTrue hchecks =>
        cases h
        exact ⟨rfl, rfl, rfl⟩
    have hencoded : tools.encoded (fun items => .list (items.map EngineResponseToolDefinition.model_dump)) =
        (entries.dropWhile (·.1 ≠ "tools")).head?.map Prod.snd := by
      refine FieldState.encoded_of_validate (fun value hvalue items hitems => ?_) htools
      cases value with
      | list given =>
        exact congrArg JsonValue.list (mapM_model_dump (hordered given ((lookup_tools entries).trans hvalue)) hitems)
      | _ => cases hitems
    rw [dumped, ResponsesBody.model_dump, hparts.1, hparts.2.1, hparts.2.2, FieldState.dump, hencoded]
    refine congrArg JsonValue.dict (Eq.trans (congrArg _ ?_) List.takeWhile_append_dropWhile)
    cases hrest : entries.dropWhile (·.1 ≠ "tools") with
    | nil => rfl
    | cons entry rest =>
      rw [← key_of_head hrest]
      rfl
  | _ => cases h

end EngineResponsesRequest

end tools

end pii_engine.request_segments
