import PiiEngine.Requests.Placement

open checked collections prefixes

namespace pii_engine.request_segments

/-- Writes that put texts for texts and leave the controls alone. -/
structure Spares (writes : Writes) : Prop where
  controls : ∀ path, is_control path = true → writes path = none
  texts : writes.OnlyTexts

/-- A region of a document that is written over. -/
def Region.overwritten (writes : Writes) (region : Region) : Region :=
  { region with value := overwrite writes region.path region.value }

section overwritten
variable {writes : Writes} {path : List PathPart} {value : Option JsonValue}

theorem text_region_overwrite (hspares : Spares writes) : text_region path (value.map (overwrite writes path)) =
    (text_region path value).map (Region.overwritten writes) := by
  cases value with
  | none => rfl
  | some value =>
    cases value with
    | string text =>
      obtain ⟨text', htext⟩ := overwrite_text hspares.texts path text
      change text_region path (some (overwrite writes path (.string text))) =
        [⟨.text, path, overwrite writes path (.string text)⟩]
      rw [htext]
      rfl
    | _ => rfl

theorem field_region_overwrite (reader : Reader) : field_region reader path (value.map (overwrite writes path)) =
    (field_region reader path value).map (Region.overwritten writes) := by
  cases value with
  | none => rfl
  | some value => rfl

theorem zipIdx_mapIdx {α β : Type} (f : Nat → α → β) (items : List α) :
    (items.mapIdx f).zipIdx = items.zipIdx.map fun entry => (f entry.2 entry.1, entry.2) := by
  refine List.ext_getElem? fun index => ?_
  rw [List.getElem?_zipIdx, List.getElem?_mapIdx, List.getElem?_map, List.getElem?_zipIdx, Option.map_map,
    Option.map_map]
  refine congrArg (fun g => Option.map g items[index]?) (funext fun item => ?_)
  simp

theorem item_regions_overwrite {f : Nat → JsonValue → List Region}
    (h : ∀ index item, f index (overwrite writes (path ++ [.index index]) item) =
      (f index item).map (Region.overwritten writes)) :
    item_regions (value.map (overwrite writes path)) f = (item_regions value f).map (Region.overwritten writes) := by
  rw [item_regions, item_regions, itemsOf_overwrite, zipIdx_mapIdx, List.flatMap_map, List.map_flatMap]
  exact List.flatMap_congr fun entry _ => h entry.2 entry.1

/-- Whether a field is set does not change where nothing is written over it. -/
theorem truthy_overwrite (hnone : writes path = none) :
    JsonValue.truthy (value.map (overwrite writes path)) = JsonValue.truthy value := by
  cases value with
  | none => rfl
  | some value =>
    cases value with
    | string text =>
      rw [Option.map_some, overwrite, hnone]
      rfl
    | list items =>
      rw [Option.map_some, overwrite_list]
      cases items <;> simp [JsonValue.truthy]
    | dict entries =>
      rw [Option.map_some, overwrite]
      cases entries <;> simp [JsonValue.truthy, overwrite_entries]
    | _ => rfl

theorem isTextPart_overwrite {part : JsonValue} (hnone : writes (path ++ [.key "type"]) = none) :
    isTextPart (overwrite writes path part) = isTextPart part := by
  unfold isTextPart
  rw [get?_overwrite]
  cases part.get? "type" with
  | none => rfl
  | some kind =>
    cases kind with
    | string text =>
      rw [Option.map_some, overwrite, hnone]
      rfl
    | list items =>
      rw [Option.map_some, overwrite_list]
    | dict entries =>
      rw [Option.map_some, overwrite]
    | _ => rfl

theorem content_regions_overwrite (hspares : Spares writes)
    (hcontrol : ∀ index, writes (path ++ [.index index, .key "type"]) = none) :
    content_regions (value.map (overwrite writes path)) path =
      (content_regions value path).map (Region.overwritten writes) := by
  have hitems : ∀ index part, (if isTextPart (overwrite writes (path ++ [.index index]) part) then
      text_region (path ++ [.index index, .key "text"]) ((overwrite writes (path ++ [.index index]) part).get? "text")
        else []) =
      (if isTextPart part then text_region (path ++ [.index index, .key "text"]) (part.get? "text") else []).map
        (Region.overwritten writes) := by
    intro index part
    have htype : writes (path ++ [.index index] ++ [.key "type"]) = none := by
      rw [List.append_assoc]
      exact hcontrol index
    rw [isTextPart_overwrite htype, get?_overwrite, List.append_assoc]
    split
    · exact text_region_overwrite hspares
    · rfl
  rw [content_regions, content_regions, text_region_overwrite hspares, item_regions_overwrite hitems, List.map_append]

theorem definition_regions_overwrite (hspares : Spares writes) (function : JsonValue) :
    definition_regions path (overwrite writes path function) =
      (definition_regions path function).map (Region.overwritten writes) := by
  rw [definition_regions, definition_regions, get?_overwrite, get?_overwrite, text_region_overwrite hspares,
    field_region_overwrite, List.map_append]

theorem given_arguments_overwrite (function : JsonValue) :
    given_arguments_regions path (overwrite writes path function) =
    (given_arguments_regions path function).map (Region.overwritten writes) := by
  rw [given_arguments_regions, given_arguments_regions, get?_overwrite, field_region_overwrite]

theorem function_arguments_overwrite (function : Option JsonValue) : (match function.map (overwrite writes path) with
      | some function => given_arguments_regions path function
      | none => []) =
    (match function with
      | some function => given_arguments_regions path function
      | none => []).map (Region.overwritten writes) := by
  cases function with
  | none => rfl
  | some function => exact given_arguments_overwrite function

theorem unsigned_regions_overwrite {signed : JsonValue} {key : String} {regions regions' : List Region}
    (hnone : writes (path ++ [.key key]) = none) (h : regions' = regions.map (Region.overwritten writes)) :
    unsigned_regions (overwrite writes path signed) key regions' =
      (unsigned_regions signed key regions).map (Region.overwritten writes) := by
  rw [unsigned_regions, unsigned_regions, get?_overwrite, truthy_overwrite hnone]
  split
  · rfl
  · exact h

theorem flatMap_overwrite {α : Type} {items : List α} {f g : α → List Region}
    (h : ∀ item, g item = (f item).map (Region.overwritten writes)) :
    items.flatMap g = (items.flatMap f).map (Region.overwritten writes) := by
  rw [List.map_flatMap]
  exact List.flatMap_congr fun item _ => h item

theorem reasoning_regions_overwrite (hspares : Spares writes) (message : JsonValue)
    (hsignature : writes (path ++ [.key "reasoning_signature"]) = none)
    (hblock : ∀ field index, writes (path ++ [.key field, .index index, .key "signature"]) = none) :
    reasoning_regions (overwrite writes path message) path =
      (reasoning_regions message path).map (Region.overwritten writes) := by
  have hblocks : ∀ entry : String × List String, block_regions (overwrite writes path message) path entry.1 entry.2 =
      (block_regions message path entry.1 entry.2).map (Region.overwritten writes) := by
    intro entry
    rw [block_regions, block_regions, get?_overwrite]
    refine item_regions_overwrite fun index block => ?_
    have hpath (key : String) : path ++ [.key entry.1] ++ [.index index] ++ [.key key] =
        path ++ [.key entry.1, .index index, .key key] := by simp
    refine unsigned_regions_overwrite (by rw [hpath]; exact hblock entry.1 index) (flatMap_overwrite fun key => ?_)
    rw [get?_overwrite, hpath]
    exact text_region_overwrite hspares
  rw [reasoning_regions, reasoning_regions, List.map_append, ← flatMap_overwrite hblocks]
  refine congrArg (· ++ _) (unsigned_regions_overwrite hsignature (flatMap_overwrite fun key => ?_))
  rw [get?_overwrite]
  exact text_region_overwrite hspares

theorem message_regions_overwrite (hspares : Spares writes) (index : Nat) (message : JsonValue) :
    message_regions index (overwrite writes [.key "messages", .index index] message) =
      (message_regions index message).map (Region.overwritten writes) := by
  unfold message_regions
  dsimp only
  simp only [List.map_append, get?_overwrite]
  rw [content_regions_overwrite hspares fun part => hspares.controls _ rfl, text_region_overwrite hspares,
    reasoning_regions_overwrite hspares message (hspares.controls _ rfl) fun field block =>
      hspares.controls _ (by simp [is_control])]
  refine congrArg₂ _ (congrArg _ (item_regions_overwrite fun call_index call => ?_)) (function_arguments_overwrite _)
  rw [get?_overwrite]
  exact function_arguments_overwrite _

/-- The regions of a Chat request stay where they are when its texts are written over. -/
theorem chat_regions_overwrite (hspares : Spares writes) (data : JsonValue) :
    chat_regions (overwrite writes [] data) = (chat_regions data).map (Region.overwritten writes) := by
  simp only [chat_regions, List.map_append, get?_overwrite, List.nil_append]
  rw [item_regions_overwrite (message_regions_overwrite hspares), field_region_overwrite]
  refine congrArg₂ _ (congrArg₂ _ (congrArg _ ?_) ?_) rfl
  · refine item_regions_overwrite fun index tool => ?_
    rw [get?_overwrite]
    cases tool.get? "function" with
    | none => rfl
    | some function => exact definition_regions_overwrite hspares function
  · exact item_regions_overwrite fun index function => definition_regions_overwrite hspares function

theorem input_regions_overwrite (hspares : Spares writes) (index : Nat) (item : JsonValue) :
    input_regions index (overwrite writes [.key "input", .index index] item) =
      (input_regions index item).map (Region.overwritten writes) := by
  have hnone : writes ([.key "input", .index index] ++ [.key "type"]) = none := hspares.controls _ rfl
  unfold input_regions
  dsimp only
  simp only [get?_overwrite]
  cases item.get? "type" with
  | none => exact content_regions_overwrite hspares fun part => hspares.controls _ rfl
  | some kind =>
    cases kind with
    | string text =>
      rw [Option.map_some, overwrite, hnone, Option.map_none, Option.getD_none]
      split
      case h_1 heq => cases heq
      case h_2 => exact content_regions_overwrite hspares fun part => hspares.controls _ rfl
      case h_3 => exact given_arguments_overwrite item
      case h_4 => exact field_region_overwrite .json
      case h_5 =>
        refine flatMap_overwrite fun field => item_regions_overwrite fun part_index part => ?_
        rw [get?_overwrite]
        exact text_region_overwrite hspares
      case h_6 => rfl
    | list items =>
      rw [Option.map_some, overwrite]
      rfl
    | dict entries =>
      rw [Option.map_some, overwrite]
      rfl
    | _ => rfl

/-- The regions of a Responses request stay where they are when its texts are written over. -/
theorem responses_regions_overwrite (hspares : Spares writes) (data : JsonValue) :
    responses_regions (overwrite writes [] data) = (responses_regions data).map (Region.overwritten writes) := by
  simp only [responses_regions, List.map_append, get?_overwrite, List.nil_append]
  rw [text_region_overwrite hspares, text_region_overwrite hspares,
    item_regions_overwrite (input_regions_overwrite hspares)]
  refine congrArg₂ _ (congrArg _ ?_) ?_
  · exact item_regions_overwrite fun index function => definition_regions_overwrite hspares function
  · cases data.get? "text" with
    | none => rfl
    | some config =>
      rw [Option.map_some, Option.bind_some, Option.bind_some, get?_overwrite]
      exact field_region_overwrite .schema

theorem mcp_regions_overwrite (data : JsonValue) :
    mcp_regions (overwrite writes [] data) = (mcp_regions data).map (Region.overwritten writes) := by
  simp only [mcp_regions, get?_overwrite, List.nil_append]
  cases data.get? "params" with
  | none => rfl
  | some params =>
    rw [Option.map_some, Option.bind_some, Option.bind_some, get?_overwrite]
    exact field_region_overwrite .json

end overwritten

end pii_engine.request_segments
