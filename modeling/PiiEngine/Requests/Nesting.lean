import PiiEngine.Lib.JsonText
import PiiEngine.Requests.Addresses

open checked json_text

namespace pii_engine.request_segments

mutual

/-- The strings of a document, with their paths. -/
def strings (path : List PathPart) : JsonValue → List Leaf
  | .string text => [⟨path, text.toList⟩]
  | .list items => item_strings path 0 items
  | .dict entries => entry_strings path entries
  | _ => []

def item_strings (path : List PathPart) (index : Nat) : List JsonValue → List Leaf
  | [] => []
  | item :: items => strings (path ++ [.index index]) item ++ item_strings path (index + 1) items

def entry_strings (path : List PathPart) : List (String × JsonValue) → List Leaf
  | [] => []
  | (key, item) :: entries => strings (path ++ [.key key]) item ++ entry_strings path entries

end

theorem mem_item_strings {path : List PathPart} {items : List JsonValue} {n : Nat} {item : JsonValue} {leaf : Leaf}
    (index : Nat) (hitem : items[n]? = some item) (h : leaf ∈ strings (path ++ [.index (index + n)]) item) :
    leaf ∈ item_strings path index items := by
  induction items generalizing index n with
  | nil => simp at hitem
  | cons first items ih =>
    rw [item_strings, List.mem_append]
    cases n with
    | zero =>
      obtain rfl : first = item := by simpa using hitem
      exact Or.inl h
    | succ n =>
      rw [List.getElem?_cons_succ] at hitem
      have hindex : index + (n + 1) = index + 1 + n := by omega
      rw [hindex] at h
      exact Or.inr (ih (index + 1) hitem h)

theorem mem_entry_strings {path : List PathPart} {entries : List (String × JsonValue)} {key : String} {item : JsonValue}
    {leaf : Leaf} (hitem : (key, item) ∈ entries) (h : leaf ∈ strings (path ++ [.key key]) item) :
    leaf ∈ entry_strings path entries := by
  induction entries with
  | nil => cases hitem
  | cons entry entries ih =>
    rw [entry_strings, List.mem_append]
    cases List.mem_cons.mp hitem with
    | inl hfirst =>
      subst hfirst
      exact Or.inl h
    | inr hrest => exact Or.inr (ih hrest)

theorem mem_strings_of_reaches {value target : JsonValue} {rest : List PathPart} {text : String}
    (h : Reaches value rest target)
    (htarget : target = .string text) (path : List PathPart) : ⟨path ++ rest, text.toList⟩ ∈ strings path value := by
  induction h generalizing path with
  | here value =>
    rw [htarget, List.append_nil]
    exact List.mem_singleton_self _
  | @key _ name _ _ _ hitem _ ih =>
    have hmem := ih htarget (path ++ [.key name])
    rw [List.append_assoc] at hmem
    exact mem_entry_strings hitem hmem
  | @index _ n _ _ _ hitem _ ih =>
    have hmem := ih htarget (path ++ [.index (0 + n)])
    rw [List.append_assoc, Nat.zero_add] at hmem
    exact mem_item_strings 0 hitem (by rwa [Nat.zero_add])

/-- The failure at the first part that stands too deep. -/
def too_deep (max_depth : Nat) : AnalysisError := depth_exceeded (Nat.lt_succ_self max_depth)

section walk
variable {max_depth : Nat}

theorem check_depth_eq {depth : Nat} (h : depth ≤ max_depth + 1) :
    check_depth depth max_depth = if depth ≤ max_depth then .ok () else .error (too_deep max_depth) := by
  rw [check_depth]
  by_cases hdepth : depth ≤ max_depth
  · rw [dif_neg (by omega), if_pos hdepth]
  · obtain rfl : depth = max_depth + 1 := by omega
    rw [dif_pos (Nat.lt_succ_self max_depth), if_neg hdepth]
    rfl

theorem json_leaves_of_lt {depth : Nat} (h : max_depth < depth) {path : List PathPart} {value : JsonValue} :
    json_leaves max_depth path depth value = .error (depth_exceeded h) := by
  have hcheck : check_depth depth max_depth = .error (depth_exceeded h) := dif_pos h
  cases value <;> rw [json_leaves, hcheck] <;> first | rfl | simp

/-- Two parts of a document one after the other are read as far as both are not too deep. -/
theorem read_both {first rest : Nat} {leaves more : List Leaf} {limit : Nat}
    {read read_more : Except AnalysisError (List Leaf)}
    (h : read = if first ≤ limit then .ok leaves else .error (too_deep max_depth))
    (hmore : read_more = if rest ≤ limit then .ok more else .error (too_deep max_depth)) :
    (do
      let leaves ← read
      let more ← read_more
      pure (leaves ++ more)) =
      if max first rest ≤ limit then .ok (leaves ++ more) else .error (too_deep max_depth) := by
  rw [h, hmore]
  by_cases hfirst : first ≤ limit
  · by_cases hrest : rest ≤ limit
    · rw [if_pos hfirst, if_pos hrest, if_pos (by omega)]
      rfl
    · have hboth : ¬ max first rest ≤ limit := by omega
      simp only [if_pos hfirst, if_neg hrest, if_neg hboth]
      rfl
  · have hboth : ¬ max first rest ≤ limit := by omega
    simp only [if_neg hfirst, if_neg hboth]
    rfl

mutual

/-- A document is read whole, or refused at its first part that is too deep. -/
theorem json_leaves_eq {depth : Nat} (path : List PathPart) (h : depth ≤ max_depth + 1) (value : JsonValue) :
    json_leaves max_depth path depth value =
      if depth + height value ≤ max_depth then .ok (strings path value) else .error (too_deep max_depth) := by
  have hcheck := check_depth_eq h
  by_cases hdepth : depth ≤ max_depth
  · rw [if_pos hdepth] at hcheck
    cases value with
    | list items =>
      rw [json_leaves, hcheck]
      exact json_items_eq path hdepth 0 items
    | dict entries =>
      rw [json_leaves, hcheck]
      exact json_entries_eq path hdepth entries
    | _ =>
      rw [json_leaves, hcheck]
      · exact (if_pos hdepth).symm
      all_goals simp
  · rw [if_neg hdepth] at hcheck
    rw [if_neg (by omega)]
    cases value <;> rw [json_leaves, hcheck] <;> first | rfl | simp

theorem json_items_eq {depth : Nat} (path : List PathPart) (h : depth ≤ max_depth) (index : Nat)
    (items : List JsonValue) :
    json_items max_depth path (depth + 1) index items =
      if depth + height_items items ≤ max_depth then .ok (item_strings path index items)
      else .error (too_deep max_depth) := by
  cases items with
  | nil =>
    rw [if_pos (by rw [height_items]; omega)]
    rfl
  | cons item items =>
    have hitem := json_leaves_eq (path ++ [.index index]) (show depth + 1 ≤ max_depth + 1 by omega) item
    have hitems := json_items_eq path h (index + 1) items
    rw [json_items, height_items, item_strings, read_both hitem hitems]
    refine if_congr ?_ rfl rfl
    omega

theorem json_entries_eq {depth : Nat} (path : List PathPart) (h : depth ≤ max_depth)
    (entries : List (String × JsonValue)) :
    json_entries max_depth path (depth + 1) entries =
      if depth + height_entries entries ≤ max_depth then .ok (entry_strings path entries)
      else .error (too_deep max_depth) := by
  cases entries with
  | nil =>
    rw [if_pos (by rw [height_entries]; omega)]
    rfl
  | cons entry entries =>
    obtain ⟨key, item⟩ := entry
    have hitem := json_leaves_eq (path ++ [.key key]) (show depth + 1 ≤ max_depth + 1 by omega) item
    have hentries := json_entries_eq path h entries
    rw [json_entries, height_entries, entry_strings, read_both hitem hentries]
    refine if_congr ?_ rfl rfl
    omega

end

/-- The strings of a document are all that stand in it. -/
theorem mem_strings {value : JsonValue} {path : List PathPart} {leaf : Leaf} : leaf ∈ strings path value ↔
    ∃ rest, leaf.path = path ++ rest ∧ StringAt value rest leaf.text := by
  constructor
  · intro hleaf
    have hread := json_leaves_eq path (show 0 ≤ height value + 1 by omega) value
    rw [if_pos (by omega)] at hread
    exact json_leaves_found hread leaf hleaf
  · rintro ⟨rest, hpath, hstands⟩
    have hmem := mem_strings_of_reaches hstands rfl path
    rwa [← hpath, String.toList_ofList] at hmem

end walk

section scan
variable {max_depth : Nat} {text rest : Text}

/-- Outside strings, at some depth. -/
def Nesting.at (depth : Nat) : Nesting := { depth := depth }

theorem not_mem_marks {c : Char} (h : c ∉ marks) :
    c ≠ '"' ∧ ¬ (c = '[' ∨ c = '\x7b') ∧ ¬ (c = ']' ∨ c = '\x7d') := by
  simp only [marks, List.mem_cons, List.not_mem_nil, or_false, not_or] at h
  obtain ⟨hquote, hopen, hclose, hbrace, hend⟩ := h
  exact ⟨hquote, by simp [hopen, hbrace], by simp [hclose, hend]⟩

theorem scan_padding {depth : Nat} (h : Padding text rest) :
    check_encoded_depth max_depth (.at depth) text = check_encoded_depth max_depth (.at depth) rest := by
  induction h with
  | nil rest => rfl
  | cons hc _ ih =>
    obtain ⟨hquote, hopen, hclose⟩ := not_mem_marks hc
    rw [check_encoded_depth, if_neg (by simp [Nesting.at]), if_neg hquote, if_neg hopen, if_neg hclose]
    exact ih

theorem scan_quoted {depth : Nat} (h : Quoted text rest) :
    check_encoded_depth max_depth { depth := depth, quoted := true } text =
      check_encoded_depth max_depth (.at depth) rest := by
  induction h with
  | close rest => rfl
  | escape c _ ih =>
    rw [check_encoded_depth, if_pos rfl, if_neg (by simp), if_pos rfl, check_encoded_depth, if_pos rfl, if_pos rfl]
    exact ih
  | char hquote hescape _ ih =>
    rw [check_encoded_depth, if_pos rfl, if_neg (by simp), if_neg hescape, if_neg hquote]
    exact ih

/-- A string is skipped. -/
theorem scan_string {depth : Nat} {body : Text} (hbefore : Padding text ('"' :: body)) (hbody : Quoted body rest) :
    check_encoded_depth max_depth (.at depth) text = check_encoded_depth max_depth (.at depth) rest := by
  rw [scan_padding hbefore, check_encoded_depth, if_neg (by simp [Nesting.at]), if_pos rfl]
  exact scan_quoted hbody

theorem scan_open {depth : Nat} {c : Char} {body : Text} (hc : c = '[' ∨ c = '\x7b') (h : depth ≤ max_depth)
    (hbefore : Padding text (c :: body)) : check_encoded_depth max_depth (.at depth) text =
      if depth + 1 ≤ max_depth then check_encoded_depth max_depth (.at (depth + 1)) body
      else .error (too_deep max_depth) := by
  have hquote : c ≠ '"' := by
    obtain rfl | rfl := hc <;> simp
  rw [scan_padding hbefore, check_encoded_depth, if_neg (by simp [Nesting.at]), if_neg hquote, if_pos hc]
  change (check_depth (depth + 1) max_depth >>= fun _ => check_encoded_depth max_depth (.at (depth + 1)) body) = _
  rw [check_depth_eq (by omega)]
  split <;> rfl

theorem scan_close {depth : Nat} {c : Char} {last after : Text} (hc : c = ']' ∨ c = '\x7d')
    (hlast : Padding last (c :: after))
    (hafter : Padding after rest) : check_encoded_depth max_depth (.at (depth + 1)) last =
      check_encoded_depth max_depth (.at depth) rest := by
  have hquote : c ≠ '"' := by
    obtain rfl | rfl := hc <;> simp
  have hopen : ¬ (c = '[' ∨ c = '\x7b') := by
    obtain rfl | rfl := hc <;> simp
  rw [scan_padding hlast, check_encoded_depth, if_neg (by simp [Nesting.at]), if_neg hquote, if_neg hopen, if_pos hc]
  exact scan_padding hafter

mutual

/-- The scan leaves a document as it entered it, unless too many containers stand inside one
    another. -/
theorem scan_written {depth : Nat} (value : JsonValue) (h : depth ≤ max_depth) {text rest : Text}
    (hwritten : Written value text rest) :
    check_encoded_depth max_depth (.at depth) text =
      if depth + nesting value ≤ max_depth then check_encoded_depth max_depth (.at depth) rest
      else .error (too_deep max_depth) := by
  cases hwritten with
  | scalar hscalar hpadding =>
    have hnesting : nesting value = 0 := by
      cases value <;> first | rfl | cases hscalar
    rw [hnesting, Nat.add_zero, if_pos h, scan_padding hpadding]
  | string s hbefore hbody hafter =>
    rw [nesting, Nat.add_zero, if_pos h, scan_string hbefore hbody, scan_padding hafter] <;> simp
  | list hbefore hitems hlast hafter =>
    rename_i items body last after
    rw [scan_open (Or.inl rfl) h hbefore, nesting]
    by_cases hopen : depth + 1 ≤ max_depth
    · rw [if_pos hopen, scan_items items hopen hitems, scan_close (Or.inl rfl) hlast hafter]
      refine if_congr ?_ rfl rfl
      omega
    · rw [if_neg hopen, if_neg (by omega)]
  | dict hbefore hentries hlast hafter =>
    rename_i entries body last after
    rw [scan_open (Or.inr rfl) h hbefore, nesting]
    by_cases hopen : depth + 1 ≤ max_depth
    · rw [if_pos hopen, scan_entries entries hopen hentries, scan_close (Or.inr rfl) hlast hafter]
      refine if_congr ?_ rfl rfl
      omega
    · rw [if_neg hopen, if_neg (by omega)]

theorem scan_items {depth : Nat} (items : List JsonValue) (h : depth ≤ max_depth) {text rest : Text}
    (hwritten : WrittenItems items text rest) :
    check_encoded_depth max_depth (.at depth) text =
      if depth + nesting_items items ≤ max_depth then check_encoded_depth max_depth (.at depth) rest
      else .error (too_deep max_depth) := by
  cases hwritten with
  | nil rest => rw [nesting_items, Nat.add_zero, if_pos h]
  | cons hitem hitems =>
    rename_i item items later
    rw [scan_written item h hitem, scan_items items h hitems, nesting_items]
    by_cases hdeep : depth + nesting item ≤ max_depth
    · rw [if_pos hdeep]
      refine if_congr ?_ rfl rfl
      omega
    · rw [if_neg hdeep, if_neg (by omega)]

theorem scan_entries {depth : Nat} (entries : List (String × JsonValue)) (h : depth ≤ max_depth) {text rest : Text}
    (hwritten : WrittenEntries entries text rest) : check_encoded_depth max_depth (.at depth) text =
      if depth + nesting_entries entries ≤ max_depth then check_encoded_depth max_depth (.at depth) rest
      else .error (too_deep max_depth) := by
  cases hwritten with
  | nil rest => rw [nesting_entries, Nat.add_zero, if_pos h]
  | cons key hbefore hkey hitem hentries =>
    rename_i item entries body after later
    rw [scan_string hbefore hkey, scan_written item h hitem, scan_entries entries h hentries, nesting_entries]
    by_cases hdeep : depth + nesting item ≤ max_depth
    · rw [if_pos hdeep]
      refine if_congr ?_ rfl rfl
      omega
    · rw [if_neg hdeep, if_neg (by omega)]

end

/-- The scan over an encoded document counts the containers that it decodes to. -/
theorem check_encoded_depth_eq {value : JsonValue} (h : Written value text []) :
    check_encoded_depth max_depth {} text =
      if nesting value ≤ max_depth then .ok () else .error (too_deep max_depth) := by
  have hscan := scan_written value (Nat.zero_le max_depth) h
  rw [Nat.zero_add] at hscan
  exact hscan

/-- Call arguments that are given as an encoded document are refused by the scan, where too many
    of its containers stand inside one another, or read whole: the walk over the document that
    they encode refuses none. -/
theorem arguments_of_encoded {loads : Loads} {encoded : String} {value : JsonValue} (path : List PathPart)
    (hloads : loads encoded.toList = some value) (hwritten : Written value encoded.toList []) :
    arguments loads max_depth path (.string encoded) =
      if nesting value ≤ max_depth then .ok (strings path value) else .error (too_deep max_depth) := by
  rw [arguments, check_encoded_depth_eq hwritten, hloads]
  by_cases hnesting : nesting value ≤ max_depth
  · have hheight := height_le_nesting value
    have hwalk := json_leaves_eq path (Nat.zero_le (max_depth + 1)) value
    rw [Nat.zero_add, if_pos (hheight.trans hnesting)] at hwalk
    rw [if_pos hnesting, if_pos hnesting]
    exact hwalk
  · rw [if_neg hnesting, if_neg hnesting]
    rfl

/-- Call arguments that are given as an encoded document are refused, where more than the limit of its containers stand
    inside one another, and otherwise every string of the document is a leaf, with the way to it. -/
theorem encoded_arguments_whole_or_refused {loads : Loads} {encoded : String} {value : JsonValue} (path : List PathPart)
    (hloads : loads encoded.toList = some value) (hwritten : Written value encoded.toList []) :
    (nesting value ≤ max_depth → ∃ leaves, arguments loads max_depth path (.string encoded) = .ok leaves ∧
      ∀ leaf, leaf ∈ leaves ↔ ∃ rest, leaf.path = path ++ rest ∧ StringAt value rest leaf.text) ∧
    (max_depth < nesting value → arguments loads max_depth path (.string encoded) = .error (too_deep max_depth)) := by
  rw [arguments_of_encoded path hloads hwritten]
  constructor
  · intro h
    rw [if_pos h]
    exact ⟨_, rfl, fun leaf => mem_strings⟩
  · intro h
    rw [if_neg (by omega)]

theorem encoded_arguments_whole_or_refused_name :
    (∃ leaves, arguments (fun _ => some (.list [.string "Ada"])) 1 [] (.string "[\"Ada\"]") = .ok leaves ∧
      ∀ leaf, leaf ∈ leaves ↔ ∃ rest, leaf.path = [] ++ rest ∧ StringAt (.list [.string "Ada"]) rest leaf.text) ∧
    arguments (fun _ => some (.list [.string "Ada"])) 0 [] (.string "[\"Ada\"]") = .error (too_deep 0) := by
  have hbody : Quoted "Ada\"]".toList [']'] :=
    .char (by decide) (by decide) (.char (by decide) (by decide) (.char (by decide) (by decide) (.close _)))
  have hwritten : Written (.list [.string "Ada"]) "[\"Ada\"]".toList [] :=
    .list (.nil _) (.cons (.string "Ada" (.nil _) hbody (.nil _)) (.nil _)) (.nil _) (.nil _)
  exact ⟨(encoded_arguments_whole_or_refused [] rfl hwritten).1 (by decide),
    (encoded_arguments_whole_or_refused [] rfl hwritten).2 (by decide)⟩

end scan

end pii_engine.request_segments
