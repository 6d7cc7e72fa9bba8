import PiiEngine.Requests.Reextraction
import PiiEngine.Requests.RoundTrip

open checked collections prefixes

namespace pii_engine.request_segments

section blank
variable {writes : Writes} {path : List PathPart}

mutual

/-- Emptying strings undoes what is written over them. -/
theorem blank_overwrite (htexts : writes.OnlyTexts) (value : JsonValue) (path : List PathPart)
    (emptied : List PathPart → Bool) (h : ∀ rest, writes (path ++ rest) ≠ none → emptied rest = true) :
    blank emptied (overwrite writes path value) = blank emptied value := by
  cases value with
  | string text =>
    cases hwrite : writes path with
    | none => rw [overwrite_string hwrite]
    | some fill =>
      obtain ⟨text', hwritten⟩ := overwrite_text htexts path text
      have hemptied : emptied [] = true := h [] (by rw [List.append_nil, hwrite]; simp)
      rw [hwritten, blank, blank, hemptied, if_pos rfl, if_pos rfl]
  | list items =>
    rw [overwrite, blank, blank, blank_items_overwrite htexts items path emptied 0 h]
  | dict entries =>
    rw [overwrite, blank, blank, blank_entries_overwrite htexts entries path emptied h]
  | _ => rfl

theorem blank_items_overwrite (htexts : writes.OnlyTexts) (items : List JsonValue) (path : List PathPart)
    (emptied : List PathPart → Bool) (index : Nat) (h : ∀ rest, writes (path ++ rest) ≠ none → emptied rest = true) :
    blank_items emptied index (overwrite_items writes path index items) = blank_items emptied index items := by
  cases items with
  | nil => rfl
  | cons item items =>
    have hitem : ∀ rest, writes (path ++ [.index index] ++ rest) ≠ none → emptied (.index index :: rest) = true := by
      intro rest hrest
      rw [List.append_assoc] at hrest
      exact h _ hrest
    rw [overwrite_items, blank_items, blank_items, blank_overwrite htexts item _ _ hitem,
      blank_items_overwrite htexts items path emptied (index + 1) h]

theorem blank_entries_overwrite (htexts : writes.OnlyTexts) (entries : List (String × JsonValue)) (path : List PathPart)
    (emptied : List PathPart → Bool) (h : ∀ rest, writes (path ++ rest) ≠ none → emptied rest = true) :
    blank_entries emptied (overwrite_entries writes path entries) = blank_entries emptied entries := by
  cases entries with
  | nil => rfl
  | cons entry entries =>
    obtain ⟨key, item⟩ := entry
    have hitem : ∀ rest, writes (path ++ [.key key] ++ rest) ≠ none → emptied (.key key :: rest) = true := by
      intro rest hrest
      rw [List.append_assoc] at hrest
      exact h _ hrest
    rw [overwrite_entries, blank_entries, blank_entries, blank_overwrite htexts item _ _ hitem,
      blank_entries_overwrite htexts entries path emptied h]

end

end blank

section changed
variable {loads : Loads} {max_depth : Nat} {data : JsonValue} {leaves : List RootedLeaf}
  {segments : List (String × Text)}

theorem path_mem_changed_paths {change : RootedLeaf × Fill} (h : change ∈ changed leaves (segments.map Prod.snd)) :
    change.1.path ∈ changed_paths (leaves.map RootedLeaf.toLeaf) segments := by
  obtain ⟨entry, hentry, hchange⟩ := List.mem_filterMap.mp h
  rw [List.zip_map_right, List.mem_map] at hentry
  obtain ⟨⟨leaf, segment⟩, hsegment, rfl⟩ := hentry
  dsimp only [Prod.map, id_eq] at hchange
  split at hchange
  · cases hchange
  case isFalse htext =>
    cases hchange
    refine List.mem_filterMap.mpr ⟨(leaf.toLeaf, segment), ?_, if_neg fun heq => htext heq.symm⟩
    rw [List.zip_map_left]
    exact List.mem_map.mpr ⟨(leaf, segment), hsegment, rfl⟩

/-- What is written over a request stands on the way to a changed text. -/
theorem on_way_of_edits {fill : JsonValue → Fill} {path : List PathPart} (hsound : Sound loads max_depth data leaves)
    (h : edits fill loads max_depth data (changed leaves (segments.map Prod.snd)) path ≠ none) :
    on_way (changed_paths (leaves.map RootedLeaf.toLeaf) segments) path = true := by
  have hway : ∃ change ∈ changed leaves (segments.map Prod.snd), path <+: change.1.path := by
    obtain ⟨change, hchange, -, hpath⟩ | hroot := exists_of_edits h
    · exact ⟨change, hchange, hpath ▸ List.prefix_refl _⟩
    · obtain ⟨leaf, hleaf, hsome⟩ := mem_roots.mp hroot
      obtain ⟨-, -, -, nested, -, -, -, hpath, -⟩ :=
        hsound.encoded leaf ((sublist_changed leaves _).subset hleaf) path hsome
      obtain ⟨change, hchange, rfl⟩ := List.mem_map.mp hleaf
      exact ⟨change, hchange, ⟨nested, hpath.symm⟩⟩
  obtain ⟨change, hchange, hpre⟩ := hway
  exact List.any_eq_true.mpr ⟨_, path_mem_changed_paths hchange, decide_eq_true hpre⟩

end changed

end pii_engine.request_segments
