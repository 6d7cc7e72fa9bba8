import PiiEngine.Lib.Json

namespace json_text

/-- The characters that start a string or open or close a container. -/
def marks : List Char := ['"', '[', ']', '\x7b', '\x7d']

/-- Characters that are no marks stand between a text and what is left of it. -/
inductive Padding : List Char → List Char → Prop
  | nil (rest : List Char) : Padding rest rest
  | cons {c : Char} {text rest : List Char} (hc : c ∉ marks) (h : Padding text rest) : Padding (c :: text) rest

/-- A text after the quote that starts a string, and what is left of it after the string. -/
inductive Quoted : List Char → List Char → Prop
  | close (rest : List Char) : Quoted ('"' :: rest) rest
  | escape (c : Char) {text rest : List Char} (h : Quoted text rest) : Quoted ('\\' :: c :: text) rest
  | char {c : Char} {text rest : List Char} (hquote : c ≠ '"') (hescape : c ≠ '\\') (h : Quoted text rest) :
    Quoted (c :: text) rest

/-- A value that is written without marks. -/
def Scalar : JsonValue → Prop
  | .string _ | .list _ | .dict _ => False
  | _ => True

mutual

/-- A document is written at the front of a text, up to the characters that are no marks: which
    characters belong to its strings, and which brackets belong together. -/
inductive Written : JsonValue → List Char → List Char → Prop
  | scalar {value : JsonValue} {text rest : List Char} (hscalar : Scalar value) (h : Padding text rest) :
    Written value text rest
  | string (s : String) {text body after rest : List Char} (hbefore : Padding text ('"' :: body))
    (hbody : Quoted body after) (hafter : Padding after rest) : Written (.string s) text rest
  | list {items : List JsonValue} {text body last after rest : List Char} (hbefore : Padding text ('[' :: body))
    (hitems : WrittenItems items body last) (hlast : Padding last (']' :: after)) (hafter : Padding after rest) :
    Written (.list items) text rest
  | dict {entries : List (String × JsonValue)} {text body last after rest : List Char}
    (hbefore : Padding text ('\x7b' :: body)) (hentries : WrittenEntries entries body last)
    (hlast : Padding last ('\x7d' :: after)) (hafter : Padding after rest) : Written (.dict entries) text rest

inductive WrittenItems : List JsonValue → List Char → List Char → Prop
  | nil (rest : List Char) : WrittenItems [] rest rest
  | cons {item : JsonValue} {items : List JsonValue} {text later rest : List Char} (hitem : Written item text later)
    (hitems : WrittenItems items later rest) : WrittenItems (item :: items) text rest

inductive WrittenEntries : List (String × JsonValue) → List Char → List Char → Prop
  | nil (rest : List Char) : WrittenEntries [] rest rest
  | cons (key : String) {item : JsonValue} {entries : List (String × JsonValue)}
    {text body after later rest : List Char}
    (hbefore : Padding text ('"' :: body)) (hkey : Quoted body after) (hitem : Written item after later)
    (hentries : WrittenEntries entries later rest) : WrittenEntries ((key, item) :: entries) text rest

end

mutual

/-- How many containers stand inside one another. -/
def nesting : JsonValue → Nat
  | .list items => nesting_items items + 1
  | .dict entries => nesting_entries entries + 1
  | _ => 0

def nesting_items : List JsonValue → Nat
  | [] => 0
  | item :: items => max (nesting item) (nesting_items items)

def nesting_entries : List (String × JsonValue) → Nat
  | [] => 0
  | (_, item) :: entries => max (nesting item) (nesting_entries entries)

end

mutual

/-- How far below a document its deepest part stands. -/
def height : JsonValue → Nat
  | .list items => height_items items
  | .dict entries => height_entries entries
  | _ => 0

def height_items : List JsonValue → Nat
  | [] => 0
  | item :: items => max (height item + 1) (height_items items)

def height_entries : List (String × JsonValue) → Nat
  | [] => 0
  | (_, item) :: entries => max (height item + 1) (height_entries entries)

end

mutual

theorem height_le_nesting (value : JsonValue) : height value ≤ nesting value := by
  cases value with
  | list items => exact height_items_le items
  | dict entries => exact height_entries_le entries
  | _ => exact Nat.le_refl 0

theorem height_items_le (items : List JsonValue) : height_items items ≤ nesting_items items + 1 := by
  cases items with
  | nil => exact Nat.zero_le _
  | cons item items =>
    have hitem := height_le_nesting item
    have hitems := height_items_le items
    rw [height_items, nesting_items]
    omega

theorem height_entries_le (entries : List (String × JsonValue)) :
    height_entries entries ≤ nesting_entries entries + 1 := by
  cases entries with
  | nil => exact Nat.zero_le _
  | cons entry entries =>
    obtain ⟨key, item⟩ := entry
    have hitem := height_le_nesting item
    have hentries := height_entries_le entries
    rw [height_entries, nesting_entries]
    omega

end

end json_text
