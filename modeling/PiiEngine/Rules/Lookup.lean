import PiiEngine.Errors
import PiiEngine.Lib.Bisect
import PiiEngine.Lib.Checked
import PiiEngine.Lib.Collections
import PiiEngine.Rules.Context

open checked collections

namespace pii_engine.rules
variable (unicode : Unicode)

/-- The index of one text: for each language the words it does not skip, and their starts. -/
structure Index where
  languages : List String
  starts : OrderedDict String (List Nat)
  words : OrderedDict String (List Text)

namespace Index

def empty (languages : List String) : Index where
  languages := languages
  starts := .ofList (languages.map fun language => (language, []))
  words := .ofList (languages.map fun language => (language, []))

def add_word (start : Nat) (word : Text) (index : Index) (language : String) : Except AnalysisError Index :=
  match STOP_WORDS.lookup language with
  | none => .error (.runtime_error "KeyError")
  | some stop_words =>
    if String.ofList word ∈ stop_words then .ok index
    else .ok { index with
      starts := index.starts.set language (index.starts.getD language [] ++ [start])
      words := index.words.set language (index.words.getD language [] ++ [word]) }

/-- Index context once without retaining text after the analyze call. -/
def ofText (text : Text) (languages : List String) : Except AnalysisError Index :=
  (finditer_words unicode text).foldlM (fun index found =>
    languages.foldlM (add_word found.1 (base_form unicode found.2)) index) (empty languages)

/-- The context phrases of a recognizer and of an entity in a language. -/
def candidates (contexts : Option (List String)) (entity language : String) : List String :=
  contexts.getD [] ++ (((CONTEXT.lookup entity).getD []).lookup language).getD []

def supports (index : Index) (start : Int) (contexts : Option (List String)) (entity : String) : Bool :=
  index.languages.any fun language =>
    let position := bisect.left (fun (other : Nat) => decide ((other : Int) < start)) (index.starts.getD language [])
    let window := ((index.words.getD language []).take position).drop (position - 5)
    (candidates contexts entity language).any fun candidate =>
      contains_phrase window (rules.words unicode candidate.toList)

end Index

/-- The words before a position that carry meaning in a language. -/
def preceding_words (text : Text) (language : String) (start : Int) : List Text :=
  (((finditer_words unicode text).filter fun found => decide ((found.1 : Int) < start)).map fun found =>
    base_form unicode found.2).filter fun word => String.ofList word ∉ (STOP_WORDS.lookup language).getD []

/-- Some phrase stands among the last five words before a position that carry meaning in an
    active language. -/
def InContext (text : Text) (languages : List String) (start : Int) (contexts : Option (List String))
    (entity : String) :
    Prop :=
  ∃ language ∈ languages, ∃ candidate ∈ Index.candidates contexts entity language,
    words unicode candidate.toList ≠ [] ∧
      words unicode candidate.toList <:+: (preceding_words unicode text language start).drop
        ((preceding_words unicode text language start).length - 5)

theorem contains_phrase_iff {window phrase : List Text} :
    contains_phrase window phrase = true ↔ phrase ≠ [] ∧ phrase <:+: window := by
  rw [contains_phrase, Bool.and_eq_true, List.any_eq_true]
  refine and_congr (by simp) ?_
  simp only [List.mem_range, decide_eq_true_eq]
  constructor
  · rintro ⟨index, -, hphrase⟩
    rw [← hphrase]
    exact (List.take_prefix _ _).isInfix.trans (List.drop_suffix _ _).isInfix
  · rintro ⟨front, back, rfl⟩
    refine ⟨front.length, ?_, ?_⟩
    · rw [List.length_append, List.length_append]
      omega
    · rw [List.append_assoc, List.drop_left, List.take_left]

/-- Words are found from left to right. -/
theorem finditer_words_sorted (text : Text) :
    (finditer_words unicode text).Pairwise fun found later => found.1 < later.1 := by
  have hitems : text.zipIdx.Pairwise fun item later => item.2 < later.2 := by
    have hrange := List.pairwise_lt_range' (s := 0) (n := text.length)
    rw [← List.zipIdx_map_snd, List.pairwise_map] at hrange
    exact hrange
  rw [finditer_words, List.pairwise_map]
  refine (List.pairwise_map (f := Prod.fst) (R := fun item later : Char × Nat => item.2 < later.2)).mp ?_
  exact hitems.sublist (runs.map_fst_split_sublist none text.zipIdx)

/-- The words of a text that carry meaning in a language, with their starts. -/
def content_words (found : List (Nat × Text)) (language : String) : List (Nat × Text) :=
  (found.map fun word => (word.1, base_form unicode word.2)).filter fun word =>
    String.ofList word.2 ∉ (STOP_WORDS.lookup language).getD []

/-- What the index holds once it was built from some words. -/
structure Index.Holds (languages : List String) (found : List (Nat × Text)) (index : Index) : Prop where
  languages_eq : index.languages = languages
  starts_eq : ∀ language ∈ languages,
    index.starts.getD language [] = (content_words unicode found language).map Prod.fst
  words_eq : ∀ language ∈ languages, index.words.getD language [] = (content_words unicode found language).map Prod.snd

namespace Index
variable {unicode} {languages : List String} {found : List (Nat × Text)} {index : Index}

theorem holds_empty (hdistinct : languages.Nodup) : Holds unicode languages [] (empty languages) := by
  have hgetD : ∀ (α : Type) language,
      (OrderedDict.ofList (languages.map fun other => (other, ([] : List α)))).getD language [] = [] := by
    intro α language
    have hnodup : ((languages.map fun other => (other, ([] : List α))).map Prod.fst).Nodup := by
      rw [List.map_map]
      exact (List.map_id languages).symm ▸ hdistinct
    rw [OrderedDict.getD, OrderedDict.get?_ofList hnodup]
    cases hlookup : (languages.map fun other => (other, ([] : List α))).lookup language with
    | none => rfl
    | some entries =>
      obtain ⟨before, after, hsplit, -⟩ := List.lookup_eq_some_iff.mp hlookup
      have hmem : (language, entries) ∈ languages.map fun other => (other, ([] : List α)) := by
        rw [hsplit]
        exact List.mem_append_right _ List.mem_cons_self
      obtain ⟨other, -, hentry⟩ := List.mem_map.mp hmem
      exact (congrArg Prod.snd hentry).symm
  exact ⟨rfl, fun language _ => hgetD Nat language, fun language _ => hgetD Text language⟩

theorem content_words_append (found : List (Nat × Text)) (word : Nat × Text) (language : String) :
    content_words unicode (found ++ [word]) language = content_words unicode found language ++
      if String.ofList (base_form unicode word.2) ∈ (STOP_WORDS.lookup language).getD [] then []
      else [(word.1, base_form unicode word.2)] := by
  rw [content_words, content_words, List.map_append, List.filter_append, List.map_singleton]
  congr 1
  by_cases h : String.ofList (base_form unicode word.2) ∈ (STOP_WORDS.lookup language).getD []
  · rw [if_pos h, List.filter_cons_of_neg (by simpa using h)]
    rfl
  · rw [if_neg h, List.filter_cons_of_pos (by simpa using h)]
    rfl

/-- The index in the middle of adding a word: the languages so far have it, the others do not. -/
structure Adding (unicode : Unicode) (languages : List String) (found : List (Nat × Text)) (word : Nat × Text)
    (done : List String) (index : Index) : Prop where
  languages_eq : index.languages = languages
  starts_eq : ∀ language ∈ languages, index.starts.getD language [] =
    (content_words unicode (if language ∈ done then found ++ [word] else found) language).map Prod.fst
  words_eq : ∀ language ∈ languages, index.words.getD language [] =
    (content_words unicode (if language ∈ done then found ++ [word] else found) language).map Prod.snd

theorem Adding.step {word : Nat × Text} {done : List String} {language : String}
    (h : Adding unicode languages found word done index) (hnew : language ∉ done) (hlanguage : language ∈ languages)
    (hstop : (STOP_WORDS.lookup language).isSome) :
    ∃ index', Index.add_word word.1 (base_form unicode word.2) index language = .ok index' ∧
      Adding unicode languages found word (done ++ [language]) index' := by
  obtain ⟨stop_words, hlookup⟩ := Option.isSome_iff_exists.mp hstop
  have hother : ∀ other, other ≠ language → (if other ∈ done ++ [language] then found ++ [word] else found) =
      if other ∈ done then found ++ [word] else found := by
    intro other hne
    simp [hne]
  have happend := @content_words_append unicode found word language
  have hstarts := h.starts_eq language hlanguage
  have hwords := h.words_eq language hlanguage
  rw [if_neg hnew] at hstarts hwords
  rw [hlookup, Option.getD_some] at happend
  unfold Index.add_word
  rw [hlookup]
  dsimp only
  split
  case isTrue hskipped =>
    rw [if_pos hskipped, List.append_nil] at happend
    refine ⟨index, rfl, h.languages_eq, fun other hmem => ?_, fun other hmem => ?_⟩
    · by_cases heq : other = language
      · subst heq
        rw [if_pos (by simp), happend, hstarts]
      · rw [h.starts_eq other hmem, hother other heq]
    · by_cases heq : other = language
      · subst heq
        rw [if_pos (by simp), happend, hwords]
      · rw [h.words_eq other hmem, hother other heq]
  case isFalse hkept =>
    rw [if_neg hkept] at happend
    refine ⟨_, rfl, h.languages_eq, fun other hmem => ?_, fun other hmem => ?_⟩
    · by_cases heq : other = language
      · subst heq
        rw [OrderedDict.getD_set, if_pos rfl, if_pos (by simp), happend, List.map_append, hstarts]
        rfl
      · rw [OrderedDict.getD_set, if_neg heq, h.starts_eq other hmem, hother other heq]
    · by_cases heq : other = language
      · subst heq
        rw [OrderedDict.getD_set, if_pos rfl, if_pos (by simp), happend, List.map_append, hwords]
        rfl
      · rw [OrderedDict.getD_set, if_neg heq, h.words_eq other hmem, hother other heq]

/-- A word is added for every language that does not skip it. -/
theorem Holds.add_word (h : Holds unicode languages found index) (hdistinct : languages.Nodup)
    (hstop : ∀ language ∈ languages, (STOP_WORDS.lookup language).isSome) (word : Nat × Text) :
    ∃ index', languages.foldlM (Index.add_word word.1 (base_form unicode word.2)) index = .ok index' ∧
      Holds unicode languages (found ++ [word]) index' := by
  have hstart : Adding unicode languages found word [] index := by
    refine ⟨h.languages_eq, fun language hmem => ?_, fun language hmem => ?_⟩
    · rw [if_neg List.not_mem_nil, h.starts_eq language hmem]
    · rw [if_neg List.not_mem_nil, h.words_eq language hmem]
  have hstep : ∀ before language after s, [] ++ languages = before ++ language :: after →
      Adding unicode languages found word before s →
      ∃ s', Index.add_word word.1 (base_form unicode word.2) s language = .ok s' ∧
        Adding unicode languages found word (before ++ [language]) s' := by
    intro before language after s hsplit hs
    rw [List.nil_append] at hsplit
    have hmem : language ∈ languages := by
      rw [hsplit]
      simp
    have hnew : language ∉ before := by
      rw [hsplit, List.nodup_append] at hdistinct
      exact fun hbefore => hdistinct.2.2 language hbefore language List.mem_cons_self rfl
    exact hs.step hnew hmem (hstop language hmem)
  obtain ⟨index', hindex, hadded⟩ := foldlM_split_total (Adding unicode languages found word) hstart hstep
  rw [List.nil_append] at hadded
  refine ⟨index', hindex, hadded.languages_eq, fun language hmem => ?_, fun language hmem => ?_⟩
  · rw [hadded.starts_eq language hmem, if_pos hmem]
  · rw [hadded.words_eq language hmem, if_pos hmem]

theorem ofText_holds (hdistinct : languages.Nodup)
    (hstop : ∀ language ∈ languages, (STOP_WORDS.lookup language).isSome) (text : Text) :
    ∃ index, ofText unicode text languages = .ok index ∧ Holds unicode languages (finditer_words unicode text) index :=
  foldlM_total (Holds unicode languages) (holds_empty hdistinct) fun _ word _ _ h => h.add_word hdistinct hstop word

end Index

section window
variable {unicode} (text : Text) (language : String) (start : Int)

/-- The words of a text that carry meaning stand from left to right. -/
theorem content_words_sorted : bisect.Sorted (fun word : Nat × Text => decide ((word.1 : Int) < start))
    (content_words unicode (finditer_words unicode text) language) := by
  refine List.Pairwise.filter _ (List.pairwise_map.mpr ?_)
  refine (finditer_words_sorted unicode text).imp fun {word later} hlt hlater => ?_
  simp only [decide_eq_true_eq] at hlater ⊢
  omega

/-- The words in front of a position are those that come before it. -/
theorem takeWhile_content_words : ((content_words unicode (finditer_words unicode text) language).takeWhile fun word =>
    decide ((word.1 : Int) < start)).map Prod.snd = preceding_words unicode text language start := by
  rw [bisect.takeWhile_eq_filter (content_words_sorted text language start), content_words, preceding_words,
    List.filter_map, List.filter_map, List.filter_map, List.map_map, List.filter_filter, List.filter_filter]
  refine congrArg (List.map _) (List.filter_congr fun word _ => ?_)
  exact Bool.and_comm _ _

theorem bisect_starts : bisect.left (fun other : Nat => decide ((other : Int) < start))
    ((content_words unicode (finditer_words unicode text) language).map Prod.fst) =
      (preceding_words unicode text language start).length := by
  have hstarts : bisect.Sorted (fun other : Nat => decide ((other : Int) < start))
      ((content_words unicode (finditer_words unicode text) language).map Prod.fst) :=
    List.pairwise_map.mpr (content_words_sorted text language start)
  rw [bisect.left_eq hstarts, List.takeWhile_map, List.length_map, ← takeWhile_content_words, List.length_map]
  rfl

theorem take_words : ((content_words unicode (finditer_words unicode text) language).map Prod.snd).take
    (preceding_words unicode text language start).length = preceding_words unicode text language start := by
  rw [← takeWhile_content_words]
  exact (List.prefix_iff_eq_take.mp ((List.takeWhile_prefix _).map Prod.snd)).symm

end window

/-- A phrase of a language stands in the window before a position. -/
def in_window (text : Text) (start : Int) (contexts : Option (List String)) (entity language : String) : Bool :=
  (Index.candidates contexts entity language).any fun candidate =>
    contains_phrase ((preceding_words unicode text language start).drop
      ((preceding_words unicode text language start).length - 5)) (words unicode candidate.toList)

theorem any_in_window_iff (text : Text) (languages : List String) (start : Int) (contexts : Option (List String))
    (entity : String) : (languages.any fun language => in_window unicode text start contexts entity language) = true ↔
      InContext unicode text languages start contexts entity := by
  simp only [List.any_eq_true, in_window, contains_phrase_iff, InContext]

theorem any_congr_mem {languages : List String} {f g : String → Bool}
    (h : ∀ language ∈ languages, f language = g language) :
    languages.any f = languages.any g := by
  rw [Bool.eq_iff_iff, List.any_eq_true, List.any_eq_true]
  exact exists_congr fun language => and_congr_right fun hmem => by rw [h language hmem]

theorem Index.Holds.supports_eq {text : Text} {languages : List String} {index : Index}
    (h : index.Holds unicode languages (finditer_words unicode text)) (start : Int) (contexts : Option (List String))
    (entity : String) : index.supports unicode start contexts entity =
      languages.any fun language => in_window unicode text start contexts entity language := by
  rw [Index.supports, h.languages_eq]
  refine any_congr_mem fun language hmem => ?_
  rw [h.starts_eq language hmem, h.words_eq language hmem, bisect_starts]
  dsimp only
  rw [take_words]
  rfl

/-- The lookup of a rule scan, which filters the words of a language when it is asked. -/
theorem Context.supports_eq (text : Text) (languages : List String) (start : Int) (contexts : Option (List String))
    (entity : String) : (Context.ofText unicode text languages).supports unicode start contexts entity =
      languages.any fun language => in_window unicode text start contexts entity language := by
  rw [Context.supports]
  refine any_congr_mem fun language _ => ?_
  have hstarts : bisect.Sorted (fun other : Nat => decide ((other : Int) < start))
      ((content_words unicode (finditer_words unicode text) language).map Prod.fst) :=
    List.pairwise_map.mpr (content_words_sorted text language start)
  have hposition : bisect_left ((Context.ofText unicode text languages).starts language) start =
      (preceding_words unicode text language start).length := by
    rw [← bisect_starts, bisect.left_eq hstarts]
    rfl
  have hwords : ((Context.ofText unicode text languages).words language).take
      (preceding_words unicode text language start).length = preceding_words unicode text language start :=
    take_words text language start
  rw [hposition]
  dsimp only
  rw [hwords]
  rfl

/-- The indexed lookup is the direct definition, for the languages that a policy admits, and so
    is the lookup of a rule scan. -/
theorem supports_indexed (text : Text) {languages : List String} (hdistinct : languages.Nodup)
    (hstop : ∀ language ∈ languages, (STOP_WORDS.lookup language).isSome) :
    ∃ index, Index.ofText unicode text languages = .ok index ∧ ∀ start contexts entity,
      (index.supports unicode start contexts entity = true ↔ InContext unicode text languages start contexts entity) ∧
      (Context.ofText unicode text languages).supports unicode start contexts entity =
        index.supports unicode start contexts entity := by
  obtain ⟨index, hindex, hholds⟩ := Index.ofText_holds hdistinct hstop text
  refine ⟨index, hindex, fun start contexts entity => ⟨?_, ?_⟩⟩
  · rw [hholds.supports_eq, any_in_window_iff]
  · rw [hholds.supports_eq, Context.supports_eq]

/-- A phrase of two words with a stop word behind it. -/
theorem supports_indexed_national_id : InContext ⟨Char.isAlphanum, List.map Char.toLower⟩
    "National IDs of the number: 12345678".toList ["en"] 28 (some ["ids number"]) "NATIONAL_ID_NUMBER" := by
  obtain ⟨index, -, hindexed⟩ := supports_indexed ⟨Char.isAlphanum, List.map Char.toLower⟩
    "National IDs of the number: 12345678".toList (by decide : ["en"].Nodup) (by decide)
  obtain ⟨hdirect, hscan⟩ := hindexed 28 (some ["ids number"]) "NATIONAL_ID_NUMBER"
  rw [← hdirect, ← hscan]
  decide +kernel

end pii_engine.rules
