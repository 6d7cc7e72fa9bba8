import PiiEngine.Lib.Runs
import PiiEngine.Text

namespace pii_engine.rules

/-- What the code relies on of Unicode: the characters of `[^\W_]`, and `str.casefold`. -/
structure Unicode where
  is_word : Char → Bool
  casefold : Text → Text

def CONTEXT : List (String × List (String × List String)) := [
  ("PHONE_NUMBER", [
    ("en", ["phone", "telephone", "mobile", "call"]),
    ("de", ["telefon", "telefonnummer", "handy", "rufnummer"]),
    ("nl", ["telefoon", "telefoonnummer", "mobiel", "nummer"])]),
  ("NATIONAL_ID_NUMBER", [
    ("en", ["national id", "id number", "identity card"]),
    ("de", ["personalausweis", "personalausweisnummer", "ausweis", "ausweisnummer", "id nummer"]),
    ("nl", ["identiteitskaart", "identiteitsnummer", "id nummer"])]),
  ("BANK_ACCOUNT", [
    ("de", ["konto", "kontonummer", "bankkonto"]),
    ("nl", ["rekening", "rekeningnummer", "bankrekening"])]),
  ("PASSPORT_NUMBER", [("de", ["reisepass", "passnummer"]), ("nl", ["paspoort"])]),
  ("DRIVERS_LICENSE_NUMBER", [("de", ["führerschein"]), ("nl", ["rijbewijs"])]),
  ("TAX_ID", [("de", ["steuer", "steuerid", "steueridentifikationsnummer"]), ("nl", ["belasting"])]),
  ("CREDIT_CARD_NUMBER", [("de", ["kreditkarte"]), ("nl", ["creditcard"])])]

def STOP_WORDS : List (String × List String) := [
  ("en", ["a", "an", "the", "my", "your", "his", "her", "our", "their", "is", "are", "was", "were", "of", "for", "to",
    "and", "in", "on"]),
  ("de", ["der", "die", "das", "des", "dem", "den", "ein", "eine", "einer", "eines", "mein", "meine", "ist", "sind",
    "von", "für", "und", "im"]),
  ("nl", ["de", "het", "een", "mijn", "jouw", "zijn", "haar", "ons", "is", "was", "van", "voor", "en", "in", "op"])]

def INFLECTIONS : List (String × String) := [
  ("phones", "phone"), ("numbers", "number"), ("telephones", "telephone"), ("telephoned", "telephone"),
  ("cards", "card"), ("accounts", "account"), ("passports", "passport"), ("licenses", "license"),
  ("identities", "identity"), ("called", "call"), ("calling", "call"), ("ausweise", "ausweis"),
  ("ausweises", "ausweis"), ("ausweisen", "ausweis"), ("personalausweise", "personalausweis"),
  ("personalausweises", "personalausweis"), ("personalausweisen", "personalausweis"),
  ("telefonnummern", "telefonnummer"), ("rufnummern", "rufnummer"), ("konten", "konto"),
  ("kreditkarten", "kreditkarte"), ("reisepässe", "reisepass"), ("reisepasses", "reisepass"),
  ("telefoonnummers", "telefoonnummer"), ("nummers", "nummer"), ("identiteitskaarten", "identiteitskaart"),
  ("rekeningen", "rekening"), ("rekeningnummers", "rekeningnummer"), ("paspoorten", "paspoort")]

variable (unicode : Unicode)

/-- `_WORD.finditer(text)`: the longest stretches of word characters and their starts. -/
def finditer_words (text : Text) : List (Nat × Text) :=
  let opens (previous : Option (Char × Nat)) (item : Char × Nat) : Bool :=
    unicode.is_word item.1 && !previous.any fun before => unicode.is_word before.1
  let runs := runs.split opens (fun _ item => unicode.is_word item.1) none text.zipIdx
  runs.map fun run => (run.1.2, run.1.1 :: run.2.map Prod.fst)

/-- `_INFLECTIONS.get(word.casefold(), word.casefold())` -/
def base_form (word : Text) : Text :=
  let word := unicode.casefold word
  match INFLECTIONS.lookup (String.ofList word) with
  | some base => base.toList
  | none => word

/-- The base forms of the words of a phrase. -/
def words (text : Text) : List Text := (finditer_words unicode text).map fun word => base_form unicode word.2

/-- The words of one text, indexed once for the languages of an analysis. -/
structure Context where
  languages : List String
  indexed : List (Nat × Text)

namespace Context

def ofText (text : Text) (languages : List String) : Context where
  languages := languages
  indexed := (finditer_words unicode text).map fun word => (word.1, base_form unicode word.2)

/-- The words that carry meaning in a language. Every admitted language has a list. -/
def content (context : Context) (language : String) : List (Nat × Text) :=
  let stop_words := (STOP_WORDS.lookup language).getD []
  context.indexed.filter fun word => String.ofList word.2 ∉ stop_words

def starts (context : Context) (language : String) : List Nat := (context.content language).map Prod.fst

def words (context : Context) (language : String) : List Text := (context.content language).map Prod.snd

end Context

/-- `bisect_left(starts, start)` in an ascending list. -/
def bisect_left (starts : List Nat) (start : Int) : Nat :=
  (starts.takeWhile fun (other : Nat) => decide ((other : Int) < start)).length

def contains_phrase (window phrase : List Text) : Bool :=
  !phrase.isEmpty && (List.range (window.length + 1 - phrase.length)).any fun index =>
    (window.drop index).take phrase.length = phrase

/-- Whether a context phrase stands among the five content words before a position. -/
def Context.supports (context : Context) (start : Int) (contexts : Option (List String)) (entity : String) : Bool :=
  context.languages.any fun language =>
    let index := bisect_left (context.starts language) start
    let window := ((context.words language).take index).drop (index - 5)
    let candidates := contexts.getD [] ++ (((CONTEXT.lookup entity).getD []).lookup language).getD []
    candidates.any fun candidate => contains_phrase window (rules.words unicode candidate.toList)

end pii_engine.rules
