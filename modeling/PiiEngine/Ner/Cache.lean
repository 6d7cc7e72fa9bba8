import Mathlib.Algebra.Order.BigOperators.Group.List
import Mathlib.Algebra.Order.Ring.Rat
import Mathlib.Logic.Function.Basic
import PiiEngine.Analyzer
import PiiEngine.Lib.Transitions

open transitions

namespace pii_engine.ner

abbrev Bytes := List UInt8

/-- `n.to_bytes(count, "big")` -/
def to_bytes : Nat → Nat → Bytes
  | 0, _ => []
  | count + 1, n => to_bytes count (n / 256) ++ [UInt8.ofNat n]

theorem length_to_bytes (count n : Nat) : (to_bytes count n).length = count := by
  induction count generalizing n with
  | zero => rfl
  | succ count ih => rw [to_bytes, List.length_append, ih, List.length_singleton]

theorem to_bytes_inj {count n m : Nat} (hn : n < 256 ^ count) (hm : m < 256 ^ count)
    (h : to_bytes count n = to_bytes count m) : n = m := by
  induction count generalizing n m with
  | zero => omega
  | succ count ih =>
    rw [Nat.pow_succ] at hn hm
    obtain ⟨hhigh, hlow⟩ := List.append_inj' h rfl
    have hquot : n / 256 = m / 256 := ih (by omega) (by omega) hhigh
    have hrem := congrArg UInt8.toNat (List.head_eq_of_cons_eq hlow)
    rw [UInt8.toNat_ofNat', UInt8.toNat_ofNat'] at hrem
    omega

/-- `text.encode()` -/
def encode (text : Text) : Bytes := (String.ofList text).toByteArray.data.toList

theorem encode_injective : Function.Injective encode := by
  intro first second h
  have hbytes : (String.ofList first).toByteArray = (String.ofList second).toByteArray :=
    ByteArray.ext (Array.toList_inj.mp h)
  exact String.ofList_injective (String.toByteArray_inj.mp hbytes)

/-- The bounds of a window cache and the keyed digest under its process secret. The size of
    the findings is what their retained objects are accounted with. -/
structure WindowCache where
  digest : Bytes → Bytes
  max_bytes : Nat
  ttl_seconds : Nat
  accounted_size : List EntityMatch → Nat

/-- Findings retained under a key until they expire. -/
structure Entry where
  key : Bytes
  findings : List EntityMatch
  expires : ℚ
  deriving DecidableEq

namespace WindowCache
variable (cache : WindowCache)

/-- The length of the context separates it from the text. A context whose length does not fit
    in eight bytes has no key. -/
def window_key (context : Bytes) (text : Text) : Option Bytes :=
  if context.length < 256 ^ 8 then some (cache.digest (to_bytes 8 context.length ++ context ++ encode text))
  else none

def currsize (entries : List Entry) : Nat := (entries.map fun entry => cache.accounted_size entry.findings).sum

variable {cache}

theorem window_key_inj (hdigest : Function.Injective cache.digest) {context context' : Bytes} {text text' : Text}
    {key : Bytes} (h : cache.window_key context text = some key) (h' : cache.window_key context' text' = some key) :
    context = context' ∧ text = text' := by
  unfold window_key at h h'
  split at h
  · next hlength =>
    split at h'
    · next hlength' =>
      have heq := hdigest ((Option.some.inj h).trans (Option.some.inj h').symm)
      rw [List.append_assoc, List.append_assoc] at heq
      obtain ⟨hcount, hrest⟩ := List.append_inj heq (by rw [length_to_bytes, length_to_bytes])
      obtain ⟨hcontext, htext⟩ := List.append_inj hrest (to_bytes_inj hlength hlength' hcount)
      exact ⟨hcontext, encode_injective htext⟩
    · cases h'
  · cases h

end WindowCache

/-- `_expire`: drop the entries whose time is over. -/
def live (now : ℚ) (entries : List Entry) : List Entry := entries.filter fun entry => now < entry.expires

/-- Where a thread stands between two steps on the shared cache. -/
inductive Pc where
  | idle
  | looking (context : Bytes) (text : Text) (key : Bytes)
  | detecting (context : Bytes) (text : Text) (key : Option Bytes)
  | storing (context : Bytes) (text : Text) (key : Bytes) (findings : List EntityMatch)
  | returning (context : Bytes) (text : Text) (findings : List EntityMatch)
  | starting
  | launching
  | joining
  | clearing

/-- The cache shared by any number of threads. -/
structure CacheState (ι : Type) where
  stop : Bool
  running : Bool
  entries : List Entry
  threads : ι → Pc

/-- What a step shows of itself: that `run` returned or raised, that findings were stored,
    that `close` set the flag or cleared the cache, or that `start` reset the flag. -/
inductive Label (ε : Type) where
  | internal
  | returned (context : Bytes) (text : Text) (result : Except ε (List EntityMatch))
  | stored (key : Bytes) (findings : List EntityMatch) (now : ℚ)
  | closing
  | closed
  | reopened

section step
variable {ι ε : Type} [DecidableEq ι]

/-- A new cache: nothing retained, no cleanup thread, every caller idle. -/
def CacheState.initial : CacheState ι := ⟨false, false, [], fun _ => .idle⟩

def CacheState.move (s : CacheState ι) (i : ι) (pc : Pc) : CacheState ι :=
  { s with threads := Function.update s.threads i pc }

def CacheState.keep (s : CacheState ι) (entries : List Entry) : CacheState ι := { s with entries }

/-- The steps of `run`, `expire`, `start` and `close`. What happens under the lock is one step,
    with the clock as it is read there. The backing cache may evict anything to make room, and
    an operation on it may fail at any point, after which `run` detects without storing or
    returns what it detected. -/
inductive Step (cache : WindowCache) (detect : Bytes → Text → Except ε (List EntityMatch)) :
    CacheState ι → Label ε → CacheState ι → Prop
  | run_stopped (s : CacheState ι) (i : ι) (context : Bytes) (text : Text) (hidle : s.threads i = .idle)
      (hstop : s.stop = true) : Step cache detect s .internal (s.move i (.detecting context text none))
  | run_keyless (s : CacheState ι) (i : ι) (context : Bytes) (text : Text) (hidle : s.threads i = .idle)
      (hopen : s.stop = false) : Step cache detect s .internal (s.move i (.detecting context text none))
  | run_keyed (s : CacheState ι) (i : ι) (context : Bytes) (text : Text) (key : Bytes) (hidle : s.threads i = .idle)
      (hopen : s.stop = false) (hkey : cache.window_key context text = some key) :
      Step cache detect s .internal (s.move i (.looking context text key))
  | lookup_hit (s : CacheState ι) (i : ι) (context : Bytes) (text : Text) (key : Bytes) (now : ℚ) (entry : Entry)
      (hpc : s.threads i = .looking context text key) (hentry : entry ∈ live now s.entries) (hkey : entry.key = key) :
      Step cache detect s .internal ((s.keep (live now s.entries)).move i (.returning context text entry.findings))
  | lookup_miss (s : CacheState ι) (i : ι) (context : Bytes) (text : Text) (key : Bytes) (now : ℚ)
      (hpc : s.threads i = .looking context text key) (hmiss : ∀ entry ∈ live now s.entries, entry.key ≠ key) :
      Step cache detect s .internal ((s.keep (live now s.entries)).move i (.detecting context text (some key)))
  | lookup_failed (s : CacheState ι) (i : ι) (context : Bytes) (text : Text) (key : Bytes) (now : ℚ)
      (kept : List Entry) (hpc : s.threads i = .looking context text key)
      (hkept : kept = s.entries ∨ kept = live now s.entries) :
      Step cache detect s .internal ((s.keep kept).move i (.detecting context text none))
  | detect_raised (s : CacheState ι) (i : ι) (context : Bytes) (text : Text) (key : Option Bytes) (e : ε)
      (hpc : s.threads i = .detecting context text key) (hdetect : detect context text = .error e) :
      Step cache detect s (.returned context text (.error e)) (s.move i .idle)
  | detect_unkeyed (s : CacheState ι) (i : ι) (context : Bytes) (text : Text) (findings : List EntityMatch)
      (hpc : s.threads i = .detecting context text none) (hdetect : detect context text = .ok findings) :
      Step cache detect s .internal (s.move i (.returning context text findings))
  | detect_keyed (s : CacheState ι) (i : ι) (context : Bytes) (text : Text) (key : Bytes) (findings : List EntityMatch)
      (hpc : s.threads i = .detecting context text (some key)) (hdetect : detect context text = .ok findings) :
      Step cache detect s .internal (s.move i (.storing context text key findings))
  | store (s : CacheState ι) (i : ι) (context : Bytes) (text : Text) (key : Bytes) (findings : List EntityMatch)
      (now : ℚ) (kept : List Entry) (hpc : s.threads i = .storing context text key findings) (hopen : s.stop = false)
      (hfresh : ∀ entry ∈ live now s.entries, entry.key ≠ key) (hsize : cache.accounted_size findings ≤ cache.max_bytes)
      (hkept : kept.Sublist (live now s.entries))
      (hroom : cache.currsize (kept ++ [⟨key, findings, now + cache.ttl_seconds⟩]) ≤ cache.max_bytes) :
      Step cache detect s (.stored key findings now)
        ((s.keep (kept ++ [⟨key, findings, now + cache.ttl_seconds⟩])).move i (.returning context text findings))
  | store_skipped (s : CacheState ι) (i : ι) (context : Bytes) (text : Text) (key : Bytes)
      (findings : List EntityMatch) (now : ℚ) (kept : List Entry)
      (hpc : s.threads i = .storing context text key findings) (hkept : kept = s.entries ∨ kept = live now s.entries) :
      Step cache detect s .internal ((s.keep kept).move i (.returning context text findings))
  | run_returned (s : CacheState ι) (i : ι) (context : Bytes) (text : Text) (findings : List EntityMatch)
      (hpc : s.threads i = .returning context text findings) :
      Step cache detect s (.returned context text (.ok findings)) (s.move i .idle)
  | expire (s : CacheState ι) (now : ℚ) : Step cache detect s .internal (s.keep (live now s.entries))
  | start_checked (s : CacheState ι) (i : ι) (hidle : s.threads i = .idle) (hrunning : s.running = false) :
      Step cache detect s .internal (s.move i .starting)
  | start_reset (s : CacheState ι) (i : ι) (hpc : s.threads i = .starting) :
      Step cache detect s .reopened ({ s with stop := false }.move i .launching)
  | start_launched (s : CacheState ι) (i : ι) (hpc : s.threads i = .launching) :
      Step cache detect s .internal ({ s with running := true }.move i .idle)
  | close_set (s : CacheState ι) (i : ι) (hidle : s.threads i = .idle) :
      Step cache detect s .closing ({ s with stop := true }.move i .joining)
  | close_joined (s : CacheState ι) (i : ι) (hpc : s.threads i = .joining) :
      Step cache detect s .internal ({ s with running := false }.move i .clearing)
  | close_raised (s : CacheState ι) (i : ι) (hpc : s.threads i = .joining) :
      Step cache detect s .internal (s.move i .idle)
  | close_cleared (s : CacheState ι) (i : ι) (hpc : s.threads i = .clearing) :
      Step cache detect s .closed ((s.keep []).move i .idle)

/-- What a thread knows about the window it works on. -/
def Pc.Sound (cache : WindowCache) (detect : Bytes → Text → Except ε (List EntityMatch)) : Pc → Prop
  | .looking context text key => cache.window_key context text = some key
  | .detecting context text key => ∀ k ∈ key, cache.window_key context text = some k
  | .storing context text key findings =>
    cache.window_key context text = some key ∧ detect context text = .ok findings
  | .returning context text findings => detect context text = .ok findings
  | _ => True

/-- The findings of an entry are those of the window that its key names. -/
def Entry.Sound (cache : WindowCache) (detect : Bytes → Text → Except ε (List EntityMatch)) (entry : Entry) : Prop :=
  ∃ context text, cache.window_key context text = some entry.key ∧ detect context text = .ok entry.findings

/-- Every step leaves at most the entries there were, or stores findings it has detected. -/
structure CacheState.Sound (cache : WindowCache) (detect : Bytes → Text → Except ε (List EntityMatch))
    (history : List (Label ε)) (s : CacheState ι) : Prop where
  entries : ∀ entry ∈ s.entries, entry.Sound cache detect
  created : ∀ entry ∈ s.entries, ∃ now, .stored entry.key entry.findings now ∈ history ∧
    entry.expires = now + cache.ttl_seconds
  bounded : cache.currsize s.entries ≤ cache.max_bytes
  threads : ∀ i, (s.threads i).Sound cache detect
  returned : ∀ context text result, .returned context text result ∈ history → result = detect context text

variable {cache : WindowCache} {detect : Bytes → Text → Except ε (List EntityMatch)} {history : List (Label ε)}
  {s s' t : CacheState ι} {label : Label ε} {i : ι} {pc : Pc}

theorem live_sublist (now : ℚ) (entries : List Entry) : (live now entries).Sublist entries := List.filter_sublist

theorem WindowCache.currsize_le {kept entries : List Entry} (h : kept.Sublist entries) :
    cache.currsize kept ≤ cache.currsize entries :=
  (h.map fun entry : Entry => cache.accounted_size entry.findings).sum_le_sum fun _ _ => Nat.zero_le _

omit [DecidableEq ι] in
theorem CacheState.Sound.initial : CacheState.Sound cache detect [] (CacheState.initial : CacheState ι) := by
  constructor
  · intro entry hentry
    cases hentry
  · intro entry hentry
    cases hentry
  · exact Nat.zero_le _
  · intro i
    trivial
  · intro context text result hreturned
    cases hreturned

omit [DecidableEq ι] in
theorem CacheState.Sound.next (h : s.Sound cache detect history)
    (hentries : ∀ entry ∈ t.entries, entry ∈ s.entries ∨ entry.Sound cache detect ∧
      ∃ now, label = .stored entry.key entry.findings now ∧ entry.expires = now + cache.ttl_seconds)
    (hbounded : cache.currsize t.entries ≤ cache.max_bytes) (hthreads : ∀ i, (t.threads i).Sound cache detect)
    (hreturned : ∀ context text result, label = .returned context text result → result = detect context text) :
    t.Sound cache detect (history ++ [label]) := by
  refine ⟨?_, ?_, hbounded, hthreads, ?_⟩
  · intro entry hentry
    cases hentries entry hentry with
    | inl hold => exact h.entries entry hold
    | inr hnew => exact hnew.1
  · intro entry hentry
    cases hentries entry hentry with
    | inl hold =>
      obtain ⟨now, hstored, hexpires⟩ := h.created entry hold
      exact ⟨now, List.mem_append_left _ hstored, hexpires⟩
    | inr hnew =>
      obtain ⟨-, now, hstored, hexpires⟩ := hnew
      exact ⟨now, by simp [hstored], hexpires⟩
  · intro context text result hmem
    cases List.mem_append.mp hmem with
    | inl hold => exact h.returned context text result hold
    | inr hnew => exact hreturned context text result (List.mem_singleton.mp hnew).symm

theorem sound_move (hthreads : ∀ i, (s.threads i).Sound cache detect) (hpc : pc.Sound cache detect) (j : ι) :
    ((s.move i pc).threads j).Sound cache detect := by
  change (Function.update s.threads i pc j).Sound cache detect
  rw [Function.update_apply]
  split
  · exact hpc
  · exact hthreads j

/-- A thread moves on while entries are at most dropped. -/
theorem CacheState.Sound.moved (h : s.Sound cache detect history) (hthreads : s'.threads = s.threads)
    (hsublist : s'.entries.Sublist s.entries) (hpc : pc.Sound cache detect)
    (hreturned : ∀ context text result, label = .returned context text result → result = detect context text) :
    (s'.move i pc).Sound cache detect (history ++ [label]) := by
  refine h.next (fun entry hentry => Or.inl (hsublist.subset hentry))
    ((WindowCache.currsize_le hsublist).trans h.bounded) (sound_move ?_ hpc) hreturned
  rw [hthreads]
  exact h.threads

theorem sublist_of_kept {kept entries : List Entry} {now : ℚ} (h : kept = entries ∨ kept = live now entries) :
    kept.Sublist entries := by
  cases h with
  | inl hall => rw [hall]
  | inr hlive => rw [hlive]; exact live_sublist now entries

theorem CacheState.Sound.step (hdigest : Function.Injective cache.digest) (h : s.Sound cache detect history)
    (hstep : Step cache detect s label t) : t.Sound cache detect (history ++ [label]) := by
  have hthread : ∀ i pc, s.threads i = pc → pc.Sound cache detect := fun i pc hpc => hpc ▸ h.threads i
  cases hstep with
  | run_stopped i context text _ _ => exact h.moved rfl (.refl _) (by intro k hk; cases hk) (by simp)
  | run_keyless i context text _ _ => exact h.moved rfl (.refl _) (by intro k hk; cases hk) (by simp)
  | run_keyed i context text key _ _ hkey => exact h.moved rfl (.refl _) hkey (by simp)
  | lookup_hit i context text key now entry hpc hentry hkey =>
    -- the key names one window, whose findings these are
    obtain ⟨context', text', hkey', hdetect⟩ := h.entries entry ((live_sublist now s.entries).subset hentry)
    have hwindow := hthread i _ hpc
    rw [hkey] at hkey'
    obtain ⟨rfl, rfl⟩ := WindowCache.window_key_inj hdigest hkey' hwindow
    exact h.moved rfl (live_sublist now s.entries) hdetect (by simp)
  | lookup_miss i context text key now hpc _ =>
    refine h.moved rfl (live_sublist now s.entries) ?_ (by simp)
    intro k hk
    rw [← Option.mem_some_iff.mp hk]
    exact hthread i _ hpc
  | lookup_failed i context text key now kept _ hkept =>
    exact h.moved rfl (sublist_of_kept hkept) (by intro k hk; cases hk) (by simp)
  | detect_raised i context text key e _ hdetect =>
    refine h.moved rfl (.refl _) trivial ?_
    intro context' text' result heq
    obtain ⟨rfl, rfl, rfl⟩ := Label.returned.inj heq
    exact hdetect.symm
  | detect_unkeyed i context text findings _ hdetect => exact h.moved rfl (.refl _) hdetect (by simp)
  | detect_keyed i context text key findings hpc hdetect =>
    exact h.moved rfl (.refl _) ⟨hthread i _ hpc key rfl, hdetect⟩ (by simp)
  | store i context text key findings now kept hpc _ _ _ hkept hroom =>
    obtain ⟨hkey, hdetect⟩ := hthread i _ hpc
    refine h.next ?_ hroom (sound_move h.threads hdetect) (by simp)
    intro entry hentry
    cases List.mem_append.mp hentry with
    | inl hold => exact Or.inl ((hkept.trans (live_sublist now s.entries)).subset hold)
    | inr hnew =>
      rw [List.mem_singleton.mp hnew]
      exact Or.inr ⟨⟨context, text, hkey, hdetect⟩, now, rfl, rfl⟩
  | store_skipped i context text key findings now kept hpc hkept =>
    exact h.moved rfl (sublist_of_kept hkept) (hthread i _ hpc).2 (by simp)
  | run_returned i context text findings hpc =>
    refine h.moved rfl (.refl _) trivial ?_
    intro context' text' result heq
    obtain ⟨rfl, rfl, rfl⟩ := Label.returned.inj heq
    exact (hthread i _ hpc).symm
  | expire now =>
    exact h.next (fun entry hentry => Or.inl ((live_sublist now s.entries).subset hentry))
      ((WindowCache.currsize_le (live_sublist now s.entries)).trans h.bounded) h.threads (by simp)
  | start_checked i _ _ => exact h.moved rfl (.refl _) trivial (by simp)
  | start_reset i _ => exact h.moved rfl (.refl _) trivial (by simp)
  | start_launched i _ => exact h.moved rfl (.refl _) trivial (by simp)
  | close_set i _ => exact h.moved rfl (.refl _) trivial (by simp)
  | close_joined i _ => exact h.moved rfl (.refl _) trivial (by simp)
  | close_raised i _ => exact h.moved rfl (.refl _) trivial (by simp)
  | close_cleared i _ => exact h.moved rfl (List.nil_sublist _) trivial (by simp)

/-- The flag stays set until a start resets it. -/
theorem Step.stop_of_ne (hstep : Step cache detect s label t) (hlabel : label ≠ .reopened) (hstop : s.stop = true) :
    t.stop = true := by
  cases hstep with
  | start_reset i _ => exact absurd rfl hlabel
  | close_set i _ => rfl
  | _ => exact hstop

/-- Nothing is stored while the flag is set. -/
theorem Step.empty_of_ne (hstep : Step cache detect s label t) (hlabel : label ≠ .reopened)
    (h : s.stop = true ∧ s.entries = []) : t.stop = true ∧ t.entries = [] := by
  refine ⟨hstep.stop_of_ne hlabel h.1, ?_⟩
  have hlive : ∀ now, live now s.entries = [] := fun now => by rw [h.2]; rfl
  cases hstep with
  | lookup_hit i context text key now entry _ _ _ => exact hlive now
  | lookup_miss i context text key now _ _ => exact hlive now
  | lookup_failed i context text key now kept _ hkept => exact List.sublist_nil.mp (h.2 ▸ sublist_of_kept hkept)
  | store i context text key findings now kept _ hopen _ _ _ _ =>
    rw [h.1] at hopen
    cases hopen
  | store_skipped i context text key findings now kept _ hkept =>
    exact List.sublist_nil.mp (h.2 ▸ sublist_of_kept hkept)
  | expire now => exact hlive now
  | close_cleared i _ => rfl
  | _ => exact h.2

/-- Once `close` has cleared the cache, it stays empty until it is started again. -/
theorem empty_after_close {first middle last : List (Label ε)}
    (hrun : Run (Step cache detect) s (first ++ .closing :: (middle ++ .closed :: last)) t)
    (hopen : ∀ label ∈ middle ++ last, label ≠ .reopened) : t.entries = [] := by
  obtain ⟨a, -, hrun⟩ := hrun.split
  cases hrun with
  | @cons _ b _ _ _ hclosing hrun =>
    obtain ⟨c, hmiddle, hrun⟩ := hrun.split
    cases hrun with
    | @cons _ d _ _ _ hclosed hlast =>
      have hset : b.stop = true := by
        cases hclosing
        rfl
      have hstop : c.stop = true := hmiddle.invariant_over (· ≠ .reopened) (fun s => s.stop = true)
        (fun _ _ _ hlabel hstop hstep => hstep.stop_of_ne hlabel hstop)
        (fun label hlabel => hopen label (List.mem_append_left _ hlabel)) hset
      have hempty : d.stop = true ∧ d.entries = [] := by
        refine ⟨hclosed.stop_of_ne (by simp) hstop, ?_⟩
        cases hclosed
        rfl
      exact (hlast.invariant_over (· ≠ .reopened) (fun s => s.stop = true ∧ s.entries = [])
        (fun _ _ _ hlabel hinv hstep => hstep.empty_of_ne hlabel hinv)
        (fun label hlabel => hopen label (List.mem_append_right _ hlabel)) hempty).2

end step

/-- A finding of the local engine, with the recognizer that its metadata names. -/
structure RecognizerResult where
  entity_type : String
  start : Int
  stop : Int
  score : Option ℚ
  recognizer_name : Option String
  deriving DecidableEq

/-- `_PRESIDIO_TO_NORMALIZED.get(entity_type, entity_type)` -/
def normalized_type (entity_type : String) : String :=
  if entity_type = "CREDIT_CARD" then "CREDIT_CARD_NUMBER"
  else if entity_type = "IBAN_CODE" then "IBAN"
  else entity_type

theorem normalized_type_idem (entity_type : String) :
    normalized_type (normalized_type entity_type) = normalized_type entity_type := by
  unfold normalized_type
  by_cases hcard : entity_type = "CREDIT_CARD"
  · rw [if_pos hcard]
    decide
  · by_cases hiban : entity_type = "IBAN_CODE"
    · rw [if_neg hcard, if_pos hiban]
      decide
    · rw [if_neg hcard, if_neg hiban, if_neg hcard, if_neg hiban]

/-- The provenance that a recognizer's name tells. -/
def source_of_name (name : String) : String :=
  if "Transformer".toList <:+: name.toList then "transformer"
  else if "Spacy".toList <:+: name.toList then "spacy"
  else "deterministic"

def recognizer_source (result : RecognizerResult) : String :=
  source_of_name (result.recognizer_name.getD "presidio")

/-- The immutable findings that stand for a window's results. -/
def window_finding (result : RecognizerResult) : EntityMatch :=
  ⟨normalized_type result.entity_type, result.start, result.stop, result.score, recognizer_source result⟩

/-- `names.get(source, "presidio")` -/
def recognizer_name (source : String) : String :=
  if source = "spacy" then "SpacyRecognizer"
  else if source = "transformer" then "TransformersRecognizer"
  else "presidio"

def fresh_result (item : EntityMatch) : RecognizerResult :=
  ⟨item.entity_type, item.start, item.stop, item.score, some (recognizer_name item.source)⟩

/-- `_local_window_results`, given what `run` answers when there is a cache. -/
def local_window_results {ε : Type} (analyzed : Except ε (List RecognizerResult))
    (cached : Option (Except ε (List EntityMatch))) : Except ε (List RecognizerResult) :=
  match cached with
  | none => analyzed
  | some answer => answer.map (List.map fresh_result)

/-- What the caller makes of a result: its normalized type, its span, its score and source. -/
def observed (result : RecognizerResult) : EntityMatch := window_finding result

/-- The name given to a source tells the source again. -/
theorem source_of_recognizer_name (name : String) :
    source_of_name (recognizer_name (source_of_name name)) = source_of_name name := by
  have hcases : source_of_name name = "transformer" ∨ source_of_name name = "spacy" ∨
      source_of_name name = "deterministic" := by
    unfold source_of_name
    split
    · exact Or.inl rfl
    · split
      · exact Or.inr (Or.inl rfl)
      · exact Or.inr (Or.inr rfl)
  rcases hcases with hsource | hsource | hsource <;> rw [hsource] <;> decide

theorem observed_fresh_result (result : RecognizerResult) :
    observed (fresh_result (window_finding result)) = observed result := by
  change EntityMatch.mk (normalized_type (normalized_type result.entity_type)) result.start result.stop result.score
    (source_of_name (recognizer_name (recognizer_source result))) = window_finding result
  rw [normalized_type_idem, recognizer_source, source_of_recognizer_name]
  rfl

theorem local_window_results_observed {ε : Type} (analyzed : Except ε (List RecognizerResult)) :
    (local_window_results analyzed (some (analyzed.map (List.map window_finding)))).map (List.map observed) =
      (local_window_results analyzed none).map (List.map observed) := by
  cases analyzed with
  | error e => rfl
  | ok results =>
    change Except.ok (((results.map window_finding).map fresh_result).map observed) = .ok (results.map observed)
    rw [List.map_map, List.map_map]
    congr 2
    funext result
    exact observed_fresh_result result

/-- The window cache is transparent. In every interleaving of its callers and at every clock,
    with any evictions and failures of the backing cache: `run` answers what detection answers;
    only successful detections are retained, each until the time to live after it was stored,
    within the byte bound, and none once `close` has cleared the cache, as long as it is not
    started again; and the results of a local window look the same with and without the cache. -/
theorem window_cache_transparent {ι ε : Type} [DecidableEq ι] (cache : WindowCache)
    (detect : Bytes → Text → Except ε (List EntityMatch)) (hdigest : Function.Injective cache.digest)
    {history : List (Label ε)} {s : CacheState ι} (hrun : Run (Step cache detect) CacheState.initial history s) :
    (∀ context text result, .returned context text result ∈ history → result = detect context text) ∧
    (∀ entry ∈ s.entries, entry.Sound cache detect) ∧
    (∀ entry ∈ s.entries, ∃ now, .stored entry.key entry.findings now ∈ history ∧
      entry.expires = now + cache.ttl_seconds) ∧
    cache.currsize s.entries ≤ cache.max_bytes ∧
    (∀ first middle last, history = first ++ .closing :: (middle ++ .closed :: last) →
      (∀ label ∈ middle ++ last, label ≠ .reopened) → s.entries = []) ∧
    ∀ context text answer (analyzed : Except ε (List RecognizerResult)),
      detect context text = analyzed.map (List.map window_finding) → .returned context text answer ∈ history →
      (local_window_results analyzed (some answer)).map (List.map observed) =
        (local_window_results analyzed none).map (List.map observed) := by
  have hsound := hrun.history_invariant (CacheState.Sound cache detect)
    (fun _ _ _ _ h hstep => h.step hdigest hstep) CacheState.Sound.initial
  rw [List.nil_append] at hsound
  refine ⟨hsound.returned, hsound.entries, hsound.created, hsound.bounded, ?_, ?_⟩
  · rintro first middle last rfl hopen
    exact empty_after_close hrun hopen
  · intro context text answer analyzed hdetect hanswer
    rw [hsound.returned context text answer hanswer, hdetect]
    exact local_window_results_observed analyzed

/-- A cache with room for one window, under a digest that keeps its input. -/
def sample_cache : WindowCache := ⟨id, 2048, 60, fun _ => 1080⟩

def sample_finding : EntityMatch := ⟨"PERSON_NAME", 0, 4, some (9 / 10), "spacy"⟩

def sample_detect (_ : Bytes) (_ : Text) : Except Unit (List EntityMatch) := .ok [sample_finding]

def sample_window : Bytes := to_bytes 8 0 ++ [] ++ encode "Anna".toList

private theorem sample_run : ∃ s : CacheState Unit, Run (Step sample_cache sample_detect) CacheState.initial
    [.internal, .internal, .internal, .stored sample_window [sample_finding] 0,
      .returned [] "Anna".toList (.ok [sample_finding]), .internal, .internal,
      .returned [] "Anna".toList (.ok [sample_finding])] s ∧
    s.entries = [⟨sample_window, [sample_finding], 0 + 60⟩] := by
  refine ⟨_, .cons (.run_keyed _ () [] "Anna".toList sample_window rfl rfl rfl) <|
    .cons (.lookup_miss _ () [] "Anna".toList sample_window 0 rfl ?_) <|
    .cons (.detect_keyed _ () [] "Anna".toList sample_window [sample_finding] rfl rfl) <|
    .cons (.store _ () [] "Anna".toList sample_window [sample_finding] 0 [] rfl rfl ?_ ?_ ?_ ?_) <|
    .cons (.run_returned _ () [] "Anna".toList [sample_finding] rfl) <|
    .cons (.run_keyed _ () [] "Anna".toList sample_window rfl rfl rfl) <|
    .cons (.lookup_hit _ () [] "Anna".toList sample_window 10 ⟨sample_window, [sample_finding], 0 + 60⟩ rfl ?_ rfl) <|
    .cons (.run_returned _ () [] "Anna".toList [sample_finding] rfl) <| .nil _, ?_⟩
  · intro entry hentry
    cases hentry
  · intro entry hentry
    cases hentry
  · decide
  · exact List.nil_sublist _
  · decide
  · decide +kernel
  · decide +kernel

/-- The second of two calls finds the entry of the first and returns what detection would. -/
theorem window_cache_transparent_sample : ∃ s : CacheState Unit,
    Run (Step sample_cache sample_detect) CacheState.initial
      [.internal, .internal, .internal, .stored sample_window [sample_finding] 0,
        .returned [] "Anna".toList (.ok [sample_finding]), .internal, .internal,
        .returned [] "Anna".toList (.ok [sample_finding])] s ∧
    s.entries = [⟨sample_window, [sample_finding], 0 + 60⟩] ∧
    ∀ entry ∈ s.entries, entry.Sound sample_cache sample_detect := by
  obtain ⟨s, hrun, hentries⟩ := sample_run
  exact ⟨s, hrun, hentries,
    (window_cache_transparent sample_cache sample_detect Function.injective_id hrun).2.1⟩

end pii_engine.ner
