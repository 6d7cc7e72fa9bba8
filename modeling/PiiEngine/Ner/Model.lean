import PiiEngine.Analyzer
import PiiEngine.Lib.Checked
import PiiEngine.Lib.Json

open checked collections

namespace pii_engine.ner

/-- The exceptions of remote analysis. -/
inductive RemoteError where
  | remote_analysis_error (message : String)
  /-- Permits only bounded, coverage-preserving subdivision of GLiNER input. -/
  | input_too_large
  | overflow_error
  | index_error
  | key_error
  | value_error
  deriving DecidableEq

/-- The window bounds of a reviewed model. -/
structure ModelProfile where
  max_characters : Nat := 1024
  overlap_characters : Nat := 128
  max_tokens : Option Nat := none
  window_tokens : Nat := 448
  overlap_tokens : Nat := 64
  characters_progress : overlap_characters < max_characters := by decide
  tokens_progress : overlap_tokens < window_tokens := by decide
  max_tokens_pos : ∀ limit ∈ max_tokens, 0 < limit := by decide

/-- One endpoint and its label contract. The profile is the one its name selects. -/
structure RemoteModel where
  name : String
  model_name : String
  label_mapping : OrderedDict String String
  profile : Option ModelProfile := none

/-- A window of a text and where it starts. -/
structure Chunk where
  offset : Nat
  text : Text
  deriving DecidableEq

namespace Chunk

def length (chunk : Chunk) : Nat := chunk.text.length

def stop (chunk : Chunk) : Nat := chunk.offset + chunk.length

/-- The chunk is `text[offset : offset + len(chunk)]`. -/
def CutFrom (text : Text) (chunk : Chunk) : Prop :=
  chunk.text = (text.drop chunk.offset).take chunk.length ∧ chunk.stop ≤ text.length

/-- The characters from one position to another lie within the chunk. -/
def Covers (start stop : Nat) (chunk : Chunk) : Prop := chunk.offset ≤ start ∧ stop ≤ chunk.stop

/-- `chunk[:count]` -/
def front (chunk : Chunk) (count : Nat) : Chunk := ⟨chunk.offset, chunk.text.take count⟩

/-- `chunk[count:]` at its own offset. -/
def back (chunk : Chunk) (count : Nat) : Chunk := ⟨chunk.offset + count, chunk.text.drop count⟩

variable {text : Text} {chunk : Chunk} {count : Nat}

theorem length_front (h : count ≤ chunk.length) : (chunk.front count).length = count := by
  rw [length, front, List.length_take]
  exact Nat.min_eq_left h

theorem length_back (chunk : Chunk) (count : Nat) : (chunk.back count).length = chunk.length - count :=
  List.length_drop

theorem stop_front (h : count ≤ chunk.length) : (chunk.front count).stop = chunk.offset + count := by
  rw [stop, length_front h, front]

theorem stop_back (h : count ≤ chunk.length) : (chunk.back count).stop = chunk.stop := by
  rw [stop, length_back, stop]
  dsimp only [back]
  omega

theorem CutFrom.front (h : chunk.CutFrom text) (hle : count ≤ chunk.length) : (chunk.front count).CutFrom text := by
  obtain ⟨htext, hstop⟩ := h
  refine ⟨?_, ?_⟩
  · rw [length_front hle, Chunk.front]
    simp only
    rw [htext, List.take_take, Nat.min_eq_left hle]
  · rw [stop_front hle]
    rw [stop] at hstop
    omega

theorem CutFrom.back (h : chunk.CutFrom text) (hle : count ≤ chunk.length) : (chunk.back count).CutFrom text := by
  obtain ⟨htext, hstop⟩ := h
  refine ⟨?_, by rwa [stop_back hle]⟩
  rw [length_back, Chunk.back]
  simp only
  rw [htext, List.drop_take, List.drop_drop]

/-- A stretch of a text is a chunk of it. -/
theorem cutFrom_slice {start stop : Nat} (hstart : start ≤ stop) (hstop : stop ≤ text.length) :
    (Chunk.mk start ((text.take stop).drop start)).CutFrom text ∧
      (Chunk.mk start ((text.take stop).drop start)).stop = stop := by
  have hlength : (Chunk.mk start ((text.take stop).drop start)).length = stop - start := by
    rw [length, List.length_drop, List.length_take, Nat.min_eq_left hstop]
  have hend : (Chunk.mk start ((text.take stop).drop start)).stop = stop := by
    rw [Chunk.stop, hlength]
    simp only
    omega
  refine ⟨⟨?_, by omega⟩, hend⟩
  rw [hlength]
  simp only
  rw [List.drop_take]

end Chunk

/-- A match found in a window, at its place in the whole text. -/
def shift (offset : Nat) (item : EntityMatch) : EntityMatch :=
  { item with start := item.start + offset, stop := item.stop + offset }

end pii_engine.ner
