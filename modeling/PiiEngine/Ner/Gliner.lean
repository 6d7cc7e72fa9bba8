import PiiEngine.Lib.Windows
import PiiEngine.Lib.Worklist
import PiiEngine.Ner.Model

open checked collections worklist

namespace pii_engine.ner

/-- `float(score)` of a JSON number. An integer beyond the range of floats cannot be converted. -/
def finite_score : JsonValue → Except RemoteError (Option ℚ)
  | .int n => if 2 ^ 1024 - 2 ^ 970 ≤ n.natAbs then .error .overflow_error else .ok (some n)
  | .float x => .ok x
  | _ => .ok none

def invalid_entity : RemoteError :=
  .remote_analysis_error "GLiNER entity offsets, label or score are invalid"

/-- Validate one entity of a GLiNER answer against its window. -/
def gliner_entity (text : Text) (model : RemoteModel) (item : JsonValue) : Except RemoteError EntityMatch := do
  let .dict entries := item | throw (.remote_analysis_error "GLiNER entity is invalid")
  raiseIf (¬ JsonValue.hasKeys entries ["start", "end", "label", "score"])
    (.remote_analysis_error "GLiNER entity is invalid")
  match entries.lookup "start", entries.lookup "end", entries.lookup "label", entries.lookup "score" with
  | some (.int start), some (.int stop), some (.string label), some score =>
    raiseIf (¬ (0 ≤ start ∧ start < stop ∧ stop ≤ text.length)) invalid_entity
    let some entity_type := model.label_mapping.get? label | throw invalid_entity
    let some score ← finite_score score | throw invalid_entity
    raiseIf (¬ (0 ≤ score ∧ score ≤ 1)) invalid_entity
    return ⟨entity_type, start, stop, some score, model.name⟩
  | _, _, _, _ => throw invalid_entity

def gliner_response (value : JsonValue) (text : Text) (model : RemoteModel) :
    Except RemoteError (List EntityMatch) := do
  let .dict entries := value | throw (.remote_analysis_error "GLiNER model identity is invalid")
  raiseIf (¬ JsonValue.hasKeys entries ["model", "entities"])
    (.remote_analysis_error "GLiNER model identity is invalid")
  let some (.string model_name) := entries.lookup "model"
    | throw (.remote_analysis_error "GLiNER model identity is invalid")
  raiseIf (model_name ≠ model.model_name) (.remote_analysis_error "GLiNER model identity is invalid")
  let some (.list entities) := entries.lookup "entities"
    | throw (.remote_analysis_error "GLiNER entity list is absent")
  entities.mapM (gliner_entity text model)

/-- What the transport brings back for each submitted text: an answer, or its failure. The
    same text may be answered differently on another call. -/
abbrev Transport := Nat → Text → Except RemoteError JsonValue

/-- The validated findings of one submission. -/
def gliner_answer (model : RemoteModel) (transport : Transport) (call : Nat) (chunk : Chunk) :
    Except RemoteError (List EntityMatch) := do
  let value ← transport call chunk.text
  gliner_response value chunk.text model

/-- How far the halves of a rejected chunk overlap. -/
def half_overlap (chunk : Chunk) : Nat := min 32 (chunk.length / 2 / 2)

/-- Submit one chunk. A size rejection replaces a chunk of more than 64 characters by its
    overlapping halves, the second of which is handled next. -/
def gliner_window (model : RemoteModel) (transport : Transport) :
    Handler RemoteError Chunk.length (List EntityMatch) := fun call chunk =>
  match gliner_answer model transport call chunk with
  | .ok findings => .ok (.done findings)
  | .error .input_too_large =>
    if h : chunk.length ≤ 64 then .error (.remote_analysis_error "GLiNER cannot scan bounded input")
    else .ok (.split (chunk.back (chunk.length / 2 - half_overlap chunk))
      (chunk.front (chunk.length / 2 + half_overlap chunk))
      (by rw [Chunk.length_back, half_overlap]; omega)
      (by rw [Chunk.length_front (by rw [half_overlap]; omega), half_overlap]; omega))
  | .error e => .error e

def max_characters (model : RemoteModel) : Nat :=
  match model.profile with
  | some profile => profile.max_characters
  | none => 1024

def overlap_characters (model : RemoteModel) : Nat :=
  match model.profile with
  | some profile => profile.overlap_characters
  | none => 128

/-- The windows that are cut before any submission. -/
def gliner_windows (text : Text) (model : RemoteModel) : List Chunk :=
  let size := max_characters model
  (windows.takeUntil (fun offset => text.length ≤ offset + size)
    (windows.range text.length (size - overlap_characters model))).map fun offset =>
      ⟨offset, (text.take (offset + size)).drop offset⟩

/-- The last window is on top of the stack. -/
def gliner_pending (text : Text) (model : RemoteModel) : List Chunk := (gliner_windows text model).reverse

/-- Subdivide only explicit size rejections, without losing any characters. -/
def gliner_matches (text : Text) (model : RemoteModel) (transport : Transport) :
    Except RemoteError (List EntityMatch) := do
  let accepted ← drain (gliner_window model transport) 0 (gliner_pending text model)
  pure (accepted.flatMap fun (chunk, findings) => findings.map (shift chunk.offset))

/-- Every chunk that is sent, in order. -/
def gliner_submitted (text : Text) (model : RemoteModel) (transport : Transport) : List Chunk :=
  submitted (gliner_window model transport) 0 (gliner_pending text model)

/-- The submitted chunks whose answer was accepted, with their validated findings. -/
def gliner_accepted (text : Text) (model : RemoteModel) (transport : Transport) :
    List (Chunk × List EntityMatch) :=
  (gliner_submitted text model transport).zipIdx.filterMap fun (chunk, call) =>
    match gliner_answer model transport call chunk with
    | .ok findings => some (chunk, findings)
    | .error _ => none

section gliner_window
variable {model : RemoteModel} {transport : Transport} {call : Nat} {chunk : Chunk}

theorem gliner_window_eq_done {findings : List EntityMatch} :
    gliner_window model transport call chunk = .ok (.done findings) ↔
      gliner_answer model transport call chunk = .ok findings := by
  unfold gliner_window
  split
  · next found hanswer => simp [hanswer]
  · next hanswer =>
    rw [hanswer]
    split <;> simp
  · next e _ hanswer => simp [hanswer]

/-- A chunk has a result when its answer is accepted. -/
theorem settled_gliner_window (entry : Chunk × Nat) :
    settled (gliner_window model transport) entry = match gliner_answer model transport entry.2 entry.1 with
      | .ok findings => some (entry.1, findings)
      | .error _ => none := by
  unfold settled
  cases hanswer : gliner_answer model transport entry.2 entry.1 with
  | ok findings => rw [gliner_window_eq_done.mpr hanswer]
  | error e =>
    split
    · next findings hdone =>
      rw [gliner_window_eq_done, hanswer] at hdone
      cases hdone
    · rfl

/-- A chunk is split at a size rejection alone, into its two overlapping halves. -/
theorem gliner_window_eq_split {first second : Chunk} {hfirst : first.length < chunk.length}
    {hsecond : second.length < chunk.length}
    (h : gliner_window model transport call chunk = .ok (.split first second hfirst hsecond)) :
    gliner_answer model transport call chunk = .error .input_too_large ∧ 64 < chunk.length ∧
      first = chunk.back (chunk.length / 2 - half_overlap chunk) ∧
      second = chunk.front (chunk.length / 2 + half_overlap chunk) := by
  unfold gliner_window at h
  split at h
  · cases h
  · next hanswer =>
    split at h
    · cases h
    · next hlength =>
      rw [Except.ok.injEq, Handled.split.injEq] at h
      exact ⟨hanswer, by omega, h.1.symm, h.2.symm⟩
  · cases h

/-- Any other failure, or a rejection of a small chunk, is not recovered. -/
theorem gliner_window_eq_error {e : RemoteError} (hanswer : gliner_answer model transport call chunk = .error e)
    (hfinal : e = .input_too_large → chunk.length ≤ 64) :
    ∃ e', gliner_window model transport call chunk = .error e' := by
  unfold gliner_window
  rw [hanswer]
  cases e with
  | input_too_large =>
    simp only [dif_pos (hfinal rfl)]
    exact ⟨_, rfl⟩
  | remote_analysis_error message => exact ⟨_, rfl⟩
  | overflow_error => exact ⟨_, rfl⟩
  | index_error => exact ⟨_, rfl⟩
  | key_error => exact ⟨_, rfl⟩
  | value_error => exact ⟨_, rfl⟩

theorem split_cutFrom {text : Text} (call : Nat) (chunk first second : Chunk) (hfirst : first.length < chunk.length)
    (hsecond : second.length < chunk.length) (hcut : chunk.CutFrom text)
    (h : gliner_window model transport call chunk = .ok (.split first second hfirst hsecond)) :
    first.CutFrom text ∧ second.CutFrom text := by
  obtain ⟨-, -, rfl, rfl⟩ := gliner_window_eq_split h
  exact ⟨hcut.back (by omega), hcut.front (by rw [half_overlap]; omega)⟩

/-- The halves overlap by at least 32 characters, so that one of them holds every span of
    at most 33. -/
theorem split_covers {start stop : Nat} (hshort : stop ≤ start + 33) (call : Nat) (chunk first second : Chunk)
    (hfirst : first.length < chunk.length) (hsecond : second.length < chunk.length)
    (hcovers : chunk.Covers start stop)
    (h : gliner_window model transport call chunk = .ok (.split first second hfirst hsecond)) :
    first.Covers start stop ∨ second.Covers start stop := by
  obtain ⟨-, hlong, rfl, rfl⟩ := gliner_window_eq_split h
  obtain ⟨hstart, hstop⟩ := hcovers
  have hoverlap : 32 ≤ 2 * half_overlap chunk := by
    rw [half_overlap]
    omega
  have hhalf : half_overlap chunk ≤ chunk.length / 2 / 2 := Nat.min_le_right _ _
  unfold Chunk.Covers
  rw [Chunk.stop_back (by omega), Chunk.stop_front (by omega)]
  dsimp only [Chunk.back, Chunk.front]
  omega

end gliner_window

section gliner_windows
variable {text : Text} {model : RemoteModel}

theorem overlap_lt_max (model : RemoteModel) : overlap_characters model < max_characters model := by
  unfold overlap_characters max_characters
  cases model.profile with
  | none => decide
  | some profile => exact profile.characters_progress

theorem cutFrom_window {offset size : Nat} (hoffset : offset < text.length) (hsize : 0 < size) :
    (Chunk.mk offset ((text.take (offset + size)).drop offset)).CutFrom text ∧
      (Chunk.mk offset ((text.take (offset + size)).drop offset)).stop = min (offset + size) text.length := by
  have htake : text.take (offset + size) = text.take (min (offset + size) text.length) := List.take_eq_take_min
  rw [htake]
  exact Chunk.cutFrom_slice (by omega) (by omega)

theorem windows_cutFrom : ∀ chunk ∈ gliner_windows text model, chunk.CutFrom text := by
  intro chunk hchunk
  have hlt := overlap_lt_max model
  obtain ⟨offset, hoffset, rfl⟩ := List.mem_map.mp hchunk
  have hrange := (windows.takeUntil_sublist _ _).subset hoffset
  exact (cutFrom_window ((windows.mem_range_iff (by omega)).mp hrange).1 (by omega)).1

/-- One of the initial windows holds every span that is one longer than their overlap. -/
theorem exists_window_covers (text : Text) (model : RemoteModel) {start stop : Nat} (hstart : start < text.length)
    (hstop : stop ≤ text.length) (hshort : stop ≤ start + overlap_characters model + 1) :
    ∃ chunk ∈ gliner_windows text model, chunk.Covers start stop := by
  have hlt := overlap_lt_max model
  have hstep : 0 < max_characters model - overlap_characters model := by omega
  generalize hsize : max_characters model = size at hlt hstep
  -- the last window that starts at or before the span, unless the text ended earlier
  have hbefore : start / (size - overlap_characters model) * (size - overlap_characters model) ≤ start :=
    Nat.div_mul_le_self _ _
  have hafter : start < start / (size - overlap_characters model) * (size - overlap_characters model) +
      (size - overlap_characters model) := Nat.lt_div_mul_add hstep
  generalize start / (size - overlap_characters model) = k at hbefore hafter
  have hmem : k * (size - overlap_characters model) ∈ windows.range text.length (size - overlap_characters model) :=
    (windows.mem_range_iff hstep).mpr ⟨by omega, Nat.dvd_mul_left _ k⟩
  have hvisited := windows.mem_takeUntil_or (p := fun offset => decide (text.length ≤ offset + size))
    (windows.range_pairwise _ hstep) hmem
  have hwindow : ∀ offset ∈ windows.takeUntil (fun offset => decide (text.length ≤ offset + size))
      (windows.range text.length (size - overlap_characters model)), offset ≤ start → stop ≤ offset + size →
      ∃ chunk ∈ gliner_windows text model, chunk.Covers start stop := by
    intro offset hoffset hle hstop'
    refine ⟨_, List.mem_map.mpr ⟨offset, by rw [hsize]; exact hoffset, rfl⟩, hle, ?_⟩
    rw [hsize, (cutFrom_window (by omega) (by omega)).2]
    omega
  cases hvisited with
  | inl hmem => exact hwindow _ hmem hbefore (by omega)
  | inr hstopped =>
    obtain ⟨last, hlast, hend, hlt⟩ := hstopped
    rw [decide_eq_true_eq] at hend
    exact hwindow last hlast (by omega) (by omega)

end gliner_windows

/-- Remote subdivision ends, loses nothing and returns no partial result. Every chunk sent is
    cut from the text. When the call returns, the chunks the server accepted cover every
    character, each span of at most 32 characters and of at most the overlap lies within one
    of them, and the matches are exactly their validated findings at their places. An answer
    that is neither findings nor the rejection of a chunk of more than 64 characters makes the
    call fail. -/
theorem gliner_matches_complete (text : Text) (model : RemoteModel) (transport : Transport) :
    (∀ chunk ∈ gliner_submitted text model transport, chunk.CutFrom text) ∧
    (∀ found, gliner_matches text model transport = .ok found →
      (∀ x < text.length, ∃ entry ∈ gliner_accepted text model transport, entry.1.Covers x (x + 1)) ∧
      (∀ start stop, start < stop → stop ≤ text.length →
        stop ≤ start + min (overlap_characters model) 32 →
        ∃ entry ∈ gliner_accepted text model transport, entry.1.Covers start stop) ∧
      found = (gliner_accepted text model transport).flatMap fun entry => entry.2.map (shift entry.1.offset)) ∧
    ∀ call chunk e, (gliner_submitted text model transport)[call]? = some chunk →
      gliner_answer model transport call chunk = .error e → (e = .input_too_large → chunk.length ≤ 64) →
      ∃ e', gliner_matches text model transport = .error e' := by
  refine ⟨?_, ?_, ?_⟩
  · refine forall_submitted (fun call chunk first second hfirst hsecond => split_cutFrom call chunk first second
      hfirst hsecond) ?_
    intro chunk hchunk
    exact windows_cutFrom chunk (List.mem_reverse.mp hchunk)
  · intro found h
    obtain ⟨accepted, hdrain, h⟩ := bind_eq_ok.mp h
    have haccepted : gliner_accepted text model transport = accepted := by
      rw [drain_eq_settled hdrain]
      exact List.filterMap_congr fun entry _ => (settled_gliner_window entry).symm
    rw [haccepted]
    have hcovers : ∀ start stop, start < text.length → stop ≤ text.length →
        stop ≤ start + min (overlap_characters model) 32 + 1 → ∃ entry ∈ accepted, entry.1.Covers start stop := by
      intro start stop hstart hstop hshort
      obtain ⟨window, hwindow, hcovered⟩ := exists_window_covers text model hstart hstop (by omega)
      exact drain_exists_result (split_covers (by omega)) hdrain (List.mem_reverse.mpr hwindow) hcovered
    refine ⟨?_, ?_, (Except.ok.inj h).symm⟩
    · intro x hx
      exact hcovers x (x + 1) hx (by omega) (by omega)
    · intro start stop hlt hstop hshort
      exact hcovers start stop (by omega) hstop (by omega)
  · intro call chunk e hchunk hanswer hfinal
    obtain ⟨e', hfail⟩ := gliner_window_eq_error hanswer hfinal
    refine ⟨e', bind_eq_error.mpr (Or.inl (drain_error_of_submitted hchunk ?_))⟩
    rwa [Nat.zero_add]

end pii_engine.ner
