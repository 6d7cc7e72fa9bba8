import Mathlib.Data.List.GetD
import PiiEngine.Lib.Windows
import PiiEngine.Lib.Worklist
import PiiEngine.Ner.Model

open checked collections worklist

namespace pii_engine.ner

/-- What a tokenizer makes of a text: the token ids and the characters each one covers. -/
structure Encoding where
  input_ids : List Nat
  offset_mapping : List (Nat × Nat)

/-- The tokens that cover at least one character. -/
def Encoding.offsets (encoded : Encoding) : List (Nat × Nat) :=
  encoded.offset_mapping.filter fun span => span.1 < span.2

/-- A tokenizer keeps its offsets inside the text, the non-empty ones in the order of their
    starts. How many tokens it makes of a part of a text is not related to those of the whole. -/
structure Tokenizer where
  encode : Bool → Text → Encoding
  inside : ∀ add_special_tokens text, ∀ span ∈ (encode add_special_tokens text).offset_mapping,
    span.1 ≤ text.length ∧ span.2 ≤ text.length
  ordered : ∀ add_special_tokens text,
    ((encode add_special_tokens text).offsets.map Prod.fst).Pairwise (· ≤ ·)

def window_tokens (profile : Option ModelProfile) : Nat :=
  match profile with
  | some profile => profile.window_tokens
  | none => 448

def overlap_tokens (profile : Option ModelProfile) : Nat :=
  match profile with
  | some profile => profile.overlap_tokens
  | none => 64

def max_tokens (profile : Option ModelProfile) : Nat :=
  match profile with
  | some profile => profile.max_tokens.getD 512
  | none => 512

theorem overlap_lt_window (profile : Option ModelProfile) : overlap_tokens profile < window_tokens profile := by
  cases profile with
  | none => decide
  | some profile => exact profile.tokens_progress

/-- Where the window of a token index starts. The first one includes what precedes its token. -/
def window_start (offsets : List (Nat × Nat)) (index : Nat) : Nat :=
  if index = 0 then 0 else (offsets.map Prod.fst).getD index 0

/-- Where the window of a token index ends. The last one includes what follows its tokens. -/
def window_stop (text : Text) (window : Nat) (offsets : List (Nat × Nat)) (index : Nat) : Nat :=
  if offsets.length ≤ index + window then text.length else (offsets.map Prod.fst).getD (index + window) 0

/-- The windows cut by token index, before any of them is tokenized again. -/
def token_windows (text : Text) (tokenizer : Tokenizer) (profile : Option ModelProfile) : List Chunk :=
  let offsets := (tokenizer.encode false text).offsets
  let window := window_tokens profile
  if offsets = [] then [⟨0, text⟩]
  else (windows.takeUntil (fun index => window_stop text window offsets index = text.length)
    (windows.range offsets.length (window - overlap_tokens profile))).map fun index =>
      ⟨window_start offsets index,
        (text.take (window_stop text window offsets index)).drop (window_start offsets index)⟩

/-- Keep a chunk within the token limit. A larger one is replaced by the part before its
    boundary and the part from 64 characters before it, the first of which is handled next. -/
def token_window (tokenizer : Tokenizer) (profile : Option ModelProfile) :
    Handler RemoteError Chunk.length Unit := fun _ chunk =>
  let encoded := tokenizer.encode true chunk.text
  if encoded.input_ids.length ≤ max_tokens profile then .ok (.done ())
  else
    let ends := encoded.offsets.map Prod.snd
    match ends[min (window_tokens profile) (ends.length - 1)]? with
    | none => .error .index_error
    | some boundary =>
      if h : boundary ≤ 64 ∨ chunk.length ≤ boundary then
        .error (.remote_analysis_error "tokenizer cannot produce bounded complete chunks")
      else .ok (.split (chunk.front boundary) (chunk.back (boundary - 64))
        (by rw [Chunk.length_front (by omega)]; omega)
        (by rw [Chunk.length_back]; omega))

/-- Cover all characters with overlapping windows, rechecking retokenized sizes. -/
def token_chunks (text : Text) (tokenizer : Tokenizer) (profile : Option ModelProfile) :
    Except RemoteError (List Chunk) := do
  let chunks ← drain (token_window tokenizer profile) 0 (token_windows text tokenizer profile)
  pure (chunks.map Prod.fst)

section token_window
variable {tokenizer : Tokenizer} {profile : Option ModelProfile} {call : Nat} {chunk : Chunk}

theorem token_window_eq_done (h : token_window tokenizer profile call chunk = .ok (.done ())) :
    (tokenizer.encode true chunk.text).input_ids.length ≤ max_tokens profile := by
  dsimp only [token_window] at h
  split at h
  · assumption
  · split at h
    · cases h
    · split at h <;> cases h

theorem token_window_eq_split {first second : Chunk} {hfirst : first.length < chunk.length}
    {hsecond : second.length < chunk.length}
    (h : token_window tokenizer profile call chunk = .ok (.split first second hfirst hsecond)) :
    ∃ boundary, 64 < boundary ∧ boundary < chunk.length ∧ first = chunk.front boundary ∧
      second = chunk.back (boundary - 64) := by
  dsimp only [token_window] at h
  split at h
  · cases h
  · split at h
    · cases h
    · next boundary _ =>
      split at h
      · cases h
      · next hbounds =>
        rw [Except.ok.injEq, Handled.split.injEq] at h
        exact ⟨boundary, by omega, by omega, h.1.symm, h.2.symm⟩

theorem token_split_cutFrom {text : Text} (call : Nat) (chunk first second : Chunk)
    (hfirst : first.length < chunk.length) (hsecond : second.length < chunk.length) (hcut : chunk.CutFrom text)
    (h : token_window tokenizer profile call chunk = .ok (.split first second hfirst hsecond)) :
    first.CutFrom text ∧ second.CutFrom text := by
  obtain ⟨boundary, hboundary, hlength, rfl, rfl⟩ := token_window_eq_split h
  exact ⟨hcut.front (by omega), hcut.back (by omega)⟩

end token_window

/-- Chunks stand in the place of one window: from its start to its end without a gap, and in
    the order of their starts. -/
structure Tiles (window : Chunk) (chunks : List Chunk) : Prop where
  nonempty : chunks ≠ []
  first : ∀ chunk ∈ chunks.head?, chunk.offset = window.offset
  last : ∀ chunk ∈ chunks.getLast?, chunk.stop = window.stop
  gapless : chunks.IsChain fun before after => after.offset ≤ before.stop
  inside : ∀ chunk ∈ chunks, window.Covers chunk.offset chunk.stop
  ordered : chunks.Pairwise fun before after => before.offset ≤ after.offset
  early : ∀ chunk ∈ chunks, chunk.offset = window.offset ∨ chunk.offset + 64 ≤ window.stop

theorem Tiles.single (window : Chunk) : Tiles window [window] := by
  refine ⟨by simp, ?_, ?_, by simp, ?_, by simp, ?_⟩ <;> simp [Chunk.Covers]

/-- The parts of a window overlap by 64 characters, and no part of the first starts in there. -/
theorem Tiles.append {window : Chunk} {boundary : Nat} {front back : List Chunk} (hboundary : 64 < boundary)
    (hlength : boundary < window.length) (hfront : Tiles (window.front boundary) front)
    (hback : Tiles (window.back (boundary - 64)) back) : Tiles window (front ++ back) := by
  have hfront_stop : (window.front boundary).stop = window.offset + boundary := Chunk.stop_front (by omega)
  have hback_stop : (window.back (boundary - 64)).stop = window.stop := Chunk.stop_back (by omega)
  have hfront_offset : (window.front boundary).offset = window.offset := rfl
  have hback_offset : (window.back (boundary - 64)).offset = window.offset + (boundary - 64) := rfl
  have hstop : window.stop = window.offset + window.length := rfl
  have hinside : ∀ chunk ∈ front, window.offset ≤ chunk.offset ∧ chunk.stop ≤ window.offset + boundary :=
    fun chunk hchunk => hfront_stop ▸ hfront.inside chunk hchunk
  have hinside' : ∀ chunk ∈ back, window.offset + (boundary - 64) ≤ chunk.offset ∧ chunk.stop ≤ window.stop :=
    fun chunk hchunk => hback_stop ▸ hback.inside chunk hchunk
  constructor
  · exact List.append_ne_nil_of_left_ne_nil hfront.nonempty back
  · rw [List.head?_append_of_ne_nil _ hfront.nonempty]
    exact hfront.first
  · rw [List.getLast?_append_of_ne_nil _ hback.nonempty, ← hback_stop]
    exact hback.last
  · refine List.isChain_append.mpr ⟨hfront.gapless, hback.gapless, ?_⟩
    intro before hbefore after hafter
    rw [hfront.last before hbefore, hback.first after hafter, hfront_stop, hback_offset]
    omega
  · intro chunk hchunk
    cases List.mem_append.mp hchunk with
    | inl hmem =>
      have := hinside chunk hmem
      exact ⟨this.1, by omega⟩
    | inr hmem =>
      have := hinside' chunk hmem
      exact ⟨by omega, this.2⟩
  · refine List.pairwise_append.mpr ⟨hfront.ordered, hback.ordered, ?_⟩
    intro before hbefore after hafter
    have hafter := hinside' after hafter
    cases hfront.early before hbefore with
    | inl heq => omega
    | inr hearly => omega
  · intro chunk hchunk
    cases List.mem_append.mp hchunk with
    | inl hmem =>
      cases hfront.early chunk hmem with
      | inl heq => exact Or.inl heq
      | inr hearly => exact Or.inr (by omega)
    | inr hmem =>
      cases hback.early chunk hmem with
      | inl heq => exact Or.inr (by omega)
      | inr hearly => exact Or.inr (by omega)

theorem tiles_of_subdivided {tokenizer : Tokenizer} {profile : Option ModelProfile} {call next : Nat}
    {window : Chunk} {chunks : List (Chunk × Unit)}
    (h : Subdivided (token_window tokenizer profile) call window chunks next) :
    Tiles window (chunks.map Prod.fst) := by
  induction h with
  | done _ => exact Tiles.single _
  | split hsplit _ _ ihfirst ihsecond =>
    obtain ⟨boundary, hboundary, hlength, rfl, rfl⟩ := token_window_eq_split hsplit
    rw [List.map_append]
    exact ihfirst.append hboundary hlength ihsecond

theorem flatten_ne_nil {windows : List Chunk} {groups : List (List Chunk)} (h : List.Forall₂ Tiles windows groups)
    (hne : windows ≠ []) : groups.flatten ≠ [] := by
  cases h with
  | nil => exact absurd rfl hne
  | cons htiles _ =>
    rw [List.flatten_cons]
    exact List.append_ne_nil_of_left_ne_nil htiles.nonempty _

/-- Windows without gaps, each tiled by its chunks, are tiled together. -/
theorem tiles_flatten {windows : List Chunk} {groups : List (List Chunk)} (h : List.Forall₂ Tiles windows groups)
    (hgapless : windows.IsChain fun before after => after.offset ≤ before.stop) :
    groups.flatten.IsChain (fun before after => after.offset ≤ before.stop) ∧
      (∀ chunk ∈ groups.flatten.head?, ∃ window ∈ windows.head?, chunk.offset = window.offset) ∧
      ∀ chunk ∈ groups.flatten.getLast?, ∃ window ∈ windows.getLast?, chunk.stop = window.stop := by
  induction h with
  | nil => simp
  | @cons window group windows groups htiles hrest ih =>
    rw [List.isChain_cons] at hgapless
    obtain ⟨hchain, hhead, hlast⟩ := ih hgapless.2
    rw [List.flatten_cons]
    refine ⟨?_, ?_, ?_⟩
    · refine List.isChain_append.mpr ⟨htiles.gapless, hchain, ?_⟩
      intro before hbefore after hafter
      obtain ⟨next, hnext, hoffset⟩ := hhead after hafter
      rw [htiles.last before hbefore, hoffset]
      exact hgapless.1 next hnext
    · rw [List.head?_append_of_ne_nil _ htiles.nonempty]
      intro chunk hchunk
      exact ⟨window, rfl, htiles.first chunk hchunk⟩
    · cases hrest with
      | nil =>
        intro chunk hchunk
        exact ⟨window, rfl, htiles.last chunk (by simpa using hchunk)⟩
      | @cons second group' windows groups htiles' hrest =>
        have hne : (group' :: groups).flatten ≠ [] := flatten_ne_nil (.cons htiles' hrest) (by simp)
        rw [List.getLast?_append_of_ne_nil _ hne, List.getLast?_cons_cons]
        exact hlast

section token_windows
variable (text : Text) (tokenizer : Tokenizer) (profile : Option ModelProfile)

theorem getD_offsets_le (index : Nat) :
    ((tokenizer.encode false text).offsets.map Prod.fst).getD index 0 ≤ text.length := by
  rw [List.getD_eq_getElem?_getD, List.getElem?_map]
  cases hspan : (tokenizer.encode false text).offsets[index]? with
  | none => exact Nat.zero_le _
  | some span => exact (tokenizer.inside false text span (List.mem_filter.mp (List.mem_of_getElem? hspan)).1).1

theorem getD_offsets_mono {index later : Nat} (hle : index ≤ later)
    (hlater : later < (tokenizer.encode false text).offsets.length) :
    ((tokenizer.encode false text).offsets.map Prod.fst).getD index 0 ≤
      ((tokenizer.encode false text).offsets.map Prod.fst).getD later 0 := by
  have hordered := tokenizer.ordered false text
  generalize hstarts : (tokenizer.encode false text).offsets.map Prod.fst = starts at hordered
  have hlength : starts.length = (tokenizer.encode false text).offsets.length := by rw [← hstarts, List.length_map]
  rw [List.getD_eq_getElem _ _ (by omega), List.getD_eq_getElem _ _ (by omega)]
  cases Nat.lt_or_eq_of_le hle with
  | inl hlt => exact List.pairwise_iff_getElem.mp hordered index later (by omega) (by omega) hlt
  | inr heq => simp [heq]

theorem window_start_le_stop (window index : Nat) :
    window_start (tokenizer.encode false text).offsets index ≤
      window_stop text window (tokenizer.encode false text).offsets index ∧
    window_stop text window (tokenizer.encode false text).offsets index ≤ text.length := by
  unfold window_start window_stop
  split
  · split
    · omega
    · exact ⟨Nat.zero_le _, getD_offsets_le text tokenizer _⟩
  · split
    · exact ⟨getD_offsets_le text tokenizer _, Nat.le_refl _⟩
    · exact ⟨getD_offsets_mono text tokenizer (by omega) (by omega), getD_offsets_le text tokenizer _⟩

/-- The initial windows lie in the text, follow each other without a gap from its start to
    its end, and are in the order of their starts. -/
structure Windowed (windows : List Chunk) : Prop where
  nonempty : windows ≠ []
  cut : ∀ window ∈ windows, window.CutFrom text
  first : ∀ window ∈ windows.head?, window.offset = 0
  last : ∀ window ∈ windows.getLast?, window.stop = text.length
  gapless : windows.IsChain fun before after => after.offset ≤ before.stop
  ordered : windows.Pairwise fun before after => before.offset ≤ after.offset

theorem token_windows_windowed : Windowed text (token_windows text tokenizer profile) := by
  dsimp only [token_windows]
  have hlt := overlap_lt_window profile
  have hstep : 0 < window_tokens profile - overlap_tokens profile := by omega
  generalize window_tokens profile = window at hlt hstep
  generalize overlap_tokens profile = overlap at hlt hstep
  have hbounds := window_start_le_stop text tokenizer window
  split
  · refine ⟨by simp, ?_, ?_, ?_, by simp, by simp⟩ <;> simp [Chunk.CutFrom, Chunk.length, Chunk.stop]
  · next hoffsets =>
    have hcount : 0 < (tokenizer.encode false text).offsets.length := List.length_pos_iff.mpr hoffsets
    have hmono := @getD_offsets_mono text tokenizer
    generalize (tokenizer.encode false text).offsets = offsets at hcount hbounds hmono
    generalize hstops : (fun index => decide (window_stop text window offsets index = text.length)) = stops
    have hhead := windows.head?_takeUntil stops (windows.range offsets.length (window - overlap))
    have hvisited := windows.takeUntil_sublist stops (windows.range offsets.length (window - overlap))
    have hlast : ∀ last ∈ (windows.takeUntil stops (windows.range offsets.length (window - overlap))).getLast?,
        window_stop text window offsets last = text.length := by
      intro last hlast
      cases windows.getLast?_takeUntil hlast with
      | inl hstop =>
        rw [← hstops] at hstop
        exact of_decide_eq_true hstop
      | inr hrange =>
        have := windows.getLast?_range hstep hrange
        exact if_pos (by omega)
    have hchain := windows.isChain_takeUntil (p := stops)
      (windows.range_isChain offsets.length (window - overlap))
    rw [windows.head?_range hstep hcount] at hhead
    generalize windows.takeUntil stops (windows.range offsets.length (window - overlap)) = indices at *
    have hstop : ∀ index, (Chunk.mk (window_start offsets index)
        ((text.take (window_stop text window offsets index)).drop (window_start offsets index))).stop =
        window_stop text window offsets index :=
          fun index => (Chunk.cutFrom_slice (hbounds index).1 (hbounds index).2).2
    refine ⟨?_, ?_, ?_, ?_, ?_, ?_⟩
    · intro hnil
      rw [List.map_eq_nil_iff] at hnil
      rw [hnil] at hhead
      cases hhead
    · intro chunk hchunk
      obtain ⟨index, -, rfl⟩ := List.mem_map.mp hchunk
      exact (Chunk.cutFrom_slice (hbounds index).1 (hbounds index).2).1
    · intro chunk hchunk
      rw [List.head?_map, hhead, Option.map_some, Option.mem_some_iff] at hchunk
      rw [← hchunk]
      rfl
    · intro chunk hchunk
      rw [List.getLast?_map, Option.mem_map] at hchunk
      obtain ⟨last, hmem, rfl⟩ := hchunk
      rw [hstop, hlast last hmem]
    · rw [List.isChain_map]
      refine hchain.imp ?_
      intro index next hnext
      rw [hstop, hnext]
      dsimp only
      unfold window_stop
      split
      · exact (hbounds _).1.trans (hbounds _).2
      · rw [window_start, if_neg (by omega)]
        exact hmono (by omega) (by omega)
    · rw [List.pairwise_map]
      refine ((windows.range_pairwise _ hstep).sublist hvisited).imp_of_mem ?_
      intro index later _ hlater hlt
      have hlater := ((windows.mem_range_iff hstep).mp (hvisited.subset hlater)).1
      rw [window_start, window_start]
      split
      · exact Nat.zero_le _
      · rw [if_neg (by omega)]
        exact hmono (by omega) hlater

end token_windows

/-- Token windows end, fit the limit and cover the text. When the call returns, every chunk is
    cut from the text and tokenizes to at most the limit, the chunks follow each other without
    a gap from the start of the text to its end, and the chunks of each initial window are in
    the order of their starts. -/
theorem token_chunks_cover (text : Text) (tokenizer : Tokenizer) (profile : Option ModelProfile)
    (chunks : List Chunk) (h : token_chunks text tokenizer profile = .ok chunks) :
    (∀ chunk ∈ chunks, chunk.CutFrom text ∧
      (tokenizer.encode true chunk.text).input_ids.length ≤ max_tokens profile) ∧
    chunks.IsChain (fun before after => after.offset ≤ before.stop) ∧
    (∀ x < text.length, ∃ chunk ∈ chunks, chunk.Covers x (x + 1)) ∧
    ∃ groups : List (List Chunk), chunks = groups.flatten ∧
      List.Forall₂ Tiles (token_windows text tokenizer profile) groups ∧
      (token_windows text tokenizer profile).Pairwise fun before after => before.offset ≤ after.offset := by
  obtain ⟨results, hdrain, h⟩ := bind_eq_ok.mp h
  have hwindowed := token_windows_windowed text tokenizer profile
  obtain ⟨groups, rfl, hgroups⟩ := drain_groups hdrain
  have hflatten : chunks = (groups.map (List.map Prod.fst)).flatten := by
    rw [← Except.ok.inj h, List.map_flatten]
  have htiles : List.Forall₂ Tiles (token_windows text tokenizer profile) (groups.map (List.map Prod.fst)) := by
    rw [List.forall₂_map_right_iff]
    refine hgroups.imp ?_
    rintro window group ⟨call, next, hsubdivided⟩
    exact tiles_of_subdivided hsubdivided
  obtain ⟨hgapless, hhead, hlast⟩ := tiles_flatten htiles hwindowed.gapless
  rw [← hflatten] at hgapless hhead hlast
  refine ⟨?_, hgapless, ?_, groups.map (List.map Prod.fst), hflatten, htiles, hwindowed.ordered⟩
  · intro chunk hchunk
    rw [← Except.ok.inj h, List.map_flatten, List.mem_flatten] at hchunk
    obtain ⟨mapped, hmapped, hchunk⟩ := hchunk
    obtain ⟨group, hgroup, rfl⟩ := List.mem_map.mp hmapped
    obtain ⟨entry, hentry, rfl⟩ := List.mem_map.mp hchunk
    obtain ⟨window, hwindow, call, next, hsubdivided⟩ := exists_left_of_forall₂ hgroups hgroup
    obtain ⟨hcut, call, hdone⟩ :=
      hsubdivided.forall_results token_split_cutFrom (hwindowed.cut window hwindow) entry hentry
    exact ⟨hcut, token_window_eq_done hdone⟩
  · intro x hx
    have hne : chunks ≠ [] := hflatten ▸ flatten_ne_nil htiles hwindowed.nonempty
    refine windows.exists_cover hne hgapless ?_ ?_
    · intro chunk hchunk
      obtain ⟨window, hwindow, hoffset⟩ := hhead chunk hchunk
      rw [hoffset, hwindowed.first window hwindow]
      exact Nat.zero_le x
    · intro chunk hchunk
      obtain ⟨window, hwindow, hstop⟩ := hlast chunk hchunk
      rw [hstop, hwindowed.last window hwindow]
      exact hx

/-- A tokenizer that needs four tokens for the first window of `spread_text`. -/
def spread_tokenizer : Tokenizer where
  encode add_special_tokens text :=
    if add_special_tokens = false then
      ⟨[5, 6, 7], if text.length = 80 then [(0, 1), (1, 70), (70, 80)] else []⟩
    else if text.length = 70 then ⟨[1, 2, 3, 4], [(0, 10), (10, 40), (40, 67), (67, 70)]⟩
    else ⟨[1], [(0, text.length)]⟩
  inside := by
    intro add_special_tokens text span hspan
    split at hspan
    · split at hspan
      · simp only [List.mem_cons, List.not_mem_nil, or_false] at hspan
        rcases hspan with rfl | rfl | rfl <;> omega
      · cases hspan
    · split at hspan
      · simp only [List.mem_cons, List.not_mem_nil, or_false] at hspan
        rcases hspan with rfl | rfl | rfl | rfl <;> omega
      · rw [List.mem_singleton.mp hspan]
        exact ⟨Nat.zero_le _, Nat.le_refl _⟩
  ordered := by
    intro add_special_tokens text
    split
    · dsimp only [Encoding.offsets]
      split
      · decide
      · exact .nil
    · split
      · decide
      · exact (List.pairwise_singleton _ 0).sublist (List.filter_sublist.map Prod.fst)

def spread_profile : ModelProfile :=
  { max_characters := 100, overlap_characters := 0, max_tokens := some 3, window_tokens := 2, overlap_tokens := 1 }

def spread_text : Text := List.replicate 80 'a'

private theorem token_chunks_spread : token_chunks spread_text spread_tokenizer (some spread_profile) =
    .ok [⟨0, List.replicate 67 'a'⟩, ⟨3, List.replicate 67 'a'⟩, ⟨1, List.replicate 79 'a'⟩] := by
  have hwindows : token_windows spread_text spread_tokenizer (some spread_profile) =
      [⟨0, List.replicate 70 'a'⟩, ⟨1, List.replicate 79 'a'⟩] := by decide
  have hsplit : token_window spread_tokenizer (some spread_profile) 0 ⟨0, List.replicate 70 'a'⟩ =
      .ok (.split (Chunk.front ⟨0, List.replicate 70 'a'⟩ 67) (Chunk.back ⟨0, List.replicate 70 'a'⟩ 3)
        (by decide) (by decide)) := by rfl
  have hdone : ∀ call chunk, chunk.length ≠ 70 →
      token_window spread_tokenizer (some spread_profile) call chunk = .ok (.done ()) := by
    intro call chunk hlength
    rw [Chunk.length] at hlength
    have hids : (spread_tokenizer.encode true chunk.text).input_ids.length = 1 := by
      dsimp only [spread_tokenizer]
      rw [if_neg (by decide), if_neg hlength]
      rfl
    dsimp only [token_window]
    rw [if_pos (by rw [hids]; decide)]
  unfold token_chunks
  rw [hwindows, drain_split hsplit, drain_done (hdone _ _ (by decide)), drain_done (hdone _ _ (by decide)),
    drain_done (hdone _ _ (by decide)), drain_nil]
  rfl

/-- The first window is split where the second one has already started, so that the chunks
    are not in the order of their starts. -/
theorem token_chunks_steps_back : ∃ chunks,
    token_chunks spread_text spread_tokenizer (some spread_profile) = .ok chunks ∧
      ¬ chunks.Pairwise fun before after => before.offset ≤ after.offset :=
  ⟨_, token_chunks_spread, by decide⟩

/-- The chunks still cover the text. -/
theorem token_chunks_cover_spread :
    (∀ chunk ∈ [Chunk.mk 0 (List.replicate 67 'a'), ⟨3, List.replicate 67 'a'⟩, ⟨1, List.replicate 79 'a'⟩],
      chunk.CutFrom spread_text ∧
        (spread_tokenizer.encode true chunk.text).input_ids.length ≤ max_tokens (some spread_profile)) ∧
    [Chunk.mk 0 (List.replicate 67 'a'), ⟨3, List.replicate 67 'a'⟩, ⟨1, List.replicate 79 'a'⟩].IsChain
      (fun before after => after.offset ≤ before.stop) ∧
    (∀ x < spread_text.length, ∃ chunk ∈
      [Chunk.mk 0 (List.replicate 67 'a'), ⟨3, List.replicate 67 'a'⟩, ⟨1, List.replicate 79 'a'⟩],
      chunk.Covers x (x + 1)) ∧
    ∃ groups : List (List Chunk),
      [Chunk.mk 0 (List.replicate 67 'a'), ⟨3, List.replicate 67 'a'⟩, ⟨1, List.replicate 79 'a'⟩] = groups.flatten ∧
      List.Forall₂ Tiles (token_windows spread_text spread_tokenizer (some spread_profile)) groups ∧
      (token_windows spread_text spread_tokenizer (some spread_profile)).Pairwise
        fun before after => before.offset ≤ after.offset :=
  token_chunks_cover spread_text spread_tokenizer (some spread_profile) _ token_chunks_spread

end pii_engine.ner
