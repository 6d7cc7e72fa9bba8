import PiiEngine.Ner.Tokens

open checked collections

namespace pii_engine.ner

/-- A chunk with its overlap, and the positions that it alone answers for. -/
structure OwnedChunk where
  chunk : Chunk
  owned_start : Nat
  owned_end : Nat

/-- Split baseline input below the limit of the pipeline with overlap and unique ownership. -/
def baseline_chunks (text : Text) (size overlap : Nat) : List OwnedChunk :=
  if text.length ≤ size then [⟨⟨0, text⟩, 0, text.length⟩]
  else (windows.range text.length size).map fun owned_start =>
    let owned_end := min text.length (owned_start + size)
    let chunk_start := owned_start - overlap
    let chunk_end := min text.length (owned_end + overlap)
    ⟨⟨chunk_start, (text.take chunk_end).drop chunk_start⟩, owned_start, owned_end⟩

/-- The midpoint of a result lies in the range that a chunk owns. -/
def OwnedChunk.owns (owned : OwnedChunk) (result : EntityMatch) : Bool :=
  (owned.owned_start : Int) ≤ (result.start + result.stop) / 2 ∧ (result.start + result.stop) / 2 < owned.owned_end

/-- The loop of the spaCy analyzer over the chunks of one language. The engine answers for
    each chunk with spans relative to it; entity names are normalized. -/
def baseline_results (normalize : String → String) (detect : Chunk → List EntityMatch) (text : Text)
    (size overlap : Nat) : List EntityMatch :=
  (baseline_chunks text size overlap).flatMap fun owned =>
    ((detect owned.chunk).map fun result =>
      shift owned.chunk.offset { result with entity_type := normalize result.entity_type }).filter owned.owns

/-- A result lies inside a chunk. -/
def Chunk.Holds (chunk : Chunk) (result : EntityMatch) : Prop :=
  (chunk.offset : Int) ≤ result.start ∧ result.stop ≤ chunk.stop

instance (chunk : Chunk) (result : EntityMatch) : Decidable (chunk.Holds result) := inferInstanceAs (Decidable (_ ∧ _))

/-- A result of the text, as it appears in a chunk. -/
def unshift (offset : Nat) (result : EntityMatch) : EntityMatch :=
  { result with start := result.start - offset, stop := result.stop - offset }

section baseline_chunks
variable {text : Text} {size overlap : Nat}

/-- What every baseline chunk is: a part of the text that reaches over its owned range by
    the overlap, as far as the text goes. -/
theorem baseline_chunks_spec (hsize : 0 < size) {owned : OwnedChunk} (h : owned ∈ baseline_chunks text size overlap) :
    owned.chunk.CutFrom text ∧ owned.owned_end ≤ text.length ∧ owned.owned_end ≤ owned.owned_start + size ∧
      owned.chunk.offset = owned.owned_start - overlap ∧
      owned.chunk.stop = min text.length (owned.owned_end + overlap) := by
  rw [baseline_chunks] at h
  split at h
  · next hshort =>
    rw [List.mem_singleton.mp h]
    refine ⟨⟨by simp [Chunk.length], by simp [Chunk.stop, Chunk.length]⟩, le_refl _, by simpa using hshort, by simp, ?_⟩
    simp [Chunk.stop, Chunk.length]
  · obtain ⟨owned_start, hstart, rfl⟩ := List.mem_map.mp h
    have hlt := ((windows.mem_range_iff hsize).mp hstart).1
    have hle : owned_start - overlap ≤ min text.length (min text.length (owned_start + size) + overlap) := by omega
    obtain ⟨hcut, hstop⟩ := Chunk.cutFrom_slice hle (Nat.min_le_left _ _)
    exact ⟨hcut, Nat.min_le_left _ _, Nat.min_le_right _ _, rfl, hstop⟩

/-- Every position of the text is owned by exactly one chunk. -/
theorem countP_owned (hsize : 0 < size) {x : Nat} (hx : x < text.length) :
    (baseline_chunks text size overlap).countP (fun owned => owned.owned_start ≤ x ∧ x < owned.owned_end) = 1 := by
  rw [baseline_chunks]
  split
  · simp [hx]
  · rw [List.countP_map]
    exact windows.countP_range hsize hx

end baseline_chunks

/-- A span whose midpoint a chunk owns lies inside the chunk. -/
theorem holds_of_owns {text : Text} {size overlap : Nat} (hsize : 0 < size) {owned : OwnedChunk}
    (howned : owned ∈ baseline_chunks text size overlap) {span : EntityMatch} (hwithin : span.SpanWithin text.length)
    (hwidth : span.stop - span.start ≤ 2 * overlap) (howns : owned.owns span = true) : owned.chunk.Holds span := by
  obtain ⟨-, -, -, hoffset, hstop⟩ := baseline_chunks_spec hsize howned
  obtain ⟨hlower, hlt, hupper⟩ := hwithin
  simp only [OwnedChunk.owns, decide_eq_true_eq] at howns
  rw [Chunk.Holds, hoffset, hstop]
  omega

/-- Exactly one chunk owns the midpoint of a span. -/
theorem countP_owns {text : Text} {size overlap : Nat} (hsize : 0 < size) {span : EntityMatch}
    (hwithin : span.SpanWithin text.length) :
    (baseline_chunks text size overlap).countP (fun owned => owned.owns span) = 1 := by
  obtain ⟨hlower, hlt, hupper⟩ := hwithin
  have hmidpoint : ((span.start + span.stop) / 2).toNat < text.length := by omega
  refine Eq.trans (List.countP_congr ?_) (countP_owned hsize hmidpoint)
  intro owned _
  simp only [OwnedChunk.owns, decide_eq_true_eq]
  omega

/-- A detector that reports in every chunk the spans inside it yields every span once, if
    none is wider than both overlaps together. The owned ranges share the positions of the
    text among the chunks. -/
theorem baseline_results_exact (normalize : String → String) (detect : Chunk → List EntityMatch) (text : Text)
    (size overlap : Nat) (spans : List EntityMatch) (hsize : 0 < size)
    (hspans : ∀ span ∈ spans, span.SpanWithin text.length ∧ span.stop - span.start ≤ 2 * overlap)
    (hdetect : ∀ owned ∈ baseline_chunks text size overlap, (detect owned.chunk).Perm
      ((spans.filter fun span => owned.chunk.Holds span).map (unshift owned.chunk.offset))) :
    (baseline_results normalize detect text size overlap).Perm
        (spans.map fun span => { span with entity_type := normalize span.entity_type }) ∧
      (∀ x < text.length, (baseline_chunks text size overlap).countP
        (fun owned => owned.owned_start ≤ x ∧ x < owned.owned_end) = 1) ∧
      ∀ owned ∈ baseline_chunks text size overlap, owned.owned_end ≤ text.length ∧
        owned.chunk.CutFrom text ∧ owned.chunk.length ≤ size + 2 * overlap := by
  refine ⟨?_, fun x hx => countP_owned hsize hx, ?_⟩
  · have hchunk : ∀ owned ∈ baseline_chunks text size overlap,
        (((detect owned.chunk).map fun result =>
          shift owned.chunk.offset { result with entity_type := normalize result.entity_type }).filter
            owned.owns).Perm ((spans.filter owned.owns).map fun span =>
              { span with entity_type := normalize span.entity_type }) := by
      intro owned howned
      refine (((hdetect owned howned).map _).filter _).trans (List.Perm.of_eq ?_)
      rw [List.map_map, List.filter_map, List.filter_filter]
      have hshift : ∀ span : EntityMatch, shift owned.chunk.offset
          { unshift owned.chunk.offset span with entity_type := normalize span.entity_type } =
            { span with entity_type := normalize span.entity_type } := by
        intro span
        simp [shift, unshift]
      have hfilter : ∀ span ∈ spans, (owned.owns (shift owned.chunk.offset
          { unshift owned.chunk.offset span with entity_type := normalize span.entity_type }) &&
            decide (owned.chunk.Holds span)) = owned.owns span := by
        intro span hspan
        rw [hshift]
        change (owned.owns span && _) = _
        by_cases howns : owned.owns span = true
        · obtain ⟨hwithin, hwidth⟩ := hspans span hspan
          rw [howns, decide_eq_true (holds_of_owns hsize howned hwithin hwidth howns)]
          rfl
        · rw [Bool.not_eq_true] at howns
          rw [howns, Bool.false_and]
      refine (congrArg _ (List.filter_congr hfilter)).trans (List.map_congr_left ?_)
      exact fun span _ => hshift span
    have hrun := List.Perm.flatMap_left _ hchunk
    rw [← List.map_flatMap] at hrun
    exact hrun.trans ((windows.flatMap_filter_perm fun span hspan => countP_owns hsize (hspans span hspan).1).map _)
  · intro owned howned
    obtain ⟨hcut, hend, hwidth, hoffset, hstop⟩ := baseline_chunks_spec hsize howned
    refine ⟨hend, hcut, ?_⟩
    have hlength : owned.chunk.stop = owned.chunk.offset + owned.chunk.length := rfl
    omega

def wide_spans : List EntityMatch :=
  [⟨"PERSON", 1, 3, some (1 / 2), "spacy"⟩, ⟨"GPE", 4, 5, some (1 / 2), "spacy"⟩]

/-- A span over the border of two owned ranges is found once. -/
theorem baseline_results_exact_border :
    (baseline_results id (fun chunk => (wide_spans.filter fun span => chunk.Holds span).map (unshift chunk.offset))
        "abcde".toList 2 1).Perm (wide_spans.map fun span => { span with entity_type := id span.entity_type }) ∧
      (∀ x < "abcde".toList.length, (baseline_chunks "abcde".toList 2 1).countP
        (fun owned => owned.owned_start ≤ x ∧ x < owned.owned_end) = 1) ∧
      ∀ owned ∈ baseline_chunks "abcde".toList 2 1, owned.owned_end ≤ "abcde".toList.length ∧
        owned.chunk.CutFrom "abcde".toList ∧ owned.chunk.length ≤ 2 + 2 * 1 :=
  baseline_results_exact id _ "abcde".toList 2 1 wide_spans (by decide) (by decide) fun _ _ => .refl _

/-- The windows of a tokenized text, one for each start that the loop reaches. -/
def chunk_windows (text : Text) (offsets : List (Nat × Nat)) (max_tokens : Nat) : List Nat → List Chunk
  | [] => []
  | start :: starts =>
    if (offsets.drop start).take max_tokens = [] then []
    else
      ⟨window_start offsets start, (text.take (window_stop text max_tokens offsets start)).drop
        (window_start offsets start)⟩ ::
        if offsets.length ≤ start + max_tokens then [] else chunk_windows text offsets max_tokens starts

/-- How far neighbouring windows overlap. -/
def chunk_overlap (max_tokens : Nat) : Nat := min 64 (max_tokens / 4)

/-- Cut a text into windows of at most as many tokens as the model takes, less 32. -/
def chunks (text : Text) (offset_mapping : List (Nat × Nat)) (model_max_length : Int) :
    Except AnalysisError (List Chunk) := do
  let offsets := offset_mapping.filter fun span => span.1 ≠ span.2
  let max_tokens := (min (model_max_length - 32) 480).toNat
  raiseIf (min (model_max_length - 32) 480 ≤ 0) (.value_error "model tokenizer context limit is invalid")
  if offsets.length ≤ max_tokens then return [⟨0, text⟩]
  return chunk_windows text offsets max_tokens
    (windows.range offsets.length (max_tokens - chunk_overlap max_tokens))

/-- Tokens inside a text, none of them empty, in order and without overlap. -/
structure TokensOf (text : Text) (offsets : List (Nat × Nat)) : Prop where
  inside : ∀ span ∈ offsets, span.1 < span.2 ∧ span.2 ≤ text.length
  ordered : offsets.Pairwise fun before after => before.2 ≤ after.1

/-- What the windows of a text are: parts of it that cover every character and every short
    run of tokens, in strict order, none with too many tokens. -/
structure WindowsOf (text : Text) (offsets : List (Nat × Nat)) (max_tokens : Nat) (found : List Chunk) : Prop where
  cut : ∀ chunk ∈ found, chunk.CutFrom text
  increasing : found.Pairwise fun before after => before.offset < after.offset
  covered : ∀ x < text.length, ∃ chunk ∈ found, chunk.Covers x (x + 1)
  bounded : ∀ chunk ∈ found,
    offsets.countP (fun span => chunk.offset ≤ span.1 ∧ span.1 < chunk.stop) ≤ max_tokens
  whole : ∀ before run after, offsets = before ++ run ++ after → run.length ≤ chunk_overlap max_tokens →
    ∃ chunk ∈ found, ∀ span ∈ run, chunk.Covers span.1 span.2

section chunk_windows
variable {text : Text} {offsets : List (Nat × Nat)} {max_tokens : Nat}

theorem chunk_windows_eq (hmax : 0 < max_tokens) {starts : List Nat}
    (hstarts : ∀ start ∈ starts, start < offsets.length) :
    chunk_windows text offsets max_tokens starts =
      (windows.takeUntil (fun start => offsets.length ≤ start + max_tokens) starts).map fun start =>
        ⟨window_start offsets start, (text.take (window_stop text max_tokens offsets start)).drop
          (window_start offsets start)⟩ := by
  induction starts with
  | nil => rfl
  | cons start starts ih =>
    have hne : (offsets.drop start).take max_tokens ≠ [] := by
      have := hstarts start (by simp)
      rw [← List.length_pos_iff, List.length_take, List.length_drop]
      omega
    rw [chunk_windows, if_neg hne, windows.takeUntil, List.map_cons,
      ih fun other hother => hstarts other (by simp [hother])]
    congr 1
    by_cases hlast : offsets.length ≤ start + max_tokens <;> simp [hlast]

theorem window_start_eq {index : Nat} (hpos : 0 < index) (hindex : index < offsets.length) :
    window_start offsets index = offsets[index].1 := by
  rw [window_start, if_neg (by omega), List.getD_eq_getElem _ _ (by simpa using hindex), List.getElem_map]

theorem window_stop_eq {window index : Nat} (hindex : index + window < offsets.length) :
    window_stop text window offsets index = offsets[index + window].1 := by
  rw [window_stop, if_neg (by omega), List.getD_eq_getElem _ _ (by simpa using hindex), List.getElem_map]

namespace TokensOf

theorem stop_le_start (h : TokensOf text offsets) {index later : Nat} (hlt : index < later)
    (hlater : later < offsets.length) : offsets[index].2 ≤ offsets[later].1 :=
  List.pairwise_iff_getElem.mp h.ordered index later (by omega) hlater hlt

theorem start_lt_stop (h : TokensOf text offsets) {index : Nat} (hindex : index < offsets.length) :
    offsets[index].1 < offsets[index].2 ∧ offsets[index].2 ≤ text.length :=
  h.inside _ (List.getElem_mem hindex)

theorem window_start_le (h : TokensOf text offsets) {start index : Nat} (hle : start ≤ index)
    (hindex : index < offsets.length) : window_start offsets start ≤ offsets[index].1 := by
  cases Nat.eq_zero_or_pos start with
  | inl hzero => simp [window_start, hzero]
  | inr hpos =>
    rw [window_start_eq hpos (by omega)]
    cases Nat.lt_or_eq_of_le hle with
    | inl hlt =>
      have hafter := h.stop_le_start hlt hindex
      have hspan := h.start_lt_stop (show start < offsets.length by omega)
      omega
    | inr heq => simp [heq]

theorem window_start_lt (h : TokensOf text offsets) {start later : Nat} (hlt : start < later)
    (hlater : later < offsets.length) : window_start offsets start < window_start offsets later := by
  rw [window_start_eq (by omega) hlater]
  have hle := h.window_start_le (le_refl start) (show start < offsets.length by omega)
  have hafter := h.stop_le_start hlt hlater
  have hspan := h.start_lt_stop (show start < offsets.length by omega)
  omega

/-- A window ends no earlier than the tokens before its limit. -/
theorem le_window_stop (h : TokensOf text offsets) {window start index : Nat} (hlt : index < start + window)
    (hindex : index < offsets.length) : offsets[index].2 ≤ window_stop text window offsets start := by
  by_cases hlast : start + window < offsets.length
  · rw [window_stop_eq hlast]
    exact h.stop_le_start hlt hlast
  · rw [window_stop, if_pos (by omega)]
    exact (h.start_lt_stop hindex).2

theorem window_cut (h : TokensOf text offsets) {window start : Nat} (hwindow : 0 < window)
    (hstart : start < offsets.length) :
    window_start offsets start ≤ window_stop text window offsets start ∧
      window_stop text window offsets start ≤ text.length := by
  have hle := h.window_start_le (le_refl start) hstart
  have hstop := h.le_window_stop (show start < start + window by omega) hstart
  have hspan := h.start_lt_stop hstart
  refine ⟨by omega, ?_⟩
  by_cases hlast : start + window < offsets.length
  · rw [window_stop_eq hlast]
    have := h.start_lt_stop hlast
    omega
  · rw [window_stop, if_pos (by omega)]

/-- The tokens that start in a window are those between its start and its limit. -/
theorem countP_window (h : TokensOf text offsets) {window start : Nat} (hstart : start < offsets.length) :
    offsets.countP (fun span => window_start offsets start ≤ span.1 ∧
      span.1 < window_stop text window offsets start) ≤ window := by
  have hbefore : (offsets.take start).countP (fun span => window_start offsets start ≤ span.1 ∧
      span.1 < window_stop text window offsets start) = 0 := by
    rw [List.countP_eq_zero]
    intro span hspan
    obtain ⟨index, hindex, rfl⟩ := List.mem_take_iff_getElem.mp hspan
    have hlt : index < start := by omega
    rw [window_start_eq (by omega) hstart, decide_eq_true_eq]
    have hspan := h.start_lt_stop (show index < offsets.length by omega)
    have hafter := h.stop_le_start hlt hstart
    omega
  have hafter : (offsets.drop (start + window)).countP (fun span => window_start offsets start ≤ span.1 ∧
      span.1 < window_stop text window offsets start) = 0 := by
    rw [List.countP_eq_zero]
    intro span hspan
    obtain ⟨index, hindex, rfl⟩ := List.mem_drop_iff_getElem.mp hspan
    rw [window_stop_eq (by omega), decide_eq_true_eq]
    cases Nat.eq_zero_or_pos index with
    | inl hzero =>
      subst hzero
      exact fun hboth => absurd hboth.2 (lt_irrefl _)
    | inr hpos =>
      have hlimit := h.start_lt_stop (show start + window < offsets.length by omega)
      have hlater := h.stop_le_start (show start + window < start + window + index by omega) (by omega)
      omega
  have hsplit :
      offsets = offsets.take start ++ ((offsets.drop start).take window ++ offsets.drop (start + window)) := by
    rw [← List.drop_drop, List.take_append_drop, List.take_append_drop]
  generalize (fun span : Nat × Nat => decide (window_start offsets start ≤ span.1 ∧
    span.1 < window_stop text window offsets start)) = starts at hbefore hafter ⊢
  have hcount := congrArg (List.countP starts) hsplit
  rw [List.countP_append, List.countP_append, hbefore, hafter, Nat.zero_add, Nat.add_zero] at hcount
  rw [hcount]
  exact List.countP_le_length.trans (List.length_take_le _ _)

/-- Neighbouring windows leave no gap. -/
theorem window_gapless (h : TokensOf text offsets) {window stride : Nat} (hstride : stride ≤ window) (start : Nat) :
    window_start offsets (start + stride) ≤ window_stop text window offsets start := by
  by_cases hlast : start + window < offsets.length
  · rw [window_stop_eq hlast]
    exact h.window_start_le (by omega) hlast
  · rw [window_stop, if_pos (by omega)]
    by_cases hnext : start + stride < offsets.length
    · have hle := h.window_start_le (le_refl (start + stride)) hnext
      have hspan := h.start_lt_stop hnext
      omega
    · unfold window_start
      split
      · exact Nat.zero_le _
      · rw [List.getD_eq_default _ _ (by simpa using hnext)]
        exact Nat.zero_le _

/-- The windows of a text with more tokens than fit into one of them. -/
theorem windowsOf (h : TokensOf text offsets) (hmax : 0 < max_tokens) (hlong : max_tokens < offsets.length) :
    WindowsOf text offsets max_tokens (chunk_windows text offsets max_tokens
      (windows.range offsets.length (max_tokens - chunk_overlap max_tokens))) := by
  have hoverlap : chunk_overlap max_tokens < max_tokens := by
    rw [chunk_overlap]
    omega
  have hstride : 0 < max_tokens - chunk_overlap max_tokens := by omega
  generalize hstep : max_tokens - chunk_overlap max_tokens = stride at hstride
  have hrange : ∀ start ∈ windows.range offsets.length stride, start < offsets.length :=
    fun start hstart => ((windows.mem_range_iff hstride).mp hstart).1
  rw [chunk_windows_eq hmax hrange]
  generalize hstops : (fun start => decide (offsets.length ≤ start + max_tokens)) = stops
  have hvisited := windows.takeUntil_sublist stops (windows.range offsets.length stride)
  have hstart : ∀ start ∈ windows.takeUntil stops (windows.range offsets.length stride), start < offsets.length :=
    fun start hmem => hrange start (hvisited.subset hmem)
  have hslice : ∀ start ∈ windows.takeUntil stops (windows.range offsets.length stride),
      (Chunk.mk (window_start offsets start) ((text.take (window_stop text max_tokens offsets start)).drop
        (window_start offsets start))).CutFrom text ∧
      (Chunk.mk (window_start offsets start) ((text.take (window_stop text max_tokens offsets start)).drop
        (window_start offsets start))).stop = window_stop text max_tokens offsets start := by
    intro start hmem
    obtain ⟨hle, hinside⟩ := h.window_cut hmax (hstart start hmem)
    exact Chunk.cutFrom_slice hle hinside
  have hne : windows.takeUntil stops (windows.range offsets.length stride) ≠ [] := by
    intro hnil
    have hhead := windows.head?_takeUntil stops (windows.range offsets.length stride)
    rw [hnil, windows.head?_range hstride (by omega)] at hhead
    cases hhead
  constructor
  · intro chunk hchunk
    obtain ⟨start, hmem, rfl⟩ := List.mem_map.mp hchunk
    exact (hslice start hmem).1
  · rw [List.pairwise_map]
    refine (List.Pairwise.and_mem.mp ((windows.range_pairwise _ hstride).sublist hvisited)).imp ?_
    rintro start later ⟨-, hlater, hlt⟩
    exact h.window_start_lt hlt (hstart later hlater)
  · intro x hx
    have hgapless : (windows.takeUntil stops (windows.range offsets.length stride)).IsChain fun start next =>
        window_start offsets next ≤ window_stop text max_tokens offsets start := by
      refine (windows.isChain_takeUntil (windows.range_isChain offsets.length stride)).imp ?_
      rintro start _ rfl
      exact h.window_gapless (by omega) start
    have hfirst : ∀ start ∈ (windows.takeUntil stops (windows.range offsets.length stride)).head?,
        window_start offsets start ≤ x := by
      intro start hhead
      rw [windows.head?_takeUntil, windows.head?_range hstride (by omega), Option.mem_some_iff] at hhead
      rw [← hhead, window_start, if_pos rfl]
      exact Nat.zero_le x
    have hlast : ∀ start ∈ (windows.takeUntil stops (windows.range offsets.length stride)).getLast?,
        x < window_stop text max_tokens offsets start := by
      intro start hlast
      have hfinal : offsets.length ≤ start + max_tokens := by
        cases windows.getLast?_takeUntil hlast with
        | inl hstop =>
          rw [← hstops] at hstop
          exact of_decide_eq_true hstop
        | inr hrange_last =>
          have := windows.getLast?_range hstride hrange_last
          omega
      rw [window_stop, if_pos hfinal]
      exact hx
    obtain ⟨start, hmem, hlower, hupper⟩ := windows.exists_cover hne hgapless hfirst hlast
    refine ⟨_, List.mem_map_of_mem hmem, hlower, ?_⟩
    rw [(hslice start hmem).2]
    exact hupper
  · intro chunk hchunk
    obtain ⟨start, hmem, rfl⟩ := List.mem_map.mp hchunk
    rw [(hslice start hmem).2]
    exact h.countP_window (hstart start hmem)
  · intro before run after hsplit hshort
    have hcount : offsets.length = before.length + run.length + after.length := by
      rw [hsplit, List.length_append, List.length_append]
    -- the last window that starts no later than the run, unless an earlier one is the last of all
    have hfloor : before.length / stride * stride ≤ before.length := Nat.div_mul_le_self _ _
    have hnext : before.length < before.length / stride * stride + stride := by
      have hmod := Nat.mod_lt before.length hstride
      have hdiv := Nat.div_add_mod' before.length stride
      omega
    have hpick : ∃ start ∈ windows.takeUntil stops (windows.range offsets.length stride), run ≠ [] →
        start ≤ before.length ∧ (before.length < start + stride ∨ offsets.length ≤ start + max_tokens) := by
      by_cases hend : before.length < offsets.length
      · have hmem : before.length / stride * stride ∈ windows.range offsets.length stride :=
          (windows.mem_range_iff hstride).mpr ⟨by omega, Nat.dvd_mul_left _ _⟩
        cases windows.mem_takeUntil_or (p := stops) (windows.range_pairwise offsets.length hstride) hmem with
        | inl hvisit => exact ⟨_, hvisit, fun _ => ⟨hfloor, Or.inl hnext⟩⟩
        | inr hstopped =>
          obtain ⟨last, hlast, hstop, hlt⟩ := hstopped
          rw [← hstops] at hstop
          exact ⟨last, hlast, fun _ => ⟨by omega, Or.inr (of_decide_eq_true hstop)⟩⟩
      · obtain ⟨start, hstart⟩ := List.exists_mem_of_ne_nil _ hne
        refine ⟨start, hstart, fun hrun => ?_⟩
        have := List.length_pos_iff.mpr hrun
        omega
    obtain ⟨start, hmem, hpick⟩ := hpick
    refine ⟨_, List.mem_map_of_mem hmem, ?_⟩
    intro span hspan
    obtain ⟨hle, hreach⟩ := hpick (List.ne_nil_of_mem hspan)
    obtain ⟨index, hindex, rfl⟩ := List.mem_iff_getElem.mp hspan
    have hget : run[index] = offsets[before.length + index] := by
      simp only [hsplit]
      rw [List.getElem_append_left (by rw [List.length_append]; omega), List.getElem_append_right (by omega)]
      congr 1
      omega
    rw [hget, Chunk.Covers, (hslice start hmem).2]
    refine ⟨h.window_start_le (by omega) (by omega), h.le_window_stop ?_ (by omega)⟩
    omega

end TokensOf

end chunk_windows

/-- Transformer windows cover the document: each one is a part of the text at its offset, the
    offsets increase, every character lies in a window, no window has more tokens start in it
    than the limit, and every short run of tokens lies wholly inside one. -/
theorem chunks_cover (text : Text) (offset_mapping : List (Nat × Nat)) (model_max_length : Int)
    (hlength : 32 < model_max_length)
    (htokens : TokensOf text (offset_mapping.filter fun span => span.1 ≠ span.2)) :
    ∃ found, chunks text offset_mapping model_max_length = .ok found ∧
      WindowsOf text (offset_mapping.filter fun span => span.1 ≠ span.2)
        (min (model_max_length - 32) 480).toNat found := by
  unfold chunks
  dsimp only
  generalize (offset_mapping.filter fun span => span.1 ≠ span.2) = offsets at htokens ⊢
  have hpositive : ¬ min (model_max_length - 32) 480 ≤ 0 := by omega
  have hmax : 0 < (min (model_max_length - 32) 480).toNat := by omega
  generalize (min (model_max_length - 32) 480).toNat = max_tokens at hmax ⊢
  by_cases hshort : offsets.length ≤ max_tokens
  · refine ⟨[⟨0, text⟩], raiseIf_bind_eq_ok.mpr ⟨hpositive, if_pos hshort⟩, ?_⟩
    constructor
    · simp [Chunk.CutFrom, Chunk.length, Chunk.stop]
    · simp
    · intro x hx
      exact ⟨⟨0, text⟩, by simp, Nat.zero_le x, by simpa [Chunk.stop, Chunk.length] using hx⟩
    · intro chunk _
      exact List.countP_le_length.trans hshort
    · intro before run after hsplit _
      refine ⟨⟨0, text⟩, by simp, ?_⟩
      intro span hspan
      refine ⟨Nat.zero_le _, ?_⟩
      simpa [Chunk.stop, Chunk.length] using (htokens.inside span (by simp [hsplit, hspan])).2
  · exact ⟨_, raiseIf_bind_eq_ok.mpr ⟨hpositive, if_neg hshort⟩, htokens.windowsOf hmax (by omega)⟩

/-- Twenty-five tokens with a blank around each, for a model of forty tokens. -/
def blank_offsets : List (Nat × Nat) := (List.range 25).map fun index => (2 * index + 2, 2 * index + 3)

theorem chunks_cover_blanks :
    ∃ found, chunks (List.replicate 54 ' ') blank_offsets 40 = .ok found ∧
      WindowsOf (List.replicate 54 ' ') (blank_offsets.filter fun span => span.1 ≠ span.2)
        (min (40 - 32) 480 : Int).toNat found :=
  chunks_cover (List.replicate 54 ' ') blank_offsets 40 (by decide) ⟨by decide, by decide⟩

end pii_engine.ner
