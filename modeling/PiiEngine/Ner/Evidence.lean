import PiiEngine.Ner.Labels

open checked collections

namespace pii_engine.ner

namespace Token
variable {model : RemoteModel} {done : List Token} {s : Decoded} {token : Token}

/-- Tokens in order that do not overlap, among those that cover a character. -/
def Ordered (tokens : List Token) : Prop :=
  (tokens.filter fun token => token.start ≠ token.stop).Pairwise fun before after => before.stop ≤ after.start

theorem entity_congr {first : Token} (h : token.suffix = first.suffix) : token.entity model = first.entity model := by
  rw [entity, entity, h]

/-- The loop's raw label and last match, in terms of the tokens read so far. -/
structure Tracks (model : RemoteModel) (done : List Token) (s : Decoded) : Prop where
  labelled : ∀ before ∈ done.getLast?, before.Labelled → s.previous = before.label
  unlabelled : (∀ before ∈ done.getLast?, ¬ before.Labelled) → s.previous = "O"
  last : s.found.getLast?.map EntityMatch.entity_type =
    (done.filter (·.Labelled)).getLast?.map (Token.entity model)
  stop : ∀ item ∈ s.found.getLast?, ∃ before ∈ done, before.start ≠ before.stop ∧ item.stop = before.stop

/-- The match that one labelled token adds, or the last match extended by it. -/
def created (model : RemoteModel) (token : Token) : EntityMatch :=
  ⟨token.entity model, token.start, token.stop, some token.score, model.name⟩

def extended (model : RemoteModel) (last : EntityMatch) (token : Token) : EntityMatch :=
  ⟨token.entity model, last.start, token.stop, some (max (last.score.getD 0) token.score), model.name⟩

theorem read_unlabelled (h : ¬ token.Labelled) : token.read model s = { s with previous := "O" } := if_neg h

/-- A labelled token is added to the matches or extends the last one. -/
theorem read_labelled (model : RemoteModel) (s : Decoded) (h : token.Labelled) :
    (token.read model s).previous = token.label ∧
    ((token.read model s).found = s.found ++ [created model token] ∨
      ∃ last ∈ s.found.getLast?, last.stop ≤ token.start ∧ last.entity_type = token.entity model ∧
        (token.read model s).found = s.found.dropLast ++ [extended model last token]) := by
  rw [read, if_pos h]
  unfold add_evidence
  cases hlast : s.found.getLast? with
  | none => exact ⟨rfl, Or.inl rfl⟩
  | some last =>
    dsimp only
    split
    · next hjoins => exact ⟨rfl, Or.inr ⟨last, rfl, hjoins.2.2.2, hjoins.2.2.1, rfl⟩⟩
    · exact ⟨rfl, Or.inl rfl⟩

theorem Tracks.read (h : Tracks model done s) (token : Token) :
    Tracks model (done ++ [token]) (token.read model s) := by
  by_cases hlabelled : token.Labelled
  · obtain ⟨hprevious, hfound⟩ := read_labelled model s hlabelled
    have hlast : (token.read model s).found.getLast?.map EntityMatch.entity_type = some (token.entity model) ∧
        ∀ item ∈ (token.read model s).found.getLast?, item.stop = token.stop := by
      rcases hfound with hfound | ⟨last, -, -, -, hfound⟩
      · rw [hfound, List.getLast?_concat]
        exact ⟨rfl, by simp [created]⟩
      · rw [hfound, List.getLast?_concat]
        exact ⟨rfl, by simp [extended]⟩
    constructor
    · intro before hbefore _
      rw [List.getLast?_concat, Option.mem_some_iff] at hbefore
      rw [hprevious, hbefore]
    · intro hnone
      exact absurd hlabelled (hnone token (by simp))
    · rw [hlast.1, List.filter_append, List.filter_cons_of_pos (by simpa using hlabelled), List.filter_nil,
        List.getLast?_concat]
      rfl
    · intro item hitem
      exact ⟨token, by simp, hlabelled.1, hlast.2 item hitem⟩
  · rw [read_unlabelled hlabelled]
    constructor
    · intro before hbefore hbefore_labelled
      rw [List.getLast?_concat, Option.mem_some_iff] at hbefore
      exact absurd (hbefore ▸ hbefore_labelled) hlabelled
    · exact fun _ => rfl
    · rw [List.filter_append, List.filter_cons_of_neg (by simpa using hlabelled), List.filter_nil, List.append_nil]
      exact h.last
    · intro item hitem
      obtain ⟨before, hbefore, hstop⟩ := h.stop item hitem
      exact ⟨before, by simp [hbefore], hstop⟩

theorem opens_eq_true {previous : Option Token} (h : token.Labelled) : opens previous token = true ↔
    ¬ (startsInside token.label = true ∧ ∃ before ∈ previous, before.Labelled ∧ before.suffix = token.suffix) := by
  simp only [opens, h, true_and, decide_eq_true_eq]

/-- A labelled token after the last one decides what the last match belongs to. -/
theorem Tracks.after_labelled (h : Tracks model done s) {before : Token} (hbefore : before ∈ done.getLast?)
    (hlabelled : before.Labelled) {last : EntityMatch} (hlast : last ∈ s.found.getLast?) :
    last.entity_type = before.entity model := by
  obtain ⟨earlier, rfl⟩ := List.getLast?_eq_some_iff.mp hbefore
  have hentity := h.last
  rw [List.filter_append, List.filter_cons_of_pos (by simpa using hlabelled), List.filter_nil,
    List.getLast?_concat, hlast, Option.map_some, Option.map_some, Option.some.injEq] at hentity
  exact hentity

/-- What the loop compares at a labelled token: it extends the last match when the token
    does not open a run or is glued. -/
theorem read_cases (h : Tracks model done s) (hlabelled : token.Labelled)
    (hordered : ∀ before ∈ done, before.start ≠ before.stop → before.stop ≤ token.start) :
    (opens done.getLast? token = true ∧ ¬ Glued model done token ∧
      (token.read model s).found = s.found ++ [created model token]) ∨
    ((opens done.getLast? token = false ∨ Glued model done token) ∧
      ∃ last ∈ s.found.getLast?, (token.read model s).found = s.found.dropLast ++ [extended model last token]) := by
  rw [read, if_pos hlabelled, ← Bool.not_eq_true, opens_eq_true hlabelled]
  unfold add_evidence
  cases hfound : s.found.getLast? with
  | none =>
    have hnone := h.last
    rw [hfound, Option.map_none, eq_comm, Option.map_eq_none_iff, List.getLast?_eq_none_iff,
      List.filter_eq_nil_iff] at hnone
    refine Or.inl ⟨?_, ?_, rfl⟩
    · rintro ⟨-, before, hbefore, hbefore_labelled, -⟩
      exact hnone before (List.mem_of_getLast? hbefore) (by simpa using hbefore_labelled)
    · rintro ⟨-, -, -, -, last, hlast, -⟩
      obtain ⟨hmem, hlast_labelled⟩ := List.mem_filter.mp (List.mem_of_getLast? hlast)
      exact hnone last hmem hlast_labelled
  | some last =>
    obtain ⟨stopped, hstopped, hnonempty, hstop⟩ := h.stop last hfound
    have hstart : last.stop ≤ (token.start : Int) := by
      rw [hstop]
      exact_mod_cast hordered stopped hstopped hnonempty
    have hkind : (startsInside token.label = true ∧ labelSuffix s.previous = labelSuffix token.label ∧
          last.entity_type = token.entity model ∧ last.stop ≤ (token.start : Int)) ↔
        (startsInside token.label = true ∧ ∃ before ∈ done.getLast?, before.Labelled ∧ before.suffix = token.suffix) ∨
          Glued model done token := by
      by_cases hbefore : ∃ before ∈ done.getLast?, before.Labelled
      · obtain ⟨before, hbefore, hbefore_labelled⟩ := hbefore
        have hentity := h.after_labelled hbefore hbefore_labelled hfound
        rw [h.labelled before hbefore hbefore_labelled]
        constructor
        · rintro ⟨hinside, hsuffix, -, -⟩
          exact Or.inl ⟨hinside, before, hbefore, hbefore_labelled, hsuffix⟩
        · rintro (⟨hinside, other, hother, -, hsuffix⟩ | ⟨-, -, -, hnone, -⟩)
          · rw [Option.mem_unique hbefore hother] at hentity ⊢
            exact ⟨hinside, hsuffix, hentity.trans (entity_congr hsuffix), hstart⟩
          · exact absurd hbefore_labelled (hnone before hbefore)
      · push Not at hbefore
        have hentity := h.last
        rw [hfound, Option.map_some, eq_comm, Option.map_eq_some_iff] at hentity
        obtain ⟨labelled, hlast_labelled, hentity⟩ := hentity
        rw [h.unlabelled hbefore]
        constructor
        · rintro ⟨hinside, hsuffix, hsame, -⟩
          exact Or.inr ⟨hlabelled, hinside, hsuffix.symm, hbefore, labelled, hlast_labelled, hentity.trans hsame⟩
        · rintro (⟨-, before, hmem, hmem_labelled, -⟩ | ⟨-, hinside, hsuffix, -, other, hother, hsame⟩)
          · exact absurd hmem_labelled (hbefore before hmem)
          · rw [Option.mem_unique hother hlast_labelled] at hsame
            exact ⟨hinside, hsuffix.symm, hentity.symm.trans hsame, hstart⟩
    dsimp only
    split
    · next hjoins =>
      refine Or.inr ⟨?_, last, rfl, rfl⟩
      cases hkind.mp hjoins with
      | inl hsame => exact Or.inl (not_not.mpr hsame)
      | inr hglued => exact Or.inr hglued
    · next hjoins =>
      have hneither := mt hkind.mpr hjoins
      rw [not_or] at hneither
      exact Or.inl ⟨hneither.1, hneither.2, rfl⟩

theorem Ordered.before {rest : List Token} (h : Ordered (done ++ token :: rest))
    (hnonempty : token.start ≠ token.stop) :
    ∀ before ∈ done, before.start ≠ before.stop → before.stop ≤ token.start := by
  intro before hbefore hbefore_nonempty
  rw [Ordered, List.filter_append, List.filter_cons_of_pos (by simpa using hnonempty)] at h
  exact (List.pairwise_append.mp h).2.2 before (List.mem_filter.mpr ⟨hbefore, by simpa using hbefore_nonempty⟩)
    token (by simp)

theorem extended_span {first : Token} (seen : List Token) (h : token.suffix = first.suffix) :
    extended model (span model (first, seen)) token = span model (first, seen ++ [token]) := by
  simp [extended, span, entity_congr h]

/-- A token that continues a run does not open one. -/
theorem continues_eq_not_opens {first before : Token} (hlabelled : token.Labelled) (hbefore : before.Labelled)
    (hsuffix : before.suffix = first.suffix) : continues first token = !opens (some before) token := by
  rw [Bool.eq_iff_iff, Bool.not_eq_true', ← Bool.not_eq_true, opens_eq_true hlabelled, not_not]
  simp only [continues, decide_eq_true_eq, hlabelled, true_and]
  constructor
  · rintro ⟨hinside, hsame⟩
    exact ⟨hinside, before, rfl, hbefore, hsuffix.trans hsame.symm⟩
  · rintro ⟨hinside, other, hother, -, hsame⟩
    rw [Option.mem_some_iff] at hother
    exact ⟨hinside, hsame.symm.trans (hother ▸ hsuffix)⟩

/-- Without a glued token the loop adds the span of every run that opens behind it. Inside a
    run it first extends the last match over the tokens that continue it. -/
theorem foldl_read {tokens : List Token} (hordered : Ordered tokens)
    (hfree : ∀ before token after, tokens = before ++ token :: after → ¬ Glued model before token)
    (rest : List Token) : ∀ done s, tokens = done ++ rest → Tracks model done s →
      ((∀ before ∈ done.getLast?, ¬ before.Labelled) → (rest.foldl (Token.read model) s).found =
        s.found ++ (runs.split opens continues done.getLast? rest).map (span model)) ∧
      ∀ acc first seen before, s.found = acc ++ [span model (first, seen)] → done.getLast? = some before →
        before.Labelled → before.suffix = first.suffix → (rest.foldl (Token.read model) s).found =
          acc ++ [span model (first, seen ++ rest.takeWhile (continues first))] ++
            (runs.split opens continues (some before) rest).map (span model) := by
  induction rest with
  | nil =>
    intro done s _ _
    refine ⟨fun _ => by simp [runs.split], ?_⟩
    intro acc first seen before hfound _ _ _
    simpa [runs.split] using hfound
  | cons token rest ih =>
    intro done s htokens htracks
    obtain ⟨hclosed, hopen⟩ := ih (done ++ [token]) (token.read model s) (by simpa using htokens) (htracks.read token)
    rw [List.getLast?_concat] at hclosed hopen
    rw [List.foldl_cons]
    by_cases hlabelled : token.Labelled
    · cases read_cases htracks hlabelled ((htokens ▸ hordered).before hlabelled.1) with
      | inl happend =>
        obtain ⟨hopens, -, hfound⟩ := happend
        have hrest := hopen s.found token [] token hfound rfl hlabelled rfl
        rw [List.nil_append] at hrest
        constructor
        · intro _
          rw [hrest, runs.split_cons_of_opens hopens, List.map_cons, List.append_assoc, List.singleton_append]
        · intro acc first seen before hacc hbefore hbefore_labelled hsuffix
          rw [hbefore] at hopens
          have hstops := continues_eq_not_opens hlabelled hbefore_labelled hsuffix
          rw [hopens] at hstops
          rw [hrest, runs.split_cons_of_opens hopens, List.takeWhile_cons, hstops, hacc]
          simp
      | inr hextend =>
        obtain ⟨hkind, last, hlast, hfound⟩ := hextend
        have hjoins := hkind.resolve_right (hfree done token rest htokens)
        constructor
        · intro hnone
          rw [← Bool.not_eq_true, opens_eq_true hlabelled, not_not] at hjoins
          obtain ⟨-, before, hbefore, hbefore_labelled, -⟩ := hjoins
          exact absurd hbefore_labelled (hnone before hbefore)
        · intro acc first seen before hacc hbefore hbefore_labelled hsuffix
          rw [hbefore] at hjoins
          have hcontinues := continues_eq_not_opens hlabelled hbefore_labelled hsuffix
          rw [hjoins] at hcontinues
          have hsame : token.suffix = first.suffix := by
            simp only [continues] at hcontinues
            exact (of_decide_eq_true hcontinues).2.2
          rw [hacc, List.getLast?_concat, Option.mem_some_iff] at hlast
          rw [hacc, List.dropLast_concat, ← hlast, extended_span seen hsame] at hfound
          rw [hopen acc first (seen ++ [token]) token hfound rfl hlabelled hsame,
            runs.split_cons_of_not_opens hjoins, List.takeWhile_cons, hcontinues]
          simp
    · have hopens : ∀ previous, opens previous token = false := fun previous => by simp [opens, hlabelled]
      have hnone : ∀ before ∈ some token, ¬ before.Labelled := by
        intro before hbefore
        rw [Option.mem_some_iff] at hbefore
        exact hbefore ▸ hlabelled
      have hrest := hclosed hnone
      rw [read_unlabelled hlabelled] at hrest ⊢
      constructor
      · intro _
        rw [hrest, runs.split_cons_of_not_opens (hopens _)]
      · intro acc first seen before hacc _ _ _
        rw [hrest, runs.split_cons_of_not_opens (hopens _), List.takeWhile_cons,
          if_neg (by simp [continues, hlabelled]), List.append_nil, ← hacc]

theorem tracks_foldl (model : RemoteModel) (tokens : List Token) :
    Tracks model tokens (tokens.foldl (Token.read model) {}) := by
  have hstart : Tracks model [] {} := by
    constructor <;> simp
  have hrun : Tracks model ([] ++ tokens) (tokens.foldl (Token.read model) {}) :=
    foldl_invariant (Tracks model) (fun _ token _ hs => Tracks.read hs token) hstart
  rwa [List.nil_append] at hrun

/-- Every glued token is a run that the matches miss. -/
theorem length_foldl_read {tokens : List Token} (hordered : Ordered tokens) :
    (tokens.foldl (Token.read model) {}).found.length ≤ (runs.split opens continues none tokens).length ∧
      ((∃ before token after, tokens = before ++ token :: after ∧ Glued model before token) →
        (tokens.foldl (Token.read model) {}).found.length < (runs.split opens continues none tokens).length) := by
  induction tokens using List.reverseRecOn with
  | nil => simp [runs.split]
  | append_singleton done token ih =>
    have hdone : Ordered done := by
      rw [Ordered, List.filter_append] at hordered
      exact (List.pairwise_append.mp hordered).1
    obtain ⟨hle, hlt⟩ := ih hdone
    have htracks := tracks_foldl model done
    have hsplit : (∃ before other after, done ++ [token] = before ++ other :: after ∧ Glued model before other) →
        (∃ before other after, done = before ++ other :: after ∧ Glued model before other) ∨
          Glued model done token := by
      rintro ⟨before, other, after, heq, hglued⟩
      rcases List.eq_nil_or_concat after with rfl | ⟨front, last, rfl⟩
      · obtain ⟨rfl, hlast⟩ := List.append_inj' heq rfl
        rw [List.cons.injEq] at hlast
        exact Or.inr (hlast.1 ▸ hglued)
      · have hfront : done = before ++ other :: front := by
          rw [List.concat_eq_append, ← List.cons_append, ← List.append_assoc] at heq
          exact (List.append_inj' heq rfl).1
        exact Or.inl ⟨before, other, front, hfront, hglued⟩
    rw [List.foldl_append, List.foldl_cons, List.foldl_nil, runs.length_split_append, Option.or_none]
    by_cases hlabelled : token.Labelled
    · cases read_cases htracks hlabelled (hordered.before hlabelled.1) with
      | inl happend =>
        obtain ⟨hopens, hfree, hfound⟩ := happend
        rw [hfound, hopens, if_pos rfl, List.length_append, List.length_singleton]
        refine ⟨by omega, fun hglued => ?_⟩
        have := hlt ((hsplit hglued).resolve_right hfree)
        omega
      | inr hextend =>
        obtain ⟨hkind, last, hlast, hfound⟩ := hextend
        obtain ⟨earlier, hearlier⟩ := List.getLast?_eq_some_iff.mp hlast
        have hlength : (token.read model (done.foldl (Token.read model) {})).found.length =
            (done.foldl (Token.read model) {}).found.length := by
          rw [hfound, hearlier, List.dropLast_concat, List.length_append, List.length_append, List.length_singleton,
            List.length_singleton]
        rw [hlength]
        refine ⟨by omega, fun hglued => ?_⟩
        cases hsplit hglued with
        | inl hbefore =>
          have := hlt hbefore
          omega
        | inr hhere =>
          -- a glued token opens a run of its own
          have hopens : opens done.getLast? token = true := by
            rw [opens_eq_true hlabelled]
            rintro ⟨-, before, hbefore, hbefore_labelled, -⟩
            exact hhere.2.2.2.1 before hbefore hbefore_labelled
          rw [hopens, if_pos rfl]
          omega
    · have hopens : opens done.getLast? token = false := by simp [opens, hlabelled]
      rw [read_unlabelled hlabelled, hopens, if_neg (by simp), Nat.add_zero]
      exact ⟨hle, fun hglued => hlt ((hsplit hglued).resolve_right fun hhere => hlabelled hhere.1)⟩

/-- Every labelled token lies in a match of its entity, in whatever order the tokens come. -/
theorem covered_foldl_read {tokens : List Token} (hle : ∀ token ∈ tokens, token.start ≤ token.stop) :
    (∀ token ∈ tokens, token.Labelled → ∃ item ∈ (tokens.foldl (Token.read model) {}).found,
      item.entity_type = token.entity model ∧ item.start ≤ token.start ∧ token.stop ≤ item.stop) ∧
      ∀ item ∈ (tokens.foldl (Token.read model) {}).found, item.start ≤ item.stop := by
  induction tokens using List.reverseRecOn with
  | nil => simp
  | append_singleton done token ih =>
    rw [List.forall_mem_append, List.forall_mem_singleton] at hle
    obtain ⟨hcovered, hspans⟩ := ih hle.1
    have htoken : (token.start : Int) ≤ token.stop := by exact_mod_cast hle.2
    rw [List.foldl_append, List.foldl_cons, List.foldl_nil]
    generalize done.foldl (Token.read model) {} = s at hcovered hspans ⊢
    by_cases hlabelled : token.Labelled
    · rcases (read_labelled model s hlabelled).2 with hfound | ⟨last, hlast, hstop, hentity, hfound⟩
      · rw [hfound]
        constructor
        · intro other hother hother_labelled
          cases List.mem_append.mp hother with
          | inl hbefore =>
            obtain ⟨item, hitem, hcover⟩ := hcovered other hbefore hother_labelled
            exact ⟨item, List.mem_append_left _ hitem, hcover⟩
          | inr hhere =>
            rw [List.mem_singleton.mp hhere]
            exact ⟨created model token, by simp, rfl, le_refl _, le_refl _⟩
        · rw [List.forall_mem_append, List.forall_mem_singleton]
          exact ⟨hspans, htoken⟩
      · obtain ⟨earlier, hearlier⟩ := List.getLast?_eq_some_iff.mp hlast
        rw [hfound, hearlier, List.dropLast_concat]
        rw [hearlier] at hcovered hspans
        rw [List.forall_mem_append, List.forall_mem_singleton] at hspans
        constructor
        · intro other hother hother_labelled
          cases List.mem_append.mp hother with
          | inl hbefore =>
            obtain ⟨item, hitem, hitem_entity, hstart, hend⟩ := hcovered other hbefore hother_labelled
            cases List.mem_append.mp hitem with
            | inl hkept => exact ⟨item, List.mem_append_left _ hkept, hitem_entity, hstart, hend⟩
            | inr hlast_item =>
              -- the extended match covers the one it replaces
              rw [List.mem_singleton.mp hlast_item] at hitem_entity hstart hend
              refine ⟨extended model last token, by simp, hentity.symm.trans hitem_entity, hstart, ?_⟩
              exact hend.trans (hstop.trans htoken)
          | inr hhere =>
            rw [List.mem_singleton.mp hhere]
            exact ⟨extended model last token, by simp, rfl, hspans.2.trans hstop, le_refl _⟩
        · rw [List.forall_mem_append, List.forall_mem_singleton]
          exact ⟨hspans.1, (hspans.2.trans hstop).trans htoken⟩
    · rw [read_unlabelled hlabelled]
      refine ⟨?_, hspans⟩
      intro other hother hother_labelled
      cases List.mem_append.mp hother with
      | inl hbefore => exact hcovered other hbefore hother_labelled
      | inr hhere => exact absurd (List.mem_singleton.mp hhere ▸ hother_labelled) hlabelled

end Token

/-- An accepted answer yields exactly the maximal runs of its tokens, each as one span, when
    no token is glued; a glued token joins two of them. In whatever order the offsets come,
    every labelled token is covered by a match of its entity. -/
theorem decode_predictions_exact_iff (sum : List ℚ → ℚ) (value : JsonValue) (text : Text)
    (offsets : List (Nat × Nat)) {model : RemoteModel} (labels : ClassLabels model) (found : List EntityMatch)
    (h : decode_predictions sum value text offsets labels = .ok found) :
    ∃ predictions tokens, Predicts value predictions ∧
      List.Forall₂ (Classified sum labels) (predictions.zip offsets) tokens ∧
      tokens.map (fun token => (token.start, token.stop)) = offsets ∧
      ((offsets.filter fun span => span.1 ≠ span.2).Pairwise (fun before after => before.2 ≤ after.1) →
        (found = (runs.split Token.opens Token.continues none tokens).map (Token.span model) ↔
          ∀ before token after, tokens = before ++ token :: after → ¬ Token.Glued model before token)) ∧
      ∀ token ∈ tokens, token.Labelled → ∃ item ∈ found,
        item.entity_type = token.entity model ∧ item.start ≤ token.start ∧ token.stop ≤ item.stop := by
  obtain ⟨predictions, tokens, hpredicts, hclassified, hoffsets, hle, rfl⟩ := decode_predictions_eq_ok h
  refine ⟨predictions, tokens, hpredicts, hclassified, hoffsets, ?_, (Token.covered_foldl_read hle).1⟩
  intro hordered
  have hordered : Token.Ordered tokens := by
    rw [← hoffsets, List.filter_map, List.pairwise_map] at hordered
    exact hordered
  constructor
  · intro hexact before token after htokens hglued
    have hlength := (Token.length_foldl_read hordered).2 ⟨before, token, after, htokens, hglued⟩
    rw [hexact, List.length_map] at hlength
    omega
  · intro hfree
    have hrun := (Token.foldl_read hordered hfree tokens [] {} rfl (Token.tracks_foldl model [])).1 (by simp)
    rw [hrun, List.nil_append, List.getLast?_nil]

/-- A model that maps one label, and the class labels of its tokenizer. -/
def labelled_model (label : String) : RemoteModel where
  name := "remote"
  model_name := "pii"
  label_mapping := .ofList [(label, "PRIVATE")]

def private_labels : ClassLabels (labelled_model "PRIVATE") where
  labels := .ofList [("0", "O"), ("1", "B-PRIVATE"), ("2", "I-PRIVATE")]
  mapped := by decide

def class_scores (outside front inside : ℚ) : JsonValue :=
  .dict [("0", .float (some outside)), ("1", .float (some front)), ("2", .float (some inside))]

def anna_answer : JsonValue :=
  .dict [("predictions", .list [.list [class_scores 1 0 0, class_scores 1 0 0,
    class_scores 0 (9 / 10) (1 / 10), class_scores 0 (1 / 10) (9 / 10), class_scores 1 0 0]])]

theorem decode_predictions_exact_anna :
    ∃ found, decode_predictions List.sum anna_answer "* Anna".toList [(0, 0), (0, 1), (2, 4), (4, 6), (0, 0)]
        private_labels = .ok found ∧
      ∃ predictions tokens, Predicts anna_answer predictions ∧
        List.Forall₂ (Classified List.sum private_labels)
          (predictions.zip [(0, 0), (0, 1), (2, 4), (4, 6), (0, 0)]) tokens ∧
        tokens.map (fun token => (token.start, token.stop)) = [(0, 0), (0, 1), (2, 4), (4, 6), (0, 0)] ∧
        (([(0, 0), (0, 1), (2, 4), (4, 6), (0, 0)].filter fun span => span.1 ≠ span.2).Pairwise
            (fun before after => before.2 ≤ after.1) →
          (found = (runs.split Token.opens Token.continues none tokens).map (Token.span (labelled_model "PRIVATE")) ↔
            ∀ before token after, tokens = before ++ token :: after →
              ¬ Token.Glued (labelled_model "PRIVATE") before token)) ∧
        ∀ token ∈ tokens, token.Labelled → ∃ item ∈ found,
          item.entity_type = token.entity (labelled_model "PRIVATE") ∧ item.start ≤ token.start ∧
            token.stop ≤ item.stop :=
  ⟨[⟨"PRIVATE", 2, 6, some (9 / 10), "remote"⟩], by decide +kernel,
    decode_predictions_exact_iff List.sum anna_answer "* Anna".toList _ private_labels _ (by decide +kernel)⟩

/-- A label mapping with an empty key admits the labels `B-` and `I-`. -/
def bare_labels : ClassLabels (labelled_model "") where
  labels := .ofList [("0", "O"), ("1", "B-"), ("2", "I-")]
  mapped := by decide

def bare_predictions : List JsonValue := [class_scores 0 1 0, class_scores 1 0 0, class_scores 0 0 1]

def bare_tokens : List Token := [⟨"B-", 1, 0, 1⟩, ⟨"O", 1, 1, 2⟩, ⟨"I-", 1, 2, 3⟩]

/-- The token between two runs is labelled `O`, and still they become one match. -/
theorem decode_predictions_glues :
    decode_predictions List.sum (.dict [("predictions", .list [.list bare_predictions])]) "a b".toList
        [(0, 1), (1, 2), (2, 3)] bare_labels = .ok [⟨"PRIVATE", 0, 3, some 1, "remote"⟩] ∧
      List.Forall₂ (Classified List.sum bare_labels) (bare_predictions.zip [(0, 1), (1, 2), (2, 3)]) bare_tokens ∧
      (runs.split Token.opens Token.continues none bare_tokens).map (Token.span (labelled_model "")) =
        [⟨"PRIVATE", 0, 1, some 1, "remote"⟩, ⟨"PRIVATE", 2, 3, some 1, "remote"⟩] := by
  refine ⟨by decide +kernel, .cons ⟨⟨"1", ?_, rfl⟩, rfl⟩ (.cons ⟨⟨"0", ?_, rfl⟩, rfl⟩
    (.cons ⟨⟨"2", ?_, rfl⟩, rfl⟩ .nil)), by decide +kernel⟩
  · decide +kernel
  · decide +kernel
  · decide +kernel

end pii_engine.ner
