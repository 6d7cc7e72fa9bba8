import PiiEngine.Controllers.Restoration

open checked collections regex slices
open pii_engine.config pii_engine.policy pii_engine.planner

namespace pii_engine.controllers

/-- The parts of one rewritten text: its untouched characters and its rewrites. -/
def rewrittenParts (text : Text) (offset : Nat) : List Rewrite → List Part
  | [] => plain (text.drop offset)
  | rewrite :: rewrites =>
    plain ((text.take rewrite.edit.start).drop offset) ++
      Sum.inr ⟨rewrite.replacement, rewrite.original, rewrite.region.entity_type⟩ ::
        rewrittenParts text rewrite.edit.stop rewrites

theorem rendered_cons (insertion : Insertion) (parts : List Part) :
    rendered (.inr insertion :: parts) = insertion.placeholder ++ rendered parts := rfl

theorem originals_cons (insertion : Insertion) (parts : List Part) :
    originals (.inr insertion :: parts) = insertion.original ++ originals parts := rfl

theorem entities_cons (insertion : Insertion) (parts : List Part) :
    entities (.inr insertion :: parts) = insertion.entity :: entities parts := rfl

theorem rendered_rewrittenParts (text : Text) (offset : Nat) (rewrites : List Rewrite) :
    rendered (rewrittenParts text offset rewrites) = substitute text offset (rewrites.map Rewrite.edit) := by
  induction rewrites generalizing offset with
  | nil => rw [rewrittenParts, rendered_plain, List.map_nil, substitute]
  | cons rewrite rewrites ih =>
    rw [rewrittenParts, rendered_append, rendered_plain, rendered_cons, ih, List.map_cons, substitute,
      List.append_assoc]
    rfl

theorem entities_rewrittenParts (text : Text) (offset : Nat) (rewrites : List Rewrite) :
    entities (rewrittenParts text offset rewrites) = (rewrites.map Rewrite.region).map EntityMatch.entity_type := by
  induction rewrites generalizing offset with
  | nil => rw [rewrittenParts, entities_plain]; rfl
  | cons rewrite rewrites ih =>
    rw [rewrittenParts, entities_append, entities_plain, entities_cons, ih]
    rfl

/-- Three consecutive stretches of a text make up its end. -/
private theorem drop_eq_stretches {text : Text} {offset start stop : Nat} (hstart : offset ≤ start)
    (hstop : start ≤ stop) (hlength : stop ≤ text.length) :
    (text.take start).drop offset ++ ((text.take stop).drop start ++ text.drop stop) = text.drop offset := by
  have hback : (text.take stop).drop start ++ text.drop stop = text.drop start := by
    conv_rhs => rw [← List.take_append_drop stop text]
    rw [List.drop_append_of_le_length (by rw [List.length_take]; omega)]
  have hfront : (text.take start).drop offset ++ text.drop start = text.drop offset := by
    conv_rhs => rw [← List.take_append_drop start text]
    rw [List.drop_append_of_le_length (by rw [List.length_take]; omega)]
  rw [hback, hfront]

theorem originals_rewrittenParts {text : Text} {offset : Nat} {rewrites : List Rewrite}
    (hordered : Ordered text.length offset (rewrites.map Rewrite.edit))
    (horiginals : ∀ rewrite ∈ rewrites, rewrite.original = originalValue text rewrite.region) :
    originals (rewrittenParts text offset rewrites) = text.drop offset := by
  induction rewrites generalizing offset with
  | nil => rw [rewrittenParts, originals_plain]
  | cons rewrite rewrites ih =>
    rw [List.map_cons] at hordered
    cases hordered with
    | cons hstart hstop hrest =>
      have hvalue := horiginals rewrite (by simp)
      rw [rewrittenParts, originals_append, originals_plain, originals_cons,
        ih hrest fun other hother => horiginals other (by simp [hother])]
      simp only [hvalue]
      exact drop_eq_stretches hstart hstop hrest.le_length

theorem inr_not_mem_plain (insertion : Insertion) (text : Text) : Sum.inr insertion ∉ plain text := by
  intro h
  obtain ⟨c, -, heq⟩ := List.mem_map.mp h
  cases heq

theorem mem_rewrittenParts {text : Text} {offset : Nat} {rewrites : List Rewrite} {insertion : Insertion}
    (h : Sum.inr insertion ∈ rewrittenParts text offset rewrites) : ∃ rewrite ∈ rewrites,
      insertion = ⟨rewrite.replacement, rewrite.original, rewrite.region.entity_type⟩ := by
  induction rewrites generalizing offset with
  | nil => exact absurd h (inr_not_mem_plain insertion _)
  | cons rewrite rewrites ih =>
    rw [rewrittenParts, List.mem_append, List.mem_cons] at h
    rcases h with hplain | heq | hrest
    · exact absurd hplain (inr_not_mem_plain insertion _)
    · exact ⟨rewrite, by simp, Sum.inr.inj heq⟩
    · obtain ⟨other, hother, heq⟩ := ih hrest
      exact ⟨other, by simp [hother], heq⟩

/-- The parts of several texts joined by line breaks. -/
def joinedParts (parts : List (List Part)) : List Part := List.intercalate [.inl '\n'] parts

theorem rendered_joinedParts (parts : List (List Part)) :
    rendered (joinedParts parts) = Text.joinLines (parts.map rendered) :=
  flatMap_intercalate _ _ _

theorem originals_joinedParts (parts : List (List Part)) :
    originals (joinedParts parts) = Text.joinLines (parts.map originals) :=
  flatMap_intercalate _ _ _

theorem entities_joinedParts (parts : List (List Part)) :
    entities (joinedParts parts) = parts.flatMap entities :=
  filterMap_intercalate rfl _

theorem mem_joinedParts {parts : List (List Part)} {insertion : Insertion}
    (h : Sum.inr insertion ∈ joinedParts parts) : ∃ one ∈ parts, Sum.inr insertion ∈ one := by
  unfold joinedParts at h
  induction parts with
  | nil => simp at h
  | cons one parts ih =>
    cases parts with
    | nil =>
      rw [List.intercalate_singleton] at h
      exact ⟨one, by simp, h⟩
    | cons other parts =>
      rw [List.intercalate_cons_cons, List.mem_append, List.mem_append] at h
      rcases h with (hone | hbreak) | hrest
      · exact ⟨one, by simp, hone⟩
      · simp at hbreak
      · obtain ⟨found, hfound, hmem⟩ := ih hrest
        exact ⟨found, List.mem_cons_of_mem one hfound, hmem⟩

theorem hexWord_digest (planner : ActionPlanner) (entity_type : String) (value nonce : Text) :
    HexWord (planner.placeholder_digest entity_type value nonce) := by
  constructor
  · rw [ActionPlanner.placeholder_digest, List.length_take, planner.hmac.length_hexdigest]
    rfl
  · intro c hc
    exact planner.hmac.isHexDigit_hexdigest _ c (List.mem_of_mem_take hc)

/-- What the planner inserts is what the expression recognizes. -/
theorem isPlaceholder_of_writes {planner : ActionPlanner} {nonce : Text} (hnonce : HexWord nonce)
    {region : EntityMatch} (hentity : isEntityWord region.entity_type.toList = true) {original replacement : Text}
    (h : planner.WritesPlaceholder nonce region original replacement) :
    ∃ kind, IsPlaceholder replacement kind region.entity_type.toList := by
  obtain ⟨kind, hkind, value, rfl⟩ := h
  refine ⟨kind.toList, ?_, hentity, nonce, _, hnonce, hexWord_digest planner region.entity_type value nonce, ?_⟩
  · unfold ActionPlanner.placeholderKind at hkind
    split at hkind
    · exact Or.inl (by rw [← Option.some.inj hkind])
    · exact Or.inr (by rw [← Option.some.inj hkind])
    · cases hkind
  · simp [ActionPlanner.placeholder_text]

variable {service : PolicyService} {env : Environment} {request : SegmentRequest}

/-- The regions that a transformed request had rewritten, segment after segment. -/
def transformed_regions (service : PolicyService) (env : Environment) (request : SegmentRequest) :
    List EntityMatch :=
  (PolicyService.text_leaves request).flatMap fun leaf =>
    service.planner.executed (service.effective_regions env (request.request_kind = .mcp) leaf)

/-- Every effective region passes or is replaced by a placeholder of a well-formed type. -/
def Reversible (service : PolicyService) (env : Environment) (request : SegmentRequest) : Prop :=
  ∀ leaf ∈ PolicyService.text_leaves request,
    ∀ region ∈ service.effective_regions env (request.request_kind = .mcp) leaf,
      isEntityWord region.entity_type.toList = true ∧
      ((service.planner.resolve region.entity_type).1 = .pass ∨
        (service.planner.resolve region.entity_type).1 = .reversible_replace ∨
        (service.planner.resolve region.entity_type).1 = .encrypt)

instance (service : PolicyService) (env : Environment) (request : SegmentRequest) :
    Decidable (Reversible service env request) := inferInstanceAs (Decidable (∀ leaf ∈ _, ∀ region ∈ _, _))

theorem placeholderKind_of_executed {planner : ActionPlanner} {regions : List EntityMatch} {region : EntityMatch}
    (haction : (planner.resolve region.entity_type).1 = .pass ∨
      (planner.resolve region.entity_type).1 = .reversible_replace ∨
      (planner.resolve region.entity_type).1 = .encrypt)
    (hregion : region ∈ planner.executed regions) :
    (ActionPlanner.placeholderKind (planner.resolve region.entity_type).1).isSome := by
  obtain ⟨-, hexecutes⟩ := List.mem_filter.mp hregion
  obtain ⟨hpass, -, -⟩ := ActionPlanner.executes_iff.mp hexecutes
  rcases haction with haction | haction | haction
  · exact absurd haction hpass
  · rw [haction]
    rfl
  · rw [haction]
    rfl

/-- The transformed segments of a reversible request, cut into original characters and
    inserted placeholders. -/
structure Cut (service : PolicyService) (env : Environment) (request : SegmentRequest)
    (reversal : OrderedDict Text Text) (output : List TextSegment) (parts : List (List Part)) : Prop where
  rendered : parts.map rendered = output.map (·.text)
  originals : parts.map originals = request.segments.map (·.text)
  entities : parts.flatMap entities = (transformed_regions service env request).map (·.entity_type)
  insertions : ∀ one ∈ parts, ∀ insertion, Sum.inr insertion ∈ one →
    (∃ kind, IsPlaceholder insertion.placeholder kind insertion.entity.toList) ∧
      reversal.get? insertion.placeholder = some insertion.original

/-- The parts of one rewritten segment. -/
structure CutSegment (service : PolicyService) (env : Environment) (reroute_as_block : Bool)
    (reversal : OrderedDict Text Text) (segment out : TextSegment) (one : List Part) : Prop where
  rendered : rendered one = out.text
  originals : originals one = segment.text
  entities : entities one = (service.planner.executed
    (service.effective_regions env reroute_as_block ⟨segment.id, segment.text⟩)).map (·.entity_type)
  insertions : ∀ insertion, Sum.inr insertion ∈ one →
    (∃ kind, IsPlaceholder insertion.placeholder kind insertion.entity.toList) ∧
      reversal.get? insertion.placeholder = some insertion.original

theorem cutSegment_rewrittenParts {reroute_as_block : Bool} {nonce : Text} {reversal : OrderedDict Text Text}
    {segment out : TextSegment} {rewrites : List Rewrite} (hnonce : HexWord nonce)
    (hregions : ∀ region ∈ service.planner.executed
      (service.effective_regions env reroute_as_block ⟨segment.id, segment.text⟩),
      isEntityWord region.entity_type.toList = true ∧
        (ActionPlanner.placeholderKind (service.planner.resolve region.entity_type).1).isSome)
    (h : service.Rewritten env reroute_as_block (service.planner.WritesPlaceholder nonce)
      ⟨segment.id, segment.text⟩ out.text rewrites)
    (hreversal : ∀ rewrite ∈ rewrites, (ActionPlanner.placeholderKind
        (service.planner.resolve rewrite.region.entity_type).1).isSome →
      reversal.get? rewrite.replacement = some rewrite.original) :
    CutSegment service env reroute_as_block reversal segment out (rewrittenParts segment.text 0 rewrites) := by
  constructor
  · rw [rendered_rewrittenParts, h.text]
  · exact originals_rewrittenParts h.ordered h.originals
  · rw [entities_rewrittenParts, h.regions]
  · intro insertion hinsertion
    obtain ⟨rewrite, hrewrite, rfl⟩ := mem_rewrittenParts hinsertion
    obtain ⟨hentity, hkind⟩ := hregions rewrite.region (h.regions ▸ List.mem_map_of_mem hrewrite)
    exact ⟨isPlaceholder_of_writes hnonce hentity (h.rules rewrite hrewrite), hreversal rewrite hrewrite hkind⟩

/-- The cuts of the segments make up a cut of the request. -/
theorem cut_of_segments {reversal : OrderedDict Text Text} {output : List TextSegment}
    (h : List.Forall₂ (fun segment out => ∃ one,
      CutSegment service env (request.request_kind = .mcp) reversal segment out one) request.segments output) :
    ∃ parts, Cut service env request reversal output parts := by
  have hall : ∀ segments output : List TextSegment, List.Forall₂ (fun segment out => ∃ one,
      CutSegment service env (request.request_kind = .mcp) reversal segment out one) segments output →
      ∃ parts : List (List Part), parts.map rendered = output.map (·.text) ∧
        parts.map originals = segments.map (·.text) ∧
        parts.flatMap entities = ((segments.map fun segment => (⟨segment.id, segment.text⟩ : TextLeaf)).flatMap
          fun leaf => service.planner.executed
            (service.effective_regions env (request.request_kind = .mcp) leaf)).map (·.entity_type) ∧
        ∀ one ∈ parts, ∀ insertion, Sum.inr insertion ∈ one →
          (∃ kind, IsPlaceholder insertion.placeholder kind insertion.entity.toList) ∧
            reversal.get? insertion.placeholder = some insertion.original := by
    intro segments output h
    induction h with
    | nil => exact ⟨[], rfl, rfl, rfl, by simp⟩
    | @cons segment out segments output hone _ ih =>
      obtain ⟨one, hone⟩ := hone
      obtain ⟨parts, hrendered, horiginals, hentities, hinsertions⟩ := ih
      refine ⟨one :: parts, ?_, ?_, ?_, ?_⟩
      · rw [List.map_cons, List.map_cons, hone.rendered, hrendered]
      · rw [List.map_cons, List.map_cons, hone.originals, horiginals]
      · rw [List.flatMap_cons, hone.entities, hentities, List.map_cons, List.flatMap_cons, List.map_append]
      · rw [List.forall_mem_cons]
        exact ⟨hone.insertions, hinsertions⟩
  obtain ⟨parts, hrendered, horiginals, hentities, hinsertions⟩ := hall _ _ h
  exact ⟨parts, hrendered, horiginals, hentities, hinsertions⟩

theorem exists_cut {plans : PolicyService.PreparedLeaves} {nonce : Text} {output : List TextSegment}
    {transformed : PolicyService.TransformedLeaves} (hnonce : HexWord nonce)
    (hreversible : Reversible service env request)
    (hplans : service.LeavesPrepared env (request.request_kind = .mcp) (PolicyService.text_leaves request) plans)
    (h : service.transform_plans env request plans.prepared nonce = .ok (output, transformed)) :
    (∃ parts, Cut service env request transformed.reversal output parts) ∧
      ∀ placeholder ∈ transformed.reversal.keys, ∃ kind entity, IsPlaceholder placeholder kind entity := by
  have hregions : ∀ entry ∈ plans.prepared, ∀ region ∈ service.planner.executed entry.2.effective_matches,
      isEntityWord region.entity_type.toList = true ∧
        (ActionPlanner.placeholderKind (service.planner.resolve region.entity_type).1).isSome := by
    intro entry hentry region hregion
    obtain ⟨heffective, -⟩ := List.mem_filter.mp hregion
    rw [← PolicyService.effective_regions_eq (hplans.plans entry hentry)] at heffective
    obtain ⟨hentity, haction⟩ := hreversible entry.1 (hplans.mem_leaves hentry) region heffective
    exact ⟨hentity, placeholderKind_of_executed haction hregion⟩
  obtain ⟨houtput, hkeys⟩ := PolicyService.transform_plans_rewritten
    (fun _ => service.planner.WritesPlaceholder nonce) hplans h fun entry hentry =>
      ActionPlanner.obeys_writesPlaceholder nonce _ fun region hregion => (hregions entry hentry region hregion).2
  refine ⟨cut_of_segments ?_, ?_⟩
  · refine ((List.forall₂_and_left _ _).mpr ⟨fun segment hsegment => hsegment, houtput⟩).imp ?_
    rintro segment out ⟨hsegment, -, rewrites, hrewritten, hreversal⟩
    refine ⟨_, cutSegment_rewrittenParts hnonce ?_ hrewritten hreversal⟩
    intro region hregion
    obtain ⟨heffective, -⟩ := List.mem_filter.mp hregion
    obtain ⟨hentity, haction⟩ := hreversible _ (List.mem_map_of_mem hsegment) region heffective
    exact ⟨hentity, placeholderKind_of_executed haction hregion⟩
  · intro placeholder hplaceholder
    obtain ⟨entry, hentry, region, hregion, original, hwrites⟩ := hkeys placeholder hplaceholder
    obtain ⟨kind, hplaceholder⟩ := isPlaceholder_of_writes hnonce (hregions entry hentry region hregion).1 hwrites
    exact ⟨kind, _, hplaceholder⟩

/-- Behind any text without an opening bracket, the placeholders of a cut are put back. -/
theorem restore_of_cut {reversal : OrderedDict Text Text} {output : List TextSegment} {parts : List (List Part)}
    (h : Cut service env request reversal output parts)
    (hkeys : ∀ placeholder ∈ reversal.keys, ∃ kind entity, IsPlaceholder placeholder kind entity)
    (hfresh : ∀ placeholder ∈ reversal.keys, ¬ placeholder <:+: Text.joinLines (request.segments.map (·.text)))
    {front : Text} (hfront : '<' ∉ front) :
    restore reversal (front ++ Text.joinLines (output.map (·.text))) =
      (front ++ Text.joinLines (request.segments.map (·.text)),
        .countAll ((transformed_regions service env request).map (·.entity_type))) := by
  have hrendered : rendered (plain front ++ joinedParts parts) = front ++ Text.joinLines (output.map (·.text)) := by
    rw [rendered_append, rendered_plain, rendered_joinedParts, h.rendered]
  have horiginals : originals (plain front ++ joinedParts parts) =
      front ++ Text.joinLines (request.segments.map (·.text)) := by
    rw [originals_append, originals_plain, originals_joinedParts, h.originals]
  have hentities : entities (plain front ++ joinedParts parts) =
      (transformed_regions service env request).map (·.entity_type) := by
    rw [entities_append, entities_plain, entities_joinedParts, h.entities, List.nil_append]
  have hrestorable : Restorable reversal (plain front ++ joinedParts parts) := by
    constructor
    · intro insertion hinsertion
      rw [List.mem_append] at hinsertion
      cases hinsertion with
      | inl hplain => exact absurd hplain (inr_not_mem_plain insertion front)
      | inr hjoined =>
        obtain ⟨one, hone, hmem⟩ := mem_joinedParts hjoined
        exact h.insertions one hone insertion hmem
    · intro word hword hne
      by_contra hknown
      have hkey : word ∈ reversal.keys := by
        rw [OrderedDict.mem_keys_iff, Option.isSome_iff_ne_none]
        exact hknown
      obtain ⟨kind, entity, hplaceholder⟩ := hkeys word hkey
      obtain ⟨inner, hbrackets, -, -⟩ := hplaceholder.brackets
      have hinfix : word <:+: originals (plain front ++ joinedParts parts) := by
        obtain ⟨before, after, heq⟩ := hword
        refine ⟨originals before, originals after, ?_⟩
        rw [← heq, originals_append, originals_append, originals_plain]
      rw [horiginals, hbrackets] at hinfix
      have htext := infix_of_append hfront hinfix
      rw [← hbrackets] at htext
      exact hfresh word hkey htext
  rw [← hrendered, restore_rendered hrestorable, horiginals, hentities]

/-- A value of a count dictionary is the count of one of the counted items. -/
theorem exists_count_of_value {items : List String} {count : Nat}
    (h : count ∈ (OrderedDict.countAll items).sortedByKey.values) : ∃ item ∈ items, items.count item = count := by
  obtain ⟨⟨item, value⟩, hmem, rfl⟩ := List.mem_map.mp h
  have hget := OrderedDict.mem_items_iff.mp hmem
  rw [OrderedDict.get?_sortedByKey] at hget
  have hcount := OrderedDict.getD_countAll items item
  rw [OrderedDict.getD, hget, Option.getD_some] at hcount
  have hkey : item ∈ (OrderedDict.countAll items).keys := by
    rw [OrderedDict.mem_keys_iff, hget]
    rfl
  exact ⟨item, OrderedDict.mem_keys_countAll.mp hkey, hcount.symm⟩

/-- The regions that a result had rewritten: none when its text was not scanned. -/
def result_regions (service : PolicyService) (env : Environment) (request : SegmentRequest)
    (result : PolicyResult) : List EntityMatch :=
  if result.scan_performed then transformed_regions service env request else []

/-- The bounds that a completed simulation must keep. -/
def ExceedsSimulation (model_response user_response : Text) (regions : List EntityMatch) : Prop :=
  evaluation_simulation.max_response < model_response.length ∨
    evaluation_simulation.max_response < user_response.length ∨
    64 < (OrderedDict.countAll (regions.map (·.entity_type))).sortedByKey.keys.length ∨
    ∃ e, 10000000 < countOf regions e

theorem count_entity_type (regions : List EntityMatch) (e : String) :
    (regions.map (·.entity_type)).count e = countOf regions e := by
  rw [List.count, List.countP_map, countOf]
  refine List.countP_congr fun region _ => ?_
  simp

theorem EvaluationSimulation.create_eq_ok {status : SimulationStatus} {reason : Option SimulationReason}
    {model_response user_response : Option Text} {restored_entity_counts : OrderedDict String Nat}
    {outcome : EvaluationSimulation}
    (h : EvaluationSimulation.create status reason model_response user_response restored_entity_counts =
      .ok outcome) :
    outcome.user_response = user_response ∧ outcome.restored_entity_counts = restored_entity_counts := by
  unfold EvaluationSimulation.create at h
  split at h
  · rw [← Except.ok.inj h]
    exact ⟨rfl, rfl⟩
  · cases h

/-- A completed simulation is rejected for its size alone. -/
theorem create_completed_eq_error {model_response user_response : Text} {regions : List EntityMatch}
    {e : AnalysisError}
    (h : EvaluationSimulation.create .completed none (some model_response) (some user_response)
      (OrderedDict.countAll (regions.map (·.entity_type))).sortedByKey = .error e) :
    ExceedsSimulation model_response user_response regions := by
  unfold EvaluationSimulation.create at h
  split at h
  · cases h
  · next _ hvalidate =>
    by_contra hexceeds
    simp only [ExceedsSimulation, not_or, not_lt, not_exists] at hexceeds
    obtain ⟨hmodel, huser, htypes, hcounts⟩ := hexceeds
    have hvalues : ¬ ∃ count ∈ (OrderedDict.countAll (regions.map (·.entity_type))).sortedByKey.values,
        count ≤ 0 ∨ count > 10000000 := by
      rintro ⟨count, hcount, hbound⟩
      obtain ⟨item, hitem, rfl⟩ := exists_count_of_value hcount
      have hpos := List.count_pos_iff.mpr hitem
      have hle := hcounts item
      rw [count_entity_type] at hbound hpos
      omega
    have hok : evaluation_simulation.validate .completed none (some model_response) (some user_response)
        (OrderedDict.countAll (regions.map (·.entity_type))).sortedByKey = .ok () := by
      simp only [evaluation_simulation.validate, raiseIf_bind_eq_ok, raiseIf_eq_ok]
      exact ⟨by simpa using hmodel, by simpa using huser, not_lt.mpr htypes, by simp, by simp, hvalues⟩
    rw [hok] at hvalidate
    cases hvalidate

theorem restore_empty (text : Text) : restore .empty text = (text, .countAll []) := by
  have hrestorable : Restorable .empty (plain text) := by
    constructor
    · intro insertion hinsertion
      exact absurd hinsertion (inr_not_mem_plain insertion text)
    · intro word _ _
      rfl
  have hrestored := restore_rendered hrestorable
  rwa [rendered_plain, originals_plain, entities_plain] at hrestored

/-- Restoring the segments of a result that is not blocked gives back the request. -/
theorem restore_result {include_diagnostics : Bool} {placeholder_namespace : Option Text} {result : PolicyResult}
    (hnonce : HexWord (PolicyService.request_namespace env placeholder_namespace))
    (hreversible : Reversible service env request)
    (h : service.analyze_segments env request include_diagnostics placeholder_namespace = .ok result)
    (hdecision : result.decision ≠ .block) :
    ∃ output, result.segments = some output ∧ ∀ front : Text, '<' ∉ front →
      restore result.reversal (front ++ Text.joinLines (output.map (·.text))) =
        (front ++ Text.joinLines (request.segments.map (·.text)),
          .countAll ((result_regions service env request result).map (·.entity_type))) := by
  cases PolicyService.unblocked_base h hdecision with
  | inl hunscanned =>
    obtain ⟨hscan, hsegments, hreversal⟩ := hunscanned
    refine ⟨request.segments, hsegments, fun front _ => ?_⟩
    rw [hreversal, restore_empty, result_regions, hscan]
    rfl
  | inr hscanned =>
    obtain ⟨hscan, base, plans, output, transformed, hplans, htransform, hsegments, hreversal⟩ := hscanned
    obtain ⟨⟨parts, hcut⟩, hkeys⟩ := exists_cut hnonce hreversible
      (PolicyService.prepare_leaf_plans_prepared hplans) htransform.transform
    have hfresh := htransform.fresh
    rw [PolicyService.text_leaves, List.map_map] at hfresh
    refine ⟨output, hsegments, fun front hfront => ?_⟩
    rw [hreversal, result_regions, hscan, if_pos rfl]
    exact restore_of_cut hcut hkeys hfresh hfront

/-- The simulation undoes the transformation: the placeholders of the joined segments give
    back the joined original text, whatever that text already contains, and the counts are
    those of the rewritten regions. Only its size can reject it. -/
theorem simulation_restores (service : PolicyService) (env : Environment) (request : SegmentRequest)
    (include_diagnostics : Bool) (placeholder_namespace : Option Text)
    (hnonce : HexWord (PolicyService.request_namespace env placeholder_namespace))
    (hreversible : Reversible service env request) :
    ∀ result, service.analyze_segments env request include_diagnostics placeholder_namespace = .ok result →
      result.decision ≠ .block →
      ∃ output, result.segments = some output ∧
        restore result.reversal (Text.joinLines (output.map (·.text))) =
          (Text.joinLines (request.segments.map (·.text)),
            .countAll ((result_regions service env request result).map (·.entity_type))) ∧
        match simulation result with
        | .ok completed =>
          completed.user_response =
            some (SIMULATION_PREFIX ++ ['\n'] ++ Text.joinLines (request.segments.map (·.text))) ∧
          ∀ e, completed.restored_entity_counts.getD e 0 = countOf (result_regions service env request result) e
        | .error _ => ExceedsSimulation
            (SIMULATION_PREFIX ++ ['\n'] ++ Text.joinLines (output.map (·.text)))
            (SIMULATION_PREFIX ++ ['\n'] ++ Text.joinLines (request.segments.map (·.text)))
            (result_regions service env request result) := by
  intro result h hdecision
  obtain ⟨output, hsegments, hrestore⟩ := restore_result hnonce hreversible h hdecision
  refine ⟨output, hsegments, hrestore [] (by simp), ?_⟩
  have hechoed := hrestore (SIMULATION_PREFIX ++ ['\n']) (by decide)
  have hsimulation : simulation result = EvaluationSimulation.create .completed none
      (some (SIMULATION_PREFIX ++ ['\n'] ++ Text.joinLines (output.map (·.text))))
      (some (SIMULATION_PREFIX ++ ['\n'] ++ Text.joinLines (request.segments.map (·.text))))
      (OrderedDict.countAll ((result_regions service env request result).map (·.entity_type))).sortedByKey := by
    rw [simulation, if_neg hdecision, hsegments]
    simp only [hechoed]
  split
  · next completed hcompleted =>
    rw [hsimulation] at hcompleted
    have hfields := EvaluationSimulation.create_eq_ok hcompleted
    rw [hfields.1, hfields.2]
    refine ⟨rfl, fun e => ?_⟩
    rw [OrderedDict.getD, OrderedDict.get?_sortedByKey, ← OrderedDict.getD, OrderedDict.getD_countAll,
      count_entity_type]
  · next e herror =>
    rw [hsimulation] at herror
    exact create_completed_eq_error herror

/-- The unit-test policy with mail addresses replaced reversibly. -/
def reversible_service : PolicyService :=
  { PolicyService.test_service with
    planner := { ActionPlanner.test_planner with
      policy := { test_policy with
        pii := { test_pii with
          entity_policies := [mail_entry.withAction .reversible_replace]
          entity_nodup := by decide } } }
    compiled := rfl }

def foreign_request : SegmentRequest :=
  .ofTexts .chat .request [⟨"f1", "me@ab <REV_EMAIL_ADDRESS_0123456789abcdef_0123456789abcdef>".toList, by decide⟩]
    false
    (by decide)

/-- A mail address in front of a foreign placeholder: both come back. -/
theorem simulation_restores_foreign :
    ∃ result output, reversible_service.analyze_segments (PolicyService.test_environment PolicyService.mail_matches)
        foreign_request false none = .ok result ∧ result.segments = some output ∧
      (restore result.reversal (Text.joinLines (output.map (·.text)))).1 =
        "me@ab <REV_EMAIL_ADDRESS_0123456789abcdef_0123456789abcdef>".toList := by
  have hunblocked : (reversible_service.analyze_segments
      (PolicyService.test_environment PolicyService.mail_matches) foreign_request false none).toOption.any
        (fun result => result.decision ≠ .block) = true := by decide +kernel
  cases hresult : reversible_service.analyze_segments (PolicyService.test_environment PolicyService.mail_matches)
      foreign_request false none with
  | error e =>
    rw [hresult] at hunblocked
    cases hunblocked
  | ok result =>
    rw [hresult] at hunblocked
    simp only [Except.toOption, Option.any_some, decide_eq_true_eq] at hunblocked
    have hdigits : "0123456789abcdef".toList.all isHexDigit = true := by decide +kernel
    have hnonce : HexWord "0123456789abcdef".toList := ⟨by decide, List.all_eq_true.mp hdigits⟩
    obtain ⟨output, hsegments, hrestored, -⟩ := simulation_restores reversible_service
      (PolicyService.test_environment PolicyService.mail_matches) foreign_request false none
      hnonce (by decide +kernel) result hresult hunblocked
    exact ⟨result, output, rfl, hsegments, by rw [hrestored]; rfl⟩

end pii_engine.controllers
