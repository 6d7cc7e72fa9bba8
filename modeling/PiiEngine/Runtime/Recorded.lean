import PiiEngine.Policy.Recordable
import PiiEngine.Runtime.Sticky

open checked collections
open pii_engine.config pii_engine.policy pii_engine.policy.PolicyService pii_engine.session_decision

namespace pii_engine.runtime.EngineRuntime
variable {runtime : EngineRuntime} {call : Call} {request : SegmentRequest} {stored : SessionDecision}
  {store : Option SessionDecision} {analyzed result : PolicyResult} {request_kind : RequestKind} {types : List String}

/-- Entities whose names and counts a record admits. -/
structure EntitiesBounded (entities : List String) (entity_counts : OrderedDict String Nat) : Prop where
  keys : ∀ e, e ∈ entity_counts.keys ↔ e ∈ entities
  types : ∀ e ∈ entities, isEntityType e = true
  counts : ∀ e ∈ entities, 1 ≤ entity_counts.getD e 0 ∧ entity_counts.getD e 0 ≤ 10000000

/-- Every type of some evidence is reported, so its name and its count are bounded. -/
theorem EntitiesBounded.of_evidence (h : Evidence result) : EntitiesBounded result.entities result.entity_counts := by
  have hrow : ∀ e ∈ result.entities, ∃ row ∈ result.report_rows, row.entity_type = e :=
    fun e he => List.mem_map.mp ((h.types e).mpr he)
  refine ⟨h.keys, fun e he => ?_, fun e he => ?_⟩
  · obtain ⟨row, -, rfl⟩ := hrow e he
    exact row.counts.entity_type
  · obtain ⟨row, hmem, rfl⟩ := hrow e he
    rw [← h.detected row hmem]
    exact row.counts.detected

theorem EntitiesBounded.of_stored (stored : SessionDecision) :
    EntitiesBounded stored.entities stored.entity_counts where
  keys := stored.counts.keys
  types := stored.fields.entities.2
  counts e he := by
    have hkey := OrderedDict.get?_eq_some_getD ((stored.counts.keys e).mpr he) 0
    exact stored.fields.entity_counts.2 _ (OrderedDict.mem_items_iff.mpr hkey)

/-- At most 64 bounded entities fit into a record. -/
theorem EntitiesBounded.fit {entities : List String} {entity_counts : OrderedDict String Nat}
    (h : EntitiesBounded entities entity_counts) (hlength : entities.length ≤ 64) :
    entity_counts.items.length ≤ 64 ∧ ∀ entry ∈ entity_counts.items, 1 ≤ entry.2 ∧ entry.2 ≤ 10000000 := by
  constructor
  · rw [← OrderedDict.length_keys]
    exact (List.subperm_of_subset entity_counts.keys_nodup fun e he => (h.keys e).mp he).length_le.trans hlength
  · intro entry hentry
    have hbounded := h.counts entry.1 ((h.keys _).mp (List.mem_map_of_mem hentry))
    rwa [OrderedDict.getD, OrderedDict.mem_items_iff.mp hentry, Option.getD_some] at hbounded

theorem fieldsBounded_of_recordable (h : Recordable request result)
    (hterminal : result.decision = .block ∨ result.decision = .reroute) (htypes : result.entities.length ≤ 64) :
    FieldsBounded (taint_record request_kind result (result.report_rows, result.overlap_count)) where
  decision := hterminal
  entities := ⟨htypes, (EntitiesBounded.of_evidence h.evidence).types⟩
  entity_counts := (EntitiesBounded.of_evidence h.evidence).fit htypes
  report_rows := by
    have hnodup : (result.report_rows.map PIIReportRow.entity_type).Nodup :=
      h.evidence.sorted.imp fun hlt => ne_of_lt hlt
    have hle := (List.subperm_of_subset hnodup fun e he => (h.evidence.types e).mp he).length_le
    rw [List.length_map] at hle
    exact hle.trans htypes
  overlap_count := h.overlap_count
  route_class := by
    intro route hroute
    cases hterminal with
    | inl hblock =>
      change route ∈ result.route_class at hroute
      rw [(h.blocked hblock).1] at hroute
      cases hroute
    | inr hreroute =>
      obtain ⟨⟨found, hfound, hvalid, hle⟩, -⟩ := h.rerouted hreroute
      change route ∈ result.route_class at hroute
      rw [hfound] at hroute
      cases hroute
      exact ⟨hle, hvalid⟩
  request_notices := by
    change notices_bounded result.request_notices = true
    rw [h.request_notices]
    rfl
  response_notices := h.response_notices (List.mem_pair.mpr hterminal)

theorem routingAgrees_of_recordable (h : Recordable call.request result)
    (hterminal : result.decision = .block ∨ result.decision = .reroute) (evidence : List PIIReportRow × Nat)
    (hevidence : evidence.1 = result.report_rows) :
    RoutingAgrees (taint_record call.request_kind result evidence) where
  request_notices := h.request_notices
  local_only := h.local_only (List.mem_pair.mpr hterminal)
  block hblock := (h.blocked hblock).1
  reroute hreroute := by
    obtain ⟨⟨route, hroute, -⟩, -⟩ := h.rerouted hreroute
    change result.route_class ≠ none
    rw [hroute]
    nofun
  mcp hkind := by
    have hmcp : call.request.request_kind = .mcp := by
      by_contra hmodel
      change call.request_kind = .mcp at hkind
      rw [Call.request_kind, if_neg hmodel] at hkind
      cases hkind
    have hunrouted := h.mcp hmcp
    refine ⟨hterminal.resolve_right hunrouted.decision, hunrouted.route_class, hunrouted.response_notices, ?_⟩
    change ∀ row ∈ evidence.1, row.action ≠ .pii .reroute
    rw [hevidence]
    exact hunrouted.report_rows

theorem countsAgree_of_evidence (h : Evidence result) (hface : "FACE" ∉ result.entities) :
    CountsAgree (taint_record request_kind result (result.report_rows, result.overlap_count)) where
  no_face hmem := hface ((h.keys _).mp hmem)
  entities_nodup := h.nodup
  keys := h.keys
  sorted := h.sorted
  counted row hrow :=
    ⟨(h.keys _).mpr ((h.types _).mp (List.mem_map_of_mem hrow)), (h.detected row hrow).le⟩

/-- The record of an analysis passes every validator. -/
theorem analyzed_record_validated (h : Recordable call.request result)
    (hterminal : result.decision = .block ∨ result.decision = .reroute) (htypes : result.entities.length ≤ 64)
    (hface : "FACE" ∉ result.entities) :
    validate (taint_record call.request_kind result (result.report_rows, result.overlap_count)) = .ok () := by
  rw [validate_eq_ok]
  refine ⟨fieldsBounded_of_recordable h hterminal htypes, routingAgrees_of_recordable h hterminal _ rfl,
    countsAgree_of_evidence h.evidence hface, ?_, ?_, ?_⟩
  · intro hblock
    exact (h.blocked hblock).2.1
  · intro hblock
    exact (h.blocked hblock).2.2
  · intro hdecision
    exact (h.rerouted (hterminal.resolve_left hdecision)).2

/-- The types of merged counts are those of both. -/
theorem mem_keys_foldl_raise_count (entries : List (String × Nat)) (counts : OrderedDict String Nat) (e : String) :
    e ∈ (entries.foldl raise_count counts).keys ↔ e ∈ counts.keys ∨ e ∈ entries.map Prod.fst := by
  induction entries generalizing counts with
  | nil => simp
  | cons entry entries ih =>
    rw [List.foldl_cons, ih, raise_count, OrderedDict.mem_keys_set, List.map_cons, List.mem_cons]
    tauto

theorem mem_merged_entities (result : PolicyResult) (stored : SessionDecision) (e : String) :
    e ∈ (apply_cached_reroute result stored).entities ↔ e ∈ result.entities ∨ e ∈ stored.entities := by
  change e ∈ (UniqueList.ofList (result.entities ++ stored.entities)).sorted id ↔ _
  rw [UniqueList.mem_sorted, UniqueList.mem_ofList, List.mem_append]

theorem merged_count (result : PolicyResult) (stored : SessionDecision) (e : String) :
    (apply_cached_reroute result stored).entity_counts.getD e 0 =
      max (result.entity_counts.getD e 0) (stored.entity_counts.getD e 0) :=
  getD_foldl_raise_count _ _ stored.entity_counts.nodup e

theorem EntitiesBounded.merged (h : EntitiesBounded result.entities result.entity_counts) (stored : SessionDecision) :
    EntitiesBounded (apply_cached_reroute result stored).entities
      (apply_cached_reroute result stored).entity_counts := by
  have hstored := EntitiesBounded.of_stored stored
  -- a type that only one side has counts zero on the other
  have hcount : ∀ {entities : List String} {counts : OrderedDict String Nat}, EntitiesBounded entities counts →
      ∀ e, counts.getD e 0 ≤ 10000000 ∧ (e ∈ entities → 1 ≤ counts.getD e 0) := by
    intro entities counts hbounded e
    by_cases he : e ∈ entities
    · exact ⟨(hbounded.counts e he).2, fun _ => (hbounded.counts e he).1⟩
    · rw [OrderedDict.getD_eq_of_not_mem (fun hkey => he ((hbounded.keys e).mp hkey))]
      exact ⟨Nat.zero_le _, fun h => absurd h he⟩
  refine ⟨fun e => ?_, fun e he => ?_, fun e he => ?_⟩
  · rw [mem_merged_entities, ← h.keys, ← hstored.keys]
    exact mem_keys_foldl_raise_count _ _ e
  · exact ((mem_merged_entities result stored e).mp he).elim (h.types e) (hstored.types e)
  · rw [merged_count]
    refine ⟨?_, max_le (hcount h e).1 (hcount hstored e).1⟩
    cases (mem_merged_entities result stored e).mp he with
    | inl hcurrent => exact ((hcount h e).2 hcurrent).trans (le_max_left _ _)
    | inr hold => exact ((hcount hstored e).2 hold).trans (le_max_right _ _)

/-- The record of a sticky reroute passes every validator again: the current evidence joins the
    stored one, and everything else stays. -/
theorem merged_record_validated (hreroute : stored.decision = .reroute) (hkind : stored.request_kind = request_kind)
    (h : Evidence result) (hunion : (UniqueList.ofList (result.entities ++ stored.entities)).card ≤ 64)
    (hface : "FACE" ∉ result.entities) :
    validate (taint_record request_kind (apply_cached_reroute result stored)
      (stored.report_rows, stored.overlap_count)) = .ok () := by
  have hbounded := (EntitiesBounded.of_evidence h).merged stored
  have hlength : (apply_cached_reroute result stored).entities.length ≤ 64 :=
    (UniqueList.length_sorted _).trans_le hunion
  have hblock : stored.decision ≠ .block := fun hblock => by
    rw [hreroute] at hblock
    cases hblock
  rw [validate_eq_ok]
  refine ⟨?_, ?_, ?_, ?_⟩
  · exact ⟨Or.inr rfl, ⟨hlength, hbounded.types⟩, hbounded.fit hlength, stored.fields.report_rows,
      stored.fields.overlap_count, stored.fields.route_class, stored.fields.request_notices,
      stored.fields.response_notices⟩
  · refine ⟨stored.routing.request_notices, rfl, nofun, fun _ => stored.routing.reroute hreroute, fun hmcp => ?_⟩
    exact absurd (stored.routing.mcp (hkind.trans hmcp)).1 hblock
  · refine ⟨fun hkey => ?_, UniqueList.sorted_nodup _, hbounded.keys, stored.counts.sorted, fun row hrow => ?_⟩
    · cases (mem_merged_entities _ _ _).mp ((hbounded.keys _).mp hkey) with
      | inl hcurrent => exact hface hcurrent
      | inr hold => exact stored.counts.no_face ((stored.counts.keys _).mpr hold)
    · obtain ⟨hkey, hle⟩ := stored.counts.counted row hrow
      refine ⟨(hbounded.keys _).mpr ?_, hle.trans ?_⟩
      · exact (mem_merged_entities _ _ _).mpr (Or.inr ((stored.counts.keys _).mp hkey))
      · exact (le_max_right _ _).trans_eq (merged_count result stored row.entity_type).symm
  · exact ⟨nofun, nofun, fun _ => stored.rows.reroute hblock⟩

/-- A call whose analysis detects only the given entity types. -/
def DetectsWithin (runtime : EngineRuntime) (types : List String) (call : Call) : Prop :=
  ∀ placeholder_namespace analyzed, runtime.run_analysis call placeholder_namespace = .ok analyzed →
    ∀ e ∈ analyzed.entities, e ∈ types

/-- The record that a call is about to write passes every validator. -/
def Records (runtime : EngineRuntime) (call : Call) (store : Option SessionDecision) : Prop :=
  ∀ placeholder_namespace analyzed, runtime.Analyzed call store placeholder_namespace analyzed →
    runtime.taints call (apply_cached_decision analyzed store) = true →
    ∃ evidence, taint_evidence (apply_cached_decision analyzed store) store = .ok evidence ∧
      validate (taint_record call.request_kind (apply_cached_decision analyzed store) evidence) = .ok ()

theorem Recordable.timed (h : Recordable request result) (duration_ms : Option Nat) :
    Recordable request { result with duration_ms } :=
  ⟨⟨h.evidence.keys, h.evidence.nodup, h.evidence.sorted, h.evidence.types, h.evidence.detected⟩, h.uncached,
    h.overlap_count, h.request_notices, h.response_notices, h.local_only, h.blocked, h.rerouted,
    fun hmcp => ⟨(h.mcp hmcp).decision, (h.mcp hmcp).route_class, (h.mcp hmcp).request_notices,
      (h.mcp hmcp).response_notices, (h.mcp hmcp).report_rows⟩⟩

/-- A session call has no visual findings. -/
theorem SessionCall.visual_findings (hcall : runtime.SessionCall call) : call.request.visual_findings = none := by
  by_contra hvisual
  have hscoped := hcall.session_scoped
  rw [Call.request_scoped, (call.request.visual_ok hvisual).2.1] at hscoped
  cases hscoped

/-- A session can record whatever a session call analyzes. -/
theorem run_analysis_recordable (hcall : runtime.SessionCall call)
    (hdefault : runtime.policy_settings.routing.default_target.length ≤ 128) {placeholder_namespace : Option Text}
    (h : runtime.run_analysis call placeholder_namespace = .ok analyzed) : Recordable call.request analyzed := by
  obtain ⟨⟨⟩, -, h⟩ := bind_eq_ok.mp h
  obtain ⟨result, hresult, h⟩ := bind_eq_ok.mp h
  have hrecordable := analyze_segments_recordable hcall.visual_findings hdefault hresult
  rw [← Except.ok.inj h]
  split
  · exact Recordable.timed hrecordable _
  · exact hrecordable

theorem taints_decision (h : runtime.taints call result = true) :
    result.decision = .block ∨ result.decision = .reroute := by
  rw [taints, decide_eq_true_eq] at h
  exact h.2.2.2

/-- While a session stays within 64 entity types and its policy routes to short names, no
    record of it is refused. -/
theorem records_of_within (hcall : runtime.SessionCall call)
    (hdefault : runtime.policy_settings.routing.default_target.length ≤ 128) (htypes : types.length ≤ 64)
    (hface : "FACE" ∉ types) (hwithin : runtime.DetectsWithin types call)
    (hstore : ∀ held ∈ store, ∀ e ∈ held.entities, e ∈ types) : runtime.Records call store := by
  intro ns analyzed hanalyzed htaints
  have hterminal := taints_decision htaints
  have hrecordable := run_analysis_recordable hcall hdefault hanalyzed.analysis
  have hdetected := hwithin ns analyzed hanalyzed.analysis
  have hcurrent : ∀ decided, decided = analyzed → decided.decision = .block ∨ decided.decision = .reroute →
      ∃ evidence, taint_evidence decided store = .ok evidence ∧
        validate (taint_record call.request_kind decided evidence) = .ok () := by
    rintro decided rfl hdecision
    refine ⟨(decided.report_rows, decided.overlap_count), ?_, ?_⟩
    · unfold taint_evidence
      rw [hrecordable.uncached]
      rfl
    · have hlength := (List.subperm_of_subset hrecordable.evidence.nodup hdetected).length_le.trans htypes
      exact analyzed_record_validated hrecordable hdecision hlength fun hmem => hface (hdetected _ hmem)
  cases store with
  | none => exact hcurrent analyzed rfl hterminal
  | some stored =>
    obtain ⟨hkind, hopen⟩ := hanalyzed.read stored rfl
    have hreroute := reroute_of_open hopen
    rw [apply_cached_decision_some] at hterminal ⊢
    by_cases hblock : analyzed.decision = .block
    · rw [if_neg fun h => h.2 hblock] at hterminal ⊢
      exact hcurrent analyzed rfl hterminal
    · rw [if_pos ⟨hreroute, hblock⟩]
      refine ⟨(stored.report_rows, stored.overlap_count), rfl, ?_⟩
      refine merged_record_validated hreroute hkind hrecordable.evidence ?_ fun hmem => hface (hdetected _ hmem)
      refine (UniqueList.card_le_length fun e he => ?_).trans htypes
      exact (List.mem_append.mp (UniqueList.mem_ofList.mp he)).elim (hdetected e) (hstore stored rfl e)

/-- The record of a session holds only types that its calls detected. -/
theorem Served.entities_within {outcome : Except AnalysisError PolicyResult} {after : Option SessionDecision}
    (h : runtime.Served call store outcome after) (hwithin : runtime.DetectsWithin types call)
    (hstore : ∀ held ∈ store, ∀ e ∈ held.entities, e ∈ types) : ∀ held ∈ after, ∀ e ∈ held.entities, e ∈ types := by
  have hrecorded {ns : Option Text} {analyzed : PolicyResult} {record : SessionDecision}
      (hanalyzed : runtime.Analyzed call store ns analyzed)
      (hrecord : TaintRecord call (apply_cached_decision analyzed store) store record) :
      ∀ e ∈ record.entities, e ∈ types := by
    intro e he
    obtain ⟨evidence, -, hrecord⟩ := hrecord.evidence
    have hdetected := hwithin ns analyzed hanalyzed.analysis
    rw [hrecord] at he
    change e ∈ (apply_cached_decision analyzed store).entities at he
    cases store with
    | none => exact hdetected e he
    | some stored =>
      rw [apply_cached_decision_some] at he
      split at he
      · exact ((mem_merged_entities analyzed stored e).mp he).elim (hdetected e) (hstore stored rfl e)
      · exact hdetected e he
  cases h with
  | failed e => exact hstore
  | final found hfound hkind hfinal => exact hstore
  | untainted ns analyzed hanalyzed hdecision => exact hstore
  | tainted ns analyzed record hanalyzed hrecord =>
    intro held hheld
    cases hheld
    exact hrecorded hanalyzed hrecord
  | unconfirmed e ns analyzed record hanalyzed hrecord =>
    intro held hheld
    cases hheld
    exact hrecorded hanalyzed hrecord

end pii_engine.runtime.EngineRuntime
