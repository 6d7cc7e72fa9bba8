import PiiEngine.Controllers.Response
import PiiEngine.Controllers.Restoration
import PiiEngine.Runtime.Recorded

open checked collections
open pii_engine.config pii_engine.policy

namespace pii_engine.controllers

/-- A placeholder with the original value that it stands for, within the bounds of a response. -/
def ReversalEntry (placeholder value : Text) : Prop :=
  (∃ kind entity, IsPlaceholder placeholder kind entity ∧ entity.length ≤ 64) ∧
    1 ≤ value.length ∧ value.length ≤ 4000000

/-- The bounds of the single fields of a result. -/
structure Bounded (result : PolicyResult) : Prop where
  overlap_count : result.overlap_count ≤ 10000000
  no_overlap : result.scan_performed = false → result.analysis_source = .current_request → result.overlap_count = 0
  applied_actions : result.applied_actions.Nodup
  route_class : ∀ route ∈ result.route_class, route.length ≤ 128
  safety_rule : ∀ rule ∈ result.safety_rule, rule.length ≤ 128
  request_notices : session_decision.notices_bounded result.request_notices = true
  response_notices : session_decision.notices_bounded result.response_notices = true
  reversal : ∀ placeholder value, result.reversal.get? placeholder = some value → ReversalEntry placeholder value
  no_reversal : result.scan_performed = false → result.reversal = .empty

/-- A result carries segments exactly when it is not blocked, and remote access only when it
    is not rerouted either. -/
structure Forwarded (request : SegmentRequest) (result : PolicyResult) : Prop where
  segments : result.decision ≠ .block → ∃ segments, result.segments = some segments ∧
    segments.map TextSegment.id = request.segments.map TextSegment.id
  block : result.decision = .block → result.segments = none ∧ result.route_class = none ∧ result.reversal = .empty
  remote : result.remote_allowed = decide (result.decision ∉ [.block, .reroute])
  reroute : result.decision = .reroute → ∃ route, result.route_class = some route ∧ route ≠ ""

/-- The rows of a report support the decision. A waived row may be missing. -/
structure Supported (waived : Prop) (result : PolicyResult) : Prop where
  pass : result.decision = .pass → ∀ row ∈ result.report_rows, row.action = .pii .pass
  apply_actions : result.decision = .apply_actions →
    (∀ row ∈ result.report_rows, row.action ≠ .pii .block ∧ row.action ≠ .pii .reroute) ∧
      ∃ row ∈ result.report_rows, row.transformed_count ≠ 0 ∨ row.action = .text_only
  reroute : result.decision = .reroute → (∀ row ∈ result.report_rows, row.action ≠ .pii .block) ∧
    (waived ∨ ∃ row ∈ result.report_rows, row.action = .pii .reroute)
  block : result.decision = .block → (∀ row ∈ result.report_rows, row.transformed_count = 0) ∧
    (result.report_rows ≠ [] → waived ∨ ∃ row ∈ result.report_rows, row.action = .pii .block)

/-- A result answers the request it was made for. -/
structure Corresponds (request : SegmentRequest) (result : PolicyResult) : Prop where
  no_text : result.decision ≠ .block → result.scan_performed = false → result.analysis_source = .current_request →
    request.visual_findings = none → NoTextPass result request
  disabled : request.text_pii_enabled = false →
    result.scan_performed = false ∧ ∀ segments ∈ result.segments, segments = request.segments
  enabled : request.visual_findings ≠ none → request.text_pii_enabled = true → result.scan_performed = false →
    result.decision = .block
  mcp : request.request_kind = .mcp → PolicyService.Unrouted result

/-- The faces of a request are in its result, and in no other one. -/
structure Seen (request : SegmentRequest) (result : PolicyResult) : Prop where
  unseen : request.visual_findings = none → "FACE" ∉ result.entities
  count : ∀ visual ∈ request.visual_findings,
    result.entity_counts.getD "FACE" 0 = visual.faces.count.getD 0
  failed : ∀ visual ∈ request.visual_findings, visual.faces.scan_status = .failed → result.decision = .block
  uncached : request.visual_findings ≠ none →
    result.analysis_source = .current_request ∧ result.cached_decision_applied = false
  unscanned : request.visual_findings ≠ none → result.scan_performed = false → ∀ e ∈ result.entities, e = "FACE"
  face : ∀ row ∈ result.report_rows, row.entity_type = "FACE" → row.action ∈ result.applied_actions ∧
    (result.decision = .block → row.action = .pii .block)
  text_only : .text_only ∈ result.applied_actions → ∃ row ∈ result.report_rows, row.entity_type = "FACE"

/-- The counts of a report are those of the result, or within those that a session raised. -/
structure Counted (result : PolicyResult) : Prop where
  entities : runtime.EngineRuntime.EntitiesBounded result.entities result.entity_counts
  entities_le : result.entities.length ≤ 64
  sorted : (result.report_rows.map PIIReportRow.entity_type).Pairwise (· < ·)
  within : ∀ row ∈ result.report_rows, row.entity_type ∈ result.entities ∧
    row.detected_count ≤ result.entity_counts.getD row.entity_type 0
  current : result.cached_decision_applied = false →
    (∀ e ∈ result.entities, e ∈ result.report_rows.map PIIReportRow.entity_type) ∧
      ∀ row ∈ result.report_rows, row.detected_count = result.entity_counts.getD row.entity_type 0
  cached : result.cached_decision_applied = true → result.decision = .block ∨ result.decision = .reroute

/-- The scan of a result has a duration exactly when it took place. -/
structure Timed (result : PolicyResult) : Prop where
  duration : ∀ milliseconds ∈ result.duration_ms, milliseconds ≤ 600000
  performed : result.scan_performed = result.duration_ms.isSome
  current : result.scan_performed = true → result.analysis_source = .current_request
  cached : result.analysis_source = .cached_decision → result.cached_decision_applied = true

/-- What the response contract asks of a result besides its times. -/
structure Presented (request : SegmentRequest) (result : PolicyResult) : Prop where
  bounded : Bounded result
  forwarded : Forwarded request result
  supported : Supported (result.decision = .reroute ∧ result.analysis_source = .current_request ∧
    result.scan_performed = true ∧ result.cached_decision_applied = true) result
  corresponds : Corresponds request result
  seen : Seen request result
  counted : Counted result

/-- There are fewer than sixteen actions to apply. -/
theorem ReportAction_length_le {actions : List ReportAction} (h : actions.Nodup) : actions.length ≤ 10 := by
  have hall : ∀ action : ReportAction, action ∈ [.text_only, .pii .pass, .pii .block, .pii .reroute, .pii .mask,
      .pii .replace, .pii .redact, .pii .hash, .pii .encrypt, .pii .reversible_replace] := by
    intro action
    cases action with
    | text_only => simp
    | pii action => cases action <;> simp
  exact (List.subperm_of_subset h fun action _ => hall action).length_le

section acceptance
variable {request : SegmentRequest} {result : PolicyResult}

theorem isReversalKey_of_placeholder {placeholder kind entity : Text} (h : IsPlaceholder placeholder kind entity) :
    adapter_segment_analyze_response.isReversalKey placeholder = true := by
  obtain ⟨others, hrun⟩ := run_placeholder h []
  rw [List.append_nil] at hrun
  rw [adapter_segment_analyze_response.isReversalKey, hrun]
  rfl

theorem length_placeholder {placeholder kind entity : Text} (h : IsPlaceholder placeholder kind entity)
    (hentity : entity.length ≤ 64) : 3 ≤ placeholder.length ∧ placeholder.length ≤ 256 := by
  obtain ⟨hkind, -, nonce, digest, hnonce, hdigest, rfl⟩ := h
  have hlength : kind.length ≤ 9 := by
    rcases hkind with rfl | rfl <;> decide
  have hword := hnonce.1
  have hword' := hdigest.1
  simp only [List.length_append, List.length_singleton]
  omega

theorem validate_reversal_total (h : Bounded result) :
    adapter_segment_analyze_response.validate_reversal result.reversal = .ok () := by
  have hentry : ∀ entry ∈ result.reversal.items, ReversalEntry entry.1 entry.2 :=
    fun entry hentry => h.reversal entry.1 entry.2 (OrderedDict.mem_items_iff.mp hentry)
  rw [adapter_segment_analyze_response.validate_reversal, raiseIf_bind_eq_ok, raiseIf_eq_ok]
  constructor
  · rintro ⟨entry, hmem, hbad⟩
    obtain ⟨⟨kind, entity, hplaceholder, hlength⟩, -⟩ := hentry entry hmem
    have hbounds := length_placeholder hplaceholder hlength
    rw [isReversalKey_of_placeholder hplaceholder] at hbad
    simp only [Bool.true_eq_false, or_false] at hbad
    omega
  · rintro ⟨entry, hmem, hbad⟩
    have hvalue := (hentry entry hmem).2
    omega

theorem analysis_total (settings : Settings) (hbounded : Bounded result) (htimed : Timed result) :
    ∃ metadata, analysis result settings = .ok metadata ∧ metadata.val.source = result.analysis_source ∧
      metadata.val.scan_performed = result.scan_performed ∧
      metadata.val.cached_decision_applied = result.cached_decision_applied := by
  have hvalid : analysis_metadata.validate {
      source := result.analysis_source
      scan_performed := result.scan_performed
      duration_ms := result.duration_ms
      overlap_count := result.overlap_count
      policy_version := settings.policy_version
      text_leaf_count := result.text_leaf_count
      cached_decision_applied := result.cached_decision_applied } = .ok () := by
    simp only [analysis_metadata.validate, raiseIf_bind_eq_ok, raiseIf_eq_ok]
    refine ⟨?_, not_lt.mpr hbounded.overlap_count, ?_, not_not.mpr htimed.performed, ?_, ?_, ?_⟩
    · rintro ⟨milliseconds, hmem, hlt⟩
      exact absurd (htimed.duration milliseconds hmem) (not_le.mpr hlt)
    · have hversion := settings.policy_version_ok
      omega
    · rintro ⟨hscan, hsource⟩
      exact hsource (htimed.current hscan)
    · rintro ⟨hsource, huncached⟩
      rw [htimed.cached hsource] at huncached
      cases huncached
    · rintro ⟨hscan, hsource, hoverlap⟩
      exact hoverlap (hbounded.no_overlap hscan hsource)
  exact ⟨⟨_, hvalid⟩, accept_total hvalid, rfl, rfl, rfl⟩

theorem validate_correspondence_total (hforwarded : Forwarded request result) (h : Corresponds request result) :
    validate_correspondence result request = .ok () := by
  simp only [validate_correspondence, raiseIf_bind_eq_ok, raiseIf_eq_ok]
  refine ⟨?_, ?_, ?_, ?_, ?_, ?_⟩
  · rintro ⟨hdecision, hids⟩
    obtain ⟨segments, hsegments, hsame⟩ := hforwarded.segments hdecision
    exact hids (by rw [hsegments, Option.map_some, hsame])
  · rintro ⟨hdecision, hscan, hsource, hnone, hbad⟩
    exact hbad (h.no_text hdecision hscan hsource hnone)
  · rintro ⟨-, hscan, hdisabled⟩
    rw [(h.disabled hdisabled).1] at hscan
    cases hscan
  · rintro ⟨hfindings, henabled, hscan, hdecision⟩
    exact hdecision (h.enabled hfindings henabled hscan)
  · rintro ⟨-, hdisabled, segments, hmem, hne⟩
    exact hne ((h.disabled hdisabled).2 segments hmem)
  · rintro ⟨hkind, hbad⟩
    have hunrouted := h.mcp hkind
    rcases hbad with hbad | hbad | hbad | hbad
    · exact hunrouted.decision hbad
    · exact hbad hunrouted.route_class
    · exact hbad hunrouted.request_notices
    · exact hbad hunrouted.response_notices

open adapter_segment_analyze_response in
theorem get?_report_counts {rows : List PIIReportRow} (hnodup : (rows.map PIIReportRow.entity_type).Nodup) {e : String}
    {n : Nat} : (report_counts rows).get? e = some n ↔
      ∃ row ∈ rows, row.entity_type = e ∧ row.detected_count = n := by
  have hkeys : ((rows.map fun row => (row.entity_type, row.detected_count)).map Prod.fst).Nodup := by
    rw [List.map_map]
    exact hnodup
  have hmem := OrderedDict.mem_items_iff (d := ⟨_, hkeys⟩) (k := e) (v := n)
  rw [report_counts, OrderedDict.get?_ofList hkeys]
  refine hmem.symm.trans ?_
  simp [List.mem_map]

section fields
variable (hpresented : Presented request result) {metadata : AnalysisMetadata} {notices : Notices} {report : PIIReport}
  (hsource : metadata.val.source = result.analysis_source) (hscan : metadata.val.scan_performed = result.scan_performed)
  (hcached : metadata.val.cached_decision_applied = result.cached_decision_applied)
  (hreport : report.val = result.report_rows)
include hpresented

theorem validate_fields_total :
    segment_analysis_response.validate_fields (fields_of result metadata notices) = .ok () := by
  have hfit := hpresented.counted.entities.fit hpresented.counted.entities_le
  have hactions := ReportAction_length_le hpresented.bounded.applied_actions
  simp only [segment_analysis_response.validate_fields, raiseIf_bind_eq_ok, raiseIf_eq_ok]
  refine ⟨not_lt.mpr hpresented.counted.entities_le, not_lt.mpr hfit.1, by omega, ?_, ?_⟩
  · rintro ⟨route, hroute, hlt⟩
    exact absurd (hpresented.bounded.route_class route hroute) (not_le.mpr hlt)
  · rintro ⟨rule, hrule, hlt⟩
    exact absurd (hpresented.bounded.safety_rule rule hrule) (not_le.mpr hlt)

theorem validate_forwarding_total :
    segment_analysis_response.validate_forwarding (fields_of result metadata notices) = .ok () := by
  have hforwarded := hpresented.forwarded
  simp only [segment_analysis_response.validate_forwarding, raiseIf_bind_eq_ok, raiseIf_eq_ok]
  refine ⟨not_not.mpr ?_, not_not.mpr hforwarded.remote, ?_, ?_, ?_⟩
  · by_cases hblock : result.decision = .block
    · rw [(hforwarded.block hblock).1, decide_eq_true hblock]
      rfl
    · obtain ⟨segments, hsegments, -⟩ := hforwarded.segments hblock
      rw [hsegments, decide_eq_false hblock]
      rfl
  · rintro ⟨hblock, hroute⟩
    exact hroute (hforwarded.block hblock).2.1
  · rintro ⟨hreroute, hroute⟩
    obtain ⟨route, hsome, hne⟩ := hforwarded.reroute hreroute
    rw [hsome] at hroute
    cases hroute with
    | inl hnone => cases hnone
    | inr hempty => exact hne (Option.some.inj hempty)
  · rintro ⟨segments, hmem, hduplicate⟩
    have hblock : result.decision ≠ .block := by
      intro hblock
      rw [Option.mem_def, (hforwarded.block hblock).1] at hmem
      cases hmem
    obtain ⟨found, hfound, hids⟩ := hforwarded.segments hblock
    rw [Option.mem_def, hfound] at hmem
    rw [← Option.some.inj hmem, hids] at hduplicate
    exact hduplicate request.ids_nodup

include hcached hreport in
theorem validate_counts_total : adapter_segment_analyze_response.validate_counts
    (adapter_fields result request report (fields_of result metadata notices)) = .ok () := by
  have hcounted := hpresented.counted
  have hfit := hcounted.entities.fit hcounted.entities_le
  have hnodup : (result.report_rows.map PIIReportRow.entity_type).Nodup := hcounted.sorted.imp fun hlt => ne_of_lt hlt
  unfold adapter_segment_analyze_response.validate_counts
  dsimp only [adapter_fields, fields_of]
  rw [raiseIf_bind_eq_ok, not_or]
  refine ⟨⟨?_, ?_⟩, ?_⟩
  · rw [Bool.not_eq_false, sameElements_iff]
    exact hcounted.entities.keys
  · rintro ⟨count, hcount, hbad⟩
    obtain ⟨entry, hentry, rfl⟩ := List.mem_map.mp hcount
    have hbounds := hfit.2 entry hentry
    omega
  · rw [hcached, hreport]
    split
    · next happlied =>
      rw [raiseIf_eq_ok, not_or]
      constructor
      · rw [not_not, List.mem_pair]
        exact hcounted.cached happlied
      · rintro ⟨entry, hentry, hbad⟩
        obtain ⟨row, hrow, hname, hdetected⟩ := (get?_report_counts hnodup).mp (OrderedDict.mem_items_iff.mp hentry)
        obtain ⟨hentity, hle⟩ := hcounted.within row hrow
        rw [hname] at hentity hle
        rw [hdetected] at hle
        cases hbad with
        | inl hkey => exact hkey ((hcounted.entities.keys _).mpr hentity)
        | inr hlt => exact absurd hle (not_le.mpr hlt)
    · next happlied =>
      rw [Bool.not_eq_true] at happlied
      obtain ⟨htypes, hdetected⟩ := hcounted.current happlied
      rw [raiseIf_eq_ok, Bool.not_eq_false, OrderedDict.sameItems_iff]
      intro e
      by_cases he : e ∈ result.entities
      · obtain ⟨row, hrow, rfl⟩ := List.mem_map.mp (htypes e he)
        rw [(get?_report_counts hnodup).mpr ⟨row, hrow, rfl, rfl⟩, hdetected row hrow]
        exact (OrderedDict.get?_eq_some_getD ((hcounted.entities.keys _).mpr he) 0).symm
      · have hnone : result.entity_counts.get? e = none := by
          rw [← Option.not_isSome_iff_eq_none, ← OrderedDict.mem_keys_iff]
          exact fun hkey => he ((hcounted.entities.keys _).mp hkey)
        change (adapter_segment_analyze_response.report_counts result.report_rows).get? e = result.entity_counts.get? e
        rw [hnone, Option.eq_none_iff_forall_ne_some]
        intro n hn
        obtain ⟨row, hrow, rfl, -⟩ := (get?_report_counts hnodup).mp hn
        exact he (hcounted.within row hrow).1

include hsource hscan hcached hreport in
theorem validate_actions_total : adapter_segment_analyze_response.validate_actions
    (adapter_fields result request report (fields_of result metadata notices)) = .ok () := by
  have hsupported := hpresented.supported
  simp only [adapter_segment_analyze_response.validate_actions, raiseIf_bind_eq_ok, raiseIf_eq_ok, hreport, hsource,
    hscan, hcached]
  refine ⟨?_, ?_, ?_, ?_, ?_⟩
  · rintro ⟨hpass, action, haction, hne⟩
    obtain ⟨row, hrow, rfl⟩ := List.mem_map.mp haction
    exact hne (hsupported.pass hpass row hrow)
  · rintro ⟨happly, hbad⟩
    obtain ⟨hrows, hsome⟩ := hsupported.apply_actions happly
    rcases hbad with (hblock | hreroute) | hnone
    · obtain ⟨row, hrow, haction⟩ := List.mem_map.mp hblock
      exact (hrows row hrow).1 haction
    · obtain ⟨row, hrow, haction⟩ := List.mem_map.mp hreroute
      exact (hrows row hrow).2 haction
    · exact hnone hsome
  · rintro ⟨hreroute, hbad⟩
    obtain ⟨hrows, hsome⟩ := hsupported.reroute hreroute
    rcases hbad with hblock | ⟨hnone, hcurrent⟩
    · obtain ⟨row, hrow, haction⟩ := List.mem_map.mp hblock
      exact hrows row hrow haction
    · rcases hsome with hwaived | ⟨row, hrow, haction⟩
      · exact hcurrent hwaived.2
      · exact hnone (List.mem_map.mpr ⟨row, hrow, haction⟩)
  · rintro ⟨hblock, hbad⟩
    obtain ⟨huntransformed, hsome⟩ := hsupported.block hblock
    rcases hbad with hreversal | ⟨row, hrow, hcount⟩ | ⟨hrows, hnone⟩
    · rw [(hpresented.forwarded.block hblock).2.2] at hreversal
      exact hreversal rfl
    · exact hcount (huntransformed row hrow)
    · rcases hsome hrows with hwaived | ⟨row, hrow, haction⟩
      · rw [hwaived.1] at hblock
        cases hblock
      · exact hnone (List.mem_map.mpr ⟨row, hrow, haction⟩)
  · rintro ⟨hunscanned, hreversal⟩
    rw [hpresented.bounded.no_reversal hunscanned] at hreversal
    exact hreversal rfl

include hsource hscan hcached hreport in
theorem validate_visual_total : adapter_segment_analyze_response.validate_visual
    (adapter_fields result request report (fields_of result metadata notices)) = .ok () := by
  have hseen := hpresented.seen
  have hkeys := hpresented.counted.entities.keys
  have htext : ¬ (.text_only ∈ result.applied_actions ∧ ¬ ∃ row ∈ result.report_rows, row.entity_type = "FACE") :=
    fun h => h.2 (hseen.text_only h.1)
  unfold adapter_segment_analyze_response.validate_visual
  dsimp only [adapter_fields, fields_of]
  rw [hreport, hsource, hscan, hcached]
  cases hvisual : request.visual_findings with
  | none =>
    refine bind_eq_ok.mpr ⟨(), raiseIf_eq_ok.mpr ?_, raiseIf_eq_ok.mpr htext⟩
    rw [hkeys]
    exact hseen.unseen hvisual
  | some visual =>
    have hsome : request.visual_findings ≠ none := by rw [hvisual]; nofun
    obtain ⟨hcurrent, huncached⟩ := hseen.uncached hsome
    simp only [raiseIf_bind_eq_ok, raiseIf_eq_ok]
    refine ⟨?_, not_not.mpr (hseen.count visual hvisual), ?_, ?_, ?_, htext⟩
    · rintro (hsource | happlied)
      · exact hsource hcurrent
      · rw [huncached] at happlied
        cases happlied
    · rintro ⟨hfailed, hdecision⟩
      exact hdecision (hseen.failed visual hvisual hfailed)
    · rintro ⟨hunscanned, e, he, hne⟩
      exact hne (hseen.unscanned hsome hunscanned e ((hkeys e).mp he))
    · rintro ⟨row, hrow, hbad⟩
      have hface := List.find?_some hrow
      rw [decide_eq_true_eq] at hface
      obtain ⟨happlied, hblock⟩ := hseen.face row (List.mem_of_find?_eq_some hrow) hface
      rcases hbad with hbad | ⟨hdecision, hne⟩
      · exact hbad happlied
      · exact hne (hblock hdecision)

end fields

/-- A result that meets the conditions of the response contract is accepted by it. -/
theorem presented_accepted (settings : Settings) (h : Presented request result) (htimed : Timed result) :
    ∃ response, adapter_segment_response settings result request = .ok response := by
  obtain ⟨metadata, hmetadata, hsource, hscan, hcached⟩ := analysis_total settings h.bounded htimed
  have hnotices : session_decision.notices_bounded result.request_notices = true ∧
      session_decision.notices_bounded result.response_notices = true :=
    ⟨h.bounded.request_notices, h.bounded.response_notices⟩
  have hreport : pii_report.validate result.report_rows = .ok () := by
    have hle : result.report_rows.length ≤ 64 := by
      have hnodup : (result.report_rows.map PIIReportRow.entity_type).Nodup :=
        h.counted.sorted.imp fun hlt => ne_of_lt hlt
      have hsubset : result.report_rows.map PIIReportRow.entity_type ⊆ result.entities := by
        intro e he
        obtain ⟨row, hrow, rfl⟩ := List.mem_map.mp he
        exact (h.counted.within row hrow).1
      have hlength := (List.subperm_of_subset hnodup hsubset).length_le
      rw [List.length_map] at hlength
      exact hlength.trans h.counted.entities_le
    obtain ⟨hnodup, hsorted⟩ := session_decision.eq_sortOn_iff.mpr h.counted.sorted
    simp only [pii_report.validate, raiseIf_bind_eq_ok, raiseIf_eq_ok]
    exact ⟨not_lt.mpr hle, not_not.mpr hnodup, not_not.mpr hsorted⟩
  have hfields : segment_fields settings result request =
      .ok (fields_of result metadata ⟨_, _, hnotices.1, hnotices.2⟩) := by
    refine bind_eq_ok.mpr ⟨(), validate_correspondence_total h.forwarded h.corresponds, ?_⟩
    refine bind_eq_ok.mpr ⟨metadata, hmetadata, bind_eq_ok.mpr ⟨_, ?_, rfl⟩⟩
    exact dif_pos hnotices
  refine ⟨_, bind_eq_ok.mpr ⟨_, hfields, bind_eq_ok.mpr ⟨_, accept_total hreport, accept_total ?_⟩⟩⟩
  refine bind_eq_ok.mpr ⟨(), validate_fields_total h, ?_⟩
  refine bind_eq_ok.mpr ⟨(), validate_reversal_total h.bounded, ?_⟩
  refine bind_eq_ok.mpr ⟨(), validate_forwarding_total h, ?_⟩
  refine bind_eq_ok.mpr ⟨(), validate_counts_total h hcached rfl, ?_⟩
  refine bind_eq_ok.mpr ⟨(), validate_actions_total h hsource hscan hcached rfl, ?_⟩
  exact validate_visual_total h hsource hscan hcached rfl

end acceptance

end pii_engine.controllers
