import PiiEngine.Controllers.Acceptance

open checked collections
open pii_engine.config pii_engine.policy

namespace pii_engine.controllers

open pii_engine.policy.PolicyService

theorem Supported.mono {waived waived' : Prop} {result : PolicyResult} (h : Supported waived result)
    (hwaived : waived → waived') : Supported waived' result where
  pass := h.pass
  apply_actions := h.apply_actions
  reroute hreroute := ⟨(h.reroute hreroute).1, (h.reroute hreroute).2.imp_left hwaived⟩
  block hblock := ⟨(h.block hblock).1, fun hrows => ((h.block hblock).2 hrows).imp_left hwaived⟩

/-- Only a blocked result has a row that blocks. -/
theorem Supported.unblocked {waived : Prop} {result : PolicyResult} (h : Supported waived result)
    (hdecision : result.decision ≠ .block) : ∀ row ∈ result.report_rows, row.action ≠ .pii .block := by
  intro row hrow
  cases hcase : result.decision with
  | pass =>
    rw [h.pass hcase row hrow]
    nofun
  | apply_actions => exact ((h.apply_actions hcase).1 row hrow).1
  | reroute => exact (h.reroute hcase).1 row hrow
  | block => exact absurd hcase hdecision

/-- Evidence of few types is counted as the response contract asks. -/
theorem counted_of_evidence {result : PolicyResult} (h : Evidence result) (hle : result.entities.length ≤ 64)
    (huncached : result.cached_decision_applied = false) : Counted result where
  entities := .of_evidence h
  entities_le := hle
  sorted := h.sorted
  within row hrow := ⟨(h.types _).mp (List.mem_map_of_mem hrow), (h.detected row hrow).le⟩
  current _ := ⟨fun e he => (h.types e).mpr he, h.detected⟩
  cached happlied := by
    rw [huncached] at happlied
    cases happlied

/-- A result of the current request whose time nobody took yet. -/
structure Current (result : PolicyResult) : Prop where
  analysis_source : result.analysis_source = .current_request
  uncached : result.cached_decision_applied = false
  untimed : result.duration_ms = none

/-- A result of the current request before its faces are added. -/
structure Faceless (service : PolicyService) (request : SegmentRequest) (result : PolicyResult) : Prop where
  bounded : Bounded result
  notices : result.response_notices.length ≤ 1
  forwarded : Forwarded request result
  supported : Supported ((service.face_route request).isSome = true) result
  corresponds : Corresponds request result
  evidence : Evidence result
  unfaced : "FACE" ∉ result.entities
  entities_le : result.entities.length ≤ 63
  text_only : .text_only ∉ result.applied_actions
  current : Current result
  unscanned : result.scan_performed = false → result.entities = []
  failed : ∀ visual ∈ request.visual_findings, visual.faces.scan_status = .failed → result.decision = .block
  faces : request.faceCount ≠ 0 → service.policy.attachments.faces.action = .block → result.decision = .block

section faces
variable {service : PolicyService} {request : SegmentRequest} {base result : PolicyResult} {row : PIIReportRow}

theorem visual_of_faces (h : request.faceCount ≠ 0) : request.visual_findings ≠ none := by
  intro hnone
  rw [SegmentRequest.faceCount, hnone] at h
  exact h rfl

theorem faceCount_eq {visual : VisualFindings} (h : visual ∈ request.visual_findings) :
    request.faceCount = visual.faces.count.getD 0 := by
  rw [SegmentRequest.faceCount, Option.mem_def.mp h]

/-- Without faces the result is presented as it is. -/
theorem Faceless.presented (h : Faceless service request result) (hcount : request.faceCount = 0) :
    Presented request result where
  bounded := h.bounded
  forwarded := h.forwarded
  supported := h.supported.mono fun hroute => by
    rw [PolicyService.face_route, if_neg fun hface => hface.1 hcount] at hroute
    cases hroute
  corresponds := h.corresponds
  seen := {
    unseen := fun _ => h.unfaced
    count := fun visual hvisual => by
      rw [← faceCount_eq hvisual, hcount]
      exact OrderedDict.getD_eq_of_not_mem (fun hkey => h.unfaced ((h.evidence.keys _).mp hkey)) 0
    failed := h.failed
    uncached := fun _ => ⟨h.current.analysis_source, h.current.uncached⟩
    unscanned := fun _ hscan e he => by
      rw [h.unscanned hscan] at he
      cases he
    face := fun row hrow hface =>
      absurd (hface ▸ (h.evidence.types _).mp (List.mem_map_of_mem hrow)) h.unfaced
    text_only := fun hmem => absurd hmem h.text_only }
  counted := counted_of_evidence h.evidence (h.entities_le.trans (by decide)) h.current.uncached

/-- What the faces leave alone, and the row that they add. -/
structure Faced (base result : PolicyResult) (row : PIIReportRow) : Prop where
  segments : result.segments = base.segments
  entity_counts : result.entity_counts = base.entity_counts.set "FACE" row.detected_count
  entities : result.entities = sortOn id result.entity_counts.keys
  report_rows : result.report_rows = sortOn PIIReportRow.entity_type (base.report_rows ++ [row])
  applied_actions : result.applied_actions = sortedActions (.ofList (base.applied_actions ++ [row.action]))
  analysis_source : result.analysis_source = base.analysis_source
  scan_performed : result.scan_performed = base.scan_performed
  overlap_count : result.overlap_count = base.overlap_count
  cached_decision_applied : result.cached_decision_applied = base.cached_decision_applied
  duration_ms : result.duration_ms = base.duration_ms
  reversal : result.reversal = base.reversal
  safety_rule : result.safety_rule = base.safety_rule
  request_notices : result.request_notices = base.request_notices

theorem Faced.mem_rows (h : Faced base result row) {other : PIIReportRow} :
    other ∈ result.report_rows ↔ other ∈ base.report_rows ∨ other = row := by
  rw [h.report_rows, mem_sortOn, List.mem_append, List.mem_singleton]

theorem Faced.mem_entities (h : Faced base result row) (hbase : Evidence base) {e : String} :
    e ∈ result.entities ↔ e = "FACE" ∨ e ∈ base.entities := by
  rw [h.entities, mem_sortOn, h.entity_counts, OrderedDict.mem_keys_set, hbase.keys]

/-- The evidence with the faces is as consistent as that without them. -/
theorem Faced.evidence (h : Faced base result row) (hface : row.entity_type = "FACE") (hbase : Evidence base)
    (hunfaced : "FACE" ∉ base.entities) : Evidence result := by
  have hbase_row : ∀ other ∈ base.report_rows, other.entity_type ≠ "FACE" :=
    fun other hother hother_face => hunfaced (hother_face ▸ (hbase.types _).mp (List.mem_map_of_mem hother))
  refine ⟨fun e => ?_, ?_, ?_, fun e => ?_, fun other hother => ?_⟩
  · rw [h.entities, mem_sortOn]
  · rw [h.entities]
    exact (sortOn_perm _).nodup_iff.mpr result.entity_counts.keys_nodup
  · have hnodup : ((base.report_rows ++ [row]).map PIIReportRow.entity_type).Nodup := by
      rw [List.map_append, List.nodup_append]
      refine ⟨hbase.sorted.imp fun hlt => ne_of_lt hlt, List.nodup_singleton _, ?_⟩
      rintro e he other hother
      obtain ⟨old, hold, rfl⟩ := List.mem_map.mp he
      rw [List.map_singleton, List.mem_singleton] at hother
      rw [hother, hface]
      exact hbase_row old hold
    have hperm : (result.report_rows.map PIIReportRow.entity_type).Perm
        ((base.report_rows ++ [row]).map PIIReportRow.entity_type) := by
      rw [h.report_rows]
      exact (sortOn_perm _).map _
    have hle : (result.report_rows.map PIIReportRow.entity_type).Pairwise (· ≤ ·) := by
      rw [h.report_rows]
      exact List.pairwise_map.mpr (sortOn_pairwise _)
    exact hle.imp₂ (fun _ _ hle hne => lt_of_le_of_ne hle hne) (hperm.nodup_iff.mpr hnodup)
  · rw [h.mem_entities hbase, ← hbase.types, List.mem_map]
    simp only [h.mem_rows]
    constructor
    · rintro ⟨other, hother | rfl, rfl⟩
      · exact Or.inr (List.mem_map_of_mem hother)
      · exact Or.inl hface
    · rintro (rfl | he)
      · exact ⟨row, Or.inr rfl, hface⟩
      · obtain ⟨other, hother, rfl⟩ := List.mem_map.mp he
        exact ⟨other, Or.inl hother, rfl⟩
  · rw [h.entity_counts, OrderedDict.getD_set]
    cases h.mem_rows.mp hother with
    | inl hold =>
      rw [if_neg (hbase_row other hold)]
      exact hbase.detected other hold
    | inr heq => rw [heq, if_pos hface]

/-- The ways in which the faces decide. -/
inductive FaceDecided (service : PolicyService) (request : SegmentRequest) (base result : PolicyResult)
    (action : ReportAction) : Prop where
  | block (hbase : base.decision = .block) (haction : action = .pii .block) (hdecision : result.decision = .block)
      (hremote : result.remote_allowed = base.remote_allowed) (hroute : result.route_class = base.route_class)
  | text_only (hbase : base.decision ≠ .block) (haction : action = .text_only)
      (hdecision : result.decision = if base.decision = .pass then .apply_actions else base.decision)
      (hremote : result.remote_allowed = base.remote_allowed) (hroute : result.route_class = base.route_class)
      (hface : service.face_route request = none)
  | reroute (hbase : base.decision ≠ .block) (haction : action = .pii .reroute) (hdecision : result.decision = .reroute)
      (hremote : result.remote_allowed = false) (hroute : result.route_class = service.face_route request)
      (hface : (service.face_route request).isSome = true)

theorem apply_visual_faced (hbase : Faceless service request base) (hcount : request.faceCount ≠ 0)
    (h : service.apply_visual_result base request (service.face_route request) = .ok result) :
    ∃ row : PIIReportRow, row.entity_type = "FACE" ∧ row.detected_count = request.faceCount ∧
      row.transformed_count = 0 ∧ Faced base result row ∧ FaceDecided service request base result row.action ∧
      session_decision.notices_bounded result.response_notices = true := by
  obtain ⟨-, row, hrow, rfl⟩ := (apply_visual_result_eq_ok.mp h).resolve_left fun hnone => hcount hnone.1
  obtain ⟨htype, haction, hdetected, htransformed, -⟩ := PIIReportRow.create_eq_ok.mp hrow
  have hnotices : ∀ added : List String, added.length ≤ 1 → (∀ notice ∈ added, notice.length ≤ 4000) →
      session_decision.notices_bounded
        ((if base.decision = .pass ∧ base.entities = [] then [] else base.response_notices) ++ added) = true := by
    intro added hadded hlength
    have hbounded := hbase.bounded.response_notices
    have hle := hbase.notices
    simp only [session_decision.notices_bounded_iff, List.length_append, List.mem_append] at hbounded ⊢
    split
    · exact ⟨by simp only [List.length_nil]; omega, fun notice hnotice =>
        hnotice.elim (fun hnil => absurd hnil List.not_mem_nil) (hlength notice)⟩
    · exact ⟨by omega, fun notice hnotice => hnotice.elim (hbounded.2 notice) (hlength notice)⟩
  refine ⟨row, htype, hdetected, htransformed, ?_⟩
  rw [← haction, ← hdetected]
  by_cases hblock : base.decision = .block
  · have hvisual : row.action = .pii .block := by rw [haction, PolicyService.visual_action, if_pos hblock]
    rw [hvisual]
    refine ⟨by constructor <;> first | rfl | rw [hvisual]; rfl, .block hblock rfl hblock rfl rfl, ?_⟩
    have hbase_notices := hnotices [] (by decide) (by simp)
    rw [List.append_nil] at hbase_notices
    exact hbase_notices
  · have hvisual : row.action = face_action service.policy.attachments.faces.action := by
      rw [haction, PolicyService.visual_action, if_neg hblock]
    cases hfaces : service.policy.attachments.faces.action with
    | block => exact absurd (hbase.faces hcount hfaces) hblock
    | text_only =>
      rw [hfaces] at hvisual
      have hroute : service.face_route request = none := by
        rw [PolicyService.face_route, if_neg]
        rw [hfaces]
        rintro ⟨-, hne⟩
        cases hne
      rw [hvisual]
      refine ⟨by constructor <;> first | rfl | rw [hvisual]; rfl, .text_only hblock rfl rfl rfl rfl hroute, ?_⟩
      exact hnotices ["Faces were detected; images must be withheld."] (by decide) (by decide)
    | reroute =>
      rw [hfaces] at hvisual
      have hroute : (service.face_route request).isSome = true := by
        rw [PolicyService.face_route, if_pos ⟨hcount, hfaces⟩]
        rfl
      rw [hvisual]
      refine ⟨by constructor <;> first | rfl | rw [hvisual]; rfl, .reroute hblock rfl rfl rfl rfl hroute, ?_⟩
      have hle := service.policy.notice.rerouted_le
      change session_decision.notices_bounded [service.policy.notice.rerouted] = true
      exact session_decision.notices_bounded_iff.mpr ⟨by simp, by simpa using hle⟩

/-- A result with faces is blocked exactly when the result without them is. -/
theorem FaceDecided.block_iff {action : ReportAction} (h : FaceDecided service request base result action) :
    result.decision = .block ↔ base.decision = .block := by
  cases h with
  | block hbase haction hdecision => rw [hdecision, hbase]
  | text_only hbase haction hdecision =>
    rw [hdecision]
    split
    · next hpass =>
      rw [hpass]
      decide
    · rfl
  | reroute hbase haction hdecision =>
    rw [hdecision]
    exact iff_of_false (by decide) hbase

theorem faced_forwarded {action : ReportAction} (hbase : Faceless service request base) (h : Faced base result row)
    (hdecided : FaceDecided service request base result action)
    (hroutes : ∀ route ∈ service.face_route request, isRouteClass route = true ∧ route.length ≤ 128) :
    Forwarded request result where
  segments hne := by
    rw [h.segments]
    exact hbase.forwarded.segments fun hblock => hne (hdecided.block_iff.mpr hblock)
  block hblock := by
    have hbase_block := hdecided.block_iff.mp hblock
    obtain ⟨hsegments, hroute, hreversal⟩ := hbase.forwarded.block hbase_block
    rw [h.segments, h.reversal]
    cases hdecided with
    | block _ _ _ _ hsame => exact ⟨hsegments, hsame.trans hroute, hreversal⟩
    | text_only hne => exact absurd hbase_block hne
    | reroute hne => exact absurd hbase_block hne
  remote := by
    have hremote := hbase.forwarded.remote
    cases hdecided with
    | block hbase_block haction hdecision hsame hroute => rw [hsame, hremote, hdecision, hbase_block]
    | text_only hbase_block haction hdecision hsame hroute hface =>
      rw [hsame, hremote, hdecision]
      split
      · next hpass =>
        rw [hpass]
        decide
      · rfl
    | reroute hbase_block haction hdecision hlocal hroute hface =>
      rw [hlocal, hdecision]
      decide
  reroute hreroute := by
    cases hdecided with
    | block hbase_block haction hdecision =>
      rw [hdecision] at hreroute
      cases hreroute
    | text_only hbase_block haction hdecision hremote hroute hface =>
      rw [hdecision] at hreroute
      split at hreroute
      · cases hreroute
      · rw [hroute]
        exact hbase.forwarded.reroute hreroute
    | reroute hbase_block haction hdecision hremote hroute hface =>
      obtain ⟨route, hsome⟩ := Option.isSome_iff_exists.mp hface
      refine ⟨route, hroute.trans hsome, ?_⟩
      rintro rfl
      exact absurd (hroutes _ hsome).1 (by decide)

theorem faced_supported (hbase : Faceless service request base) (h : Faced base result row)
    (huntransformed : row.transformed_count = 0)
    (hdecided : FaceDecided service request base result row.action) : Supported False result := by
  have hmem : row ∈ result.report_rows := h.mem_rows.mpr (Or.inr rfl)
  cases hdecided with
  | block hbase_block haction hdecision =>
    refine ⟨fun hpass => ?_, fun happly => ?_, fun hreroute => ?_, fun _ => ⟨fun other hother => ?_, fun _ =>
      Or.inr ⟨row, hmem, haction⟩⟩⟩
    · rw [hdecision] at hpass
      cases hpass
    · rw [hdecision] at happly
      cases happly
    · rw [hdecision] at hreroute
      cases hreroute
    · cases h.mem_rows.mp hother with
      | inl hold => exact (hbase.supported.block hbase_block).1 other hold
      | inr heq => rw [heq, huntransformed]
  | text_only hbase_block haction hdecision hremote hroute hunrouted =>
    have hunwaived : Supported False base := hbase.supported.mono fun hsome => by
      rw [hunrouted] at hsome
      cases hsome
    have hunblocked : ∀ other ∈ result.report_rows, other.action ≠ .pii .block := by
      intro other hother
      cases h.mem_rows.mp hother with
      | inl hold => exact hbase.supported.unblocked hbase_block other hold
      | inr heq =>
        rw [heq, haction]
        nofun
    refine ⟨fun hpass => ?_, fun happly => ⟨fun other hother => ⟨hunblocked other hother, ?_⟩, row, hmem,
      Or.inr haction⟩, fun hreroute => ⟨hunblocked, ?_⟩, fun hblock => ?_⟩
    · rw [hdecision] at hpass
      split at hpass
      · cases hpass
      · next hne => exact absurd hpass hne
    · cases h.mem_rows.mp hother with
      | inl hold =>
        rw [hdecision] at happly
        split at happly
        · next hpass =>
          rw [hunwaived.pass hpass other hold]
          nofun
        · exact ((hunwaived.apply_actions happly).1 other hold).2
      | inr heq =>
        rw [heq, haction]
        nofun
    · rw [hdecision] at hreroute
      split at hreroute
      · cases hreroute
      · obtain ⟨other, hold, hother⟩ := (hunwaived.reroute hreroute).2.resolve_left id
        exact Or.inr ⟨other, h.mem_rows.mpr (Or.inl hold), hother⟩
    · rw [hdecision] at hblock
      split at hblock
      · cases hblock
      · exact absurd hblock hbase_block
  | reroute hbase_block haction hdecision =>
    refine ⟨fun hpass => ?_, fun happly => ?_, fun _ => ⟨fun other hother => ?_, Or.inr ⟨row, hmem, haction⟩⟩,
      fun hblock => ?_⟩
    · rw [hdecision] at hpass
      cases hpass
    · rw [hdecision] at happly
      cases happly
    · cases h.mem_rows.mp hother with
      | inl hold => exact hbase.supported.unblocked hbase_block other hold
      | inr heq =>
        rw [heq, haction]
        nofun
    · rw [hdecision] at hblock
      cases hblock

section presented
variable (hbase : Faceless service request base) (hfaced : Faced base result row)
  (hdecided : FaceDecided service request base result row.action)
include hbase hfaced hdecided

theorem faced_bounded (hroutes : ∀ route ∈ service.face_route request, isRouteClass route = true ∧ route.length ≤ 128)
    (hnotices : session_decision.notices_bounded result.response_notices = true) : Bounded result where
  overlap_count := by
    rw [hfaced.overlap_count]
    exact hbase.bounded.overlap_count
  no_overlap := by
    rw [hfaced.scan_performed, hfaced.analysis_source, hfaced.overlap_count]
    exact hbase.bounded.no_overlap
  applied_actions := by
    rw [hfaced.applied_actions]
    exact UniqueList.sorted_nodup _
  route_class route hroute := by
    cases hdecided with
    | block _ _ _ _ hsame => exact hbase.bounded.route_class route (hsame ▸ hroute)
    | text_only _ _ _ _ hsame => exact hbase.bounded.route_class route (hsame ▸ hroute)
    | reroute _ _ _ _ hsame => exact (hroutes route (hsame ▸ hroute)).2
  safety_rule := by
    rw [hfaced.safety_rule]
    exact hbase.bounded.safety_rule
  request_notices := by
    rw [hfaced.request_notices]
    exact hbase.bounded.request_notices
  response_notices := hnotices
  reversal := by
    rw [hfaced.reversal]
    exact hbase.bounded.reversal
  no_reversal := by
    rw [hfaced.scan_performed, hfaced.reversal]
    exact hbase.bounded.no_reversal

/-- The row of the faces carries the action that they took. -/
theorem faced_row : ∀ other ∈ result.report_rows, other.entity_type = "FACE" →
    other.action ∈ result.applied_actions ∧ (result.decision = .block → other.action = .pii .block) := by
  intro other hother hother_face
  have heq : other = row := by
    refine (hfaced.mem_rows.mp hother).resolve_left fun hold => hbase.unfaced ?_
    exact hother_face ▸ (hbase.evidence.types _).mp (List.mem_map_of_mem hold)
  rw [heq]
  refine ⟨?_, fun hblock => ?_⟩
  · rw [hfaced.applied_actions, sortedActions, UniqueList.mem_sorted, UniqueList.mem_ofList, List.mem_append,
      List.mem_singleton]
    exact Or.inr rfl
  · have hbase_block := hdecided.block_iff.mp hblock
    cases hdecided with
    | block _ haction => exact haction
    | text_only hne => exact absurd hbase_block hne
    | reroute hne => exact absurd hbase_block hne

end presented

/-- The faces add one type to those of the texts. -/
theorem Faced.entities_le (h : Faced base result row) (hbase : Faceless service request base)
    (hnodup : result.entities.Nodup) : result.entities.length ≤ 64 := by
  have hsubset : result.entities ⊆ "FACE" :: base.entities :=
    fun e he => List.mem_cons.mpr ((h.mem_entities hbase.evidence).mp he)
  have hlength := (List.subperm_of_subset hnodup hsubset).length_le
  rw [List.length_cons] at hlength
  have hbase_le := hbase.entities_le
  omega

/-- A result to which faces were added is presented. -/
theorem Faceless.presented_faces (hbase : Faceless service request base) (hcount : request.faceCount ≠ 0)
    (hroutes : ∀ route ∈ service.face_route request, isRouteClass route = true ∧ route.length ≤ 128)
    (h : service.apply_visual_result base request (service.face_route request) = .ok result) :
    Presented request result ∧ Current result := by
  obtain ⟨row, hface, hdetected, htransformed, hfaced, hdecided, hnotices⟩ := apply_visual_faced hbase hcount h
  refine ⟨?_, hfaced.analysis_source.trans hbase.current.analysis_source,
    hfaced.cached_decision_applied.trans hbase.current.uncached, hfaced.duration_ms.trans hbase.current.untimed⟩
  have hvisual := visual_of_faces hcount
  have hevidence := hfaced.evidence hface hbase.evidence hbase.unfaced
  refine ⟨faced_bounded hbase hfaced hdecided hroutes hnotices, faced_forwarded hbase hfaced hdecided hroutes,
    (faced_supported hbase hfaced htransformed hdecided).mono False.elim, ?_, ?_,
    counted_of_evidence hevidence (hfaced.entities_le hbase hevidence.nodup)
      (hfaced.cached_decision_applied.trans hbase.current.uncached)⟩
  · refine ⟨fun _ _ _ hnone => absurd hnone hvisual, fun hdisabled => ?_, fun _ henabled hscan => ?_,
      fun hmcp => absurd hmcp (request.visual_ok hvisual).1⟩
    · rw [hfaced.scan_performed, hfaced.segments]
      exact hbase.corresponds.disabled hdisabled
    · rw [hfaced.scan_performed] at hscan
      exact hdecided.block_iff.mpr (hbase.corresponds.enabled hvisual henabled hscan)
  · refine ⟨fun hnone => absurd hnone hvisual, fun visual hsome => ?_, fun visual hsome hfailed => ?_, fun _ => ?_,
      fun _ hscan e he => ?_, faced_row hbase hfaced hdecided,
      fun _ => ⟨row, hfaced.mem_rows.mpr (Or.inr rfl), hface⟩⟩
    · rw [hfaced.entity_counts, OrderedDict.getD_set, if_pos rfl, hdetected, faceCount_eq hsome]
    · exact hdecided.block_iff.mpr (hbase.failed visual hsome hfailed)
    · rw [hfaced.analysis_source, hfaced.cached_decision_applied]
      exact ⟨hbase.current.analysis_source, hbase.current.uncached⟩
    · rw [hfaced.scan_performed] at hscan
      refine ((hfaced.mem_entities hbase.evidence).mp he).resolve_right fun hold => ?_
      rw [hbase.unscanned hscan] at hold
      cases hold

end faces

end pii_engine.controllers
