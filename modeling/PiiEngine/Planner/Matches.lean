import Mathlib.Data.Prod.Lex
import Mathlib.Data.String.Basic
import PiiEngine.Analyzer
import PiiEngine.Config.Policy
import PiiEngine.Lib.Checked

open checked collections intervals intervals.sweep
open pii_engine.config

namespace pii_engine.planner

/-- One coalesced same-entity detection and its best owner. -/
structure LogicalMatch where
  entity_type : String
  start : Int
  stop : Int
  score : Option ℚ
  source : String
  owner_width : Int
  deriving DecidableEq

namespace LogicalMatch

def as_entity_match (item : LogicalMatch) : EntityMatch :=
  ⟨item.entity_type, item.start, item.stop, item.score, item.source⟩

def spans : Interval LogicalMatch Int := ⟨LogicalMatch.start, LogicalMatch.stop⟩

end LogicalMatch

/-- Reject invalid analyzer output before deduplication or grouping. -/
def validate_spans (items : List EntityMatch) (text_length : Nat) : Except AnalysisError Unit :=
  forM items fun item => do
    raiseIf (item.start < 0 ∨ item.stop > (text_length : Int) ∨ item.stop ≤ item.start)
      (.value_error "analyzer returned an invalid entity span")
    raiseIf (¬ item.ScoreValid) (.value_error "analyzer returned an invalid entity score")

/-- Scores are compared after validation, when every one of them is a number. -/
def scoreKey (score : Option ℚ) : ℚ := -score.getD 0

/-- The start of the least member and the stop of the greatest. -/
def groupStart {α : Type} (I : Interval α Int) (group : Cluster α) : Int :=
  (group.val.map I.start).min (by simpa using group.property)

def groupStop {α : Type} (I : Interval α Int) (group : Cluster α) : Int :=
  (group.val.map I.stop).max (by simpa using group.property)

def owner_key (item : EntityMatch) : ℤ ×ₗ ℚ ×ₗ String ×ₗ String ×ₗ ℤ ×ₗ ℤ :=
  toLex (-(item.stop - item.start), toLex (scoreKey item.score, toLex (item.entity_type,
    toLex (item.source, toLex (item.start, item.stop)))))

def owner (group : Cluster EntityMatch) : EntityMatch := group.val.minOn owner_key group.property

/-- Build one logical occurrence and retain deterministic owner evidence. -/
def coalesced (group : Cluster EntityMatch) : LogicalMatch where
  entity_type := (owner group).entity_type
  start := groupStart EntityMatch.spans group
  stop := groupStop EntityMatch.spans group
  score := (owner group).score
  source := (owner group).source
  owner_width := (owner group).stop - (owner group).start

def coalesce_key (item : EntityMatch) : ℤ ×ₗ ℤ ×ₗ ℚ ×ₗ String :=
  toLex (item.start, toLex (item.stop, toLex (scoreKey item.score, item.source)))

def logical_key (item : LogicalMatch) : ℤ ×ₗ ℤ ×ₗ String :=
  toLex (item.start, toLex (item.stop, item.entity_type))

/-- The sweep over the detections of one entity type. -/
def entity_groups (items : List EntityMatch) : List (Cluster EntityMatch) :=
  groups EntityMatch.spans (-1) (sortOn coalesce_key items)

/-- Coalesce connected same-entity duplicates into logical detections. The argument
    lists the distinct matches in the order in which the set yields them. -/
def coalesce_same_entity (distinct : List EntityMatch) : List LogicalMatch :=
  let by_entity := OrderedDict.groupBy EntityMatch.entity_type distinct
  let logical := (sortOn id by_entity.keys).flatMap fun entity_type =>
    (entity_groups (by_entity.getD entity_type [])).map coalesced
  sortOn logical_key logical

def resolve_key (item : LogicalMatch) : ℤ ×ₗ ℤ ×ₗ String ×ₗ String :=
  toLex (item.start, toLex (item.stop, toLex (item.entity_type, item.source)))

def winner_key (strictness : String → Nat) (item : LogicalMatch) :
    ℤ ×ₗ ℤ ×ₗ ℚ ×ₗ String ×ₗ String ×ₗ ℤ ×ₗ ℤ :=
  toLex (-(strictness item.entity_type : ℤ), toLex (-item.owner_width, toLex (scoreKey item.score,
    toLex (item.entity_type, toLex (item.source, toLex (item.start, item.stop))))))

def winner (strictness : String → Nat) (group : Cluster LogicalMatch) : LogicalMatch :=
  group.val.minOn (winner_key strictness) group.property

/-- Choose the strictest owner and execute it over the complete union. -/
def resolve_group (strictness : String → Nat) (group : Cluster LogicalMatch) : EntityMatch × Nat :=
  let winner := winner strictness group
  let selected : EntityMatch :=
    ⟨winner.entity_type, groupStart LogicalMatch.spans group, groupStop LogicalMatch.spans group,
      winner.score, winner.source⟩
  let overlapped := if 1 < (UniqueList.ofList (group.val.map (·.entity_type))).card then 1 else 0
  (selected, overlapped)

/-- Return logical detections and safe effective union-span actions. -/
def resolve_matches (strictness : String → Nat) (items : List EntityMatch) (text_length : Nat) :
    Except AnalysisError (List EntityMatch × List EntityMatch × Nat) := do
  validate_spans items text_length
  let logical := coalesce_same_entity items.dedup
  let resolved := (groups LogicalMatch.spans (-1) (sortOn resolve_key logical)).map
    (resolve_group strictness)
  pure (logical.map LogicalMatch.as_entity_match, resolved.map Prod.fst, (resolved.map Prod.snd).sum)

end pii_engine.planner
