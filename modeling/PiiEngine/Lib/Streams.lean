import Mathlib.Tactic.Common

namespace streams
variable {σ μ ρ : Type}

/-- What a message leads to: a result, or a state to read on with. -/
inductive Next (σ ρ : Type) where
  | stop (result : ρ)
  | go (state : σ)

/-- A loop that reads one message a round. Every round that goes on lowers a measure, so that
    the loop ends on any stream. -/
structure Reader (σ μ ρ : Type) where
  step : σ → μ → Next σ ρ
  measure : σ → Nat
  decreases : ∀ s message t, step s message = .go t → measure t < measure s

namespace Reader
variable {reader : Reader σ μ ρ} {stream : Nat → μ} {start s t : σ} {n : Nat} {result : ρ}

/-- Read a stream from a position on: the result and the messages read by then. -/
def read (reader : Reader σ μ ρ) (stream : Nat → μ) (position : Nat) (s : σ) : ρ × Nat :=
  match h : reader.step s (stream position) with
  | .stop result => (result, position + 1)
  | .go t => reader.read stream (position + 1) t
termination_by reader.measure s
decreasing_by exact reader.decreases s _ t h

theorem read_stop (h : reader.step s (stream n) = .stop result) : reader.read stream n s = (result, n + 1) := by
  rw [read]
  split
  case h_1 other hother =>
    rw [h] at hother
    cases hother
    rfl
  case h_2 t hgo =>
    rw [h] at hgo
    cases hgo

theorem read_go (h : reader.step s (stream n) = .go t) : reader.read stream n s = reader.read stream (n + 1) t := by
  rw [read]
  split
  case h_1 other hother =>
    rw [h] at hother
    cases hother
  case h_2 u hgo =>
    rw [h] at hgo
    cases hgo
    rfl

/-- The states the loop passes, each after the messages read so far. -/
inductive Passes (reader : Reader σ μ ρ) (stream : Nat → μ) (start : σ) : Nat → σ → Prop
  | start : Passes reader stream start 0 start
  | step {n : Nat} {s t : σ} (h : Passes reader stream start n s) (hstep : reader.step s (stream n) = .go t) :
      Passes reader stream start (n + 1) t

theorem Passes.read_eq (h : Passes reader stream start n s) : reader.read stream 0 start = reader.read stream n s := by
  induction h with
  | start => rfl
  | step _ hstep ih => rw [ih, read_go hstep]

/-- The loop stops in a state that it passes. -/
theorem exists_stop (h : Passes reader stream start n s) :
    ∃ m t, Passes reader stream start m t ∧ reader.step t (stream m) = .stop (reader.read stream n s).1 ∧
      (reader.read stream n s).2 = m + 1 := by
  generalize hmeasure : reader.measure s = k
  induction k using Nat.strongRecOn generalizing n s with
  | ind k ih =>
    subst hmeasure
    cases hstep : reader.step s (stream n) with
    | stop result =>
      rw [read_stop hstep]
      exact ⟨n, s, h, hstep, rfl⟩
    | go t =>
      rw [read_go hstep]
      exact ih _ (reader.decreases s _ t hstep) (h.step hstep) rfl

/-- The result is the one of the state in which the loop stops. -/
theorem read_eq_iff : (reader.read stream 0 start).1 = result ↔
    ∃ n s, Passes reader stream start n s ∧ reader.step s (stream n) = .stop result := by
  constructor
  · rintro rfl
    obtain ⟨n, s, hpasses, hstop, -⟩ := exists_stop (Passes.start : Passes reader stream start 0 start)
    exact ⟨n, s, hpasses, hstop⟩
  · rintro ⟨n, s, hpasses, hstop⟩
    rw [hpasses.read_eq, read_stop hstop]

theorem Passes.measure_le (h : Passes reader stream start n s) : n + reader.measure s ≤ reader.measure start := by
  induction h with
  | start => omega
  | step _ hstep ih =>
    have hlt := reader.decreases _ _ _ hstep
    omega

/-- The loop reads at most one message more than the measure allows. -/
theorem read_count_le (reader : Reader σ μ ρ) (stream : Nat → μ) (start : σ) :
    (reader.read stream 0 start).2 ≤ reader.measure start + 1 := by
  obtain ⟨n, s, hpasses, -, hcount⟩ := exists_stop (Passes.start : Passes reader stream start 0 start)
  have hle := hpasses.measure_le
  omega

end Reader

end streams
