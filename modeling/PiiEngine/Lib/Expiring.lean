import PiiEngine.Lib.Collections

open collections

namespace expiring
variable {κ ν : Type} [DecidableEq κ]

/-- Values by key, each with the time from which it is gone. -/
abbrev Store (κ ν : Type) := OrderedDict κ (ν × Nat)

def read (store : Store κ ν) (now : Nat) (key : κ) : Option ν :=
  match store.get? key with
  | some (value, expiry) => if now < expiry then some value else none
  | none => none

/-- One transaction that writes the same value under every key. -/
def writeAll (store : Store κ ν) (keys : List κ) (value : ν) (expiry : Nat) : Store κ ν :=
  keys.foldl (fun store key => store.set key (value, expiry)) store

/-- Move the expiry of a value that is still there. -/
def refresh (store : Store κ ν) (now : Nat) (key : κ) (expiry : Nat) : Store κ ν :=
  match read store now key with
  | some value => store.set key (value, expiry)
  | none => store

theorem read_eq_some {store : Store κ ν} {now : Nat} {key : κ} {value : ν} :
    read store now key = some value ↔ ∃ expiry, store.get? key = some (value, expiry) ∧ now < expiry := by
  unfold read
  cases store.get? key with
  | none => simp
  | some entry =>
    obtain ⟨found, expiry⟩ := entry
    dsimp only
    split
    · next hlive => simp [hlive]
    · next hgone => simp [hgone]

theorem get?_writeAll (store : Store κ ν) (keys : List κ) (value : ν) (expiry : Nat) (key : κ) :
    (writeAll store keys value expiry).get? key = if key ∈ keys then some (value, expiry) else store.get? key := by
  unfold writeAll
  induction keys generalizing store with
  | nil => rfl
  | cons first keys ih =>
    rw [List.foldl_cons, ih, OrderedDict.get?_set]
    by_cases hmem : key ∈ keys
    · simp [hmem]
    · by_cases hkey : key = first
      · simp [hkey]
      · simp [hmem, hkey]

/-- Refreshing one key leaves the others alone. -/
theorem get?_refresh_ne (store : Store κ ν) (now : Nat) {key other : κ} (expiry : Nat) (hne : other ≠ key) :
    (refresh store now key expiry).get? other = store.get? other := by
  unfold refresh
  cases read store now key with
  | none => rfl
  | some value => exact OrderedDict.get?_set_ne store _ hne

end expiring
