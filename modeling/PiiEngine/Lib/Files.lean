import PiiEngine.Lib.Collections
import PiiEngine.Lib.Crashes

open collections crashes

namespace files

/-- What stands at a path below a root directory. A link leads to a path below that root. -/
inductive Node (ν β : Type) where
  | file (content : β)
  | directory
  | link (target : List ν)
  deriving DecidableEq

/-- The entries below a root directory, by their paths without links. -/
abbrev Files (ν β : Type) := OrderedDict (List ν) (Node ν β)

namespace Files
variable {ν β : Type} [DecidableEq ν]

/-- Follow a path from a directory through the links on it, for a bounded number of names. -/
def walk (files : Files ν β) : Nat → List ν → List ν → Option (List ν)
  | _, base, [] => some base
  | 0, _, _ :: _ => none
  | fuel + 1, base, name :: rest =>
    match files.get? (base ++ [name]) with
    | some (.link target) => files.walk fuel [] (target ++ rest)
    | some .directory => files.walk fuel (base ++ [name]) rest
    | _ => if rest = [] then some (base ++ [name]) else none

/-- The number of names that a path can pass. -/
def limit : Nat := 4096

def resolve (files : Files ν β) (path : List ν) : Option (List ν) := files.walk limit [] path

/-- The entry at a path itself, which may be a link. -/
def lstat (files : Files ν β) (path : List ν) : Option (Node ν β) :=
  match path.getLast? with
  | none => some .directory
  | some name => (files.resolve path.dropLast).bind fun parent => files.get? (parent ++ [name])

/-- The entry that a path leads to. -/
def stat (files : Files ν β) (path : List ν) : Option (Node ν β) :=
  (files.resolve path).bind fun found => if found = [] then some .directory else files.get? found

def is_symlink (files : Files ν β) (path : List ν) : Bool :=
  match files.lstat path with
  | some (.link _) => true
  | _ => false

def read_bytes (files : Files ν β) (path : List ν) : Option β :=
  match files.stat path with
  | some (.file content) => some content
  | _ => none

def is_file (files : Files ν β) (path : List ν) : Bool := (files.read_bytes path).isSome

def «exists» (files : Files ν β) (path : List ν) : Bool := (files.stat path).isSome

/-- The paths below a directory that `rglob("*")` finds, relative to it. Links are found and
    not followed. -/
def rglob (files : Files ν β) (path : List ν) : List (List ν) :=
  match files.resolve path with
  | none => []
  | some base => (files.keys.filter fun key => base <+: key ∧ base ≠ key).map (·.drop base.length)

/-- Nothing at or below a path differs. -/
def SameBelow (path : List ν) (s t : Files ν β) : Prop := ∀ p, path <+: p → t.get? p = s.get? p

/-- Nothing but what is at or below a path differs. -/
def SameBeside (path : List ν) (s t : Files ν β) : Prop := ∀ p, ¬ path <+: p → t.get? p = s.get? p

/-- No link stands at or below a path. -/
def Unlinked (files : Files ν β) (path : List ν) : Prop :=
  ∀ p target, path <+: p → files.get? p ≠ some (.link target)

theorem Unlinked.of_same {s t : Files ν β} {path : List ν} (h : s.Unlinked path) (hsame : SameBelow path s t) :
    t.Unlinked path := by
  intro p target hp
  rw [hsame p hp]
  exact h p target hp

section walk
variable {s t : Files ν β} {path : List ν}

/-- Following a path below an entry without links reads only what is at or below that. -/
theorem walk_congr (hsame : SameBelow path s t) (hlinks : s.Unlinked path) (fuel : Nat) (base rest : List ν)
    (hbase : ∀ name, rest.head? = some name → path <+: base ++ [name]) :
    t.walk fuel base rest = s.walk fuel base rest := by
  induction rest generalizing fuel base with
  | nil => cases fuel <;> rfl
  | cons name rest ih =>
    cases fuel with
    | zero => rfl
    | succ fuel =>
      have hnext : path <+: base ++ [name] := hbase name rfl
      rw [walk, walk, hsame _ hnext]
      split
      case h_1 target hlink => exact absurd hlink (hlinks _ target hnext)
      case h_2 => exact ih fuel (base ++ [name]) (fun other _ => hnext.trans (List.prefix_append _ [other]))
      case h_3 => rfl

/-- A path on which no link stands leads to itself. -/
theorem walk_direct {fuel : Nat} {base rest found : List ν}
    (hlinks : ∀ front, front ≠ [] → front <+: rest → ∀ target, s.get? (base ++ front) ≠ some (.link target))
    (h : s.walk fuel base rest = some found) : found = base ++ rest := by
  induction rest generalizing fuel base with
  | nil =>
    rw [List.append_nil]
    cases fuel <;> exact (Option.some.inj h).symm
  | cons name rest ih =>
    cases fuel with
    | zero => cases h
    | succ fuel =>
      rw [walk] at h
      split at h
      case h_1 target hlink =>
        exact absurd hlink (hlinks [name] (List.cons_ne_nil _ _) (List.prefix_append [name] rest) target)
      case h_2 =>
        have hfound : found = base ++ [name] ++ rest := by
          refine ih ?_ h
          intro front _ hfront target
          rw [List.append_assoc, List.singleton_append]
          exact hlinks (name :: front) (List.cons_ne_nil _ _) (List.cons_prefix_cons.mpr ⟨rfl, hfront⟩) target
        rwa [List.append_assoc] at hfound
      case h_3 =>
        split at h
        case isTrue hnil =>
          rw [hnil]
          exact (Option.some.inj h).symm
        case isFalse => cases h

/-- Without links a path leads to itself. -/
theorem walk_unlinked (hlinks : s.Unlinked path) {fuel : Nat} {base rest found : List ν}
    (hbase : ∀ name, rest.head? = some name → path <+: base ++ [name]) (h : s.walk fuel base rest = some found) :
    found = base ++ rest := by
  refine walk_direct ?_ h
  intro front hne hfront target
  apply hlinks (base ++ front) target
  cases front with
  | nil => exact absurd rfl hne
  | cons name front =>
    obtain ⟨tail, rfl⟩ := hfront
    have hname : base ++ name :: front = base ++ [name] ++ front := by
      rw [List.append_assoc, List.singleton_append]
    rw [hname]
    exact (hbase name rfl).trans (List.prefix_append _ front)

end walk

section congr
variable {s t : Files ν β} {name : ν}

theorem resolve_congr (hsame : SameBelow [name] s t) (hlinks : s.Unlinked [name]) (rest : List ν) :
    t.resolve (name :: rest) = s.resolve (name :: rest) := by
  refine walk_congr hsame hlinks limit [] (name :: rest) ?_
  intro other hother
  cases hother
  exact List.prefix_refl _

theorem resolve_unlinked (hlinks : s.Unlinked [name]) {rest found : List ν}
    (h : s.resolve (name :: rest) = some found) :
    found = name :: rest := by
  refine walk_unlinked hlinks ?_ h
  intro other hother
  cases hother
  exact List.prefix_refl _

theorem get?_congr (hsame : SameBelow [name] s t) (rest : List ν) : t.get? (name :: rest) = s.get? (name :: rest) :=
  hsame _ (List.prefix_append [name] rest)

theorem stat_congr (hsame : SameBelow [name] s t) (hlinks : s.Unlinked [name]) (rest : List ν) :
    t.stat (name :: rest) = s.stat (name :: rest) := by
  rw [stat, stat, resolve_congr hsame hlinks]
  cases hfound : s.resolve (name :: rest) with
  | none => rfl
  | some found =>
    rw [resolve_unlinked hlinks hfound]
    exact get?_congr hsame rest

theorem lstat_congr (hsame : SameBelow [name] s t) (hlinks : s.Unlinked [name]) (rest : List ν) :
    t.lstat (name :: rest) = s.lstat (name :: rest) := by
  cases List.eq_nil_or_concat rest with
  | inl hnil =>
    rw [hnil]
    exact get?_congr hsame []
  | inr hconcat =>
    obtain ⟨parents, last, rfl⟩ := hconcat
    rw [List.concat_eq_append]
    have hlast : (name :: (parents ++ [last])).getLast? = some last := by
      rw [← List.cons_append, List.getLast?_concat]
    have hparents : (name :: (parents ++ [last])).dropLast = name :: parents := by
      rw [← List.cons_append, List.dropLast_concat]
    rw [lstat, lstat, hlast, hparents]
    dsimp only
    rw [resolve_congr hsame hlinks]
    cases hfound : s.resolve (name :: parents) with
    | none => rfl
    | some found =>
      rw [resolve_unlinked hlinks hfound]
      exact get?_congr hsame (parents ++ [last])

theorem read_bytes_congr (hsame : SameBelow [name] s t) (hlinks : s.Unlinked [name]) (rest : List ν) :
    t.read_bytes (name :: rest) = s.read_bytes (name :: rest) := by
  rw [read_bytes, read_bytes, stat_congr hsame hlinks]

theorem is_file_congr (hsame : SameBelow [name] s t) (hlinks : s.Unlinked [name]) (rest : List ν) :
    t.is_file (name :: rest) = s.is_file (name :: rest) := by
  rw [is_file, is_file, read_bytes_congr hsame hlinks]

theorem is_symlink_congr (hsame : SameBelow [name] s t) (hlinks : s.Unlinked [name]) (rest : List ν) :
    t.is_symlink (name :: rest) = s.is_symlink (name :: rest) := by
  rw [is_symlink, is_symlink, lstat_congr hsame hlinks]

theorem mem_rglob {files : Files ν β} {path p : List ν} :
    p ∈ files.rglob path ↔ p ≠ [] ∧ ∃ base, files.resolve path = some base ∧ (files.get? (base ++ p)).isSome := by
  rw [rglob]
  cases files.resolve path with
  | none => simp
  | some base =>
    simp only [List.mem_map, List.mem_filter, OrderedDict.mem_keys_iff, decide_eq_true_eq]
    constructor
    · rintro ⟨key, ⟨hkey, ⟨rest, rfl⟩, hne⟩, rfl⟩
      rw [List.drop_left]
      refine ⟨?_, base, rfl, hkey⟩
      rintro rfl
      exact hne (List.append_nil base).symm
    · rintro ⟨hne, found, hfound, hp⟩
      cases hfound
      refine ⟨base ++ p, ⟨hp, List.prefix_append base p, ?_⟩, List.drop_left⟩
      intro hsame
      exact hne (List.self_eq_append_right.mp hsame)

theorem mem_rglob_congr (hsame : SameBelow [name] s t) (hlinks : s.Unlinked [name]) (rest p : List ν) :
    p ∈ t.rglob (name :: rest) ↔ p ∈ s.rglob (name :: rest) := by
  rw [mem_rglob, mem_rglob, resolve_congr hsame hlinks]
  refine and_congr_right fun _ => exists_congr fun base => and_congr_right fun hbase => ?_
  rw [resolve_unlinked hlinks hbase, List.cons_append, get?_congr hsame]

/-- A file below an entry without links is read where its path says, and that entry is a directory. -/
theorem directory_of_read_bytes (hlinks : s.Unlinked [name]) {last : ν} {content : β}
    (h : s.read_bytes [name, last] = some content) :
    s.get? [name] = some .directory ∧ s.get? [name, last] = some (.file content) := by
  cases hfound : s.resolve [name, last] with
  | none => simp [read_bytes, stat, hfound] at h
  | some found =>
    have hpath := resolve_unlinked hlinks hfound
    constructor
    · have hwalk : s.walk (limit - 1 + 1) [] [name, last] = some found := hfound
      rw [walk] at hwalk
      split at hwalk
      case h_1 target hlink => exact absurd hlink (hlinks _ target (List.prefix_refl _))
      case h_2 hdirectory => exact hdirectory
      case h_3 => simp at hwalk
    · rw [hpath] at hfound
      rw [read_bytes, stat, hfound, Option.bind_some, if_neg (List.cons_ne_nil _ _)] at h
      split at h
      case h_1 found hfile =>
        cases h
        exact hfile
      case h_2 => cases h

end congr

end Files

/-- What a program may do to the entries below a root: create an empty file or directory at
    a new path, copy a tree to a path, write a file, move one entry with all below it,
    remove a tree, remove a file, or do something elsewhere. -/
inductive Operation (ν β : Type) where
  | create (path : List ν) (node : Node ν β)
  | copy (tree : Files ν β) (path : List ν)
  | write (path : List ν) (content : β)
  | rename (source target : List ν)
  | remove_tree (path : List ν)
  | unlink (path : List ν)
  | elsewhere

namespace Operation
variable {ν β : Type} [DecidableEq ν]

/-- Some entries at or below a path are gone. -/
def Removing (path : List ν) (s t : Files ν β) : Prop :=
  Files.SameBeside path s t ∧ ∀ p, t.get? p = s.get? p ∨ t.get? p = none

/-- The entry at one path stands at another one, with all that is below it. -/
def Moved (source target : List ν) (s t : Files ν β) : Prop :=
  ∀ p, t.get? p =
    if target <+: p then s.get? (source ++ p.drop target.length) else if source <+: p then none else s.get? p

/-- A file takes the place of a file or a link, and a directory that of nothing. -/
def Replaces (source target : List ν) (s : Files ν β) : Prop :=
  (s.get? source = some .directory ∧ s.get? target = none) ∨
    ((s.get? source).isSome ∧ s.get? source ≠ some .directory ∧ s.get? target ≠ some .directory)

/-- The states that an operation passes. Only a copy, a write and a removal take several steps. -/
def Passes : Operation ν β → Files ν β → Files ν β → Prop
  | .create _ _, s, t => t = s
  | .copy _ path, s, t => Files.SameBeside path s t
  | .write path _, s, t => Files.SameBeside path s t
  | .rename _ _, s, t => t = s
  | .remove_tree path, s, t => s.get? path = some .directory ∧ Removing path s t ∨ t = s
  | .unlink _, s, t => t = s
  | .elsewhere, s, t => t = s

/-- How an operation ends. One that raises may have done a part of its work. -/
def Ends {ε : Type} : Operation ν β → Files ν β → Except ε Unit → Files ν β → Prop
  | .create path node, s, .ok _, t =>
    (∀ p, path <+: p → s.get? p = none) ∧ Files.SameBeside path s t ∧
      ∀ p, path <+: p → t.get? p = if p = path then some node else none
  | .copy tree path, s, .ok _, t =>
    Files.SameBeside path s t ∧ ∀ p, t.get? (path ++ p) = if p = [] then some .directory else tree.get? p
  | .write path content, s, .ok _, t =>
    Files.SameBeside path s t ∧ ∀ p, path <+: p → t.get? p = if p = path then some (.file content) else none
  | .rename source target, s, .ok _, t => Replaces source target s ∧ Moved source target s t
  | .remove_tree path, s, .ok _, t =>
    s.get? path = some .directory ∧ Removing path s t ∧ ∀ p, path <+: p → t.get? p = none
  | .unlink path, s, .ok _, t =>
    s.get? path ≠ some .directory ∧ Files.SameBeside path s t ∧ ∀ p, path <+: p → t.get? p = none
  | operation, s, .error _, t => operation.Passes s t
  | .elsewhere, s, .ok _, t => t = s

def effects (ν β ε : Type) [DecidableEq ν] : Effects (Files ν β) (Operation ν β) ε := ⟨Passes, Ends⟩

/-- The paths that an operation works at. -/
def paths : Operation ν β → List (List ν)
  | .create path _ | .copy _ path | .write path _ | .remove_tree path | .unlink path => [path]
  | .rename source target => [source, target]
  | .elsewhere => []

/-- An operation works outside an entry of the root directory. -/
def Outside (operation : Operation ν β) (name : ν) : Prop :=
  ∀ path ∈ operation.paths, ∃ other rest, path = other :: rest ∧ other ≠ name

omit [DecidableEq ν] in
theorem not_prefix_of_ne {name other : ν} {rest p : List ν} (hne : other ≠ name) (hp : [name] <+: p) :
    ¬ other :: rest <+: p := by
  obtain ⟨tail, rfl⟩ := hp
  intro hprefix
  exact hne (List.cons_prefix_cons.mp hprefix).1

section outside
variable {operation : Operation ν β} {name : ν} {s t : Files ν β}

omit [DecidableEq ν] in
theorem Outside.not_prefix (h : operation.Outside name) {path p : List ν} (hpath : path ∈ operation.paths)
    (hp : [name] <+: p) : ¬ path <+: p := by
  obtain ⟨other, rest, rfl, hne⟩ := h path hpath
  exact not_prefix_of_ne hne hp

/-- On its way an operation changes nothing outside the paths it works at. -/
theorem same_below_of_passes {ε : Type} (h : (effects ν β ε).passes operation s t) (houtside : operation.Outside name) :
    Files.SameBelow [name] s t := by
  change operation.Passes s t at h
  intro p hp
  cases operation with
  | create path node => rw [h]
  | copy tree path => exact h p (houtside.not_prefix (List.mem_singleton_self path) hp)
  | write path content => exact h p (houtside.not_prefix (List.mem_singleton_self path) hp)
  | rename source target => rw [h]
  | remove_tree path =>
    cases h with
    | inl hremoving => exact hremoving.2.1 p (houtside.not_prefix (List.mem_singleton_self path) hp)
    | inr hsame => rw [hsame]
  | unlink path => rw [h]
  | elsewhere => rw [h]

/-- At its end an operation has changed nothing outside the paths it works at. -/
theorem same_below_of_ends {ε : Type} {outcome : Except ε Unit} (h : (effects ν β ε).ends operation s outcome t)
    (houtside : operation.Outside name) : Files.SameBelow [name] s t := by
  change operation.Ends s outcome t at h
  cases outcome with
  | error failure =>
    have hpasses : (effects ν β ε).passes operation s t := by
      cases operation <;> exact h
    exact same_below_of_passes hpasses houtside
  | ok _ =>
    intro p hp
    cases operation with
    | create path node => exact h.2.1 p (houtside.not_prefix (List.mem_singleton_self path) hp)
    | copy tree path => exact h.1 p (houtside.not_prefix (List.mem_singleton_self path) hp)
    | write path content => exact h.1 p (houtside.not_prefix (List.mem_singleton_self path) hp)
    | rename source target =>
      rw [h.2 p, if_neg (houtside.not_prefix (List.mem_cons_of_mem _ (List.mem_singleton_self target)) hp),
        if_neg (houtside.not_prefix List.mem_cons_self hp)]
    | remove_tree path => exact h.2.1.1 p (houtside.not_prefix (List.mem_singleton_self path) hp)
    | unlink path => exact h.2.1 p (houtside.not_prefix (List.mem_singleton_self path) hp)
    | elsewhere => rw [h]

end outside

end Operation

end files
