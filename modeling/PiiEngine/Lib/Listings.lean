import Mathlib.Data.List.Induction
import PiiEngine.Lib.Files

open collections

namespace files

namespace Files
variable {ν β : Type} [DecidableEq ν]

/-- The entry that a path leads to from a directory when no link is followed behind it. -/
def entry (files : Files ν β) (root path : List ν) : Option (Node ν β) :=
  (files.resolve root).bind fun base => files.get? (base ++ path)

/-- Every entry stands in a directory. -/
def Nested (files : Files ν β) : Prop :=
  ∀ path ∈ files.keys, path.dropLast ≠ [] → files.get? path.dropLast = some .directory

/-- Every entry below a directory can be looked at: it leads somewhere or is a link. -/
def Reached (files : Files ν β) (root : List ν) : Prop :=
  ∀ path ∈ files.rglob root, files.exists (root ++ path) = true ∨ files.is_symlink (root ++ path) = true

section walk
variable {files : Files ν β} {base front rest found : List ν}

/-- The front of a path that leads somewhere leads somewhere, and the rest leads on from there. -/
theorem walk_append {fuel : Nat} (h : files.walk fuel base (front ++ rest) = some found) :
    ∃ middle left, files.walk fuel base front = some middle ∧ files.walk left middle rest = some found := by
  induction fuel generalizing base front with
  | zero =>
    cases front with
    | nil => exact ⟨base, 0, rfl, h⟩
    | cons name front => cases h
  | succ fuel ih =>
    cases front with
    | nil => exact ⟨base, fuel + 1, rfl, h⟩
    | cons name front =>
      rw [List.cons_append, walk] at h
      rw [walk]
      split at h
      case h_1 target hlink =>
        rw [← List.append_assoc] at h
        exact ih h
      case h_2 => exact ih h
      case h_3 =>
        split at h
        case isFalse => cases h
        case isTrue hend =>
          obtain ⟨rfl, rfl⟩ := List.append_eq_nil_iff.mp hend
          exact ⟨base ++ [name], 0, if_pos rfl, h⟩

end walk

section below
variable {files : Files ν β} {root base path found : List ν} {node : Node ν β} {name : ν}

/-- From a directory, a path on which no link stands leads to itself. -/
theorem resolve_below (hroot : files.resolve root = some base)
    (hlinks : ∀ front, front ≠ [] → front <+: path → ∀ target, files.get? (base ++ front) ≠ some (.link target))
    (h : files.resolve (root ++ path) = some found) : found = base ++ path := by
  obtain ⟨middle, left, hfront, hrest⟩ := walk_append h
  cases hroot.symm.trans hfront
  exact walk_direct hlinks hrest

theorem Nested.directory (hnested : files.Nested) (h : (files.get? (path ++ [name])).isSome) (hne : path ≠ []) :
    files.get? path = some .directory := by
  have hparent := hnested (path ++ [name]) (OrderedDict.mem_keys_iff.mpr h)
  rw [List.dropLast_concat] at hparent
  exact hparent hne

/-- Whatever is passed on the way to an entry is a directory. -/
theorem Nested.directories (hnested : files.Nested) {rest : List ν} (hrest : rest ≠ []) (hpath : path ≠ [])
    (h : (files.get? (path ++ rest)).isSome) : files.get? path = some .directory := by
  induction rest using List.reverseRecOn with
  | nil => exact absurd rfl hrest
  | append_singleton rest name ih =>
    rw [← List.append_assoc] at h
    have hparent := hnested.directory h (List.append_ne_nil_of_left_ne_nil hpath rest)
    by_cases hnil : rest = []
    · rwa [hnil, List.append_nil] at hparent
    · exact ih hnil (Option.isSome_of_mem hparent)

/-- The directories between a root and an entry below it. -/
theorem Nested.front (hnested : files.Nested) {front : List ν} (hne : front ≠ []) (hfront : front <+: path)
    (hproper : front ≠ path) (h : (files.get? (base ++ path)).isSome) :
    files.get? (base ++ front) = some .directory := by
  obtain ⟨rest, rfl⟩ := hfront
  rw [← List.append_assoc] at h
  refine hnested.directories ?_ (List.append_ne_nil_of_right_ne_nil base hne) h
  rintro rfl
  exact hproper (List.append_nil front).symm

/-- The entry that stands directly in a directory below a root. -/
theorem lstat_below (hnested : files.Nested) (hroot : files.resolve root = some base)
    (hentry : files.get? (base ++ (path ++ [name])) = some node) :
    files.lstat (root ++ (path ++ [name])) = (files.resolve (root ++ path)).bind fun _ => some node := by
  have hlast : (root ++ (path ++ [name])).getLast? = some name := by
    rw [← List.append_assoc, List.getLast?_concat]
  have hparent : (root ++ (path ++ [name])).dropLast = root ++ path := by
    rw [← List.append_assoc, List.dropLast_concat]
  rw [lstat, hlast, hparent]
  cases hfound : files.resolve (root ++ path) with
  | none => rfl
  | some found =>
    have hdirect : found = base ++ path := by
      refine resolve_below hroot ?_ hfound
      intro front hne hfront target hlink
      have hdirectory : files.get? (base ++ front) = some .directory := by
        refine hnested.front hne (hfront.trans (List.prefix_append path [name])) ?_ (Option.isSome_of_mem hentry)
        rintro rfl
        have hle := hfront.length_le
        rw [List.length_append, List.length_singleton] at hle
        omega
      rw [hdirectory] at hlink
      cases hlink
    simp only [hdirect, Option.bind_some, List.append_assoc, hentry]

/-- A link below a root is seen under its path. -/
theorem is_symlink_below (hnested : files.Nested) (hroot : files.resolve root = some base) (hne : path ≠ [])
    (hentry : files.get? (base ++ path) = some node) (h : files.is_symlink (root ++ path) = true) :
    ∃ target, node = .link target := by
  obtain ⟨parents, name, rfl⟩ := List.eq_nil_or_concat path |>.resolve_left hne
  rw [List.concat_eq_append] at hentry h
  rw [is_symlink, lstat_below hnested hroot hentry] at h
  cases hparent : files.resolve (root ++ parents) with
  | none =>
    rw [hparent] at h
    cases h
  | some found =>
    rw [hparent, Option.bind_some] at h
    cases node with
    | link target => exact ⟨target, rfl⟩
    | file content => cases h
    | directory => cases h

/-- An entry below a root that is not a link is what its path leads to. -/
theorem stat_below (hnested : files.Nested) (hroot : files.resolve root = some base) (hne : path ≠ [])
    (hentry : files.get? (base ++ path) = some node) (hlink : ∀ target, node ≠ .link target) {found : Node ν β}
    (h : files.stat (root ++ path) = some found) : found = node := by
  rw [stat] at h
  cases hplace : files.resolve (root ++ path) with
  | none =>
    rw [hplace] at h
    cases h
  | some place =>
    have hdirect : place = base ++ path := by
      refine resolve_below hroot ?_ hplace
      intro front hfrontne hfront target hfound
      by_cases hwhole : front = path
      · rw [hwhole, hentry] at hfound
        exact hlink target (Option.some.inj hfound)
      · rw [hnested.front hfrontne hfront hwhole (Option.isSome_of_mem hentry)] at hfound
        cases hfound
    rw [hplace, Option.bind_some, hdirect, if_neg (List.append_ne_nil_of_right_ne_nil base hne), hentry] at h
    exact (Option.some.inj h).symm

theorem resolve_of_exists (h : files.exists path = true) : (files.resolve path).isSome := by
  rw [«exists», stat] at h
  cases hfound : files.resolve path with
  | none =>
    rw [hfound] at h
    cases h
  | some found => rfl

end below

section reached
variable {files : Files ν β} {root path : List ν} (hnested : files.Nested) (hreached : files.Reached root)
include hnested hreached

/-- The links below a root are those that are seen under their paths. -/
theorem is_symlink_iff (hne : path ≠ []) {node : Node ν β} (hentry : files.entry root path = some node) :
    files.is_symlink (root ++ path) = true ↔ ∃ target, node = .link target := by
  obtain ⟨base, hroot, hget⟩ := Option.bind_eq_some_iff.mp hentry
  constructor
  · exact is_symlink_below hnested hroot hne hget
  · rintro ⟨target, rfl⟩
    have hfound : path ∈ files.rglob root := mem_rglob.mpr ⟨hne, base, hroot, Option.isSome_of_mem hget⟩
    cases hreached path hfound with
    | inr hlink => exact hlink
    | inl hexists =>
      obtain ⟨parents, name, rfl⟩ := (List.eq_nil_or_concat path).resolve_left hne
      rw [List.concat_eq_append] at hget hexists ⊢
      obtain ⟨place, hplace⟩ := Option.isSome_iff_exists.mp (resolve_of_exists hexists)
      rw [resolve, ← List.append_assoc] at hplace
      obtain ⟨parent, _, hparent, -⟩ := walk_append hplace
      rw [is_symlink, lstat_below hnested hroot hget, resolve, hparent]
      rfl

/-- The files below a root are those that their paths lead to when no link stands there. -/
theorem read_bytes_iff (hne : path ≠ []) {node : Node ν β} (hentry : files.entry root path = some node)
    (hlink : ∀ target, node ≠ .link target) {content : β} :
    files.read_bytes (root ++ path) = some content ↔ node = .file content := by
  obtain ⟨base, hroot, hget⟩ := Option.bind_eq_some_iff.mp hentry
  have hfound : path ∈ files.rglob root := mem_rglob.mpr ⟨hne, base, hroot, Option.isSome_of_mem hget⟩
  have hexists : files.exists (root ++ path) = true := by
    refine (hreached path hfound).resolve_right ?_
    intro hsymlink
    obtain ⟨target, htarget⟩ := is_symlink_below hnested hroot hne hget hsymlink
    exact hlink target htarget
  obtain ⟨found, hstat⟩ := Option.isSome_iff_exists.mp hexists
  rw [read_bytes, hstat, stat_below hnested hroot hne hget hlink hstat]
  cases node with
  | file other => rw [Option.some.injEq, Node.file.injEq]
  | directory => simp
  | link target => exact absurd rfl (hlink target)

/-- What a listing of files and links holds. -/
theorem mem_listing_iff :
    path ∈ (files.rglob root).filter (fun path => files.is_file (root ++ path) || files.is_symlink (root ++ path)) ↔
      path ≠ [] ∧ ∃ node, files.entry root path = some node ∧ node ≠ .directory := by
  rw [List.mem_filter, mem_rglob, and_assoc]
  refine and_congr_right fun hne => ?_
  constructor
  · rintro ⟨⟨base, hroot, hget⟩, hkind⟩
    obtain ⟨node, hnode⟩ := Option.isSome_iff_exists.mp hget
    have hentry : files.entry root path = some node := Option.bind_eq_some_iff.mpr ⟨base, hroot, hnode⟩
    refine ⟨node, hentry, ?_⟩
    rintro rfl
    have hlink : ∀ target, Node.directory ≠ (Node.link target : Node ν β) := fun _ h => by cases h
    rw [Bool.or_eq_true] at hkind
    cases hkind with
    | inl hfile =>
      rw [is_file] at hfile
      obtain ⟨content, hcontent⟩ := Option.isSome_iff_exists.mp hfile
      cases (read_bytes_iff hnested hreached hne hentry hlink).mp hcontent
    | inr hsymlink =>
      obtain ⟨target, htarget⟩ := (is_symlink_iff hnested hreached hne hentry).mp hsymlink
      cases htarget
  · rintro ⟨node, hentry, hdirectory⟩
    obtain ⟨base, hroot, hget⟩ := Option.bind_eq_some_iff.mp hentry
    refine ⟨⟨base, hroot, Option.isSome_of_mem hget⟩, ?_⟩
    rw [Bool.or_eq_true]
    cases node with
    | directory => exact absurd rfl hdirectory
    | link target => exact .inr ((is_symlink_iff hnested hreached hne hentry).mpr ⟨target, rfl⟩)
    | file content =>
      have hlink : ∀ target, Node.file content ≠ (Node.link target : Node ν β) := fun _ h => by cases h
      left
      rw [is_file, (read_bytes_iff hnested hreached hne hentry hlink).mpr rfl]
      rfl

end reached

end Files

end files
