import PiiEngine.Bundle.Manifest

open checked

namespace pii_engine.bundle

/-- The names on a path. -/
def components (path : Text) : List Text := path.splitOn '/'

/-- `root / path` of a root's names: a path that starts at the file system's root replaces it. -/
def joinPath (root : List Text) (path : Text) : List Text :=
  if path.head? = some '/' then components path else root ++ components path

/-- One name on the way from a directory: an empty name and `.` stay there, and `..` steps
    back. -/
def enter (found : List Text) (name : Text) : List Text :=
  if name = [] ∨ name = ['.'] then found else if name = ['.', '.'] then found.dropLast else found ++ [name]

/-- The directory that a list of names leads to. -/
def normalize (names : List Text) : List Text := names.foldl enter []

/-- A path that stays below whatever root it is joined to. -/
def Relative (path : Text) : Prop := ∀ part ∈ components path, part ∉ [[], ['.'], ['.', '.']]

/-- A file that a checksum index can list. -/
structure ManifestFile.Listable (entry : ManifestFile) : Prop where
  digest : isDigest entry.sha256 = true
  relative : Relative entry.path
  free : entry.path ∉ reserved
  short : entry.path.length ≤ 1024

/-- Digest, two spaces, path: the line of one listed file. -/
def ManifestFile.line (entry : ManifestFile) : Text := entry.sha256 ++ ' ' :: ' ' :: entry.path

/-- The text of a checksum index. -/
def render (files : List ManifestFile) : Text := files.flatMap fun entry => entry.line ++ ['\n']

theorem components_ne_nil (path : Text) : components path ≠ [] := List.splitOn_ne_nil '/' path

theorem intercalate_components (path : Text) : ['/'].intercalate (components path) = path :=
  List.intercalate_splitOn '/'

theorem components_injective : Function.Injective components := by
  intro first second h
  rw [← intercalate_components first, h, intercalate_components]

theorem _safe_relative_path_eq_ok {value : Text} {parts : List Text} :
    _safe_relative_path value = .ok parts ↔ Relative value ∧ components value = parts := by
  rw [_safe_relative_path]
  split
  case isTrue hsafe =>
    rw [Except.ok.injEq]
    exact (and_iff_right hsafe).symm
  case isFalse hunsafe =>
    constructor
    · intro h
      cases h
    · intro h
      exact absurd h.1 hunsafe

/-- Proper names lead further down. -/
theorem foldl_enter {names : List Text} (h : ∀ name ∈ names, name ∉ [[], ['.'], ['.', '.']]) (found : List Text) :
    names.foldl enter found = found ++ names := by
  induction names generalizing found with
  | nil => rw [List.foldl_nil, List.append_nil]
  | cons name names ih =>
    have hname := h name List.mem_cons_self
    simp only [List.mem_cons, List.not_mem_nil, or_false, not_or] at hname
    have henter : enter found name = found ++ [name] := by
      simp [enter, hname]
    rw [List.foldl_cons, henter, ih (fun other hother => h other (List.mem_cons_of_mem name hother)), List.append_assoc,
      List.singleton_append]

section relative
variable {path : Text} (h : Relative path)
include h

theorem Relative.ne_nil : path ≠ [] := by
  rintro rfl
  exact absurd (h [] (List.mem_singleton_self [])) (by decide)

/-- A path whose names are all proper does not start with a separator. -/
theorem Relative.head?_ne : path.head? ≠ some '/' := by
  intro hhead
  cases path with
  | nil => cases hhead
  | cons c rest =>
    cases hhead
    have hempty : [] ∈ components ('/' :: rest) := by
      rw [components, ← List.nil_append ('/' :: rest), List.splitOn_append_cons_self]
      simp
    exact absurd (h [] hempty) (by decide)

/-- Joined to a root, the path leads to its own names below that root. -/
theorem Relative.normalize_joinPath (root : List Text) :
    normalize (joinPath root path) = normalize root ++ components path := by
  rw [joinPath, if_neg h.head?_ne, normalize, List.foldl_append]
  exact foldl_enter h (normalize root)

end relative

theorem checksumLine_eq_some {line sha256 path : Text} (h : checksumLine line = some (sha256, path)) :
    isDigest sha256 = true := by
  rw [checksumLine] at h
  split at h
  case isTrue hline =>
    cases h
    exact hline.1
  case isFalse => cases h

/-- The pattern of a checksum line reads back the line of a file. -/
theorem checksumLine_line {entry : ManifestFile} (h : entry.Listable) :
    checksumLine entry.line = some (entry.sha256, entry.path) := by
  have hlength : entry.sha256.length = 64 := by
    have hdigest := h.digest
    rw [isDigest, decide_eq_true_eq] at hdigest
    exact hdigest.1
  have htake : entry.line.take 64 = entry.sha256 := by
    rw [ManifestFile.line, ← hlength, List.take_left]
  have hdrop : entry.line.drop 64 = ' ' :: ' ' :: entry.path := by
    rw [ManifestFile.line, ← hlength, List.drop_left]
  have hpath : entry.line.drop 66 = entry.path := by
    rw [show 66 = 64 + 2 from rfl, ← List.drop_drop, hdrop]
    rfl
  rw [checksumLine, htake, hdrop, hpath]
  exact if_pos ⟨h.digest, rfl, h.relative.ne_nil⟩

/-- What the loop of `parse_checksums` has read so far. -/
structure Listed (files : List ManifestFile) : Prop where
  distinct : (files.map ManifestFile.path).Nodup
  listable : ∀ entry ∈ files, entry.Listable

theorem Listed.nil : Listed [] := ⟨List.nodup_nil, fun _ hentry => absurd hentry List.not_mem_nil⟩

theorem nodup_paths_append {files : List ManifestFile} {entry : ManifestFile} :
    ((files ++ [entry]).map ManifestFile.path).Nodup ↔
      (files.map ManifestFile.path).Nodup ∧ entry.path ∉ files.map ManifestFile.path := by
  rw [List.map_append, List.map_singleton, List.nodup_append_comm, List.singleton_append, List.nodup_cons, and_comm]

/-- One line that the loop accepts adds a file that a checksum index can list. -/
theorem addChecksum_listed {files next : List ManifestFile} {line : Text} (hlisted : Listed files)
    (h : addChecksum files line = .ok next) : Listed next := by
  dsimp only [addChecksum] at h
  rw [bind_eq_ok] at h
  obtain ⟨⟨sha256, path⟩, hline, h⟩ := h
  dsimp only at h
  rw [bind_eq_ok] at h
  obtain ⟨parts, hsafe, h⟩ := h
  rw [raiseIf_bind_eq_ok, raiseIf_bind_eq_ok, not_or] at h
  obtain ⟨⟨hnew, hfree⟩, hbounded, h⟩ := h
  cases h
  have hdigest : isDigest sha256 = true := by
    cases hmatch : checksumLine line with
    | none =>
      rw [hmatch] at hline
      cases hline
    | some groups =>
      rw [hmatch] at hline
      cases hline
      exact checksumLine_eq_some hmatch
  have hshort : path.length ≤ 1024 := by
    rw [Bool.not_eq_false, bounded, decide_eq_true_eq] at hbounded
    exact hbounded.2
  refine ⟨nodup_paths_append.mpr ⟨hlisted.distinct, hnew⟩, ?_⟩
  intro entry hentry
  rw [List.mem_append, List.mem_singleton] at hentry
  cases hentry with
  | inl hold => exact hlisted.listable entry hold
  | inr heq =>
    rw [heq]
    exact ⟨hdigest, (_safe_relative_path_eq_ok.mp hsafe).1, hfree, hshort⟩

/-- The line of a file that is not listed yet adds that file. -/
theorem addChecksum_line {files : List ManifestFile} {entry : ManifestFile} (hentry : entry.Listable)
    (hnew : entry.path ∉ files.map ManifestFile.path) : addChecksum files entry.line = .ok (files ++ [entry]) := by
  have hbounded : bounded 1 1024 entry.path = true := by
    rw [bounded, decide_eq_true_eq]
    exact ⟨List.length_pos_iff.mpr hentry.relative.ne_nil, hentry.short⟩
  dsimp only [addChecksum]
  rw [checksumLine_line hentry, bind_eq_ok]
  refine ⟨_, rfl, ?_⟩
  dsimp only
  rw [bind_eq_ok]
  refine ⟨_, _safe_relative_path_eq_ok.mpr ⟨hentry.relative, rfl⟩, ?_⟩
  rw [raiseIf_bind_eq_ok, raiseIf_bind_eq_ok, not_or, hbounded]
  exact ⟨⟨hnew, hentry.free⟩, Bool.noConfusion, rfl⟩

/-- A line without line breaks ends at the newline behind it. -/
theorem splitlines_line {line : Text} (hline : ∀ c ∈ line, isLineBreak c = false) (front rest : Text) :
    splitlines front (line ++ '\n' :: rest) = (front ++ line) :: splitlines [] rest := by
  induction line generalizing front with
  | nil =>
    rw [List.nil_append, List.append_nil, splitlines, if_pos (by decide)]
    intro rest' hreturn
    cases hreturn
  | cons c line ih =>
    have hc := hline c List.mem_cons_self
    have hrest := ih (fun other hother => hline other (List.mem_cons_of_mem c hother)) (front ++ [c])
    rw [List.cons_append, splitlines, if_neg (by rw [hc]; exact Bool.noConfusion), hrest, List.append_assoc,
      List.singleton_append]
    rintro rest' rfl
    cases hc

theorem not_isLineBreak_of_isHexDigit {c : Char} (h : isHexDigit c = true) : isLineBreak c = false := by
  cases hbreak : isLineBreak c with
  | false => rfl
  | true =>
    rw [isLineBreak, decide_eq_true_eq] at hbreak
    simp only [List.mem_cons, List.not_mem_nil, or_false] at hbreak
    rcases hbreak with rfl | rfl | rfl | rfl | rfl | rfl | rfl | rfl | rfl | rfl <;> exact absurd h (by decide)

theorem line_unbroken {entry : ManifestFile} (h : entry.Listable) (hpath : ∀ c ∈ entry.path, isLineBreak c = false) :
    ∀ c ∈ entry.line, isLineBreak c = false := by
  have hdigest := h.digest
  rw [isDigest, decide_eq_true_eq] at hdigest
  intro c hc
  simp only [ManifestFile.line, List.mem_append, List.mem_cons] at hc
  rcases hc with hc | rfl | rfl | hc
  · exact not_isLineBreak_of_isHexDigit (List.all_eq_true.mp hdigest.2 c hc)
  · rfl
  · rfl
  · exact hpath c hc

theorem splitlines_render {files : List ManifestFile}
    (hlines : ∀ entry ∈ files, ∀ c ∈ entry.line, isLineBreak c = false) :
    splitlines [] (render files) = files.map ManifestFile.line := by
  induction files with
  | nil => rfl
  | cons entry files ih =>
    have hrest := ih fun other hother => hlines other (List.mem_cons_of_mem entry hother)
    rw [render, List.flatMap_cons, List.append_assoc, List.singleton_append,
      splitlines_line (hlines entry List.mem_cons_self), List.nil_append, List.map_cons, ← hrest, render]

/-- The loop over the lines of an index reads back its files in their order. -/
theorem foldlM_addChecksum_lines {done files : List ManifestFile} (h : Listed (done ++ files)) :
    (files.map ManifestFile.line).foldlM addChecksum done = .ok (done ++ files) := by
  induction files generalizing done with
  | nil =>
    rw [List.append_nil]
    rfl
  | cons entry files ih =>
    have hsplit : done ++ entry :: files = done ++ [entry] ++ files := by
      rw [List.append_assoc, List.singleton_append]
    have hnew : entry.path ∉ done.map ManifestFile.path := by
      have hdistinct := h.distinct
      rw [hsplit, List.map_append] at hdistinct
      exact (nodup_paths_append.mp (List.nodup_append.mp hdistinct).1).2
    have hentry := h.listable entry (List.mem_append_right done List.mem_cons_self)
    rw [hsplit] at h ⊢
    rw [List.map_cons, List.foldlM_cons, bind_eq_ok]
    exact ⟨done ++ [entry], addChecksum_line hentry hnew, ih h⟩

variable {platform : Platform} {data : Bytes} {files : List ManifestFile}

theorem parse_checksums_eq_ok :
    parse_checksums platform data = .ok files ↔ ∃ text, platform.decode_utf8 data = some text ∧
      (splitlines [] text).foldlM addChecksum [] = .ok files ∧ files ≠ [] := by
  rw [parse_checksums, bind_eq_ok]
  refine exists_congr fun text => and_congr ?_ ?_
  · cases platform.decode_utf8 data <;> simp
  · rw [bind_eq_ok]
    constructor
    · rintro ⟨found, hfound, h⟩
      rw [raiseIf_bind_eq_ok] at h
      obtain ⟨hne, h⟩ := h
      cases h
      exact ⟨hfound, hne⟩
    · rintro ⟨hfound, hne⟩
      exact ⟨files, hfound, raiseIf_bind_eq_ok.mpr ⟨hne, rfl⟩⟩

/-- The files of an accepted checksum index are listable, under distinct paths. -/
theorem listed_of_parse_checksums (h : parse_checksums platform data = .ok files) : Listed files := by
  obtain ⟨_, -, hrun, -⟩ := parse_checksums_eq_ok.mp h
  exact foldlM_keeps (fun _ _ _ hlisted hstep => addChecksum_listed hlisted hstep) Listed.nil hrun

/-- An accepted checksum index lists distinct proper paths that are not reserved and stay below
    whatever root they are joined to, and every index that lists such files on single lines is
    read back as it was written. -/
theorem parse_checksums_inverts_render (platform : Platform) :
    (∀ data files, parse_checksums platform data = .ok files →
      files ≠ [] ∧ (files.map ManifestFile.path).Nodup ∧
      ∀ entry ∈ files, Relative entry.path ∧ entry.path ∉ reserved ∧
        ∀ root, normalize (joinPath root entry.path) = normalize root ++ components entry.path) ∧
    (∀ data files, platform.decode_utf8 data = some (render files) → files ≠ [] →
      (files.map ManifestFile.path).Nodup → (∀ entry ∈ files, entry.Listable) →
      (∀ entry ∈ files, ∀ c ∈ entry.path, isLineBreak c = false) →
      parse_checksums platform data = .ok files) := by
  constructor
  · intro data files h
    have hlisted := listed_of_parse_checksums h
    obtain ⟨_, -, -, hne⟩ := parse_checksums_eq_ok.mp h
    refine ⟨hne, hlisted.distinct, ?_⟩
    intro entry hentry
    have hlistable := hlisted.listable entry hentry
    exact ⟨hlistable.relative, hlistable.free, hlistable.relative.normalize_joinPath⟩
  · intro data files hdata hne hdistinct hlistable hlines
    refine parse_checksums_eq_ok.mpr ⟨render files, hdata, ?_, hne⟩
    rw [splitlines_render fun entry hentry => line_unbroken (hlistable entry hentry) (hlines entry hentry)]
    have hlisted : Listed ([] ++ files) := ⟨hdistinct, hlistable⟩
    exact foldlM_addChecksum_lines hlisted

/-- A platform whose decoder reads ASCII. -/
def asciiPlatform : Platform where
  sha256 _ := List.replicate 64 'e'
  safe_load _ := none
  decode_utf8 data := if data.all (· < 128) then some (data.map fun byte => Char.ofNat byte.toNat) else none
  validate_reference_json _ := none

def weights : ManifestFile := ⟨"model/weights.bin".toList, List.replicate 64 'e'⟩

def weightsIndex : Bytes := (render [weights]).map fun c => UInt8.ofNat c.toNat

theorem weights_listable : weights.Listable where
  digest := by decide
  relative := (_safe_relative_path_eq_ok.mp (show _safe_relative_path weights.path = .ok _ from rfl)).1
  free := by decide
  short := by decide

theorem parse_checksums_inverts_render_weights :
    parse_checksums asciiPlatform weightsIndex = .ok [weights] ∧
      normalize (joinPath ["srv".toList, "..".toList, "cache".toList] weights.path) =
        ["cache".toList, "model".toList, "weights.bin".toList] := by
  obtain ⟨hsound, hinverts⟩ := parse_checksums_inverts_render asciiPlatform
  have hunbroken : (weights.path.all fun c => !isLineBreak c) = true := by decide
  have hparsed : parse_checksums asciiPlatform weightsIndex = .ok [weights] := by
    apply hinverts weightsIndex [weights] (by decide) (List.cons_ne_nil _ _) (List.nodup_singleton _)
    · intro entry hentry
      rw [List.mem_singleton.mp hentry]
      exact weights_listable
    · intro entry hentry c hc
      rw [List.mem_singleton.mp hentry] at hc
      simpa using List.all_eq_true.mp hunbroken c hc
  refine ⟨hparsed, ?_⟩
  obtain ⟨-, -, hpaths⟩ := hsound weightsIndex [weights] hparsed
  rw [(hpaths weights (List.mem_singleton_self weights)).2.2]
  decide

end pii_engine.bundle
