import PiiEngine.Lib.Listings
import PiiEngine.Bundle.Checksums
import PiiEngine.Bundle.Verified

open checked collections files

namespace pii_engine.bundle

/-- What a file system keeps of the directory that a bundle lies in: its entries stand in
    directories under names without a separator, and none is out of reach. -/
structure Directories (tree : FileTree) (root : FilePath) : Prop where
  nested : tree.Nested
  reached : tree.Reached root
  names : ∀ path ∈ tree.keys, ∀ name ∈ path, '/' ∉ name

/-- A file or a link stands at a path below a root, and no link on the way. -/
def Found (tree : FileTree) (root path : FilePath) : Prop :=
  path ≠ [] ∧ ∃ node, tree.entry root path = some node ∧ node ≠ .directory

/-- The size of a file. -/
def size : Option (Node Text Bytes) → Nat
  | some (.file content) => content.length
  | _ => 0

section exact
variable (platform : Platform) (tree : FileTree) (root : FilePath) (manifest : BundleManifest)
  (files : List ManifestFile)

/-- The paths of the files that a bundle has to hold. The marker is one when it leads to a file. -/
def expectedPaths : List FilePath :=
  files.map (components ·.path) ++ [[manifestName], [manifest.fields.checksum_file]] ++
    if tree.is_file (root ++ [completeName]) then [[completeName]] else []

/-- A directory tree that holds exactly the listed files of a manifest. -/
structure Exact : Prop where
  count : (files.length : Int) = manifest.fields.file_count
  models : ∀ model ∈ manifest.fields.models, ∃ entry ∈ files, ∃ below ≠ [],
    components entry.path = components model.2.path ++ below
  digests : ∀ entry ∈ files, ∃ content, tree.entry root (components entry.path) = some (.file content) ∧
    platform.sha256 content = entry.sha256
  unlinked : ∀ entry ∈ files, ∀ front, front ≠ [] → front <+: components entry.path →
    front ≠ components entry.path → tree.entry root front = some .directory
  sizes : ((files.map fun entry => size (tree.entry root (components entry.path))).sum : Int) =
    manifest.fields.total_model_bytes
  nothing_else : ∀ path, Found tree root path ↔ path ∈ expectedPaths tree root manifest files

end exact

theorem as_posix_components (path : Text) : as_posix (components path) = path := intercalate_components path

theorem components_as_posix {path : FilePath} (hne : path ≠ []) (hnames : ∀ name ∈ path, '/' ∉ name) :
    components (as_posix path) = path :=
  List.splitOn_intercalate '/' hnames hne

/-- A file is listed below a model root exactly when its path continues that of the root. -/
theorem prefix_iff_components {first second : Text} :
    first ++ ['/'] <+: second ↔ ∃ below ≠ [], components second = components first ++ below := by
  constructor
  · rintro ⟨rest, rfl⟩
    refine ⟨components rest, components_ne_nil rest, ?_⟩
    rw [List.append_assoc, List.singleton_append]
    exact List.splitOn_append_cons_self first rest
  · rintro ⟨below, hne, hsecond⟩
    refine ⟨as_posix below, ?_⟩
    rw [← as_posix_components second, hsecond, as_posix, as_posix, intercalate_append (components_ne_nil first) hne,
      intercalate_components]

section verify
variable {platform : Platform} {tree : FileTree} {root : FilePath} {manifest : BundleManifest}
  {files : List ManifestFile}

theorem verifyModel_eq_ok {model : ModelEntry} (h : Relative model.path) :
    verifyModel files model = .ok () ↔
      ∃ entry ∈ files, ∃ below ≠ [], components entry.path = components model.path ++ below := by
  rw [verifyModel, _safe_relative_path_eq_ok.mpr ⟨h, rfl⟩]
  change raiseIf _ _ = .ok () ↔ _
  rw [raiseIf_eq_ok, as_posix_components]
  simp only [prefix_iff_components, not_forall, not_not, exists_prop]

theorem verifyFile_iff {entry : ManifestFile} (h : Relative entry.path) :
    verifyFile platform tree root entry = .ok () ↔
      tree.is_symlink (root ++ components entry.path) = false ∧
      ∃ content, tree.read_bytes (root ++ components entry.path) = some content ∧
        platform.sha256 content = entry.sha256 := by
  constructor
  · intro hverify
    obtain ⟨parts, content, hparts, hlink, hread, hdigest⟩ := verifyFile_eq_ok hverify
    cases (_safe_relative_path_eq_ok.mp hparts).2
    exact ⟨hlink, content, hread, hdigest⟩
  · rintro ⟨hlink, content, hread, hdigest⟩
    rw [verifyFile, _safe_relative_path_eq_ok.mpr ⟨h, rfl⟩]
    change (raiseIf _ _ >>= _) = .ok ()
    rw [raiseIf_bind_eq_ok, readBytes, hread, Files.is_file, hread, hlink]
    simp [bind, Except.bind, hdigest]

theorem fileSize_eq_ok {entry : ManifestFile} (h : Relative entry.path) {content : Bytes}
    (hread : tree.read_bytes (root ++ components entry.path) = some content) :
    fileSize tree root entry = .ok content.length := by
  rw [fileSize, _safe_relative_path_eq_ok.mpr ⟨h, rfl⟩, bind_eq_ok]
  refine ⟨_, rfl, ?_⟩
  rw [readBytes, hread]
  rfl

/-- The sizes that `verify_bundle` adds up are those of the listed files. -/
theorem mapM_fileSize (hrelative : ∀ entry ∈ files, Relative entry.path) {length : ManifestFile → Nat}
    (h : ∀ entry ∈ files, ∃ content, tree.read_bytes (root ++ components entry.path) = some content ∧
      length entry = content.length) :
    (files.mapM fun entry => fileSize tree root entry) = .ok (files.map length) := by
  rw [mapM_eq_ok, List.forall₂_map_right_iff, List.forall₂_same]
  intro entry hentry
  obtain ⟨content, hread, hlength⟩ := h entry hentry
  rw [hlength]
  exact fileSize_eq_ok (hrelative entry hentry) hread

theorem mapM_unit_iff {α : Type} {check : α → Except BundleFailure Unit} {items : List α} :
    (∃ results, items.mapM check = .ok results) ↔ ∀ item ∈ items, check item = .ok () := by
  constructor
  · rintro ⟨results, hresults⟩ item hitem
    obtain ⟨result, -, hresult⟩ := exists_right_of_forall₂ (mapM_eq_ok.mp hresults) hitem
    exact hresult
  · intro h
    exact mapM_total fun item hitem => ⟨(), h item hitem⟩

/-- The checks of `verify_bundle`, one by one. -/
theorem verify_bundle_iff :
    verify_bundle platform tree root manifest files = .ok () ↔
      (files.length : Int) = manifest.fields.file_count ∧
      (∀ model ∈ manifest.fields.models, verifyModel files model.2 = .ok ()) ∧
      (∀ entry ∈ files, verifyFile platform tree root entry = .ok ()) ∧
      (∃ sizes, (files.mapM fun entry => fileSize tree root entry) = .ok sizes ∧
        (sizes.sum : Int) = manifest.fields.total_model_bytes) ∧
      ∀ path, path ∈ actualFiles tree root ↔ path ∈ expectedFiles tree root manifest files := by
  dsimp only [verify_bundle]
  rw [raiseIf_bind_eq_ok, not_not, bind_eq_ok, ← mapM_unit_iff, ← mapM_unit_iff, ← sameElements_iff]
  refine and_congr_right fun _ => ?_
  constructor
  · rintro ⟨models, hmodels, h⟩
    rw [bind_eq_ok] at h
    obtain ⟨digests, hdigests, h⟩ := h
    rw [bind_eq_ok] at h
    obtain ⟨sizes, hsizes, h⟩ := h
    rw [raiseIf_bind_eq_ok, not_not, raiseIf_eq_ok, Bool.not_eq_false] at h
    exact ⟨⟨models, hmodels⟩, ⟨digests, hdigests⟩, ⟨sizes, hsizes, h.1⟩, h.2⟩
  · rintro ⟨⟨models, hmodels⟩, ⟨digests, hdigests⟩, ⟨sizes, hsizes, htotal⟩, hexact⟩
    refine ⟨models, hmodels, bind_eq_ok.mpr ⟨digests, hdigests, bind_eq_ok.mpr ⟨sizes, hsizes, ?_⟩⟩⟩
    rw [raiseIf_bind_eq_ok, not_not, raiseIf_eq_ok, Bool.not_eq_false]
    exact ⟨htotal, hexact⟩

section directories
variable (hdirectories : Directories tree root)
include hdirectories

theorem components_of_found {path : FilePath} (h : Found tree root path) : components (as_posix path) = path := by
  obtain ⟨hne, node, hentry, -⟩ := h
  obtain ⟨base, -, hget⟩ := Option.bind_eq_some_iff.mp hentry
  refine components_as_posix hne ?_
  intro name hname
  exact hdirectories.names _ (OrderedDict.mem_keys_iff.mpr (Option.isSome_of_mem hget)) name
    (List.mem_append_right base hname)

/-- The recursive listing finds the files and links below the root. -/
theorem mem_actualFiles {path : Text} : path ∈ actualFiles tree root ↔ Found tree root (components path) := by
  rw [actualFiles, List.mem_map]
  simp only [Files.mem_listing_iff hdirectories.nested hdirectories.reached]
  constructor
  · rintro ⟨names, hfound, rfl⟩
    rwa [components_of_found hdirectories hfound]
  · intro hfound
    exact ⟨components path, hfound, as_posix_components path⟩

end directories

theorem checksum_file_eq (manifest : BundleManifest) : manifest.fields.checksum_file = "checksums.sha256".toList := by
  have hpaths := manifest.paths
  dsimp only [ManifestFields.validate_paths] at hpaths
  rw [raiseIf_bind_eq_ok, raiseIf_bind_eq_ok, not_not, not_not] at hpaths
  exact hpaths.2.1

theorem relative_of_models {model : Text × ModelEntry} (h : model ∈ manifest.fields.models) :
    Relative model.2.path := by
  have hpaths := manifest.paths
  dsimp only [ManifestFields.validate_paths] at hpaths
  rw [raiseIf_bind_eq_ok, raiseIf_bind_eq_ok, bind_eq_ok] at hpaths
  obtain ⟨-, -, roots, hroots, -⟩ := hpaths
  obtain ⟨parts, -, hparts⟩ := exists_right_of_forall₂ (mapM_eq_ok.mp hroots) h
  exact (_safe_relative_path_eq_ok.mp hparts).1

theorem expectedPaths_eq :
    expectedPaths tree root manifest files = (expectedFiles tree root manifest files).map components := by
  have hmanifest : components manifestName = [manifestName] := rfl
  have hcomplete : components completeName = [completeName] := rfl
  have hchecksum : components manifest.fields.checksum_file = [manifest.fields.checksum_file] := by
    rw [checksum_file_eq]
    rfl
  rw [expectedPaths, expectedFiles, List.map_append, List.map_append, List.map_map, List.map_cons, List.map_singleton,
    hmanifest, hchecksum]
  split
  case isTrue => rw [List.map_singleton, hcomplete]; rfl
  case isFalse => rfl

theorem mem_expectedFiles {path : Text} :
    path ∈ expectedFiles tree root manifest files ↔ components path ∈ expectedPaths tree root manifest files := by
  rw [expectedPaths_eq, List.mem_map_of_injective components_injective]

section accepted
variable (hdirectories : Directories tree root)
include hdirectories

/-- The recursive listing finds what is expected exactly when nothing else stands below the root. -/
theorem listing_iff :
    (∀ path, path ∈ actualFiles tree root ↔ path ∈ expectedFiles tree root manifest files) ↔
      ∀ path, Found tree root path ↔ path ∈ expectedPaths tree root manifest files := by
  simp only [mem_actualFiles hdirectories, mem_expectedFiles]
  constructor
  · intro h path
    have himage : (∃ text, components text = path) →
        (Found tree root path ↔ path ∈ expectedPaths tree root manifest files) := by
      rintro ⟨text, rfl⟩
      exact h text
    constructor
    · intro hfound
      exact (himage ⟨as_posix path, components_of_found hdirectories hfound⟩).mp hfound
    · intro hexpected
      have htext := hexpected
      rw [expectedPaths_eq, List.mem_map] at htext
      obtain ⟨text, -, htext⟩ := htext
      exact (himage ⟨text, htext⟩).mpr hexpected
  · intro h path
    exact h (components path)

variable {entry : ManifestFile}

/-- A listed path passes its check when a file with its digest stands there. -/
theorem verifyFile_below (hrelative : Relative entry.path) {node : Node Text Bytes}
    (hentry : tree.entry root (components entry.path) = some node) :
    verifyFile platform tree root entry = .ok () ↔
      ∃ content, node = .file content ∧ platform.sha256 content = entry.sha256 := by
  have hne := components_ne_nil entry.path
  have hsymlink := Files.is_symlink_iff hdirectories.nested hdirectories.reached hne hentry
  rw [verifyFile_iff hrelative]
  cases node with
  | link target =>
    rw [hsymlink.mpr ⟨target, rfl⟩]
    simp
  | file other =>
    have hlink : ∀ target, Node.file other ≠ (Node.link target : Node Text Bytes) := fun _ h => by cases h
    have hsafe : tree.is_symlink (root ++ components entry.path) = false := by
      rw [← Bool.not_eq_true, hsymlink]
      rintro ⟨target, htarget⟩
      cases htarget
    simp only [Files.read_bytes_iff hdirectories.nested hdirectories.reached hne hentry hlink]
    exact and_iff_right hsafe
  | directory =>
    have hlink : ∀ target, Node.directory ≠ (Node.link target : Node Text Bytes) := fun _ h => by cases h
    simp only [Files.read_bytes_iff hdirectories.nested hdirectories.reached hne hentry hlink]
    simp

theorem read_listed {content : Bytes} (hentry : tree.entry root (components entry.path) = some (.file content)) :
    tree.read_bytes (root ++ components entry.path) = some content := by
  have hlink : ∀ target, Node.file content ≠ (Node.link target : Node Text Bytes) := fun _ h => by cases h
  exact (Files.read_bytes_iff hdirectories.nested hdirectories.reached (components_ne_nil entry.path) hentry hlink).mpr
    rfl

/-- The directories on the way to an entry. -/
theorem directory_on_path {path front : FilePath} {node : Node Text Bytes} (hentry : tree.entry root path = some node)
    (hne : front ≠ []) (hfront : front <+: path) (hproper : front ≠ path) :
    tree.entry root front = some .directory := by
  obtain ⟨base, hroot, hget⟩ := Option.bind_eq_some_iff.mp hentry
  rw [Files.entry, hroot, Option.bind_some]
  exact hdirectories.nested.front hne hfront hproper (Option.isSome_of_mem hget)

end accepted

/-- `verify_bundle` accepts exactly the trees that hold the listed files and nothing else. -/
theorem verify_bundle_exact (hdirectories : Directories tree root)
    (hrelative : ∀ entry ∈ files, Relative entry.path) :
    verify_bundle platform tree root manifest files = .ok () ↔ Exact platform tree root manifest files := by
  have hsizes : (∀ entry ∈ files, ∃ content, tree.entry root (components entry.path) = some (.file content)) →
      (files.mapM fun entry => fileSize tree root entry) =
        .ok (files.map fun entry => size (tree.entry root (components entry.path))) := by
    intro hfiles
    refine mapM_fileSize hrelative ?_
    intro entry hentry
    obtain ⟨content, hcontent⟩ := hfiles entry hentry
    exact ⟨content, read_listed hdirectories hcontent, by rw [hcontent]; rfl⟩
  rw [verify_bundle_iff]
  constructor
  · rintro ⟨hcount, hmodels, hdigests, ⟨sizes, hread, htotal⟩, hlisting⟩
    rw [listing_iff hdirectories] at hlisting
    have hlisted : ∀ entry ∈ files, ∃ content, tree.entry root (components entry.path) = some (.file content) ∧
        platform.sha256 content = entry.sha256 := by
      intro entry hentry
      have hexpected : components entry.path ∈ expectedPaths tree root manifest files :=
        List.mem_append_left _ (List.mem_append_left _ (List.mem_map_of_mem hentry))
      obtain ⟨-, node, hnode, -⟩ := (hlisting _).mpr hexpected
      obtain ⟨content, rfl, hdigest⟩ :=
        (verifyFile_below hdirectories (hrelative entry hentry) hnode).mp (hdigests entry hentry)
      exact ⟨content, hnode, hdigest⟩
    rw [hsizes fun entry hentry => (hlisted entry hentry).imp fun _ h => h.1] at hread
    cases hread
    refine ⟨hcount, ?_, hlisted, ?_, htotal, hlisting⟩
    · intro model hmodel
      exact (verifyModel_eq_ok (relative_of_models hmodel)).mp (hmodels model hmodel)
    · intro entry hentry front hne hfront hproper
      obtain ⟨_, hcontent, -⟩ := hlisted entry hentry
      exact directory_on_path hdirectories hcontent hne hfront hproper
  · intro hexact
    refine ⟨hexact.count, ?_, ?_, ⟨_, hsizes ?_, hexact.sizes⟩, (listing_iff hdirectories).mpr hexact.nothing_else⟩
    · intro model hmodel
      exact (verifyModel_eq_ok (relative_of_models hmodel)).mpr (hexact.models model hmodel)
    · intro entry hentry
      obtain ⟨content, hcontent, hdigest⟩ := hexact.digests entry hentry
      exact (verifyFile_below hdirectories (hrelative entry hentry) hcontent).mpr ⟨content, rfl, hdigest⟩
    · intro entry hentry
      obtain ⟨content, hcontent, -⟩ := hexact.digests entry hentry
      exact ⟨content, hcontent⟩

/-- The files of a bundle's own, which may be links. -/
def ownFiles (manifest : BundleManifest) : List FilePath :=
  [[manifestName], [manifest.fields.checksum_file], [completeName]]

theorem Exact.listed_or_own (hexact : Exact platform tree root manifest files) {path : FilePath}
    (hfound : Found tree root path) : path ∈ files.map (components ·.path) ∨ path ∈ ownFiles manifest := by
  have hexpected := (hexact.nothing_else path).mp hfound
  rw [expectedPaths, List.mem_append, List.mem_append] at hexpected
  rcases hexpected with (hlisted | hown) | hmarker
  · exact .inl hlisted
  · right
    simp only [List.mem_cons, List.not_mem_nil, or_false] at hown
    simp [ownFiles, hown, or_assoc.symm]
  · right
    split at hmarker
    case isTrue =>
      rw [List.mem_singleton] at hmarker
      simp [ownFiles, hmarker]
    case isFalse => cases hmarker

theorem Exact.own_of_link (hexact : Exact platform tree root manifest files) {path : FilePath} (hne : path ≠ [])
    {target : FilePath} (hlink : tree.entry root path = some (.link target)) : path ∈ ownFiles manifest := by
  have hdirectory : Node.link target ≠ (Node.directory : Node Text Bytes) := fun h => by cases h
  refine (hexact.listed_or_own ⟨hne, _, hlink, hdirectory⟩).resolve_left ?_
  intro hlisted
  obtain ⟨entry, hentry, rfl⟩ := List.mem_map.mp hlisted
  obtain ⟨content, hcontent, -⟩ := hexact.digests entry hentry
  rw [hlink] at hcontent
  cases hcontent

/-- `verify_bundle` accepts the files of a checksum index exactly when they and the bundle's
    own files are all that stands below the root. In an accepted tree no link stands
    below the root but at the own files, and no file but those and the listed ones. -/
theorem verify_bundle_accepts_listed_tree (platform : Platform) {tree : FileTree} {root : FilePath}
    (hdirectories : Directories tree root) (manifest : BundleManifest) {data : Bytes} {files : List ManifestFile}
    (hparsed : parse_checksums platform data = .ok files) :
    (verify_bundle platform tree root manifest files = .ok () ↔ Exact platform tree root manifest files) ∧
    (verify_bundle platform tree root manifest files = .ok () → ∀ path ≠ [],
      (∀ target, tree.entry root path = some (.link target) → path ∈ ownFiles manifest) ∧
      (∀ content, tree.entry root path = some (.file content) →
        path ∈ files.map (components ·.path) ∨ path ∈ ownFiles manifest)) := by
  have haccepts : verify_bundle platform tree root manifest files = .ok () ↔
      Exact platform tree root manifest files := by
    apply verify_bundle_exact hdirectories
    intro entry hentry
    exact ((listed_of_parse_checksums hparsed).listable entry hentry).relative
  refine ⟨haccepts, ?_⟩
  intro hverify path hne
  have hexact := haccepts.mp hverify
  refine ⟨fun target hlink => hexact.own_of_link hne hlink, ?_⟩
  intro content hfile
  exact hexact.listed_or_own ⟨hne, _, hfile, fun h => by cases h⟩

end verify

section samples

/-- The manifest of a bundle whose one model has one file. -/
def weightsFields : ManifestFields where
  schema_version := 2
  bundle_version := ['1']
  models := [(['n'], ⟨['n'], ['n'], ['n'], ['n'], "model".toList, ['n'], ['n'], [['d', 'e']]⟩)]
  runtime := ⟨[], ['n'], 0, [(['P'], ['P'])]⟩
  checksum_file := "checksums.sha256".toList
  checksum_sha256 := List.replicate 64 'e'
  checksum_size := 84
  file_count := 1
  total_model_bytes := 3

def weightsManifest : BundleManifest := ⟨weightsFields, by decide, rfl⟩

def weightsRoot : FilePath := ["cache".toList]

/-- The bundle in its cache directory, with a manifest that is a link. -/
def weightsTree : FileTree := .ofList
  [(["published".toList], .file [1]), (weightsRoot, .directory),
    (weightsRoot ++ [manifestName], .link ["published".toList]),
    (weightsRoot ++ ["checksums.sha256".toList], .file weightsIndex), (weightsRoot ++ ["model".toList], .directory),
    (weightsRoot ++ ["model".toList, "weights.bin".toList], .file [1, 2, 3]), (weightsRoot ++ [completeName], .file [])]

theorem weightsTree_directories : Directories weightsTree weightsRoot where
  nested := by
    rw [Files.Nested]
    decide +kernel
  reached := by
    rw [Files.Reached]
    decide +kernel
  names := by decide +kernel

theorem verify_bundle_accepts_listed_tree_weights :
    Exact asciiPlatform weightsTree weightsRoot weightsManifest [weights] ∧
      [manifestName] ∈ ownFiles weightsManifest := by
  have hparsed : parse_checksums asciiPlatform weightsIndex = .ok [weights] := rfl
  obtain ⟨hexact, hlinks⟩ :=
    verify_bundle_accepts_listed_tree asciiPlatform weightsTree_directories weightsManifest hparsed
  have hverify : verify_bundle asciiPlatform weightsTree weightsRoot weightsManifest [weights] = .ok () := rfl
  exact ⟨hexact.mp hverify, (hlinks hverify [manifestName] (List.cons_ne_nil _ _)).1 ["published".toList] rfl⟩

end samples

end pii_engine.bundle
