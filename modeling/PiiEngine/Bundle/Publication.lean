import PiiEngine.Bundle.Intact

open checked collections crashes files

namespace pii_engine.bundle

section downloaded
variable {root tree : FileTree}

theorem empty_unlinked : Files.Unlinked (OrderedDict.empty : FileTree) [] := by
  intro p target _ hlink
  rw [OrderedDict.get?_empty] at hlink
  cases hlink

theorem set_unlinked (h : root.Unlinked []) {path : FilePath} {node : Node Text Bytes}
    (hnode : ∀ target, node ≠ .link target) : Files.Unlinked (root.set path node) [] := by
  intro p target _
  rw [OrderedDict.get?_set]
  split
  case isTrue =>
    intro hlink
    exact hnode target (Option.some.inj hlink)
  case isFalse => exact h p target (List.nil_prefix)

theorem makeDirectories_unlinked (h : root.Unlinked []) {path : FilePath}
    (hmake : makeDirectories root path = .ok tree) : tree.Unlinked [] := by
  refine foldlM_keeps (p := fun tree => Files.Unlinked tree []) ?_ h hmake
  intro directory tree tree' htree hstep
  split at hstep
  case h_1 =>
    cases hstep
    exact set_unlinked htree nofun
  case h_2 =>
    cases hstep
    exact htree
  case h_3 => cases hstep

theorem downloadTo_unlinked {download : Text → Except BundleFailure Bytes} {key : Text} {path : FilePath}
    {content : Bytes} (h : root.Unlinked []) (hdownload : downloadTo download key root path = .ok (tree, content)) :
    tree.Unlinked [] := by
  rw [downloadTo, bind_eq_ok] at hdownload
  obtain ⟨made, hmade, hdownload⟩ := hdownload
  rw [bind_eq_ok] at hdownload
  obtain ⟨found, -, hdownload⟩ := hdownload
  rw [raiseIf_bind_eq_ok] at hdownload
  obtain ⟨-, hdownload⟩ := hdownload
  cases hdownload
  exact set_unlinked (makeDirectories_unlinked h hmade) nofun

/-- A downloaded tree has no links. -/
theorem download_files_unlinked {download : Text → Except BundleFailure Bytes} {version : Text}
    {files : List ManifestFile} (h : root.Unlinked [])
    (hdownload : _download_files download version files root = .ok tree) :
    tree.Unlinked [] := by
  refine foldlM_keeps (p := fun tree => Files.Unlinked tree []) ?_ h hdownload
  intro entry tree tree' htree hstep
  rw [bind_eq_ok] at hstep
  obtain ⟨⟨placed, content⟩, hplaced, hstep⟩ := hstep
  cases hstep
  exact downloadTo_unlinked htree hplaced

end downloaded

section publish
variable {platform : Platform} {names : TemporaryNames} {reference_path : Option FilePath}
  {manifest_sha256 version : Text} {s : FileTree}
  {t u : FileTree} {source : FileTree}

/-- The cleanup of a temporary directory. -/
theorem cleanup_meets {result : Except BundleFailure FilePath} (hintact : Intact platform reference_path s t)
    (hother : ¬ LeftAlone platform reference_path s names.directory)
    (hreference : reference_path ≠ some [names.directory])
    (hresult : ∀ p, result = .ok p → t.Unlinked (cache_directory manifest_sha256) ∧
      names.directory ≠ lower manifest_sha256) :
    Program.Meets (Operation.effects Text Bytes BundleFailure)
      (Safe platform reference_path manifest_sha256 version s)
      (do
        let left ← Program.store
        if left.exists [names.directory] then
          .run (.remove_tree [names.directory]) : CacheProgram Unit)
      (fun _ u => Intact platform reference_path s u ∧
        ∀ p, result = .ok p → u.Unlinked (cache_directory manifest_sha256)) t := by
  refine Program.Meets.bind (Program.Meets.store hintact.safe ?_)
  dsimp only
  split
  case isFalse => exact ⟨hintact.safe, hintact, fun p hp => (hresult p hp).1⟩
  case isTrue =>
    refine Program.Meets.run ?_ ?_
    · exact fun u hu => (hintact.passes hother hreference (paths_singleton rfl) hu).safe
    · intro outcome u hu
      have hcleaned := hintact.ends hother hreference (paths_singleton rfl) hu
      refine ⟨hcleaned.safe, hcleaned, ?_⟩
      intro p hp
      obtain ⟨hunlinked, hne⟩ := hresult p hp
      exact hunlinked.of_same (Operation.same_below_of_ends hu (outside_of_paths (paths_singleton rfl) hne))

/-- A copy of a tree without links has none. -/
theorem copy_unlinked {path : FilePath} {done : Unit} (hsource : source.Unlinked [])
    (h : (Operation.effects Text Bytes BundleFailure).ends (.copy source path) t (.ok done) u) : u.Unlinked path := by
  intro p target hp
  obtain ⟨rest, rfl⟩ := hp
  rw [h.2 rest]
  split
  case isTrue =>
    intro hlink
    cases hlink
  case isFalse => exact hsource rest target (List.nil_prefix)

theorem write_unlinked {path file : FilePath} {content : Bytes} {done : Unit} (hunlinked : t.Unlinked path)
    (h : (Operation.effects Text Bytes BundleFailure).ends (.write file content) t (.ok done) u) : u.Unlinked path := by
  intro p target hp
  by_cases hfile : file <+: p
  · rw [h.2 p hfile]
    split
    case isTrue => exact nofun
    case isFalse => exact nofun
  · rw [h.1 p hfile]
    exact hunlinked p target hp

/-- Both directories of a staged bundle stand when its marker is written. -/
theorem staged_directories {directory bundle complete : Text} {v : FileTree} {marker : Bytes} {first second : Unit}
    (hcreated : t.get? [directory] = some .directory)
    (hcopy : (Operation.effects Text Bytes BundleFailure).ends (.copy source [directory, bundle]) t (.ok first) u)
    (hwrite : (Operation.effects Text Bytes BundleFailure).ends (.write [directory, bundle, complete] marker) u
      (.ok second) v) :
    v.get? [directory] = some .directory ∧ v.get? [directory, bundle] = some .directory := by
  constructor
  · rw [hwrite.1 [directory] (by simp), hcopy.1 [directory] (by simp), hcreated]
  · rw [hwrite.1 [directory, bundle] (by simp)]
    exact hcopy.2 []

/-- A staged bundle takes a free place, and no other entry changes but its own. -/
theorem rename_staged {directory bundle digest : Text} {done : Unit} (hintact : Intact platform reference_path s t)
    (hother : ¬ LeftAlone platform reference_path s directory) (hreference : reference_path ≠ some [directory])
    (hdigest : ¬ LeftAlone platform reference_path s digest) (hunlinked : t.Unlinked [directory, bundle])
    (hdirectory : t.get? [directory] = some .directory) (hstaged : t.get? [directory, bundle] = some .directory)
    (h : (Operation.effects Text Bytes BundleFailure).ends (.rename [directory, bundle] [digest]) t (.ok done) u) :
    Intact platform reference_path s u ∧ u.Unlinked [digest] ∧ directory ≠ digest := by
  obtain ⟨hreplaces, hmoved⟩ := h
  have hfree : t.get? [digest] = none := by
    cases hreplaces with
    | inl hfree => exact hfree.2
    | inr hfile => exact absurd hstaged hfile.2.1
  have hne : directory ≠ digest := by
    intro heq
    rw [heq, hfree] at hdirectory
    cases hdirectory
  have hsame : ∀ kept, directory ≠ kept → digest ≠ kept → Files.SameBelow [kept] t u := by
    intro kept hdirectory_ne hdigest_ne p hp
    rw [hmoved p, if_neg (Operation.not_prefix_of_ne hdigest_ne hp),
      if_neg (Operation.not_prefix_of_ne hdirectory_ne hp)]
  refine ⟨hintact.trans ?_ ?_, ?_, hne⟩
  · intro kept hkept
    apply hsame
    · intro heq
      rw [heq] at hother
      exact hother hkept
    · intro heq
      rw [heq] at hdigest
      exact hdigest hkept
  · intro name hname
    by_cases heq : digest = name
    · -- a directory is at the reference's place, where nothing was
      rw [← heq, entryAt_eq_none (.inl hfree)]
      apply entryAt_eq_none
      rw [hmoved [digest], if_pos (List.prefix_refl _)]
      exact .inr hstaged
    · apply entryAt_congr
      refine hsame name ?_ heq [name] (List.prefix_refl _)
      intro heq_directory
      rw [heq_directory] at hreference
      exact hreference hname
  · intro p target hp
    rw [hmoved p, if_pos hp]
    exact hunlinked _ target (List.prefix_append _ _)

/-- The staged directory becomes the cache directory in one step. -/
theorem publishStaged_meets (hintact : Intact platform reference_path s t)
    (hother : ¬ LeftAlone platform reference_path s names.directory)
    (hreference : reference_path ≠ some [names.directory])
    (hdigest : ¬ LeftAlone platform reference_path s (lower manifest_sha256)) (hsource : source.Unlinked [])
    (hcreated : t.get? [names.directory] = some .directory) :
    Program.Meets (Operation.effects Text Bytes BundleFailure)
      (Safe platform reference_path manifest_sha256 version s)
      (publishStaged names manifest_sha256 source)
      (fun outcome u => Intact platform reference_path s u ∧ ∀ p, outcome = .ok p →
        u.Unlinked (cache_directory manifest_sha256) ∧ names.directory ≠ lower manifest_sha256) t := by
  refine Program.Meets.bind (Program.Meets.run ?_ ?_)
  · exact fun u hu => (hintact.passes hother hreference (paths_singleton rfl) hu).safe
  · intro outcome u hu
    have hcopied := hintact.ends hother hreference (paths_singleton rfl) hu
    refine ⟨hcopied.safe, ?_⟩
    cases outcome with
    | error failure => exact ⟨hcopied, nofun⟩
    | ok _ =>
      refine Program.Meets.bind (Program.Meets.lift hcopied.safe ?_)
      cases encode_ascii (lower manifest_sha256) with
      | none => exact ⟨hcopied, nofun⟩
      | some marker =>
        refine Program.Meets.bind (Program.Meets.run ?_ ?_)
        · exact fun v hv => (hcopied.passes hother hreference (paths_singleton rfl) hv).safe
        · intro outcome v hv
          have hmarked := hcopied.ends hother hreference (paths_singleton rfl) hv
          refine ⟨hmarked.safe, ?_⟩
          cases outcome with
          | error failure => exact ⟨hmarked, nofun⟩
          | ok _ =>
            refine Program.Meets.bind (Program.Meets.run ?_ ?_)
            · intro w hw
              rw [show w = v from hw]
              exact hmarked.safe
            · intro outcome w hw
              cases outcome with
              | error failure =>
                rw [show w = v from hw]
                exact ⟨hmarked.safe, hmarked, nofun⟩
              | ok _ =>
                have hunlinked := write_unlinked (copy_unlinked hsource hu) hv
                obtain ⟨hdirectory, hstaged⟩ := staged_directories hcreated hu hv
                obtain ⟨hmoved, hdone, hne⟩ :=
                  rename_staged hmarked hother hreference hdigest hunlinked hdirectory hstaged hw
                exact ⟨hmoved.safe, hmoved.safe, hmoved, fun p _ => ⟨hdone, hne⟩⟩

/-- A directory that is not accepted is not left alone. -/
theorem digest_not_leftAlone (hplaced : WellPlaced names reference_path manifest_sha256 s)
    (hnone : completed_cache platform s manifest_sha256 none = none) :
    ¬ LeftAlone platform reference_path s (lower manifest_sha256) := by
  intro hname
  cases hname with
  | inl haccepted =>
    obtain ⟨digest, expected_version, hsome, hdigest⟩ := haccepted
    obtain ⟨p, hp⟩ := Option.isSome_iff_exists.mp hsome
    have hsame := completed_cache_none hp
    rw [completed_cache_lower hdigest.symm, hnone] at hsame
    cases hsame
  | inr hreference =>
    obtain ⟨rest, hrest, hpath⟩ := hreference
    obtain ⟨name, below, hsplit, hbelow⟩ := hplaced.placed _ hpath
    cases hsplit
    exact (hbelow hrest).1 rfl

/-- A removed directory leaves no file or link behind, wherever the removal stops. -/
theorem Intact.removing {name : Text} (hintact : Intact platform reference_path s t)
    (hname : ¬ LeftAlone platform reference_path s name) (hdirectory : t.get? [name] = some .directory)
    (hremoving : Operation.Removing [name] t u) : Intact platform reference_path s u := by
  have hsame : ∀ kept, name ≠ kept → Files.SameBelow [kept] t u :=
    fun kept hne p hp => hremoving.1 p (Operation.not_prefix_of_ne hne hp)
  apply hintact.trans
  · intro kept hkept
    apply hsame
    intro heq
    rw [heq] at hname
    exact hname hkept
  · intro other _
    by_cases heq : name = other
    · rw [← heq, entryAt_eq_none (.inr hdirectory)]
      apply entryAt_eq_none
      cases hremoving.2 [name] with
      | inl hkept =>
        rw [hkept]
        exact .inr hdirectory
      | inr hgone => exact .inl hgone
    · exact entryAt_congr (hsame other heq [other] (List.prefix_refl _))

theorem remove_digest_passes (hdigest : ¬ LeftAlone platform reference_path s (lower manifest_sha256))
    (h : (Operation.effects Text Bytes BundleFailure).passes (.remove_tree (cache_directory manifest_sha256)) s t) :
    Intact platform reference_path s t := by
  cases h with
  | inl hremoving => exact Intact.refl.removing hdigest hremoving.1 hremoving.2
  | inr hsame =>
    rw [hsame]
    exact Intact.refl

theorem remove_digest_ends {outcome : Except BundleFailure Unit}
    (hdigest : ¬ LeftAlone platform reference_path s (lower manifest_sha256))
    (h : (Operation.effects Text Bytes BundleFailure).ends (.remove_tree (cache_directory manifest_sha256)) s
      outcome t) :
    Intact platform reference_path s t := by
  cases outcome with
  | error failure => exact remove_digest_passes hdigest h
  | ok _ => exact Intact.refl.removing hdigest h.1 h.2.1

/-- A sync publishes through a new directory, which it removes. -/
theorem stage_meets (hlinks : UnlinkedCaches platform s) (hplaced : WellPlaced names reference_path manifest_sha256 s)
    (hintact : Intact platform reference_path s t)
    (hdigest : ¬ LeftAlone platform reference_path s (lower manifest_sha256)) (hsource : source.Unlinked []) :
    Program.Meets (Operation.effects Text Bytes BundleFailure)
      (Safe platform reference_path manifest_sha256 version s)
      (stage names manifest_sha256 source)
      (fun outcome u => Intact platform reference_path s u ∧
        ∀ p, outcome = .ok p → u.Unlinked (cache_directory manifest_sha256)) t := by
  refine Program.Meets.bind (Program.Meets.run ?_ ?_)
  · intro u hu
    rw [show u = t from hu]
    exact hintact.safe
  · intro outcome u hu
    cases outcome with
    | error failure =>
      rw [show u = t from hu]
      exact ⟨hintact.safe, hintact, nofun⟩
    | ok _ =>
      have hnew := hu.1 [names.directory] (List.prefix_refl _)
      have hother := not_leftAlone_of_new hlinks hintact (fun path hpath => (hplaced.fresh path hpath).1) hnew
      have hcreated := hintact.ends hother hplaced.directory_ne (paths_singleton rfl) hu
      have hdirectory : u.get? [names.directory] = some .directory := by
        rw [hu.2.2 [names.directory] (List.prefix_refl _), if_pos rfl]
      refine ⟨hcreated.safe, Program.Meets.ensuring ?_⟩
      refine (publishStaged_meets hcreated hother hplaced.directory_ne hdigest hsource hdirectory).mono ?_
      intro result v hv
      refine (cleanup_meets hv.1 hother hplaced.directory_ne hv.2).mono ?_
      intro cleaned w hw
      cases cleaned with
      | error failure => exact ⟨hw.1, nofun⟩
      | ok _ => exact hw

/-- A directory that was not accepted makes place for a verified one. -/
theorem publish_meets (hlinks : UnlinkedCaches platform s)
    (hplaced : WellPlaced names reference_path manifest_sha256 s) (hsource : source.Unlinked []) :
    Program.Meets (Operation.effects Text Bytes BundleFailure)
      (Safe platform reference_path manifest_sha256 version s)
      (atomic_publish platform names manifest_sha256 source)
      (fun outcome t => Intact platform reference_path s t ∧
        ∀ p, outcome = .ok p → t.Unlinked (cache_directory manifest_sha256)) s := by
  have hstart : Intact platform reference_path s s := Intact.refl
  refine Program.Meets.bind (Program.Meets.run ?_ ?_)
  · intro t ht
    rw [show t = s from ht]
    exact hstart.safe
  · intro outcome t ht
    have hsame : t = s := by
      cases outcome <;> exact ht
    rw [hsame]
    refine ⟨hstart.safe, ?_⟩
    cases outcome with
    | error failure => exact ⟨hstart, nofun⟩
    | ok _ =>
      refine Program.Meets.bind (Program.Meets.store hstart.safe ?_)
      dsimp only
      cases hexisting : completed_cache platform s manifest_sha256 none with
      | some existing =>
        refine ⟨hstart.safe, hstart, ?_⟩
        intro p _
        have hunlinked := hlinks manifest_sha256 none existing hexisting
        rwa [(completed_cache_eq_some hexisting).1] at hunlinked
      | none =>
        have hdigest := digest_not_leftAlone hplaced hexisting
        dsimp only
        split
        case isFalse => exact stage_meets hlinks hplaced hstart hdigest hsource
        case isTrue =>
          refine Program.Meets.bind (Program.Meets.run ?_ ?_)
          · exact fun u hu => (remove_digest_passes hdigest hu).safe
          · intro outcome u hu
            have hremoved := remove_digest_ends hdigest hu
            refine ⟨hremoved.safe, ?_⟩
            cases outcome with
            | error failure => exact ⟨hremoved, nofun⟩
            | ok _ => exact stage_meets hlinks hplaced hremoved hdigest hsource

end publish

end pii_engine.bundle
