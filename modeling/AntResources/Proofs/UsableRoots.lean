import AntResources.Proofs.LookupLocality

/-!
# AntResources.Proofs.UsableRoots

**Whether the resources of a root that is provided can be listed.** A folder on the search path provides a root
if anything is there below it, but only a folder can be listed (`Source.exists_outcome_listTree_iff`). An
archive can always be listed. The first provider alone decides, so a file in the place of the root is an error
where it comes first, also if a folder or an archive with that root comes behind it
(`World.expandOn_of_first_provider`).
-/

namespace AntResources

open Contribution (Setup)
open Text

/-! ### Folders -/

/-- A folder that can be walked under its absolute path: it has one, is found under it, and all that is below
it may be listed and lies not too deep. -/
structure World.CanBeWalked (w : World) (base : Path) : Prop where
  kept : ¬ w.IsLost base
  walked : ∃ spot, w.tree.find w.cwd (base.absolute w.cwd) = .ok spot ∧
    w.tree.isFolderAt spot.location = true ∧
    ∀ dir sub, w.tree.Reaches (base.absolute w.cwd) spot dir sub →
      dir.length < maxNesting ∧ w.tree.isListable ((base.absolute w.cwd).below dir) = true

namespace Source

variable {w : World} {e : Expression} {base root : Path}

theorem exists_filesBelow_iff : (∃ files, filesBelow w root = .ok files) ↔
    ∃ spot, w.tree.find w.cwd root = .ok spot ∧ w.tree.isFolderAt spot.location = true ∧
      ∀ dir sub, w.tree.Reaches root spot dir sub →
        dir.length < maxNesting ∧ w.tree.isListable (root.below dir) = true := by
  constructor
  · rintro ⟨files, hfiles⟩
    obtain ⟨spot, hfind, hfolder, hwalk⟩ := exists_walk_of_filesBelow hfiles
    exact ⟨spot, hfind, hfolder, fun dir sub hsub => FileTree.exists_walk_eq_ok_iff.mp ⟨files, hwalk⟩
      dir sub (FileTree.folderBelow?_eq_some_iff_reaches.mpr hsub)⟩
  · rintro ⟨spot, hfind, hfolder, hall⟩
    obtain ⟨files, hwalk⟩ := FileTree.exists_walk_eq_ok_iff.mpr fun dir sub hsub =>
      hall dir sub (FileTree.folderBelow?_eq_some_iff_reaches.mp hsub)
    refine ⟨files, ?_⟩
    rw [filesBelow, hfind]
    simp only [hfolder, if_true, hwalk]
    rfl

/-- **When a folder can be listed.** -/
theorem exists_outcome_listTree_iff : (∃ found, (listTree w e base).outcome = .ok found) ↔
    w.isFolder base = .ok true ∧ w.CanBeWalked base := by
  simp only [outcome_listTree_eq_ok_iff]
  constructor
  · rintro ⟨found, hfolder, root, files, hroot, hfiles, -⟩
    have hkept : ¬ w.IsLost base := fun hlost => by
      rw [World.absolute_eq_error hlost] at hroot
      cases hroot
    rw [World.absolute_eq_ok hkept] at hroot
    obtain rfl := Except.ok.inj hroot
    exact ⟨hfolder, hkept, exists_filesBelow_iff.mp ⟨files, hfiles⟩⟩
  · rintro ⟨hfolder, hkept, hwalked⟩
    obtain ⟨files, hfiles⟩ := exists_filesBelow_iff.mpr hwalked
    exact ⟨_, hfolder, _, files, World.absolute_eq_ok hkept, hfiles, rfl⟩

end Source

/-! ### The first provider -/

section Provider

variable {w : World} {searchPath : SearchPath} {workers : Int} {text : String} {e : Expression}
  (hparse : Expression.parse text = some e) (horigin : e.origin = some Source.classpathOrigin)
  (hanswers : ∀ p ∈ searchPath, w.Answers e.rootDir p)

include hparse

/-- A folder that answers knows whether the root below it is a folder. -/
theorem World.Answers.isFolder_below {p : Path} (h : w.Answers e.rootDir p)
    (hfolder : w.isFolder p = .ok true) : ∃ isFolder, w.isFolder (p.below e.root) = .ok isFolder := by
  cases hbelow : w.isFolder (p.below e.root) with
  | ok isFolder => exact ⟨isFolder, rfl⟩
  | error failure =>
      have hcandidate : SearchPath.candidate e.rootDir p = p.below e.root :=
        SearchPath.candidate_joinSlash (Expression.proper_root_of_parse hparse) p
      obtain ⟨fault, hrefused, -⟩ := World.isFolder_eq_error_iff.mp hbelow
      exact absurd (.root hfolder (hcandidate ▸ hrefused)) (h _)

include horigin hanswers

/-- A folder that comes first is listed if the root below it is a folder that can be walked. -/
theorem World.exists_expandOn_of_folder {p : Path} {rest : SearchPath}
    (hfirst : w.providers e.rootDir searchPath = p :: rest) (hfolder : w.isFolder p = .ok true)
    (hroot : w.isFolder (p.below e.root) = .ok true) (hwalked : w.CanBeWalked (p.below e.root)) :
    ∃ ls, w.expandOn workers searchPath text = .ok ls := by
  obtain ⟨found, hfound⟩ := (Source.exists_outcome_listTree_iff (e := e)).mpr ⟨hroot, hwalked⟩
  exact ⟨_, by rw [expandOn_of_first_folder hparse horigin hanswers hfirst hfolder, hfound, map_ok]⟩

/-- Anything else in its place is an error. -/
theorem World.expandOn_of_no_folder {p : Path} {rest : SearchPath}
    (hfirst : w.providers e.rootDir searchPath = p :: rest) (hfolder : w.isFolder p = .ok true)
    (hroot : w.isFolder (p.below e.root) = .ok false) :
    w.expandOn workers searchPath text = .error (.resource (.baseNotFound (p.below e.root))) := by
  rw [expandOn_of_first_folder hparse horigin hanswers hfirst hfolder, Source.outcome_listTree, hroot]
  rfl

/-- Archives that come first are listed. -/
theorem World.exists_expandOn_of_archive {p : Path} {rest : SearchPath}
    (hfirst : w.providers e.rootDir searchPath = p :: rest) (harchive : w.isArchive p = .ok true)
    (hwhole : ∀ q ∈ searchPath, w.IsWhole q) (hnamed : ∀ q ∈ searchPath, w.HasNamedMembers q) :
    ∃ ls, w.expandOn workers searchPath text = .ok ls := by
  have hprovider : ∀ q ∈ w.archivesAmong (w.providers e.rootDir searchPath),
      q ∈ searchPath ∧ w.isArchive q = .ok true := by
    intro q hq
    obtain ⟨hmem, hends⟩ := List.mem_filter.mp hq
    exact ⟨(mem_providers_iff.mp hmem).1, by simpa using hends⟩
  have hscans := (Source.mapM_scan_of_open (e := e) fun q hq =>
    (hwhole q (hprovider q hq).1).exists_archive (hprovider q hq).2).1
      fun q hq => hnamed q (hprovider q hq).1
  exact ⟨_, by rw [expandOn_of_first_archive hparse horigin hanswers hfirst harchive, hscans, map_ok]⟩

end Provider

/-- **The first provider decides.** Let every entry of a search path answer, its archives open and have no
members without names, and its folders be such that they can be walked. If no entry provides the root, that is
nowhere. If an archive is the first to provide it, or a folder below which it is a folder, then its resources
are listed. If the first is a folder below which it is something else, that is an error, whatever comes
behind. -/
theorem World.expandOn_of_first_provider (w : World) (workers : Int) (searchPath : SearchPath)
    (text : String) (e : Expression) (hparse : Expression.parse text = some e)
    (horigin : e.origin = some Source.classpathOrigin)
    (hanswers : ∀ p ∈ searchPath, w.Answers e.rootDir p) (hwhole : ∀ p ∈ searchPath, w.IsWhole p)
    (hnamed : ∀ p ∈ searchPath, w.HasNamedMembers p)
    (hwalked : ∀ p ∈ searchPath, w.isFolder (p.below e.root) = .ok true →
      w.CanBeWalked (p.below e.root)) :
    (w.providers e.rootDir searchPath = [] →
      w.expandOn workers searchPath text = .error (.resource (.rootNotFound e.rootDir e.raw))) ∧
    ∀ p rest, w.providers e.rootDir searchPath = p :: rest →
      (w.isArchive p = .ok true ∧ ∃ ls, w.expandOn workers searchPath text = .ok ls) ∨
      (w.isFolder p = .ok true ∧ w.isFolder (p.below e.root) = .ok true ∧
        ∃ ls, w.expandOn workers searchPath text = .ok ls) ∨
      (w.isFolder p = .ok true ∧ w.isFolder (p.below e.root) = .ok false ∧
        w.expandOn workers searchPath text = .error (.resource (.baseNotFound (p.below e.root)))) := by
  refine ⟨fun hnone => ?_, fun p rest hfirst => ?_⟩
  · rw [expandOn_eq hparse, listing_of_no_provider hparse horigin hanswers hnone, map_error]
  · obtain ⟨hmem, hprovides⟩ := mem_providers_iff.mp (hfirst ▸ List.mem_cons_self)
    by_cases hfolder : w.isFolder p = .ok true
    · obtain ⟨isFolder, hroot⟩ := (hanswers p hmem).isFolder_below hparse hfolder
      cases isFolder with
      | true =>
          exact .inr (.inl ⟨hfolder, hroot, exists_expandOn_of_folder hparse horigin hanswers hfirst
            hfolder hroot (hwalked p hmem hroot)⟩)
      | false =>
          exact .inr (.inr ⟨hfolder, hroot,
            expandOn_of_no_folder hparse horigin hanswers hfirst hfolder hroot⟩)
    · have harchive := hprovides.isArchive hfolder
      exact .inl ⟨harchive,
        exists_expandOn_of_archive hparse horigin hanswers hfirst harchive hwhole hnamed⟩

/-! ### A file in the place of a root -/

/-- A world with a file at `d/a`, and with an archive that has the member `a/x.js`. -/
def fileForRoot : World where
  tree := ⟨[(["d"], .folder), (["d", "a"], .file ByteArray.empty), (["z.zip"], .file smallZip)], []⟩
  cwd := []
  defaultPath := []
  web := []

/-- The folder and the archive. -/
def folderAndZip : SearchPath := [⟨.relative, ["d"]⟩, ⟨.relative, ["z.zip"]⟩]

theorem openArchive_fileForRoot : fileForRoot.openArchive ⟨.relative, ["z.zip"]⟩ =
    .ok ⟨smallZip, [emptyMember "a/x.js" 36]⟩ :=
  World.openArchive_of_child rfl rfl (by decide) (by decide) (by decide) rfl (by decide +kernel)

theorem find_fileForRoot : fileForRoot.tree.find fileForRoot.cwd ⟨.relative, ["d"]⟩ =
    .ok ⟨["d"], FileTree.maxLinks⟩ :=
  FileTree.find_of_child rfl rfl (by decide) (by decide) (by decide)
    (show fileForRoot.tree.child? [] "d" = some .folder from rfl) (by simp)

theorem find_root_fileForRoot : fileForRoot.tree.find fileForRoot.cwd ⟨.relative, ["d", "a"]⟩ =
    .ok ⟨["d", "a"], FileTree.maxLinks⟩ := by
  have hthere : fileForRoot.tree.IsThere (FileTree.start fileForRoot.cwd ⟨.relative, ["d", "a"]⟩ ++ ["d"]) :=
    FileTree.IsThere.child (.nil _) rfl (by decide)
  exact hthere.find rfl rfl (by decide) (by decide)
    (show fileForRoot.tree.child? ["d"] "a" = some (.file _) from rfl) (by simp)

theorem isFolder_fileForRoot : fileForRoot.isFolder ⟨.relative, ["d"]⟩ = .ok true :=
  World.isFolder_of_find find_fileForRoot

theorem isFolder_root_fileForRoot : fileForRoot.isFolder ⟨.relative, ["d", "a"]⟩ = .ok false :=
  World.isFolder_of_find find_root_fileForRoot

theorem locate_fileForRoot : SearchPath.locate fileForRoot "a" ⟨.relative, ["d"]⟩ =
    .ok (some (.tree ⟨.relative, ["d", "a"]⟩)) := by
  have hcandidate : SearchPath.candidate "a" ⟨.relative, ["d"]⟩ = ⟨.relative, ["d", "a"]⟩ :=
    SearchPath.candidate_joinSlash (show Proper ["a"] by unfold Proper; decide) ⟨.relative, ["d"]⟩
  have hpresent : fileForRoot.isPresent ⟨.relative, ["d", "a"]⟩ = .ok true := by
    unfold World.isPresent FileTree.isPresent FileTree.test FileTree.lookUp
    rw [find_root_fileForRoot]
    rfl
  rw [SearchPath.locate_eq_ok_iff, hcandidate]
  exact .inl ⟨isFolder_fileForRoot, true, hpresent, rfl⟩

/-- The folder and the archive can be asked for the root, and the archive opens. -/
theorem answers_fileForRoot : ∀ p ∈ folderAndZip, fileForRoot.Answers scriptsOfA.rootDir p ∧
    fileForRoot.IsWhole p ∧ fileForRoot.HasNamedMembers p := by
  intro p hp
  rcases List.mem_pair.mp hp with rfl | rfl
  · refine ⟨World.answers_iff.mpr ⟨_, locate_fileForRoot⟩,
      World.isWhole_of_isFolder_ne (by simp [isFolder_fileForRoot]), fun archive hopen => ?_⟩
    have hnone := World.isFolder_of_isArchive (World.isArchive_of_openArchive hopen)
    rw [isFolder_fileForRoot] at hnone
    cases hnone
  · refine ⟨World.answers_iff.mpr ⟨_, SearchPath.locate_of_openArchive openArchive_fileForRoot "a"⟩,
      World.isWhole_of_openArchive openArchive_fileForRoot, fun archive hopen => ?_⟩
    rw [openArchive_fileForRoot] at hopen
    cases hopen
    decide

theorem providers_fileForRoot : ∃ rest,
    fileForRoot.providers scriptsOfA.rootDir folderAndZip = ⟨.relative, ["d"]⟩ :: rest :=
  ⟨_, World.providers_of_first (show fileForRoot.providers _ [] = [] from rfl)
    (SearchPath.locate_eq_ok_some_iff.mp locate_fileForRoot).1 _⟩

/-- An entry of a search path has the root of an expression as a folder: it is one below a folder, or an
archive has members below it. -/
inductive World.HasRootFolder (w : World) (e : Expression) (entry : Path) : Prop where
  | folder : w.isFolder entry = .ok true → w.isFolder (entry.below e.root) = .ok true →
      HasRootFolder w e entry
  | archive {archive : Archive} {m : Member} : w.openArchive entry = .ok archive →
      m ∈ archive.members → (Source.memberStart ⟨entry, e.rootDir⟩).toList <+: m.name.toList →
      HasRootFolder w e entry

/-- The archive has the root as a folder, and all that is on the search path can be read. But the file in the
folder comes first. -/
theorem expandOn_fileForRoot_fails :
    Expression.parse "classpath:a/*.js" = some scriptsOfA ∧
    (∀ s ∈ scriptsOfA.root ++ scriptsOfA.glob, s.utf8ByteSize ≤ FileTree.maxNameBytes) ∧
    fileForRoot.tree.unlistable = [] ∧
    (∀ p ∈ folderAndZip, fileForRoot.Answers scriptsOfA.rootDir p ∧ fileForRoot.IsWhole p ∧
      fileForRoot.HasNamedMembers p) ∧
    (∃ p ∈ folderAndZip, fileForRoot.HasRootFolder scriptsOfA p) ∧
    fileForRoot.expandOn 4 folderAndZip "classpath:a/*.js" =
      .error (.resource (.baseNotFound ⟨.relative, ["d", "a"]⟩)) := by
  obtain ⟨rest, hfirst⟩ := providers_fileForRoot
  refine ⟨by decide, by decide, rfl, answers_fileForRoot, ⟨⟨.relative, ["z.zip"]⟩, by decide, ?_⟩, ?_⟩
  · exact .archive openArchive_fileForRoot (List.mem_singleton_self _) (by decide)
  · exact World.expandOn_of_no_folder rfl rfl (fun p hp => (answers_fileForRoot p hp).1) hfirst
      isFolder_fileForRoot isFolder_root_fileForRoot

/-- Nothing on the search path has a folder of that name. -/
theorem isFolder_below_fileForRoot : ∀ p ∈ folderAndZip,
    fileForRoot.isFolder (p.below scriptsOfA.root) = .ok false := by
  intro p hp
  rcases List.mem_pair.mp hp with rfl | rfl
  · exact isFolder_root_fileForRoot
  · have hchild : fileForRoot.tree.child? [] "z.zip" = some (.file smallZip) := rfl
    have hfind : fileForRoot.tree.find fileForRoot.cwd ⟨.relative, ["z.zip", "a"]⟩ =
        .error .notFolder := by
      rw [FileTree.find, if_neg (by decide), if_neg (by decide), FileTree.along_of_ne_nil (by simp)]
      show fileForRoot.tree.descend FileTree.maxLinks [] ["z.zip", "a"] = _
      rw [FileTree.descend_of_child_eq_some _ _ rfl (by decide) hchild (by simp), FileTree.descend]
      rfl
    exact World.isFolder_of_find_error hfind rfl

/-- The file is an error in front of the archive, and does no harm behind it. -/
theorem expandOn_fileForRoot :
    fileForRoot.expandOn 4 folderAndZip "classpath:a/*.js" =
        .error (.resource (.baseNotFound ⟨.relative, ["d", "a"]⟩)) ∧
      ∃ ls, fileForRoot.expandOn 4 folderAndZip.reverse "classpath:a/*.js" = .ok ls := by
  have hwalked : ∀ p ∈ folderAndZip, fileForRoot.isFolder (p.below scriptsOfA.root) = .ok true →
      fileForRoot.CanBeWalked (p.below scriptsOfA.root) := by
    intro p hp hfolder
    rw [isFolder_below_fileForRoot p hp] at hfolder
    cases hfolder
  have hzip : fileForRoot.Provides scriptsOfA.rootDir ⟨.relative, ["z.zip"]⟩ :=
    .archive openArchive_fileForRoot (by decide +kernel)
  have hsame : ∀ p ∈ folderAndZip.reverse, p ∈ folderAndZip := fun p => List.mem_reverse.mp
  have hforth := (World.expandOn_of_first_provider fileForRoot 4 folderAndZip "classpath:a/*.js"
    scriptsOfA (by decide) rfl (fun p hp => (answers_fileForRoot p hp).1)
    (fun p hp => (answers_fileForRoot p hp).2.1) (fun p hp => (answers_fileForRoot p hp).2.2) hwalked).2
  have hback := (World.expandOn_of_first_provider fileForRoot 4 folderAndZip.reverse "classpath:a/*.js"
    scriptsOfA (by decide) rfl (fun p hp => (answers_fileForRoot p (hsame p hp)).1)
    (fun p hp => (answers_fileForRoot p (hsame p hp)).2.1)
    (fun p hp => (answers_fileForRoot p (hsame p hp)).2.2) fun p hp => hwalked p (hsame p hp)).2
  constructor
  · obtain ⟨rest, hfirst⟩ := providers_fileForRoot
    rcases hforth _ rest hfirst with ⟨harchive, -⟩ | ⟨-, hroot, -⟩ | ⟨-, -, hfails⟩
    · have hnone := World.isFolder_of_isArchive harchive
      rw [isFolder_fileForRoot] at hnone
      cases hnone
    · rw [isFolder_below_fileForRoot _ (by decide)] at hroot
      cases hroot
    · exact hfails
  · have hfirst := World.providers_of_first (show fileForRoot.providers _ [] = [] from rfl) hzip
      [⟨.relative, ["d"]⟩]
    rcases hback _ _ hfirst with ⟨-, hlisted⟩ | ⟨-, -, hlisted⟩ | ⟨hfolder, -⟩
    · exact hlisted
    · exact hlisted
    · rw [World.isFolder_of_isArchive (World.isArchive_of_openArchive openArchive_fileForRoot)] at hfolder
      cases hfolder

end AntResources
