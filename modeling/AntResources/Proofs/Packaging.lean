import AntResources.Proofs.ArchiveListing
import AntResources.Proofs.FolderListing

/-!
# AntResources.Proofs.Packaging

**The same files listed from a folder and from an archive.** One entry of a search path is asked for
the root of an expression and then lists it. For a folder and an archive that hold the same files the
two answers select the same files, or both say that the root is not there, with two exceptions, in
which the folder ends with a fault: the path of the root below it is too long, or folders lie too deep
below the root. There is no third.
-/

namespace AntResources

open Contribution (Setup)
open Text

/-! ### One entry of a search path -/

/-- The settings under which one folder or archive is the search path. -/
def onlyOn (w : World) (entry : Path) (workers : Int) : Setup := ⟨SearchPath.resolve [entry] w, workers⟩

section Listing

variable {w : World} (workers : Int) {text : String} {e : Expression} {files : List (List String)}

/-- The entry is asked for the root, and what it answers is listed. -/
theorem listing_onlyOn {entry : Path} (hparse : Expression.parse text = some e)
    (horigin : e.origin = some Source.classpathOrigin) :
    listing w (onlyOn w entry workers) text =
      SearchPath.locate w e.rootDir entry >>= fun found =>
        Source.ofLocations e found.toList >>= fun source => (source.list w workers e).outcome := by
  have hproper := Expression.proper_root_of_parse hparse
  have hstrip : stripSlashes e.rootDir = e.rootDir := stripSlashes_joinSlash hproper.isSegment
  rw [onlyOn, listing_of_classpathOrigin hparse horigin, SearchPath.outcome_resolve_singleton, hstrip]
  cases SearchPath.locate w e.rootDir entry <;> rfl

/-- **What an archive that holds some files answers.** -/
theorem listing_archive {zip : Path} {archive : Archive} (hopen : w.openArchive zip = .ok archive)
    (hheld : archive.Holds files) (hfiles : AreFiles files)
    (hparse : Expression.parse text = some e) (horigin : e.origin = some Source.classpathOrigin)
    (hroot : e.root ∉ files) :
    (¬ IsFolderOf files e.root → listing w (onlyOn w zip workers) text =
      .error (.resource (.rootNotFound e.rootDir e.raw))) ∧
    (IsFolderOf files e.root → ∃ ls, listing w (onlyOn w zip workers) text = .ok ls ∧
      ∀ l, l ∈ ls ↔ ∃ file, e.Selects files file ∧ l = classpathLocator file) := by
  have hproper := Expression.proper_root_of_parse hparse
  have hprovides : (e.rootDir = "" ∨ SearchPath.provides archive e.rootDir = true) ↔
      IsFolderOf files e.root := by
    by_cases hne : e.root = []
    · simp [Expression.rootDir, hne, isFolderOf_nil]
    · have hempty : e.rootDir ≠ "" := joinSlash_ne_empty hne hproper.isSegment
      rw [or_iff_right hempty]
      exact hheld.provides_iff hfiles hproper hne hroot
  rw [listing_onlyOn workers hparse horigin, SearchPath.locate_of_openArchive hopen, ok_bind]
  constructor
  · intro hnot
    rw [if_neg fun h => hnot (hprovides.mp h)]
    rfl
  · intro hfolder
    have hscan := Source.scan_of_openArchive hopen (hheld.name_ne_empty hfiles) e e.rootDir
    rw [if_pos (hprovides.mpr hfolder)]
    refine ⟨Locator.unique (Source.membersMatching e ⟨zip, e.rootDir⟩ archive), ?_, fun l => ?_⟩
    · show (Source.listArchives w workers e [⟨zip, e.rootDir⟩]).outcome = _
      rw [Source.outcome_listArchives_singleton, hscan]
      rfl
    · rw [Locator.mem_unique, hheld.mem_membersMatching_iff hfiles hproper horigin hroot]

/-- **What a folder that holds some files answers.** -/
theorem listing_folder {folder root : Path} (hheld : w.HoldsFolder folder root files)
    (hfiles : AreFiles files) (hparse : Expression.parse text = some e)
    (horigin : e.origin = some Source.classpathOrigin) (hup : ".." ∉ e.root)
    (hlong : ∀ s ∈ e.root, s.utf8ByteSize ≤ FileTree.maxNameBytes) (hroot : e.root ∉ files) :
    ((folder.below e.root).TooLong →
      listing w (onlyOn w folder workers) text = .error (.fault .nameTooLong)) ∧
    (¬ (folder.below e.root).TooLong → ¬ IsFolderOf files e.root →
      listing w (onlyOn w folder workers) text =
        .error (.resource (.rootNotFound e.rootDir e.raw))) ∧
    (¬ (folder.below e.root).TooLong → TooDeep files e.root →
      listing w (onlyOn w folder workers) text = .error (.fault .nestedTooDeep)) ∧
    (¬ (folder.below e.root).TooLong → ¬ TooDeep files e.root → IsFolderOf files e.root →
      ∃ ls, listing w (onlyOn w folder workers) text = .ok ls ∧
        ∀ l, l ∈ ls ↔ ∃ file, e.Selects files file ∧ l = Source.fileLocator root file) := by
  have hproper := Expression.proper_root_of_parse hparse
  have hfollow : CanFollow e.root :=
    fun s hs => ⟨(hproper s hs).2.1, fun heq => hup (heq ▸ hs), hlong s hs⟩
  obtain ⟨spot, -, hspot, -, -, hheldAt⟩ := hheld.held
  obtain ⟨htoolong, hfound, hnone⟩ :=
    SearchPath.locate_of_holdsAt hheldAt hspot hfiles hproper hfollow
  rw [listing_onlyOn workers hparse horigin, Expression.rootDir]
  refine ⟨fun hl => ?_, fun hl hnot => ?_, fun hl hdeep => ?_, fun hl hnot hfolder => ?_⟩
  · rw [htoolong hl, error_bind]
  · rw [hnone hl hnot hroot]
    rfl
  · obtain ⟨below, hbelow, hdepth⟩ := hdeep
    rw [hfound hl (.inl hbelow.above)]
    exact (hheld.outcome_listTree hfiles hproper hfollow hroot hl hbelow.above).1
      ⟨below, hbelow, hdepth⟩
  · rw [hfound hl (.inl hfolder)]
    exact (hheld.outcome_listTree hfiles hproper hfollow hroot hl hfolder).2 hnot

end Listing

/-! ### Reading files off locators -/

section Locators

variable {files : List (List String)} {first second : List String}

theorem classpathLocator_inj (hfiles : AreFiles files) (hfirst : first ∈ files)
    (hsecond : second ∈ files) (h : classpathLocator first = classpathLocator second) :
    first = second := by
  have htext := (String.append_right_inj _).mp (Locator.mk.inj h)
  exact (hfiles.proper hfirst).joinSlash_inj (hfiles.proper hsecond) (hfiles.ne_nil first hfirst)
    (hfiles.ne_nil second hsecond) htext

/-- Names behind a path are written behind a text that does not depend on them. -/
theorem Path.exists_toString_below (p : Path) :
    ∃ start : String, ∀ names, names ≠ [] → (p.below names).toString = start ++ joinSlash names := by
  have htext : ∀ names, names ≠ [] →
      (p.below names).toString = p.anchor.text ++ joinSlash (p.parts ++ names) := by
    intro names hne
    rw [toString, if_neg fun h => hne (List.append_eq_nil_iff.mp h.2).2]
    rfl
  by_cases hparts : p.parts = []
  · exact ⟨p.anchor.text, fun names hne => by rw [htext names hne, hparts, List.nil_append]⟩
  · refine ⟨p.anchor.text ++ (joinSlash p.parts ++ "/"), fun names hne => ?_⟩
    rw [htext names hne, joinSlash_append hparts hne, ← String.append_assoc]

theorem fileLocator_inj_of_proper {root : Path} (hfirst : Proper first) (hsecond : Proper second)
    (hne : first ≠ []) (hne' : second ≠ [])
    (h : Source.fileLocator root first = Source.fileLocator root second) : first = second := by
  obtain ⟨start, hstart⟩ := root.exists_toString_below
  have hpaths : (root.below first).toString = (root.below second).toString :=
    (String.append_right_inj _).mp (Locator.mk.inj h)
  rw [hstart first hne, hstart second hne', String.append_right_inj] at hpaths
  exact hfirst.joinSlash_inj hsecond hne hne' hpaths

theorem fileLocator_inj (hfiles : AreFiles files) {root : Path} (hfirst : first ∈ files)
    (hsecond : second ∈ files)
    (h : Source.fileLocator root first = Source.fileLocator root second) : first = second :=
  fileLocator_inj_of_proper (hfiles.proper hfirst) (hfiles.proper hsecond)
    (hfiles.ne_nil first hfirst) (hfiles.ne_nil second hsecond) h

end Locators

/-! ### Folders and archives -/

/-- An outcome that says that something is nowhere on the search path. -/
def IsNotFound {α : Type} (outcome : Except Failure α) : Prop :=
  ∃ error, outcome = .error (.resource error) ∧ error.category = .notFound

/-- A folder and an archive with the same files come to the same: both say that there is no such root,
or both select the same files. `root` is the absolute path of the folder. -/
def SameSelection (files : List (List String)) (root : Path)
    (inFolder inArchive : Except Failure (List Locator)) : Prop :=
  (IsNotFound inFolder ↔ IsNotFound inArchive) ∧
  (¬ IsNotFound inFolder → ∃ ls ms, inFolder = .ok ls ∧ inArchive = .ok ms ∧
    (∀ l ∈ ls, ∃ file ∈ files, l = Source.fileLocator root file) ∧
    (∀ m ∈ ms, ∃ file ∈ files, m = classpathLocator file) ∧
    ∀ file ∈ files, Source.fileLocator root file ∈ ls ↔ classpathLocator file ∈ ms)

theorem not_isNotFound_ok {α : Type} {a : α} : ¬ IsNotFound (.ok a : Except Failure α) := by
  intro h
  obtain ⟨error, herror, -⟩ := h
  cases herror

theorem not_isNotFound_fault {α : Type} {fault : Fault} :
    ¬ IsNotFound (.error (.fault fault) : Except Failure α) := by
  intro h
  obtain ⟨error, herror, -⟩ := h
  cases herror

theorem isNotFound_rootNotFound {α : Type} {root raw : String} :
    IsNotFound (.error (.resource (.rootNotFound root raw)) : Except Failure α) :=
  ⟨_, rfl, rfl⟩

section Selection

variable {files : List (List String)} {root : Path}

/-- A fault is neither a missing root nor a selection. -/
theorem not_sameSelection_fault {fault : Fault} {inArchive : Except Failure (List Locator)} :
    ¬ SameSelection files root (.error (.fault fault)) inArchive := by
  intro h
  obtain ⟨ls, ms, hls, -⟩ := h.2 not_isNotFound_fault
  cases hls

theorem sameSelection_ok {chosen : List String → Prop} {ls ms : List Locator}
    (hfiles : AreFiles files) (hchosen : ∀ file, chosen file → file ∈ files)
    (hls : ∀ l, l ∈ ls ↔ ∃ file, chosen file ∧ l = Source.fileLocator root file)
    (hms : ∀ m, m ∈ ms ↔ ∃ file, chosen file ∧ m = classpathLocator file) :
    SameSelection files root (.ok ls) (.ok ms) := by
  refine ⟨iff_of_false not_isNotFound_ok not_isNotFound_ok, fun _ => ⟨ls, ms, rfl, rfl, ?_, ?_, ?_⟩⟩
  · intro l hl
    obtain ⟨file, hfile, heq⟩ := (hls l).mp hl
    exact ⟨file, hchosen file hfile, heq⟩
  · intro m hm
    obtain ⟨file, hfile, heq⟩ := (hms m).mp hm
    exact ⟨file, hchosen file hfile, heq⟩
  · intro file hfile
    rw [hls, hms]
    constructor
    · intro h
      obtain ⟨other, hother, heq⟩ := h
      exact ⟨other, hother, by rw [fileLocator_inj hfiles hfile (hchosen other hother) heq]⟩
    · intro h
      obtain ⟨other, hother, heq⟩ := h
      exact ⟨other, hother, by rw [classpathLocator_inj hfiles hfile (hchosen other hother) heq]⟩

end Selection

/-- One entry alone: an exclusion leaves nothing. -/
theorem outcome_expand_singleton (w : World) (setup : Setup) {text : String} (hne : text ≠ "") :
    (expand w setup [text]).outcome =
      (fun ls => if isExclusion text then [] else Locator.unique ls) <$> listing w setup text := by
  have hkept : [text].filter (· ≠ "") = [text] := by simp [hne]
  simp only [expand, Trace.outcome_bind, Trace.outcome_pure, outcome_contributions, hkept,
    List.mapM_cons, List.mapM_nil]
  cases listing w setup text with
  | error f => rfl
  | ok ls =>
      cases hex : isExclusion text with
      | true => simp [Contribution.combine, Contribution.included, Contribution.excluded, pure,
          Except.pure]
      | false => simp [Contribution.combine, Contribution.included, Contribution.excluded, pure,
          Except.pure]

/-- **The same files, in a folder and in an archive.** Let a folder and an archive hold the same files,
and let an expression start below them at a root that is none of the files, has no `..` and only
segments that a folder could have. Then the expression comes to the same with the folder as the search
path and with the archive, exactly unless the path of the root below the folder is too long or folders
lie too deep below the root. In these two cases the folder ends with a fault. -/
theorem sameSelection_of_folder_and_archive_iff (w : World) (workers : Int) (text : String) (e : Expression)
    (files : List (List String)) (folder root zip : Path) (archive : Archive)
    (hfiles : AreFiles files) (hfolder : w.HoldsFolder folder root files)
    (hopen : w.openArchive zip = .ok archive) (harchive : archive.Holds files)
    (hparse : Expression.parse text = some e) (horigin : e.origin = some Source.classpathOrigin)
    (hup : ".." ∉ e.root) (hlong : ∀ s ∈ e.root, s.utf8ByteSize ≤ FileTree.maxNameBytes)
    (hroot : e.root ∉ files) :
    (SameSelection files root (expand w (onlyOn w folder workers) [text]).outcome
        (expand w (onlyOn w zip workers) [text]).outcome ↔
      ¬ (folder.below e.root).TooLong ∧ ¬ TooDeep files e.root) ∧
    ((folder.below e.root).TooLong →
      (expand w (onlyOn w folder workers) [text]).outcome = .error (.fault .nameTooLong)) ∧
    (¬ (folder.below e.root).TooLong → TooDeep files e.root →
      (expand w (onlyOn w folder workers) [text]).outcome = .error (.fault .nestedTooDeep)) := by
  have hne := Expression.ne_empty_of_parse hparse
  obtain ⟨hnone, hlists⟩ := listing_archive workers hopen harchive hfiles hparse horigin hroot
  obtain ⟨htoolong, hmissing, hdeep, hfound⟩ :=
    listing_folder workers hfolder hfiles hparse horigin hup hlong hroot
  rw [outcome_expand_singleton w _ hne, outcome_expand_singleton w _ hne]
  refine ⟨⟨fun hsame => ?_, fun h => ?_⟩, fun hl => ?_, fun hl hd => ?_⟩
  · have hfits : ¬ (folder.below e.root).TooLong := by
      intro hl
      rw [htoolong hl, map_error] at hsame
      exact not_sameSelection_fault hsame
    refine ⟨hfits, fun hd => ?_⟩
    rw [hdeep hfits hd, map_error] at hsame
    exact not_sameSelection_fault hsame
  · obtain ⟨hfits, hnotdeep⟩ := h
    by_cases hthere : IsFolderOf files e.root
    · obtain ⟨ls, hls, hmemls⟩ := hfound hfits hnotdeep hthere
      obtain ⟨ms, hms, hmemms⟩ := hlists hthere
      rw [hls, hms, map_ok, map_ok]
      cases hex : isExclusion text with
      | true => exact sameSelection_ok hfiles (fun _ => False.elim) (by simp) (by simp)
      | false =>
          refine sameSelection_ok hfiles (fun file (hfile : e.Selects files file) => hfile.1) ?_ ?_
          · simpa using hmemls
          · simpa using hmemms
    · rw [hmissing hfits hthere, hnone hthere, map_error]
      exact ⟨Iff.rfl, fun h => absurd isNotFound_rootNotFound h⟩
  · rw [htoolong hl, map_error]
  · rw [hdeep hl hd, map_error]

/-! ### A small file, packed both ways -/

/-- An archive with the one member `a/x.js`, which is empty. -/
def smallZip : ByteArray := ⟨#[
  80, 75, 3, 4, 20, 0, 0, 0, 0, 0, 0, 0, 33, 0, 0, 0, 0, 0, 0, 0, 0, 0, 0, 0, 0, 0, 6, 0, 0, 0,
  97, 47, 120, 46, 106, 115,
  80, 75, 1, 2, 20, 0, 20, 0, 0, 0, 0, 0, 0, 0, 33, 0, 0, 0, 0, 0, 0, 0, 0, 0, 0, 0, 0, 0, 6, 0,
  0, 0, 0, 0, 0, 0, 0, 0, 0, 0, 128, 1, 0, 0, 0, 0, 97, 47, 120, 46, 106, 115,
  80, 75, 5, 6, 0, 0, 0, 0, 1, 0, 1, 0, 52, 0, 0, 0, 36, 0, 0, 0, 0, 0]⟩

/-- A world with the file `a/x.js` in the folder `d` and in the archive `z.zip`. -/
def packedTwice : World where
  tree := ⟨[(["d"], .folder), (["d", "a"], .folder), (["d", "a", "x.js"], .file ByteArray.empty),
    (["z.zip"], .file smallZip)], []⟩
  cwd := []
  defaultPath := []
  web := []

theorem isFolderOf_small_iff {dir : List String} :
    IsFolderOf [["a", "x.js"]] dir ↔ dir = [] ∨ dir = ["a"] := by
  unfold IsFolderOf
  match dir with
  | [] => simp
  | [first] => simp [eq_comm]
  | first :: second :: dir => simp

theorem child?_packedTwice (dir : List String) (name : String) :
    packedTwice.tree.child? ("d" :: dir) name =
      if dir = [] ∧ name = "a" then some .folder
      else if dir = ["a"] ∧ name = "x.js" then some (.file ByteArray.empty) else none := by
  by_cases ha : dir = [] ∧ name = "a"
  · obtain ⟨rfl, rfl⟩ := ha
    rfl
  by_cases hx : dir = ["a"] ∧ name = "x.js"
  · obtain ⟨rfl, rfl⟩ := hx
    rfl
  rw [if_neg ha, if_neg hx]
  cases hchild : packedTwice.tree.child? ("d" :: dir) name with
  | none => rfl
  | some node =>
      obtain ⟨-, other, hmem⟩ := FileTree.exists_child?_iff.mp ⟨node, hchild⟩
      simp [packedTwice, List.append_eq_cons_iff] at hmem
      rcases hmem with ⟨hfolder, -⟩ | ⟨⟨more, rfl, hend⟩, -⟩
      · exact absurd hfolder ha
      · have hnil : [] ++ ["x.js"] = more ++ [name] := hend
        obtain ⟨rfl, rfl⟩ := List.append_singleton_inj.mp hnil
        exact absurd ⟨rfl, rfl⟩ hx

theorem packedTwice_holdsAt : packedTwice.tree.HoldsAt ["d"] [["a", "x.js"]] := by
  constructor
  · rfl
  · intro dir hdir name
    simp only [List.cons_append, List.nil_append, child?_packedTwice]
    rcases isFolderOf_small_iff.mp hdir with rfl | rfl
    · by_cases ha : name = "a" <;> simp [ha]
    · by_cases ha : name = "x.js" <;> simp [ha]
  · intro dir hdir name
    simp only [List.cons_append, List.nil_append, child?_packedTwice, isFolderOf_small_iff]
    rcases isFolderOf_small_iff.mp hdir with rfl | rfl
    · by_cases ha : name = "a" <;> simp [ha]
    · by_cases ha : name = "x.js" <;> simp [ha]
  · intro dir hdir name node hchild
    rw [List.cons_append, List.nil_append, child?_packedTwice] at hchild
    split at hchild
    · exact Or.inl (Option.some.inj hchild).symm
    · split at hchild
      · exact Or.inr ⟨_, (Option.some.inj hchild).symm⟩
      · cases hchild

/-- A path of one name is found where the name is. -/
theorem FileTree.find_of_child {t : FileTree} {cwd : Location} {p : Path} {name : String} {node : Node}
    (hstart : start cwd p = []) (hparts : p.parts = [name]) (hnul : p.hasNul = false)
    (hbytes : p.byteLength < maxPathBytes) (hlong : name.utf8ByteSize ≤ maxNameBytes)
    (hchild : t.child? [] name = some node) (hlink : ∀ target, node ≠ .link target) :
    t.find cwd p = .ok ⟨[name], maxLinks⟩ := by
  refine find_eq_ok_iff.mpr ⟨hnul, hbytes, by simp [hparts], ?_⟩
  rw [hstart, hparts, descend_of_child_eq_some _ _ rfl hlong hchild hlink, descend]
  rfl

theorem find_packedTwice {p : Path} {name : String} {node : Node} (hparts : p.parts = [name])
    (hnul : p.hasNul = false) (hbytes : p.byteLength < FileTree.maxPathBytes)
    (hlong : name.utf8ByteSize ≤ FileTree.maxNameBytes)
    (hchild : packedTwice.tree.child? [] name = some node)
    (hlink : ∀ target, node ≠ .link target) :
    packedTwice.tree.find packedTwice.cwd p = .ok ⟨[name], FileTree.maxLinks⟩ := by
  have hstart : FileTree.start packedTwice.cwd p = [] := by
    unfold FileTree.start
    split <;> rfl
  exact FileTree.find_of_child hstart hparts hnul hbytes hlong hchild hlink

theorem packedTwice_holdsFolder :
    packedTwice.HoldsFolder ⟨.relative, ["d"]⟩ ⟨.root, ["d"]⟩ [["a", "x.js"]] := by
  have hchild : packedTwice.tree.child? [] "d" = some .folder := rfl
  refine ⟨rfl, ⟨⟨["d"], 40⟩, ⟨["d"], 40⟩, ?_, ?_, rfl, packedTwice_holdsAt⟩, fun dir hdir => ?_⟩
  · exact find_packedTwice rfl (by decide) (by decide) (by decide) hchild (by simp)
  · exact find_packedTwice rfl (by decide) (by decide) (by decide) hchild (by simp)
  · rcases isFolderOf_small_iff.mp hdir with rfl | rfl <;>
      exact FileTree.isListable_of_allOpen rfl (by decide) rfl

/-- The names of the members of an archive, if it opens. -/
def memberNames (bytes : ByteArray) : Option (List String) :=
  match Archive.ofBytes bytes with
  | .ok archive => some (archive.members.map (·.name))
  | .error _ => none

theorem packedTwice_openArchive : ∃ archive,
    packedTwice.openArchive ⟨.relative, ["z.zip"]⟩ = .ok archive ∧ archive.Holds [["a", "x.js"]] := by
  have hchild : packedTwice.tree.child? [] "z.zip" = some (.file smallZip) := rfl
  have hfind := find_packedTwice (p := ⟨.relative, ["z.zip"]⟩) rfl (by decide) (by decide)
    (by decide) hchild (by simp)
  have hcontents : packedTwice.contents ⟨.relative, ["z.zip"]⟩ = .ok (some smallZip) := by
    unfold World.contents FileTree.contents FileTree.lookUp
    rw [hfind]
    rfl
  have hnames : memberNames smallZip = some ["a/x.js"] := by decide +kernel
  unfold memberNames at hnames
  cases hopen : Archive.ofBytes smallZip with
  | error defect =>
      rw [hopen] at hnames
      cases hnames
  | ok archive =>
      rw [hopen] at hnames
      refine ⟨archive, ?_, ?_⟩
      · unfold World.openArchive
        rw [hcontents, ok_bind]
        dsimp only
        rw [hopen]
        rfl
      · obtain ⟨m, hmembers, hname⟩ := List.map_eq_singleton_iff.mp (Option.some.inj hnames)
        have hfolder : m.isFolder = false := by
          rw [Member.isFolder, hname]
          decide
        have hjoin : joinSlash ["a", "x.js"] = "a/x.js" := rfl
        constructor
        · simp [hmembers, hfolder, hname, hjoin]
        · simp [hmembers, hfolder]

/-- The file is listed as well from the folder as from the archive. -/
theorem sameSelection_packedTwice :
    SameSelection [["a", "x.js"]] ⟨.root, ["d"]⟩
      (expand packedTwice (onlyOn packedTwice ⟨.relative, ["d"]⟩ 4) ["classpath:a/*.js"]).outcome
      (expand packedTwice (onlyOn packedTwice ⟨.relative, ["z.zip"]⟩ 4)
        ["classpath:a/*.js"]).outcome := by
  obtain ⟨archive, hopen, harchive⟩ := packedTwice_openArchive
  have hfiles : AreFiles [["a", "x.js"]] := ⟨by decide, by unfold AreNames; decide⟩
  have hdeep : ¬ TooDeep [["a", "x.js"]] ["a"] := by
    intro h
    obtain ⟨below, hbelow, hlength⟩ := h
    have hnil : below = [] := by simpa using isFolderOf_small_iff.mp hbelow
    rw [hnil] at hlength
    exact absurd hlength (by decide)
  exact (sameSelection_of_folder_and_archive_iff packedTwice 4 "classpath:a/*.js"
    ⟨"classpath:a/*.js", false, some "classpath", ["a"], ["*.js"], false⟩ _ _ _ _ archive hfiles
    packedTwice_holdsFolder hopen harchive rfl rfl (by decide) (by decide) (by decide)).1.mpr
    ⟨fun hlong => absurd hlong.2 (by decide), hdeep⟩

end AntResources
