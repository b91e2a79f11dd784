import AntResources.Proofs.HeldFiles
import AntResources.Proofs.ListingOutcomes

/-!
# AntResources.Proofs.FolderListing

**What a folder that holds some files provides and lists.** A root below the folder is a path, and a
path can be too long; if it is not, it leads to a folder exactly if the files have one there
(`FileTree.HoldsAt.lookUp_below`). A listing goes down from that folder and finds the files below it,
unless they lie too deep (`World.HoldsFolder.outcome_listTree`).
-/

namespace AntResources

open Text

/-- A path that the system does not take for its length. -/
def Path.TooLong (p : Path) : Prop := p.hasNul = false ∧ FileTree.maxPathBytes ≤ p.byteLength

/-- Some folder of the files lies too deep below another for a walk from there. -/
def TooDeep (files : List (List String)) (dir : List String) : Prop :=
  ∃ below, IsFolderOf files (dir ++ below) ∧ maxNesting ≤ below.length

/-- A path that leads to a folder with some files in it and nothing else. `root` is its absolute path,
which leads to the same folder, and all folders may be listed under it. -/
structure World.HoldsFolder (w : World) (folder root : Path) (files : List (List String)) : Prop where
  absolute : FileTree.absolute w.cwd folder = .ok root
  held : ∃ spot same, w.tree.find w.cwd folder = .ok spot ∧ w.tree.find w.cwd root = .ok same ∧
    same.location = spot.location ∧ w.tree.HoldsAt spot.location files
  listable : ∀ dir, IsFolderOf files dir → w.tree.isListable (root.below dir) = true

/-- A folder of some files has no NUL in its path. -/
theorem AreFiles.hasNul_below {files : List (List String)} (hfiles : AreFiles files) {p : Path}
    (hp : p.hasNul = false) {names : List String} (hnames : IsFolderOf files names) :
    (p.below names).hasNul = false :=
  FileTree.hasNul_below hp (hfiles.names_of_folder hnames).noNul

theorem FileTree.test_of_error {t : FileTree} {cwd : Location} {p : Path} {obstacle : Obstacle}
    (hobstacle : obstacle.refusal? = none) (h : t.lookUp cwd p = .error obstacle)
    (kind : Node → Bool) : t.test cwd p kind = .ok false := by
  rw [test, h]
  dsimp only
  rw [hobstacle]

theorem FileTree.absolute_below {cwd : Location} {p root : Path} {names : List String}
    (h : FileTree.absolute cwd p = .ok root)
    (hnames : ∀ s ∈ names, s ≠ "" ∧ s ≠ "." ∧ s ≠ "..") :
    FileTree.absolute cwd (p.below names) = .ok (root.below names) := by
  have hanchor : (p.below names).anchor = p.anchor := rfl
  unfold absolute at h ⊢
  rw [Path.absolute_below hnames, hanchor]
  split at h
  case isTrue => cases h
  case isFalse hthere => rw [if_neg hthere, Except.ok.inj h]

/-! ### Paths below the folder -/

namespace FileTree.HoldsAt

variable {t : FileTree} {cwd : Location} {folder : Path} {spot : Spot} {files : List (List String)}
  {names : List String}

theorem exists_node?_of_mem (h : t.HoldsAt spot.location files) (hfiles : AreFiles files)
    (hmem : names ∈ files) : ∃ content, t.node? (spot.location ++ names) = some (.file content) := by
  obtain ⟨dir, name, rfl⟩ := (List.eq_nil_or_concat names).resolve_left (hfiles.ne_nil names hmem)
  rw [List.concat_eq_append] at hmem ⊢
  obtain ⟨content, hchild⟩ := (h.file_iff dir (isFolderOf_of_mem hmem) name).mpr hmem
  rw [child?, if_pos (isName_of_child? hchild), List.append_assoc] at hchild
  exact ⟨content, hchild⟩

/-- Where a path to a folder or a file leads, if it is not too long. -/
theorem find_below (h : t.HoldsAt spot.location files) (hspot : t.find cwd folder = .ok spot)
    (hfiles : AreFiles files) (hfollow : CanFollow names) (hshort : ¬ (folder.below names).TooLong)
    (hthere : IsFolderOf files names ∨ names ∈ files) :
    t.find cwd (folder.below names) = .ok ⟨spot.location ++ names, spot.links⟩ := by
  have hnames : AreNames names := hthere.elim hfiles.names_of_folder (hfiles.names names)
  have hnul := FileTree.hasNul_below (FileTree.hasNul_of_find hspot) hnames.noNul
  have hbytes : ¬ FileTree.maxPathBytes ≤ (folder.below names).byteLength :=
    fun hbytes => hshort ⟨hnul, hbytes⟩
  rw [FileTree.find_below hspot, hnul, if_neg Bool.false_ne_true, if_neg hbytes]
  exact ((h.descend_here spot.links hnames.proper hfollow).resolve_right fun hnot => hthere.elim hnot.1 hnot.2.1).2

/-- **What a path below the folder leads to**: to nothing for its length, to a folder, to a file, or to
nothing because the files have nothing there. -/
theorem lookUp_below (h : t.HoldsAt spot.location files) (hspot : t.find cwd folder = .ok spot)
    (hfiles : AreFiles files) (hproper : Proper names) (hfollow : CanFollow names) :
    ((folder.below names).TooLong → t.lookUp cwd (folder.below names) = .error .tooLong) ∧
    (¬ (folder.below names).TooLong → IsFolderOf files names →
      t.lookUp cwd (folder.below names) = .ok .folder) ∧
    (¬ (folder.below names).TooLong → names ∈ files → ∃ content,
      t.node? (spot.location ++ names) = some (.file content) ∧
        t.lookUp cwd (folder.below names) = .ok (.file content)) ∧
    (¬ (folder.below names).TooLong → ¬ IsFolderOf files names → names ∉ files →
      ∃ obstacle, obstacle.refusal? = none ∧ t.lookUp cwd (folder.below names) = .error obstacle) := by
  have hfind := FileTree.find_below hspot names
  refine ⟨fun hlong => ?_, fun hshort hfolder => ?_, fun hshort hmem => ?_, fun hshort hnot hmem => ?_⟩
  · rw [hlong.1, if_neg Bool.false_ne_true, if_pos hlong.2] at hfind
    rw [FileTree.lookUp, hfind]
  · rw [FileTree.lookUp, h.find_below hspot hfiles hfollow hshort (.inl hfolder)]
    dsimp only
    rw [node?_of_isOpenAt (h.isOpenAt hfolder)]
  · obtain ⟨content, hnode⟩ := h.exists_node?_of_mem hfiles hmem
    refine ⟨content, hnode, ?_⟩
    rw [FileTree.lookUp, h.find_below hspot hfiles hfollow hshort (.inr hmem)]
    dsimp only
    rw [hnode]
  · obtain ⟨-, -, obstacle, hobstacle, herror⟩ :=
      (h.descend_here spot.links hproper hfollow).resolve_left fun hthere => hthere.1.elim hnot hmem
    cases hnul : (folder.below names).hasNul with
    | true =>
        rw [hnul, if_pos rfl] at hfind
        exact ⟨.nul, rfl, by rw [FileTree.lookUp, hfind]⟩
    | false =>
        have hbytes : ¬ FileTree.maxPathBytes ≤ (folder.below names).byteLength :=
          fun hbytes => hshort ⟨hnul, hbytes⟩
        rw [hnul, if_neg Bool.false_ne_true, if_neg hbytes, herror] at hfind
        exact ⟨obstacle, hobstacle, by rw [FileTree.lookUp, hfind]⟩

end FileTree.HoldsAt

/-! ### The lookup -/

section Lookup

variable {w : World} {folder : Path} {spot : FileTree.Spot} {files : List (List String)}
  {names : List String}

theorem World.isFolder_of_holdsAt (h : w.tree.HoldsAt spot.location files)
    (hspot : w.tree.find w.cwd folder = .ok spot) : w.isFolder folder = .ok true := by
  unfold World.isFolder FileTree.isFolder FileTree.test FileTree.lookUp
  rw [hspot]
  dsimp only
  rw [FileTree.node?_of_isOpenAt h.isFolder]
  rfl

/-- The path at which a folder on the search path would have a root. -/
def SearchPath.candidate (root : String) (entry : Path) : Path :=
  if root = "" then entry else entry.join (Path.ofString root)

theorem SearchPath.candidate_joinSlash {names : List String} (h : Proper names) (entry : Path) :
    candidate (joinSlash names) entry = entry.below names := by
  unfold candidate
  by_cases hne : names = []
  · subst hne
    rw [Path.below_nil]
    rfl
  · rw [if_neg (joinSlash_ne_empty hne h.isSegment), Path.ofString_joinSlash h]
    rfl

theorem SearchPath.locate_of_isFolder (h : w.isFolder folder = .ok true) (root : String) :
    locate w root folder =
      (fun present => if present then some (.tree (candidate root folder)) else none) <$>
        w.isPresent (candidate root folder) := by
  unfold locate candidate
  rw [h, ok_bind]
  simp only [if_true]
  cases w.isPresent (if root = "" then folder else folder.join (Path.ofString root)) with
  | error f => rfl
  | ok present => cases present <;> rfl

/-- **Where the folder provides a root.** -/
theorem SearchPath.locate_of_holdsAt (h : w.tree.HoldsAt spot.location files)
    (hspot : w.tree.find w.cwd folder = .ok spot) (hfiles : AreFiles files) (hproper : Proper names)
    (hfollow : CanFollow names) :
    ((folder.below names).TooLong →
      locate w (joinSlash names) folder = .error (.fault .nameTooLong)) ∧
    (¬ (folder.below names).TooLong → IsFolderOf files names ∨ names ∈ files →
      locate w (joinSlash names) folder = .ok (some (.tree (folder.below names)))) ∧
    (¬ (folder.below names).TooLong → ¬ IsFolderOf files names → names ∉ files →
      locate w (joinSlash names) folder = .ok none) := by
  rw [locate_of_isFolder (World.isFolder_of_holdsAt h hspot), candidate_joinSlash hproper,
    World.isPresent, FileTree.isPresent]
  obtain ⟨hlong, hfolder, hfile, hnone⟩ := h.lookUp_below hspot hfiles hproper hfollow
  refine ⟨fun hl => ?_, fun hl hthere => ?_, fun hl hnot hmem => ?_⟩
  · rw [FileTree.test, hlong hl]
    rfl
  · rcases hthere with hthere | hthere
    · rw [FileTree.test, hfolder hl hthere]
      rfl
    · obtain ⟨content, -, hfile⟩ := hfile hl hthere
      rw [FileTree.test, hfile]
      rfl
  · obtain ⟨obstacle, hobstacle, herror⟩ := hnone hl hnot hmem
    rw [FileTree.test_of_error hobstacle herror]
    rfl

end Lookup

namespace World.HoldsFolder

variable {w : World} {folder root : Path} {files : List (List String)} {names : List String}

/-! ### The listing -/

/-- The folder of a root is found under the absolute path as well. -/
theorem find_root (h : w.HoldsFolder folder root files) (hfiles : AreFiles files)
    (hfolder : IsFolderOf files names) :
    ∃ l links, w.tree.HoldsAt l files ∧
      w.tree.find w.cwd (root.below names) = .ok ⟨l ++ names, links⟩ := by
  obtain ⟨spot, same, -, hsame, hlocation, hheld⟩ := h.held
  refine ⟨spot.location, same.links, hheld, ?_⟩
  have hnul := hfiles.hasNul_below (FileTree.hasNul_of_find hsame) hfolder
  have hbytes := (FileTree.isListable_iff.mp (h.listable names hfolder)).1
  have hnames := hfiles.names_of_folder hfolder
  rw [FileTree.find_below hsame, hnul, if_neg Bool.false_ne_true, if_neg (by omega), hlocation]
  exact ((hheld.descend_here same.links hnames.proper hnames.canFollow).resolve_right
    fun hnot => hnot.1 hfolder).2

/-- **The walk from the folder of a root.** -/
theorem filesBelow_root (h : w.HoldsFolder folder root files) (hfiles : AreFiles files)
    (hfolder : IsFolderOf files names) :
    (TooDeep files names → Source.filesBelow w (root.below names) = .error (.fault .nestedTooDeep)) ∧
    (¬ TooDeep files names → ∃ found, Source.filesBelow w (root.below names) = .ok found ∧
      ∀ below, below ∈ found ↔ below ≠ [] ∧ names ++ below ∈ files) := by
  obtain ⟨l, links, hheld, hfind⟩ := h.find_root hfiles hfolder
  have hlistable : ∀ below, IsFolderOf files (names ++ below) →
      w.tree.isListable ((root.below names).below below) = true := by
    intro below hbelow
    rw [← Path.below_append]
    exact h.listable _ hbelow
  have hdeep : (¬ ∀ below, IsFolderOf files (names ++ below) → below.length < maxNesting) ↔
      TooDeep files names := by
    simp [TooDeep]
  unfold Source.filesBelow
  rw [hfind]
  simp only [FileTree.isFolderAt_of_isOpenAt (hheld.isOpenAt hfolder), if_true]
  constructor
  · intro htoo
    rw [hheld.walk_eq_tooDeep hfiles hfolder hlistable (hdeep.mpr htoo)]
    rfl
  · intro hnot
    obtain ⟨found, hwalk⟩ := (hheld.exists_walk_eq_ok_iff hfiles hfolder hlistable).mpr
      (Classical.not_not.mp fun hall => hnot (hdeep.mp hall))
    refine ⟨found, ?_, fun below => hheld.mem_walk_iff hfiles hfolder hwalk⟩
    rw [hwalk]
    rfl

/-- **What the folder lists** are the files below the root that match. -/
theorem outcome_listTree (h : w.HoldsFolder folder root files) (hfiles : AreFiles files)
    {e : Expression} (hproper : Proper e.root) (hfollow : CanFollow e.root) (hroot : e.root ∉ files)
    (hshort : ¬ (folder.below e.root).TooLong) (hfolder : IsFolderOf files e.root) :
    (TooDeep files e.root →
      (Source.listTree w e (folder.below e.root)).outcome = .error (.fault .nestedTooDeep)) ∧
    (¬ TooDeep files e.root → ∃ ls, (Source.listTree w e (folder.below e.root)).outcome = .ok ls ∧
      ∀ l, l ∈ ls ↔ ∃ file, e.Selects files file ∧ l = Source.fileLocator root file) := by
  have hisFolder : w.isFolder (folder.below e.root) = .ok true := by
    unfold World.isFolder FileTree.isFolder FileTree.test
    obtain ⟨spot, same, hspot, -, -, hheld⟩ := h.held
    rw [(hheld.lookUp_below hspot hfiles hproper hfollow).2.1 hshort hfolder]
    rfl
  have habsolute : FileTree.absolute w.cwd (folder.below e.root) = .ok (root.below e.root) :=
    FileTree.absolute_below h.absolute fun s hs =>
      ⟨(hproper s hs).1, (hproper s hs).2.1, (hfollow s hs).2.1⟩
  have houtcome : (Source.listTree w e (folder.below e.root)).outcome =
      Source.matchingFiles e (root.below e.root) <$> Source.filesBelow w (root.below e.root) := by
    rw [Source.outcome_listTree, hisFolder, ok_bind, if_pos rfl, habsolute]
    rfl
  obtain ⟨hdeep, hfound⟩ := h.filesBelow_root hfiles hfolder
  constructor
  · intro htoo
    rw [houtcome, hdeep htoo]
    rfl
  · intro hnot
    obtain ⟨found, hfiles, hmem⟩ := hfound hnot
    refine ⟨_, by rw [houtcome, hfiles]; rfl, fun l => ?_⟩
    unfold Source.matchingFiles
    rw [List.mem_map]
    constructor
    · intro hl
      obtain ⟨below, hbelow, rfl⟩ := hl
      obtain ⟨hin, hmatches⟩ := List.mem_filter.mp hbelow
      exact ⟨e.root ++ below, ⟨((hmem below).mp hin).2, below, rfl, hmatches⟩,
        by simp [Source.fileLocator, Path.below]⟩
    · intro hl
      obtain ⟨file, ⟨hin, below, rfl, hmatches⟩, rfl⟩ := hl
      have hne : below ≠ [] := fun hnil => hroot (by rwa [hnil, List.append_nil] at hin)
      exact ⟨below, List.mem_filter.mpr ⟨(hmem below).mpr ⟨hne, hin⟩, hmatches⟩,
        by simp [Source.fileLocator, Path.below]⟩

end World.HoldsFolder

end AntResources
