import AntResources.Archive.Basic
import AntResources.Pattern.Regex
import AntResources.Proofs.FolderWalk

/-!
# AntResources.Proofs.HeldFiles

**A folder that holds some files and nothing else.** `FileTree.HoldsAt` says so of a folder, with the
folders that lie on the way to the files, and `Archive.Holds` of an archive. In such a folder a path
leads to something exactly if the files say so (`HoldsAt.descend`), and a walk finds the files
(`HoldsAt.mem_walk_iff`) unless they lie too deep (`HoldsAt.walk_eq_tooDeep`).
-/

namespace AntResources

/-! ### Files and their folders -/

/-- Names that there can be in a folder. -/
def AreNames (names : List String) : Prop :=
  ∀ name ∈ names, FileTree.isName name = true ∧ name.utf8ByteSize ≤ FileTree.maxNameBytes

/-- Segments that a path may have without leaving the folder that it starts from. -/
def CanFollow (segments : List String) : Prop :=
  ∀ s ∈ segments, s ≠ "." ∧ s ≠ ".." ∧ s.utf8ByteSize ≤ FileTree.maxNameBytes

/-- Files, each as the names on the way down to it. -/
structure AreFiles (files : List (List String)) : Prop where
  ne_nil : ∀ file ∈ files, file ≠ []
  names : ∀ file ∈ files, AreNames file

/-- A folder on the way to some of the files, or the one that all of them are in. -/
def IsFolderOf (files : List (List String)) (dir : List String) : Prop :=
  dir = [] ∨ ∃ name below, dir ++ name :: below ∈ files

namespace AreNames

variable {names : List String}

theorem proper (h : AreNames names) : Text.Proper names := by
  intro name hname
  obtain ⟨hempty, hdot, -, hslash, -⟩ := FileTree.isName_iff.mp (h name hname).1
  exact ⟨hempty, hdot, hslash⟩

theorem canFollow (h : AreNames names) : CanFollow names := by
  intro name hname
  obtain ⟨hisName, hlong⟩ := h name hname
  obtain ⟨-, hdot, hup, -⟩ := FileTree.isName_iff.mp hisName
  exact ⟨hdot, hup, hlong⟩

theorem noNul (h : AreNames names) : ∀ name ∈ names, '\x00' ∉ name.toList := by
  intro name hname
  obtain ⟨-, -, -, -, hnul⟩ := FileTree.isName_iff.mp (h name hname).1
  exact hnul

end AreNames

section Folders

variable {files : List (List String)} {dir below : List String} {name : String}

theorem isFolderOf_nil : IsFolderOf files [] := Or.inl rfl

theorem isFolderOf_of_mem (h : dir ++ name :: below ∈ files) : IsFolderOf files dir :=
  Or.inr ⟨name, below, h⟩

/-- What a folder is in is a folder. -/
theorem IsFolderOf.above (h : IsFolderOf files (dir ++ below)) : IsFolderOf files dir := by
  cases below with
  | nil => rwa [List.append_nil] at h
  | cons first below =>
      cases h with
      | inl hnil => simp at hnil
      | inr hmem =>
          obtain ⟨name, rest, hmem⟩ := hmem
          rw [List.append_assoc, List.cons_append] at hmem
          exact isFolderOf_of_mem hmem

theorem AreFiles.proper (h : AreFiles files) {file : List String} (hfile : file ∈ files) :
    Text.Proper file :=
  (h.names file hfile).proper

theorem AreFiles.names_of_folder (h : AreFiles files) (hdir : IsFolderOf files dir) :
    AreNames dir := by
  intro name hname
  cases hdir with
  | inl hnil =>
      subst hnil
      cases hname
  | inr hmem =>
      obtain ⟨first, below, hmem⟩ := hmem
      exact h.names _ hmem name (List.mem_append_left _ hname)

end Folders

/-! ### Selected files -/

/-- An expression selects the files below its root whose path from there matches its glob. -/
def Expression.Selects (e : Expression) (files : List (List String)) (file : List String) : Prop :=
  file ∈ files ∧
    ∃ below, file = e.root ++ below ∧ Pattern.matchesPath e.globText (Text.joinSlash below) = true

/-! ### Archives -/

/-- An archive that holds some files: these are its members, in any order, besides members for some of
their folders. -/
structure Archive.Holds (archive : Archive) (files : List (List String)) : Prop where
  file_iff : ∀ name, (∃ m ∈ archive.members, m.isFolder = false ∧ m.name = name) ↔
    ∃ file ∈ files, Text.joinSlash file = name
  folder : ∀ m ∈ archive.members, m.isFolder = true →
    ∃ dir, dir ≠ [] ∧ IsFolderOf files dir ∧ m.name = Text.joinSlash dir ++ "/"

/-! ### Folders -/

namespace FileTree

/-- A folder that holds some files: they and the folders on the way to them are all that is in it. -/
structure HoldsAt (t : FileTree) (l : Location) (files : List (List String)) : Prop where
  isFolder : t.isOpenAt l = true
  file_iff : ∀ dir, IsFolderOf files dir → ∀ name,
    (∃ content, t.child? (l ++ dir) name = some (.file content)) ↔ dir ++ [name] ∈ files
  folder_iff : ∀ dir, IsFolderOf files dir → ∀ name,
    t.child? (l ++ dir) name = some .folder ↔ IsFolderOf files (dir ++ [name])
  kinds : ∀ dir, IsFolderOf files dir → ∀ name node, t.child? (l ++ dir) name = some node →
    node = .folder ∨ ∃ content, node = .file content

theorem isOpenAt_of_child_file {t : FileTree} {l : Location} {name : String} {content : ByteArray}
    (h : t.child? l name = some (.file content)) : t.isOpenAt (l ++ [name]) = false := by
  rw [child?, if_pos (isName_of_child? h)] at h
  rw [isOpenAt, h]

namespace HoldsAt

variable {t : FileTree} {l : Location} {files : List (List String)} {dir : List String}

theorem isOpenAt (h : t.HoldsAt l files) (hdir : IsFolderOf files dir) :
    t.isOpenAt (l ++ dir) = true := by
  rcases List.eq_nil_or_concat dir with rfl | ⟨above, name, rfl⟩
  · rw [List.append_nil]
    exact h.isFolder
  · rw [List.concat_eq_append] at hdir ⊢
    rw [← List.append_assoc]
    exact isOpenAt_of_child ((h.folder_iff above hdir.above name).mpr hdir)

/-- What is in a folder under a name, by what the files say. -/
theorem child_cases (h : t.HoldsAt l files) (hdir : IsFolderOf files dir) (name : String) :
    (t.child? (l ++ dir) name = some .folder ∧ IsFolderOf files (dir ++ [name])) ∨
    (∃ content, t.child? (l ++ dir) name = some (.file content)) ∧ dir ++ [name] ∈ files ∧
      ¬ IsFolderOf files (dir ++ [name]) ∨
    t.child? (l ++ dir) name = none ∧ dir ++ [name] ∉ files ∧
      ¬ IsFolderOf files (dir ++ [name]) := by
  have hfile := h.file_iff dir hdir name
  have hfolder := h.folder_iff dir hdir name
  cases hchild : t.child? (l ++ dir) name with
  | none =>
      rw [hchild] at hfile hfolder
      refine Or.inr (Or.inr ⟨rfl, fun hmem => ?_, fun hsub => ?_⟩)
      · obtain ⟨content, hcontent⟩ := hfile.mpr hmem
        cases hcontent
      · cases hfolder.mpr hsub
  | some node =>
      rw [hchild] at hfile hfolder
      cases h.kinds dir hdir name node hchild with
      | inl heq =>
          subst heq
          exact Or.inl ⟨rfl, hfolder.mp rfl⟩
      | inr heq =>
          obtain ⟨content, rfl⟩ := heq
          refine Or.inr (Or.inl ⟨⟨content, rfl⟩, hfile.mp ⟨content, rfl⟩, fun hsub => ?_⟩)
          cases hfolder.mpr hsub

/-- **Where a path leads in such a folder.** It goes to a file or a folder of a file, or else ends at
something that is not there, and not for its length. -/
theorem descend (h : t.HoldsAt l files) (links : Nat) {rest : List String}
    (hproper : Text.Proper rest) (hrest : CanFollow rest) (hdir : IsFolderOf files dir) :
    (IsFolderOf files (dir ++ rest) ∨ dir ++ rest ∈ files) ∧
      t.descend links (l ++ dir) rest = .ok ⟨l ++ (dir ++ rest), links⟩ ∨
    ¬ IsFolderOf files (dir ++ rest) ∧ dir ++ rest ∉ files ∧
      ∃ obstacle, obstacle.refusal? = none ∧ t.descend links (l ++ dir) rest = .error obstacle := by
  induction rest generalizing dir with
  | nil =>
      rw [List.append_nil]
      exact Or.inl ⟨Or.inl hdir, by rw [FileTree.descend]⟩
  | cons name rest ih =>
      obtain ⟨⟨hdot, hup, hlong⟩, hrest⟩ := List.forall_mem_cons.mp hrest
      obtain ⟨⟨hname, -⟩, hproper⟩ := List.forall_mem_cons.mp hproper
      have hsplit : dir ++ name :: rest = dir ++ [name] ++ rest := by simp
      -- Nothing lies below a place that is no folder.
      have hnone : ¬ IsFolderOf files (dir ++ [name]) → rest ≠ [] →
          ¬ IsFolderOf files (dir ++ name :: rest) ∧ dir ++ name :: rest ∉ files := by
        intro hnot hne
        obtain ⟨first, later, rfl⟩ := List.exists_cons_of_ne_nil hne
        rw [hsplit]
        exact ⟨fun hfolder => hnot hfolder.above, fun hmem => hnot (isFolderOf_of_mem hmem)⟩
      rcases h.child_cases hdir name with ⟨hchild, hsub⟩ | ⟨⟨content, hchild⟩, hmem, hnot⟩ |
        ⟨hchild, hmem, hnot⟩
      · rw [descend_of_child_eq_some links rest (h.isOpenAt hdir) hlong hchild (by simp), hsplit,
          List.append_assoc l dir [name]]
        exact ih hproper hrest hsub
      · rw [descend_of_child_eq_some links rest (h.isOpenAt hdir) hlong hchild (by simp)]
        by_cases hne : rest = []
        · subst hne
          rw [FileTree.descend, List.append_assoc]
          exact Or.inl ⟨Or.inr hmem, rfl⟩
        · obtain ⟨first, later, rfl⟩ := List.exists_cons_of_ne_nil hne
          obtain ⟨hnofolder, hnofile⟩ := hnone hnot hne
          have hbarrier : t.barrier (l ++ dir ++ [name]) = .notFolder := by
            rw [barrier, isFolderAt_of_child hchild]
            rfl
          refine Or.inr ⟨hnofolder, hnofile, .notFolder, rfl, ?_⟩
          rw [descend_of_not_open (hproper first (by simp)).1 (isOpenAt_of_child_file hchild), hbarrier]
      · rw [descend_of_child_eq_none links rest (h.isOpenAt hdir) hname hdot hup hlong hchild]
        refine Or.inr ?_
        by_cases hne : rest = []
        · subst hne
          exact ⟨hnot, hmem, .absent, rfl, rfl⟩
        · obtain ⟨hnofolder, hnofile⟩ := hnone hnot hne
          exact ⟨hnofolder, hnofile, .absent, rfl, rfl⟩

/-- The same from the folder itself. -/
theorem descend_here (h : t.HoldsAt l files) (links : Nat) {names : List String}
    (hproper : Text.Proper names) (hnames : CanFollow names) :
    (IsFolderOf files names ∨ names ∈ files) ∧ t.descend links l names = .ok ⟨l ++ names, links⟩ ∨
    ¬ IsFolderOf files names ∧ names ∉ files ∧
      ∃ obstacle, obstacle.refusal? = none ∧ t.descend links l names = .error obstacle := by
  have hdescend := h.descend links hproper hnames isFolderOf_nil
  rwa [List.append_nil, List.nil_append] at hdescend

/-! ### Walking -/

theorem below?_eq_some_iff (h : t.HoldsAt l files) (hfiles : AreFiles files)
    (hdir : IsFolderOf files dir) {path : Path} {links : Nat} {name : String} {sub : Spot} :
    t.below? path ⟨l ++ dir, links⟩ name = some sub ↔
      IsFolderOf files (dir ++ [name]) ∧ sub = ⟨l ++ (dir ++ [name]), links⟩ := by
  rcases h.child_cases hdir name with ⟨hchild, hsub⟩ | ⟨⟨content, hchild⟩, hmem, hnot⟩ |
    ⟨hchild, hmem, hnot⟩
  · have hlong := (hfiles.names_of_folder hsub name (by simp)).2
    simp [below?, isLinkIn, hchild, Node.isFolder, hlong, hsub, eq_comm]
  · simp [below?, isLinkIn, hchild, Node.isFolder, hnot]
  · constructor
    · intro hbelow
      obtain ⟨node, hnode⟩ := mem_names_iff.mp (mem_names_of_below? hbelow)
      rw [hchild] at hnode
      cases hnode
    · intro hsub
      exact absurd hsub.1 hnot

theorem mem_files_iff (h : t.HoldsAt l files) (hfiles : AreFiles files)
    (hdir : IsFolderOf files dir) {path : Path} {links : Nat} {name : String} :
    name ∈ t.files path ⟨l ++ dir, links⟩ ↔ dir ++ [name] ∈ files := by
  have hnone : t.below? path ⟨l ++ dir, links⟩ name = none ↔ ¬ IsFolderOf files (dir ++ [name]) := by
    rw [Option.eq_none_iff_forall_ne_some]
    simp [h.below?_eq_some_iff hfiles hdir]
  rw [FileTree.mem_files_iff, hnone, mem_names_iff]
  rcases h.child_cases hdir name with ⟨hchild, hsub⟩ | ⟨⟨content, hchild⟩, hmem, hnot⟩ |
    ⟨hchild, hmem, hnot⟩
  · have hmem : dir ++ [name] ∉ files := by
      rw [← h.file_iff dir hdir name, hchild]
      simp
    simp [hsub, hmem]
  · simp [hchild, hmem, hnot]
  · simp [hchild, hmem]

theorem folderBelow?_eq_some_iff (h : t.HoldsAt l files) (hfiles : AreFiles files)
    (hdir : IsFolderOf files dir) {path : Path} {links : Nat} {below : List String} {sub : Spot} :
    t.folderBelow? path ⟨l ++ dir, links⟩ below = some sub ↔
      IsFolderOf files (dir ++ below) ∧ sub = ⟨l ++ (dir ++ below), links⟩ := by
  induction below generalizing dir path with
  | nil => simp [hdir, eq_comm]
  | cons name below ih =>
      have hsplit : dir ++ name :: below = dir ++ [name] ++ below := by simp
      rw [folderBelow?_cons_eq_some_iff, hsplit]
      constructor
      · intro hbelow
        obtain ⟨next, hnext, hbelow⟩ := hbelow
        obtain ⟨hsub, rfl⟩ := (h.below?_eq_some_iff hfiles hdir).mp hnext
        exact (ih hsub).mp hbelow
      · intro hfolder
        have hsub : IsFolderOf files (dir ++ [name]) := hfolder.1.above
        exact ⟨_, (h.below?_eq_some_iff hfiles hdir).mpr ⟨hsub, rfl⟩, (ih hsub).mpr hfolder⟩

section Walk

variable {room links : Nat} {path : Path}

/-- A walk finds the files below its folder. -/
theorem mem_walk_iff (h : t.HoldsAt l files) (hfiles : AreFiles files) (hdir : IsFolderOf files dir)
    {found : List (List String)} (hwalk : t.walk room path ⟨l ++ dir, links⟩ = .ok found)
    {below : List String} : below ∈ found ↔ below ≠ [] ∧ dir ++ below ∈ files := by
  rw [FileTree.mem_walk_iff hwalk]
  constructor
  · intro hbelow
    obtain ⟨sub, name, spot, rfl, hsub, hname⟩ := hbelow
    obtain ⟨hfolder, rfl⟩ := (h.folderBelow?_eq_some_iff hfiles hdir).mp hsub
    refine ⟨by simp, ?_⟩
    rw [← List.append_assoc]
    exact (h.mem_files_iff hfiles hfolder).mp hname
  · intro hbelow
    obtain ⟨hne, hmem⟩ := hbelow
    obtain ⟨sub, name, rfl⟩ := (List.eq_nil_or_concat below).resolve_left hne
    rw [List.concat_eq_append, ← List.append_assoc] at hmem
    have hfolder : IsFolderOf files (dir ++ sub) := isFolderOf_of_mem hmem
    exact ⟨sub, name, _, by rw [List.concat_eq_append],
      (h.folderBelow?_eq_some_iff hfiles hdir).mpr ⟨hfolder, rfl⟩,
      (h.mem_files_iff hfiles hfolder).mpr hmem⟩

/-- A walk through listable folders ends well exactly if none of them lies too deep. -/
theorem exists_walk_eq_ok_iff (h : t.HoldsAt l files) (hfiles : AreFiles files)
    (hdir : IsFolderOf files dir)
    (hlistable : ∀ below, IsFolderOf files (dir ++ below) → t.isListable (path.below below) = true) :
    (∃ found, t.walk room path ⟨l ++ dir, links⟩ = .ok found) ↔
      ∀ below, IsFolderOf files (dir ++ below) → below.length < room := by
  rw [FileTree.exists_walk_eq_ok_iff]
  constructor
  · intro hall below hbelow
    exact (hall below _ ((h.folderBelow?_eq_some_iff hfiles hdir).mpr ⟨hbelow, rfl⟩)).1
  · intro hall below sub hsub
    have hbelow := ((h.folderBelow?_eq_some_iff hfiles hdir).mp hsub).1
    exact ⟨hall below hbelow, hlistable below hbelow⟩

/-- If it does not, that is because one lies too deep. -/
theorem walk_eq_tooDeep (h : t.HoldsAt l files) (hfiles : AreFiles files)
    (hdir : IsFolderOf files dir)
    (hlistable : ∀ below, IsFolderOf files (dir ++ below) → t.isListable (path.below below) = true)
    (hdeep : ¬ ∀ below, IsFolderOf files (dir ++ below) → below.length < room) :
    t.walk room path ⟨l ++ dir, links⟩ = .error .tooDeep := by
  cases hwalk : t.walk room path ⟨l ++ dir, links⟩ with
  | ok found => exact absurd ((h.exists_walk_eq_ok_iff hfiles hdir hlistable).mp ⟨found, hwalk⟩) hdeep
  | error failure =>
      cases failure with
      | tooDeep => rfl
      | unlistable folder =>
          obtain ⟨below, sub, hsub, rfl, hnot⟩ := exists_of_walk_eq_unlistable hwalk
          have hbelow := ((h.folderBelow?_eq_some_iff hfiles hdir).mp hsub).1
          rw [hlistable below hbelow] at hnot
          cases hnot

end Walk

end HoldsAt

end FileTree

end AntResources
