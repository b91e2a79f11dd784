import AntResources.Proofs.HeldFiles
import AntResources.Proofs.ListingOutcomes

/-!
# AntResources.Proofs.ArchiveListing

**What an archive that opens provides and lists.** An archive is found on a search path under the
roots that its names start with (`SearchPath.locate_of_openArchive`), and lists the members whose
names, less the root, match (`mem_membersMatching_iff`). For an archive that holds some files both are
said about the files: the roots are their folders (`Archive.Holds.provides_iff`), and the members
those that the expression selects (`Archive.Holds.mem_membersMatching_iff`).
-/

namespace AntResources

open Text

variable {w : World}

/-! ### Archives that open -/

theorem World.exists_of_openArchive {p : Path} {archive : Archive}
    (h : w.openArchive p = .ok archive) :
    ∃ bytes, w.contents p = .ok (some bytes) ∧ Archive.ofBytes bytes = .ok archive := by
  unfold openArchive at h
  obtain ⟨content, hcontent, hopen⟩ := bind_eq_ok_iff.mp h
  cases content with
  | none => cases hopen
  | some bytes =>
      refine ⟨bytes, hcontent, ?_⟩
      dsimp only at hopen
      cases hbytes : Archive.ofBytes bytes with
      | ok opened =>
          rw [hbytes] at hopen
          rw [Except.ok.inj hopen]
      | error defect =>
          rw [hbytes] at hopen
          cases hopen

theorem World.isFolder_of_contents {p : Path} {bytes : ByteArray}
    (h : w.contents p = .ok (some bytes)) : w.isFolder p = .ok false := by
  unfold contents FileTree.contents at h
  unfold isFolder FileTree.isFolder FileTree.test
  cases hnode : w.tree.lookUp w.cwd p with
  | error obstacle =>
      rw [hnode] at h
      cases obstacle <;> cases h
  | ok node =>
      rw [hnode] at h
      cases node with
      | folder | lockedFolder => cases h
      | _ => rfl

theorem World.isArchive_of_openArchive {p : Path} {archive : Archive}
    (h : w.openArchive p = .ok archive) : w.isArchive p = .ok true := by
  obtain ⟨bytes, hbytes, hopen⟩ := exists_of_openArchive h
  unfold isArchive
  rw [hbytes, ok_bind]
  unfold Archive.ofBytes at hopen
  cases hend : Archive.findEnd bytes with
  | found record =>
      dsimp only
      rw [hend]
      rfl
  | _ =>
      rw [hend] at hopen
      cases hopen

/-- Where an archive that opens provides a root. -/
theorem SearchPath.locate_of_openArchive {p : Path} {archive : Archive}
    (h : w.openArchive p = .ok archive) (root : String) :
    locate w root p =
      .ok (if root = "" ∨ provides archive root = true then some (.archive ⟨p, root⟩) else none) := by
  obtain ⟨bytes, hbytes, -⟩ := World.exists_of_openArchive h
  unfold locate
  rw [World.isFolder_of_contents hbytes, ok_bind]
  simp only [Bool.false_eq_true, if_false]
  rw [World.isArchive_of_openArchive h, ok_bind]
  by_cases hroot : root = ""
  · simp [hroot, pure, Except.pure]
  · by_cases hprovides : provides archive root = true
    · simp [hroot, h, hprovides, pure, Except.pure]
    · simp [hroot, h, hprovides, pure, Except.pure]

/-! ### Members below a root -/

theorem Source.below?_eq_some_iff {start name rest : String} :
    below? start name = some rest ↔ name = start ++ rest := by
  rw [below?, Option.ite_none_right_eq_some, isPrefixOf_toList_iff, Option.some.injEq]
  constructor
  · intro h
    obtain ⟨⟨later, rfl⟩, rfl⟩ := h
    rw [String.toList_append, List.drop_left, String.ofList_toList]
  · intro h
    subst h
    simp

/-- What an archive lists below a root: the members whose names match once the root is off. -/
theorem Source.mem_membersMatching_iff {e : Expression} {root : ArchiveRoot} {archive : Archive}
    {l : Locator} : l ∈ membersMatching e root archive ↔
      ∃ m ∈ archive.members, m.isFolder = false ∧ ∃ name, m.name = memberStart root ++ name ∧
        Pattern.matchesPath e.globText name = true ∧
        l = ⟨e.origin.getD classpathOrigin ++ ":" ++ m.name⟩ := by
  unfold membersMatching
  rw [List.mem_filterMap]
  constructor
  · intro h
    obtain ⟨m, hm, hl⟩ := h
    obtain ⟨hmem, hfile⟩ := List.mem_filter.mp hm
    obtain ⟨name, hname, hl⟩ := Option.bind_eq_some_iff.mp hl
    rw [Option.ite_none_right_eq_some] at hl
    obtain ⟨hmatches, hl⟩ := hl
    have hsplit := below?_eq_some_iff.mp hname
    refine ⟨m, hmem, by simpa using hfile, name, hsplit, hmatches, ?_⟩
    rw [← Option.some.inj hl, hsplit, String.append_assoc]
  · intro h
    obtain ⟨m, hmem, hfile, name, hsplit, hmatches, rfl⟩ := h
    refine ⟨m, List.mem_filter.mpr ⟨hmem, by simpa using hfile⟩, ?_⟩
    rw [Option.bind_eq_some_iff]
    refine ⟨name, below?_eq_some_iff.mpr hsplit, ?_⟩
    rw [if_pos hmatches, hsplit, String.append_assoc]

theorem Source.scan_of_openArchive {p : Path} {archive : Archive}
    (h : w.openArchive p = .ok archive) (hnamed : ∀ m ∈ archive.members, m.name ≠ "")
    (e : Expression) (entry : String) :
    scan w e ⟨p, entry⟩ = .ok (membersMatching e ⟨p, entry⟩ archive) := by
  have hany : archive.members.any (·.name = "") = false := by simpa using hnamed
  unfold scan
  rw [h, ok_bind, hany]
  rfl

/-! ### Archives that hold some files -/

/-- The locator of a file in an archive. -/
def classpathLocator (file : List String) : Locator :=
  ⟨Source.classpathOrigin ++ ":" ++ joinSlash file⟩

theorem Source.memberStart_joinSlash {names : List String} (h : Proper names) (p : Path) :
    memberStart ⟨p, joinSlash names⟩ = if names = [] then "" else joinSlash names ++ "/" := by
  unfold memberStart
  rw [stripSlashes_joinSlash h.isSegment]
  by_cases hne : names = []
  · subst hne
    rfl
  · have hempty : joinSlash names ≠ "" := joinSlash_ne_empty hne h.isSegment
    simp [hne, hempty]

namespace Archive.Holds

variable {archive : Archive} {files : List (List String)} {names : List String}

/-- An archive has a member for each of its files, under its name. -/
theorem exists_member (h : archive.Holds files) {file : List String} (hfile : file ∈ files) :
    ∃ m ∈ archive.members, m.isFolder = false ∧ m.name = joinSlash file :=
  (h.file_iff _).mpr ⟨file, hfile, rfl⟩

theorem exists_file (h : archive.Holds files) {m : Member} (hm : m ∈ archive.members)
    (hfile : m.isFolder = false) : ∃ file ∈ files, m.name = joinSlash file := by
  obtain ⟨file, hmem, hname⟩ := (h.file_iff m.name).mp ⟨m, hm, hfile, rfl⟩
  exact ⟨file, hmem, hname.symm⟩

theorem name_ne_empty (h : archive.Holds files) (hfiles : AreFiles files) :
    ∀ m ∈ archive.members, m.name ≠ "" := by
  intro m hm
  cases hfolder : m.isFolder with
  | false =>
      obtain ⟨file, hfile, hname⟩ := h.exists_file hm hfolder
      rw [hname]
      exact joinSlash_ne_empty (hfiles.ne_nil file hfile) (hfiles.proper hfile).isSegment
  | true =>
      obtain ⟨dir, -, -, hname⟩ := h.folder m hm hfolder
      rw [hname]
      simp

/-- **The roots that an archive provides** are the folders of its files. -/
theorem provides_iff (h : archive.Holds files) (hfiles : AreFiles files) (hnames : Proper names)
    (hne : names ≠ []) (hroot : names ∉ files) :
    SearchPath.provides archive (joinSlash names) = true ↔ IsFolderOf files names := by
  simp only [SearchPath.provides, List.any_eq_true, Bool.or_eq_true, decide_eq_true_eq,
    isPrefixOf_toList_iff]
  constructor
  · intro hprovides
    obtain ⟨m, hm, hname⟩ := hprovides
    cases hfolder : m.isFolder with
    | false =>
        obtain ⟨file, hfile, heq⟩ := h.exists_file hm hfolder
        have hproper := hfiles.proper hfile
        rw [heq] at hname
        cases hname with
        | inl hsame =>
            have hsame := hproper.joinSlash_inj hnames (hfiles.ne_nil file hfile) hne hsame
            exact absurd (hsame ▸ hfile) hroot
        | inr hbelow =>
            obtain ⟨rest, hrest⟩ := hbelow
            obtain ⟨below, hbelow, rfl, -⟩ := (hproper.joinSlash_eq_append_iff hnames hne).mp hrest
            obtain ⟨first, later, rfl⟩ := List.exists_cons_of_ne_nil hbelow
            exact isFolderOf_of_mem hfile
    | true =>
        obtain ⟨dir, hdirne, hdir, heq⟩ := h.folder m hm hfolder
        have hproper := (hfiles.names_of_folder hdir).proper
        rw [heq] at hname
        cases hname with
        | inl hsame =>
            -- A name without a slash at its end is not that of a folder.
            have hsplit : joinSlash names = joinSlash dir ++ "/" ++ "" := by simp [← hsame]
            obtain ⟨below, hbelow, rfl, hempty⟩ :=
              (hnames.joinSlash_eq_append_iff hproper hdirne).mp hsplit
            have hsegment : ∀ s ∈ below, IsSegment s.toList :=
              fun s hs => hnames.isSegment s (List.mem_append_right _ hs)
            exact absurd hempty.symm (joinSlash_ne_empty hbelow hsegment)
        | inr hbelow =>
            obtain ⟨rest, hrest⟩ := hbelow
            obtain ⟨below, rfl⟩ := hproper.exists_append_of_folder_eq hnames hdirne hne hrest
            exact hdir.above
  · intro hfolder
    obtain ⟨name, below, hmem⟩ := hfolder.resolve_left hne
    obtain ⟨m, hm, -, hname⟩ := h.exists_member hmem
    refine ⟨m, hm, Or.inr ⟨joinSlash (name :: below), ?_⟩⟩
    rw [hname, joinSlash_append hne (List.cons_ne_nil name below)]

/-- **What an archive lists** are the files that the expression selects. -/
theorem mem_membersMatching_iff (h : archive.Holds files) (hfiles : AreFiles files)
    {e : Expression} (hproper : Proper e.root) (horigin : e.origin = some Source.classpathOrigin)
    (hroot : e.root ∉ files) {p : Path} {l : Locator} :
    l ∈ Source.membersMatching e ⟨p, e.rootDir⟩ archive ↔
      ∃ file, e.Selects files file ∧ l = classpathLocator file := by
  -- The names that start as the members below the root do.
  have hbelow : ∀ file ∈ files, ∀ name,
      joinSlash file = Source.memberStart ⟨p, e.rootDir⟩ ++ name ↔
        ∃ below, file = e.root ++ below ∧ name = joinSlash below := by
    intro file hfile name
    rw [Expression.rootDir, Source.memberStart_joinSlash hproper]
    by_cases hne : e.root = []
    · rw [if_pos hne, hne]
      simp [eq_comm]
    · rw [if_neg hne, (hfiles.proper hfile).joinSlash_eq_append_iff hproper hne]
      constructor
      · intro hsplit
        obtain ⟨below, -, hsplit, hname⟩ := hsplit
        exact ⟨below, hsplit, hname⟩
      · intro hsplit
        obtain ⟨below, rfl, rfl⟩ := hsplit
        refine ⟨below, fun hnil => hroot ?_, rfl, rfl⟩
        rwa [hnil, List.append_nil] at hfile
  rw [Source.mem_membersMatching_iff, horigin, Option.getD_some]
  constructor
  · intro hl
    obtain ⟨m, hm, hfile, name, hname, hmatches, rfl⟩ := hl
    obtain ⟨file, hmem, heq⟩ := h.exists_file hm hfile
    rw [heq] at hname
    obtain ⟨below, hsplit, rfl⟩ := (hbelow file hmem name).mp hname
    exact ⟨file, ⟨hmem, below, hsplit, hmatches⟩, by rw [heq, classpathLocator]⟩
  · intro hl
    obtain ⟨file, ⟨hmem, below, hsplit, hmatches⟩, rfl⟩ := hl
    obtain ⟨m, hm, hfile, heq⟩ := h.exists_member hmem
    refine ⟨m, hm, hfile, joinSlash below, ?_, hmatches, by rw [heq, classpathLocator]⟩
    rw [heq]
    exact (hbelow file hmem _).mpr ⟨below, hsplit, rfl⟩

end Archive.Holds

end AntResources
