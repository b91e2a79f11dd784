import AntResources.Proofs.RelativePaths

/-!
# AntResources.Proofs.LiteralFiles

**Expressions without wildcards.** Such an expression names one path, and its resources are found like all
others: the folder that the path is in is walked, and the last segment is the pattern
(`Expression.glob_of_isLiteral`). Of all the files below the folder that pattern matches at most two, the one
of that name and the one with a line feed more at its end (`Pattern.matchesPath_literal_iff`). So the
expression stands for the file that it names, or for nothing, unless there is a file of the second kind, or
the walk of everything else below the folder fails (`expand_literal`).
-/

namespace AntResources

open Contribution (Setup)
open Text

/-! ### The path of an expression -/

namespace Expression

variable {text : String} {e : Expression}

/-- The path of an expression has no wildcards. -/
def IsLiteral (e : Expression) : Prop := ∀ s ∈ e.root ++ e.glob, isGlob s = false

instance (e : Expression) : Decidable e.IsLiteral :=
  inferInstanceAs (Decidable (∀ s ∈ e.root ++ e.glob, isGlob s = false))

/-- The path of an expression. -/
def target (e : Expression) : Path := ⟨if e.absolute then .root else .relative, e.root ++ e.glob⟩

/-- The folder that an expression starts with. -/
def parent (e : Expression) : Path := ⟨if e.absolute then .root else .relative, e.root⟩

theorem parent_below_glob (e : Expression) : e.parent.below e.glob = e.target := rfl

/-- Without wildcards all of the path but its last segment is the folder. -/
theorem glob_of_isLiteral (h : parse text = some e) (hliteral : e.IsLiteral) :
    e.glob = [] ∨ ∃ name, e.glob = [name] ∧ Proper [name] ∧ isGlob name = false := by
  obtain ⟨segments, hsplit⟩ := exists_splitGlob_of_parse h
  have hsegments : e.root ++ e.glob = segments := by
    have happend := splitGlob_append segments
    rwa [hsplit] at happend
  rcases List.eq_nil_or_concat segments with rfl | ⟨above, name, rfl⟩
  · exact .inl (congrArg Prod.snd hsplit).symm
  · rw [List.concat_eq_append] at hsegments hsplit
    have hall : ∀ s ∈ above ++ [name], isGlob s = false ∧ Proper [s] := by
      rw [← hsegments]
      exact fun s hs => ⟨hliteral s hs, by simpa [Proper] using proper_of_parse h s hs⟩
    obtain ⟨habove, hname⟩ := List.forall_mem_append.mp hall
    obtain ⟨hglob, hproper⟩ := hname name (List.mem_singleton_self name)
    rw [splitGlob_literal_append (fun s hs => (habove s hs).1) (List.cons_ne_nil _ _)] at hsplit
    exact .inr ⟨name, (congrArg Prod.snd hsplit).symm, hproper, hglob⟩

/-- The folder climbs first, and not at all from the root. -/
theorem climbsFirst_root_of_parse (h : parse text = some e) :
    ClimbsFirst e.root ∧ (e.absolute = true → ".." ∉ e.root) := by
  obtain ⟨path, hpath, habsolute⟩ := exists_of_parse h
  have hclimbs : ClimbsFirst (e.root ++ e.glob) := by
    rw [hpath]
    exact climbsFirst_normalize _ _
  refine ⟨hclimbs.of_append, fun hrooted hmem => ?_⟩
  have hall : ".." ∉ e.root ++ e.glob := by
    rw [hpath, pathSegments, ← habsolute, hrooted]
    exact not_mem_normalizeOnto_rooted List.not_mem_nil _
  exact hall (List.mem_append_left _ hmem)

end Expression

/-- The folder of a relative expression is some levels up from the working folder, and down from there. -/
theorem Expression.exists_parent_climbs {text : String} {e : Expression} (hparse : parse text = some e)
    (hrelative : e.absolute = false) : ∃ k names, e.parent = ⟨.relative, List.replicate k ".." ++ names⟩ ∧
      ∀ s ∈ names, s ≠ "" ∧ s ≠ "." ∧ s ≠ ".." := by
  refine ⟨climbs e.root, descent e.root, ?_, fun s hs => ?_⟩
  · rw [replicate_climbs_append_descent, parent, hrelative]
    rfl
  · obtain ⟨hempty, hdot, -⟩ := proper_root_of_parse hparse s ((List.dropWhile_suffix _).mem hs)
    exact ⟨hempty, hdot, fun heq => (climbsFirst_root_of_parse hparse).1 (heq ▸ hs)⟩

/-- The folder of an expression is found under its absolute path, if at all. -/
theorem World.absoluteLeadsThere_of_parse {w : World} {text : String} {e : Expression}
    (hcwd : w.HasWorkingFolder) (hparse : Expression.parse text = some e)
    (hlost : ¬ w.IsLost e.parent) : w.AbsoluteLeadsThere e.parent := by
  cases habsolute : e.absolute with
  | true =>
      have hproper := Expression.proper_root_of_parse hparse
      have hrooted := (Expression.climbsFirst_root_of_parse hparse).2 habsolute
      have hplain : e.parent.IsPlain := fun s hs =>
        ⟨(hproper s hs).1, (hproper s hs).2.1, fun heq => hrooted (heq ▸ hs)⟩
      exact absoluteLeadsThere_of_isPlain hcwd hplain hlost
  | false =>
      obtain ⟨k, names, hparent, hplain⟩ := Expression.exists_parent_climbs hparse habsolute
      have hgone : Location.isGone w.cwd = false := by
        simpa [IsLost, hparent] using hlost
      exact absoluteLeadsThere_of_climbs (hcwd hgone) hplain hparent

/-! ### What is listed -/

namespace Source

variable {w : World} {base : Path} {e : Expression}

/-- A listing that no fault ends is as it should be. -/
theorem listsFolder_of_no_fault (hsame : ¬ w.IsLost base → w.AbsoluteLeadsThere base)
    (h : ∀ fault, ¬ w.FolderFault base fault) : ListsFolder w e base := by
  have hnone : ∀ fault, (listTree w e base).outcome ≠ .error (.fault fault) := fun fault hfault =>
    h fault (outcome_listTree_eq_fault_iff.mp hfault)
  refine listsFolder_of_not_fault hsame (fun fault hrefuses => ?_) (fun hboth => ?_) fun hdeep => ?_
  · exact hnone _ (outcome_listTree_of_refuses e hrefuses)
  · exact hnone _ (outcome_of_lost hboth.1 hboth.2)
  · by_cases hlost : w.IsLost base
    · exact hnone _ (outcome_of_lost hdeep.leadsToFolder hlost)
    · exact hnone _ (outcome_of_isTooDeep (hsame hlost) hlost hdeep)

end Source

theorem World.HasFile.exists_tree {w : World} {base : Path} {names : List String}
    (h : w.HasFile base names) : ∃ path spot, w.tree.HasFile path spot names := by
  obtain ⟨spot, -, -, hfile⟩ := h
  exact ⟨_, spot, hfile⟩

/-- The files that an expression without wildcards finds: the one that it names, and the one whose name
goes on with a line feed. -/
def World.HasNamed (w : World) (e : Expression) (names : List String) : Prop :=
  w.HasFile e.parent names ∧ ∃ name, e.glob = [name] ∧ (names = [name] ∨ names = [name ++ "\n"])

/-- What an expression without wildcards should stand for: the file that it names. -/
structure World.ListsLiteral (w : World) (e : Expression) (outcome : Except Failure (List Locator)) :
    Prop where
  noFolder : ¬ w.LeadsToFolder e.parent → IsUnreadable outcome
  file : w.HasFile e.parent e.glob →
    outcome = .ok (e.leaves [⟨Source.fileOrigin ++ ":" ++ (e.target.absolute w.cwd).toString⟩])
  nothing : w.LeadsToFolder e.parent → ¬ w.HasFile e.parent e.glob → outcome = .ok []

/-- The file of that name has the absolute path of the expression. -/
theorem fileLocator_glob {w : World} {e : Expression} (hfile : w.HasFile e.parent e.glob) :
    Source.fileLocator (e.parent.absolute w.cwd) e.glob =
      ⟨Source.fileOrigin ++ ":" ++ (e.target.absolute w.cwd).toString⟩ := by
  obtain ⟨path, spot, htree⟩ := hfile.exists_tree
  have hplain : ∀ s ∈ e.glob, s ≠ "" ∧ s ≠ "." ∧ s ≠ ".." := by
    intro s hs
    obtain ⟨l, node, hnode⟩ := htree.exists_child? s hs
    obtain ⟨hempty, hdot, hup, -⟩ := FileTree.isName_iff.mp (FileTree.isName_of_child? hnode)
    exact ⟨hempty, hdot, hup⟩
  rw [← e.parent_below_glob, Path.absolute_below hplain]
  rfl

namespace World.ListsLiteral

variable {w : World} {e : Expression} {outcome : Except Failure (List Locator)}

/-- In a folder nothing is listed but the file of that name. -/
theorem exists_eq_ok (h : w.ListsLiteral e outcome) (hfolder : w.LeadsToFolder e.parent) :
    outcome = .ok [] ∨ w.HasFile e.parent e.glob ∧
      outcome = .ok (e.leaves [Source.fileLocator (e.parent.absolute w.cwd) e.glob]) := by
  by_cases hfile : w.HasFile e.parent e.glob
  · exact .inr ⟨hfile, by rw [fileLocator_glob hfile, h.file hfile]⟩
  · exact .inl (h.nothing hfolder hfile)

theorem readable (h : w.ListsLiteral e outcome) (hfolder : w.LeadsToFolder e.parent) :
    ¬ IsUnreadable outcome := by
  rintro ⟨error, rfl, -⟩
  rcases h.exists_eq_ok hfolder with heq | ⟨-, heq⟩ <;> cases heq

theorem ne_fault (h : w.ListsLiteral e outcome) (fault : Fault) : outcome ≠ .error (.fault fault) := by
  rintro rfl
  by_cases hfolder : w.LeadsToFolder e.parent
  · rcases h.exists_eq_ok hfolder with heq | ⟨-, heq⟩ <;> cases heq
  · exact not_isUnreadable_fault (h.noFolder hfolder)

end World.ListsLiteral

section Literal

variable {w : World} {text : String} {e : Expression} (hcwd : w.HasWorkingFolder)
  (hparse : Expression.parse text = some e)

include hparse in
theorem outcome_expand_of_fileOrigin (setup : Setup) (horigin : e.origin = some Source.fileOrigin) :
    (expand w setup [text]).outcome = e.leaves <$> (Source.listTree w e e.parent).outcome := by
  obtain ⟨lookup, workers⟩ := setup
  rw [outcome_expand_of_parse _ hparse, listing_of_fileOrigin hparse horigin,
    Expression.ofString_baseDir hparse, ← Source.leaves_unique_listTree]
  rfl

include hcwd hparse in
/-- The folder is listed as it should be unless a fault ends that. -/
theorem listsFolder_parent (hfault : ∀ fault, ¬ w.FolderFault e.parent fault) :
    Source.ListsFolder w e e.parent :=
  Source.listsFolder_of_no_fault (World.absoluteLeadsThere_of_parse hcwd hparse) hfault

variable (hliteral : e.IsLiteral)

include hparse hliteral

theorem exists_glob_of_hasFile (hfile : w.HasFile e.parent e.glob) : ∃ name, e.glob = [name] := by
  obtain ⟨path, spot, htree⟩ := hfile.exists_tree
  obtain ⟨name, hglob, -⟩ := (Expression.glob_of_isLiteral hparse hliteral).resolve_left htree.ne_nil
  exact ⟨name, hglob⟩

/-- Of the files below the folder the last segment matches the one of that name, and the one with a line
feed more. -/
theorem matchesPath_globText_iff {names : List String} (hfile : w.HasFile e.parent names) :
    Pattern.matchesPath e.globText (joinSlash names) = true ↔
      ∃ name, e.glob = [name] ∧ (names = [name] ∨ names = [name ++ "\n"]) := by
  obtain ⟨path, spot, htree⟩ := hfile.exists_tree
  rcases Expression.glob_of_isLiteral hparse hliteral with hnil | ⟨name, hglob, hname, hplain⟩
  · have hnone : Pattern.ofString (joinSlash []) = [] := by decide
    rw [Expression.globText, hnil, Pattern.matchesPath_iff_denotes, hnone]
    simp
  · rw [Expression.globText, hglob, joinSlash_singleton,
      Pattern.matchesPath_literal_iff hname hplain htree.proper htree.ne_nil]
    simp

include hcwd

/-- **What an expression without wildcards lists**, unless a fault ends it or a folder may not be listed. -/
theorem exists_files_of_isLiteral (hfault : ∀ fault, ¬ w.FolderFault e.parent fault)
    (hfolder : w.LeadsToFolder e.parent)
    (hmay : ∀ dir sub, w.Reaches e.parent dir sub → w.MayList e.parent dir) :
    ∃ files : List (List String), (Source.listTree w e e.parent).outcome =
        .ok (files.map (Source.fileLocator (e.parent.absolute w.cwd))) ∧
      (∀ names, names ∈ files ↔ w.HasNamed e names) ∧ files.Pairwise FileTree.Before := by
  obtain ⟨files, hfiles, hmem, hordered, -⟩ :=
    (listsFolder_parent hcwd hparse hfault).lists hfolder hmay
  refine ⟨files, hfiles, fun names => ?_, hordered⟩
  rw [hmem, World.HasNamed]
  exact and_congr_right fun hfile => matchesPath_globText_iff hparse hliteral hfile

theorem listsLiteral_of_no_fault (hfault : ∀ fault, ¬ w.FolderFault e.parent fault)
    (hmay : ∀ dir sub, w.Reaches e.parent dir sub → w.MayList e.parent dir)
    (halone : e.exclusion = false → ∀ name, e.glob = [name] → ¬ w.HasFile e.parent [name ++ "\n"]) :
    w.ListsLiteral e (e.leaves <$> (Source.listTree w e e.parent).outcome) := by
  constructor
  case noFolder =>
    intro hnot
    exact ((listsFolder_parent hcwd hparse hfault).fails_iff.mpr (.inl hnot)).map _
  case file =>
    intro hfile
    obtain ⟨files, hfiles, hmem, hordered⟩ :=
      exists_files_of_isLiteral hcwd hparse hliteral hfault hfile.leadsToFolder hmay
    rw [hfiles, map_ok, ← fileLocator_glob hfile]
    cases hexclusion : e.exclusion with
    | true => rw [Expression.leaves_of_exclusion hexclusion, Expression.leaves_of_exclusion hexclusion]
    | false =>
        have honly : ∀ names, names ∈ files ↔ names ∈ [e.glob] := by
          intro names
          rw [hmem, List.mem_singleton]
          constructor
          · rintro ⟨hnamed, name, hglob, rfl | rfl⟩
            · exact hglob.symm
            · exact absurd hnamed (halone hexclusion name hglob)
          · rintro rfl
            obtain ⟨name, hglob⟩ := exists_glob_of_hasFile hparse hliteral hfile
            exact ⟨hfile, name, hglob, .inl hglob⟩
        have hsingle : files = [e.glob] := List.perm_singleton.mp
          ((List.perm_ext_iff_of_nodup (FileTree.nodup_of_pairwise hordered) (List.nodup_singleton _)).mpr
            honly)
        rw [hsingle, List.map_singleton]
  case nothing =>
    intro hfolder hnot
    obtain ⟨files, hfiles, hmem, -⟩ :=
      exists_files_of_isLiteral hcwd hparse hliteral hfault hfolder hmay
    rw [hfiles, map_ok]
    cases hexclusion : e.exclusion with
    | true => rw [Expression.leaves_of_exclusion hexclusion]
    | false =>
        have hnone : files = [] := by
          refine List.eq_nil_iff_forall_not_mem.mpr fun names hnames => ?_
          obtain ⟨hnamed, name, hglob, rfl | rfl⟩ := (hmem names).mp hnames
          · exact hnot (hglob ▸ hnamed)
          · exact halone hexclusion name hglob hnamed
        rw [hnone, Expression.leaves_of_inclusion hexclusion, List.map_nil]

omit hliteral in
/-- Where a folder may not be listed, the expression does not stand for what it names. -/
theorem mayList_of_listsLiteral (hfault : ∀ fault, ¬ w.FolderFault e.parent fault)
    (h : w.ListsLiteral e (e.leaves <$> (Source.listTree w e e.parent).outcome)) (dir : List String)
    (sub : FileTree.Spot) (hsub : w.Reaches e.parent dir sub) : w.MayList e.parent dir := by
  by_contra hnot
  have hfails := (listsFolder_parent hcwd hparse hfault).fails_iff.mpr (.inr ⟨dir, sub, hsub, hnot⟩)
  exact h.readable hsub.leadsToFolder (hfails.map _)

/-- Nor does it where there is a file of its name with a line feed more. -/
theorem not_hasFile_of_listsLiteral (hfault : ∀ fault, ¬ w.FolderFault e.parent fault)
    (hmay : ∀ dir sub, w.Reaches e.parent dir sub → w.MayList e.parent dir)
    (h : w.ListsLiteral e (e.leaves <$> (Source.listTree w e e.parent).outcome))
    (hexclusion : e.exclusion = false) {name : String} (hglob : e.glob = [name]) :
    ¬ w.HasFile e.parent [name ++ "\n"] := by
  intro hfed
  obtain ⟨files, hfiles, hmem, -⟩ :=
    exists_files_of_isLiteral hcwd hparse hliteral hfault hfed.leadsToFolder hmay
  have hfound : Source.fileLocator (e.parent.absolute w.cwd) [name ++ "\n"] ∈
      files.map (Source.fileLocator (e.parent.absolute w.cwd)) :=
    List.mem_map_of_mem ((hmem _).mpr ⟨hfed, name, hglob, .inr rfl⟩)
  have hlisted := h.exists_eq_ok hfed.leadsToFolder
  rw [hfiles, map_ok, Expression.leaves_of_inclusion hexclusion] at hlisted
  rcases hlisted with heq | ⟨hfile, heq⟩
  · rw [Except.ok.inj heq] at hfound
    cases hfound
  · rw [Except.ok.inj heq, Expression.leaves_of_inclusion hexclusion, List.mem_singleton] at hfound
    obtain ⟨_, _, htree⟩ := hfed.exists_tree
    obtain ⟨_, _, htree'⟩ := hfile.exists_tree
    have hsame :=
      fileLocator_inj_of_proper htree.proper htree'.proper htree.ne_nil htree'.ne_nil hfound
    rw [hglob, List.singleton_inj] at hsame
    simpa using congrArg String.length hsame

end Literal

/-- **When an expression without wildcards stands for the file that it names.** It does so exactly if no fault
ends the walk of the folder that the path is in, all that is walked may be listed, and no file of the name with
a line feed more is beside it. A fault is what the expression then ends with; and a file of that other name is
listed along with the one that was meant, or in its place. -/
theorem expand_literal (w : World) (setup : Setup) {text : String} {e : Expression}
    (hcwd : w.HasWorkingFolder) (hparse : Expression.parse text = some e)
    (horigin : e.origin = some Source.fileOrigin) (hliteral : e.IsLiteral) :
    (w.ListsLiteral e (expand w setup [text]).outcome ↔
      (∀ fault, ¬ w.FolderFault e.parent fault) ∧
      (∀ dir sub, w.Reaches e.parent dir sub → w.MayList e.parent dir) ∧
      (e.exclusion = false → ∀ name, e.glob = [name] → ¬ w.HasFile e.parent [name ++ "\n"])) ∧
    (∀ fault, w.FolderFault e.parent fault →
      (expand w setup [text]).outcome = .error (.fault fault)) ∧
    ((∀ fault, ¬ w.FolderFault e.parent fault) → w.LeadsToFolder e.parent →
      (∀ dir sub, w.Reaches e.parent dir sub → w.MayList e.parent dir) →
      ∃ files : List (List String), (expand w setup [text]).outcome =
          .ok (e.leaves (files.map (Source.fileLocator (e.parent.absolute w.cwd)))) ∧
        (∀ names, names ∈ files ↔ w.HasNamed e names) ∧ files.Pairwise FileTree.Before) := by
  rw [outcome_expand_of_fileOrigin hparse setup horigin]
  have hfaults : ∀ fault, w.FolderFault e.parent fault →
      e.leaves <$> (Source.listTree w e e.parent).outcome = .error (.fault fault) := fun fault h => by
    rw [Source.outcome_listTree_eq_fault_iff.mpr h, map_error]
  refine ⟨⟨fun hlists => ?_, fun h => ?_⟩, hfaults, fun hfault hfolder hmay => ?_⟩
  · have hfault : ∀ fault, ¬ w.FolderFault e.parent fault := fun fault h =>
      hlists.ne_fault fault (hfaults fault h)
    have hmay := mayList_of_listsLiteral hcwd hparse hfault hlists
    exact ⟨hfault, hmay, fun hexclusion name hglob =>
      not_hasFile_of_listsLiteral hcwd hparse hliteral hfault hmay hlists hexclusion hglob⟩
  · exact listsLiteral_of_no_fault hcwd hparse hliteral h.1 h.2.1 h.2.2
  · obtain ⟨files, hfiles, hmem, hordered⟩ :=
      exists_files_of_isLiteral hcwd hparse hliteral hfault hfolder hmay
    exact ⟨files, by rw [hfiles, map_ok], hmem, hordered⟩

/-- A world with two files in the folder `d`, one of which has a line feed at the end of its name. -/
def fedName : World where
  tree := ⟨[(["d"], .folder), (["d", "x\n"], .file ⟨#[49]⟩), (["d", "y"], .file ⟨#[50]⟩)], []⟩
  cwd := []
  defaultPath := []
  web := []

theorem find_fedName : fedName.tree.find fedName.cwd ⟨.relative, ["d"]⟩ = .ok ⟨["d"], FileTree.maxLinks⟩ := by
  have hchild : fedName.tree.child? [] "d" = some .folder := rfl
  exact FileTree.find_of_child rfl rfl (by decide) (by decide) (by decide) hchild (by simp)

theorem walk_fedName : fedName.tree.walk maxNesting ⟨.root, ["d"]⟩ ⟨["d"], FileTree.maxLinks⟩ =
    .ok [["x\n"], ["y"]] := by
  have hnames : fedName.tree.names ["d"] = ["x\n", "y"] := by
    rw [FileTree.names]
    exact List.mergeSort_of_pairwise (by decide)
  have hfiles : ∀ name ∈ fedName.tree.names ["d"],
      ∃ content, fedName.tree.child? ["d"] name = some (.file content) := by
    rw [hnames]
    simp only [List.forall_mem_cons]
    exact ⟨⟨_, rfl⟩, ⟨_, rfl⟩, by simp⟩
  have hwalk : fedName.tree.walk (987 + 1) ⟨.root, ["d"]⟩ ⟨["d"], FileTree.maxLinks⟩ = _ :=
    FileTree.walk_of_files (FileTree.isListable_of_allOpen rfl (by decide) rfl) hfiles
  rwa [hnames] at hwalk

/-- `d/y` stands for the file of that name. `d/x` stands for the one with the line feed, though there is none
of its own name. -/
theorem expand_literal_fedName :
    fedName.ListsLiteral ⟨"file:d/y", false, some "file", ["d"], ["y"], false⟩
        (expand fedName ⟨SearchPath.resolve [] fedName, 1⟩ ["file:d/y"]).outcome ∧
      ¬ fedName.ListsLiteral ⟨"file:d/x", false, some "file", ["d"], ["x"], false⟩
        (expand fedName ⟨SearchPath.resolve [] fedName, 1⟩ ["file:d/x"]).outcome := by
  have hcwd : fedName.HasWorkingFolder := fun _ => (FileTree.IsThere.nil _).stands
  have hfile : ∀ names, fedName.HasFile ⟨.relative, ["d"]⟩ names ↔ names ∈ [["x\n"], ["y"]] := fun names =>
    (Source.hasFile_iff find_fedName rfl).trans (FileTree.mem_walk_iff_hasFile walk_fedName).symm
  have hmay : ∀ dir sub, fedName.Reaches ⟨.relative, ["d"]⟩ dir sub →
      fedName.MayList ⟨.relative, ["d"]⟩ dir := fun dir sub hsub =>
    (FileTree.exists_walk_eq_ok_iff.mp ⟨_, walk_fedName⟩ dir sub
      ((Source.reaches_iff find_fedName rfl).mp hsub)).2
  have hfault : ∀ fault, ¬ fedName.FolderFault ⟨.relative, ["d"]⟩ fault := by
    intro fault hfault
    have hlisted := Source.outcome_listTree_of_plain_folder
      ⟨"file:d/y", false, some "file", ["d"], ["y"], false⟩ hcwd (by unfold Path.IsPlain; decide)
      (fun hlost => absurd hlost.2 (by decide)) find_fedName rfl
    have habsolute : Path.absolute fedName.cwd ⟨.relative, ["d"]⟩ = ⟨.root, ["d"]⟩ := by decide
    rw [Source.outcome_listTree_eq_fault_iff.mpr hfault, habsolute, walk_fedName] at hlisted
    cases hlisted
  obtain ⟨hlists, -⟩ := expand_literal fedName ⟨SearchPath.resolve [] fedName, 1⟩ hcwd
    (show Expression.parse "file:d/y" = some ⟨"file:d/y", false, some "file", ["d"], ["y"], false⟩ by decide)
    rfl (by decide)
  obtain ⟨hother, -⟩ := expand_literal fedName ⟨SearchPath.resolve [] fedName, 1⟩ hcwd
    (show Expression.parse "file:d/x" = some ⟨"file:d/x", false, some "file", ["d"], ["x"], false⟩ by decide)
    rfl (by decide)
  refine ⟨hlists.mpr ⟨hfault, hmay, fun _ name hname => ?_⟩, fun h => ?_⟩
  · obtain rfl := List.singleton_inj.mp hname
    exact fun hnamed => absurd ((hfile _).mp hnamed) (by decide)
  · exact (hother.mp h).2.2 rfl "x" rfl ((hfile _).mpr (by decide))

end AntResources
