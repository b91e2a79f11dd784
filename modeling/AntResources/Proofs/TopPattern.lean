import AntResources.Proofs.Reexpansion

/-!
# AntResources.Proofs.TopPattern

**How far the lone `**` goes.** Every path matches some pattern, the one with a `*` for each of its segments
(`Pattern.exists_matchesPath`). A `**` alone matches just the paths with no line feed in them, or only one at
their end (`Pattern.matchesPath_anyDepth_iff`): of all wildcards it is the only one that stops there. So what
an expression lists below a folder, `**` in that folder lists too, but for the files on the way to which a
line feed stands; and these are what is left if `**` is excluded.
-/

namespace AntResources

open Contribution (Setup)
open Text

/-! ### Line feeds -/

/-- A line feed stands in a text, and not only at its end. -/
def Text.BreaksInside (s : String) : Prop := '\n' ∈ s.toList.dropLast

instance (s : String) : Decidable (BreaksInside s) :=
  inferInstanceAs (Decidable ('\n' ∈ s.toList.dropLast))

namespace Piece

theorem denotes_anything_iff {text : List Char} : Denotes [.anything] text ↔ '\n' ∉ text := by
  simp [Denotes]

end Piece

namespace Pattern

/-- Where a line may end before a last line feed, it has none besides that. -/
theorem not_mem_dropLast_iff {c : Char} {cs : List Char} :
    c ∉ cs.dropLast ↔ c ∉ cs ∨ ∃ line, cs = line ++ [c] ∧ c ∉ line := by
  rcases List.eq_nil_or_concat cs with rfl | ⟨line, last, rfl⟩
  · simp
  · rw [List.concat_eq_append, List.dropLast_concat]
    by_cases hlast : c = last
    · subst hlast
      simp
    · simp [hlast, Ne.symm hlast]

theorem mem_dropLast_dropPathStart {cs : List Char} :
    '\n' ∈ (dropPathStart cs).dropLast ↔ '\n' ∈ cs.dropLast := by
  unfold dropPathStart
  split
  · next rest => cases rest <;> simp
  · next rest => cases rest <;> simp
  · rfl

/-- **A lone `**`** matches what has no line feed inside. -/
theorem matchesPath_anyDepth_iff (path : String) :
    Pattern.matchesPath "**" path = true ↔ ¬ BreaksInside path := by
  have hpattern : Pattern.ofString "**" = [.anyDepth] := by decide +kernel
  have hpieces : Pattern.pieces [.anyDepth] = [.anything] := rfl
  rw [matchesPath_iff_denotes, hpattern, hpieces, BreaksInside, ← mem_dropLast_dropPathStart,
    not_mem_dropLast_iff]
  simp only [Piece.denotes_anything_iff]
  exact and_iff_right (List.cons_ne_nil _ _)

/-! ### A `*` for each segment -/

/-- The pieces for segments that are a `*` each take any names. -/
theorem denotes_stars_below {names : List (List Char)} (h : ∀ s ∈ names, '/' ∉ s) :
    Piece.Denotes (piecesFrom false false (names.map fun _ => .name [.run])) (belowText names) := by
  induction names with
  | nil => rfl
  | cons s names ih =>
      obtain ⟨hs, hnames⟩ := List.forall_mem_cons.mp h
      exact ⟨s ++ belowText names, rfl, s, belowText names, rfl, hs, ih hnames⟩

theorem collapse_stars {α : Type} (names : List α) :
    collapse (names.map fun _ => .name [.run]) = names.map fun _ => .name [.run] := by
  induction names with
  | nil => rfl
  | cons s names ih => rw [List.map_cons, collapse, ih]; simp

theorem ofString_stars {α : Type} (names : List α) :
    Pattern.ofString (joinSlash (names.map fun _ => "*")) = names.map fun _ => .name [.run] := by
  have hproper : Proper (names.map fun _ => "*") := by
    intro s hs
    obtain ⟨-, -, rfl⟩ := List.mem_map.mp hs
    decide
  have hstar : Segment.ofChars "*".toList = .name [.run] := by decide +kernel
  rw [ofString_joinSlash hproper, List.map_map]
  simp only [Function.comp_def, hstar]

/-- What is left of a path without a mark at its start is the rest of its segments. -/
theorem exists_dropPathStart {path : List (List Char)} (hne : path ≠ [])
    (hpath : ∀ s ∈ path, IsSegment s) : ∃ names, names ≠ [] ∧ (∀ s ∈ names, '/' ∉ s) ∧
      dropPathStart (pathText path) = pathText names := by
  by_cases hdot : path.head? = some ['.']
  · obtain ⟨rest, rfl⟩ := List.head?_eq_some_iff.mp hdot
    by_cases hrest : rest = []
    · subst hrest
      exact ⟨[['.']], by simp, by simp, rfl⟩
    · refine ⟨rest, hrest, fun s hs => (hpath s (List.mem_cons_of_mem _ hs)).2, ?_⟩
      rw [pathText_cons, belowText_eq_cons_pathText hrest]
      rfl
  · exact ⟨path, hne, fun s hs => (hpath s hs).2, dropPathStart_pathText hpath hdot⟩

/-- Every path matches some pattern. -/
theorem exists_matchesPath {path : List String} (hne : path ≠ [])
    (hpath : ∀ s ∈ path, s ≠ "" ∧ '/' ∉ s.toList) :
    ∃ pattern, Pattern.matchesPath pattern (joinSlash path) = true := by
  have hsegments : ∀ s ∈ path.map String.toList, IsSegment s := by
    simpa [IsSegment] using hpath
  obtain ⟨names, hnames, hslash, htext⟩ := exists_dropPathStart (by simpa using hne) hsegments
  refine ⟨joinSlash (names.map fun _ => "*"), ?_⟩
  rw [matchesPath_iff_denotes, ofString_stars, toList_joinSlash, htext, pieces, collapse_stars]
  refine ⟨by simpa using hnames, .inl ?_⟩
  obtain ⟨s, rest, rfl⟩ := List.exists_cons_of_ne_nil hnames
  obtain ⟨hs, hrest⟩ := List.forall_mem_cons.mp hslash
  exact ⟨s, belowText rest, rfl, hs, denotes_stars_below hrest⟩

/-- **The paths on which `**` is on top**: it matches one with every pattern exactly if it matches it
at all, which is if no line feed stands inside. -/
theorem anyDepth_is_top_iff {path : List String} (hne : path ≠ [])
    (hpath : ∀ s ∈ path, s ≠ "" ∧ '/' ∉ s.toList) :
    (∀ pattern, Pattern.matchesPath pattern (joinSlash path) = true →
        Pattern.matchesPath "**" (joinSlash path) = true) ↔ ¬ BreaksInside (joinSlash path) := by
  rw [matchesPath_anyDepth_iff]
  constructor
  · intro h
    obtain ⟨pattern, hpattern⟩ := exists_matchesPath hne hpath
    exact h pattern hpattern
  · exact fun h _ _ => h

end Pattern

/-! ### Folders below a folder -/

namespace FileTree

variable {t : FileTree} {path : Path} {spot final : Spot} {names : List String}

/-- Names that lead down to a folder do so through folders. -/
theorem folderBelow?_of_descend (hnames : ∀ s ∈ names, isName s = true)
    (hproper : Proper (path.below names).parts)
    (hbytes : (path.below names).byteLength < maxPathBytes)
    (h : t.descend spot.links spot.location names = .ok final)
    (hfolder : t.isFolderAt final.location = true) :
    t.folderBelow? path spot names = some final := by
  induction names generalizing path spot with
  | nil =>
      rw [descend] at h
      rw [folderBelow?_nil, ← Except.ok.inj h]
  | cons name rest ih =>
      obtain ⟨hname, hrest⟩ := List.forall_mem_cons.mp hnames
      rw [← List.singleton_append, descend_append, bind_eq_ok_iff] at h
      obtain ⟨sub, hsub, hbelow⟩ := h
      have hthrough : t.isFolderAt sub.location = true := by
        cases rest with
        | nil =>
            rw [descend] at hbelow
            rwa [← Except.ok.inj hbelow] at hfolder
        | cons next rest =>
            obtain ⟨hempty, -⟩ := isName_iff.mp (hrest next (by simp))
            exact isFolderAt_of_isOpenAt (isOpenAt_of_descend hempty hbelow)
      rw [← Path.below_child] at hproper hbytes
      have hshort : (path.child name).byteLength < maxPathBytes :=
        Nat.lt_of_le_of_lt (Path.byteLength_le _ hproper) hbytes
      exact folderBelow?_cons_eq_some_iff.mpr ⟨sub,
        below?_eq_some_iff_leadsTo.mpr (leadsTo_of_descend hname hshort hsub hthrough),
        ih hrest hproper hbytes hbelow⟩

end FileTree

/-- **What is found below a folder** is found below a folder above it. -/
theorem mem_filesBelow_above {w : World} {root : Path} {dir names : List String}
    {files inner : List (List String)} (hproper : Proper (root.below dir).parts)
    (hplain : ∀ s ∈ dir, s ≠ "" ∧ s ≠ "." ∧ s ≠ "..")
    (hfiles : Source.filesBelow w root = .ok files)
    (hinner : Source.filesBelow w (root.below dir) = .ok inner) (hnames : names ∈ inner) :
    dir ++ names ∈ files := by
  obtain ⟨spot, hfind, -, hwalk⟩ := exists_walk_of_filesBelow hfiles
  obtain ⟨sub, hsub, hfolder, hwalk'⟩ := exists_walk_of_filesBelow hinner
  obtain ⟨hnul, hbytes, -⟩ := FileTree.find_eq_ok_iff.mp hsub
  have hisName : ∀ s ∈ dir, FileTree.isName s = true := by
    intro s hs
    obtain ⟨hempty, hdot, hup⟩ := hplain s hs
    have hslash := (hproper s (List.mem_append_right _ hs)).2.2
    have hno : '\x00' ∉ s.toList := by
      simpa using List.any_eq_false.mp hnul s (List.mem_append_right _ hs)
    exact FileTree.isName_iff.mpr ⟨hempty, hdot, hup, hslash, hno⟩
  rw [FileTree.find_below hfind, hnul, if_neg Bool.false_ne_true, if_neg (by omega)] at hsub
  have hbelow := FileTree.folderBelow?_of_descend hisName hproper hbytes hsub hfolder
  obtain ⟨last, name, final, rfl, hlast, hname⟩ := (FileTree.mem_walk_iff hwalk').mp hnames
  refine (FileTree.mem_walk_iff hwalk).mpr ⟨dir ++ last, name, final, by simp, ?_, ?_⟩
  · rw [FileTree.folderBelow?_append hbelow, hlast]
  · rwa [Path.below_append]

/-! ### Listing -/

/-- Of the files below a folder those are listed whose names match. -/
theorem Source.mem_matchingFiles_iff {w : World} {e : Expression} {root : Path}
    {files : List (List String)} {names : List String} (hfiles : filesBelow w root = .ok files)
    (hnames : names ∈ files) : fileLocator root names ∈ matchingFiles e root files ↔
      Pattern.matchesPath e.globText (joinSlash names) = true := by
  obtain ⟨spot, -, -, hwalk⟩ := exists_walk_of_filesBelow hfiles
  have hfile := fun other (hother : other ∈ files) => (FileTree.mem_walk_iff_hasFile hwalk).mp hother
  rw [matchingFiles, List.mem_map]
  constructor
  · intro h
    obtain ⟨other, hother, heq⟩ := h
    obtain ⟨hmem, hmatches⟩ := List.mem_filter.mp hother
    obtain rfl := fileLocator_inj_of_proper (hfile other hmem).proper (hfile names hnames).proper
      (hfile other hmem).ne_nil (hfile names hnames).ne_nil heq
    exact hmatches
  · exact fun h => ⟨names, List.mem_filter.mpr ⟨hnames, h⟩, rfl⟩

theorem Source.fileLocator_below (root : Path) (dir names : List String) :
    fileLocator (root.below dir) names = fileLocator root (dir ++ names) := by
  rw [fileLocator, fileLocator, Path.below, List.append_assoc]

theorem isBlank_anyDepth : ∀ c, "**".toList.getLast? = some c → isBlank c = false :=
  isBlank_of_eq_some rfl rfl

section Below

variable {w : World} {setup : Setup} {base pattern : String} {top found : List Locator}
  (hcwd : w.HasWorkingFolder) (hbase : '*' ∉ base.toList ∧ '?' ∉ base.toList)
  (hdown : ".." ∉ Text.normalize false (splitSlash pattern))
  (hne : Text.normalize false (splitSlash pattern) ≠ [])
  (hlast : ∀ c, pattern.toList.getLast? = some c → isBlank c = false)
  (htop : listing w setup (Source.fileOrigin ++ ":" ++ (base ++ "/" ++ "**")) = .ok top)
  (hfound : listing w setup (Source.fileOrigin ++ ":" ++ (base ++ "/" ++ pattern)) = .ok found)

include hcwd hbase hdown hne hlast htop hfound

/-- **What `**` lists of what another pattern does**, each time below the same folder. -/
theorem mem_listing_anyDepth_iff : ∃ files : List (List String),
    found = files.map (Source.fileLocator ((Expression.folderAt base).absolute w.cwd)) ∧
      ∀ names ∈ files,
        (Source.fileLocator ((Expression.folderAt base).absolute w.cwd) names ∈ top ↔
          ¬ BreaksInside (joinSlash names)) := by
  have hform : Text.normalize false (splitSlash "**") = ["**"] := by decide +kernel
  obtain ⟨hglob, hlisting⟩ := listing_joined w setup hbase (by simp [hform]) (by simp [hform])
    isBlank_anyDepth
  rw [hlisting, hform, show (Expression.splitGlob ["**"]).1 = [] from rfl, Path.below_nil] at htop
  rw [(listing_joined w setup hbase hdown hne hlast).2] at hfound
  obtain ⟨-, root, files, hroot, hfiles, rfl⟩ := Source.outcome_listTree_eq_ok_iff.mp htop
  obtain ⟨-, root', inner, hroot', hinner, rfl⟩ := Source.outcome_listTree_eq_ok_iff.mp hfound
  obtain ⟨rfl, hthere⟩ := FileTree.absolute_eq_ok hroot
  obtain ⟨rfl, -⟩ := FileTree.absolute_eq_ok hroot'
  -- The segments of the pattern before its glob lead from the one folder to the other.
  obtain ⟨dir, hdir⟩ :
      ∃ dir, (Expression.splitGlob (Text.normalize false (splitSlash pattern))).1 = dir := ⟨_, rfl⟩
  have hmem : ∀ s ∈ dir, s ∈ Text.normalize false (splitSlash pattern) := fun s hs => by
    rw [← Expression.splitGlob_append (Text.normalize false (splitSlash pattern)), hdir]
    exact List.mem_append_left _ hs
  have hplain : ∀ s ∈ dir, s ≠ "" ∧ s ≠ "." ∧ s ≠ ".." := fun s hs =>
    normalize_plain false hdown s (hmem s hs)
  have hproper : Proper (((Expression.folderAt base).absolute w.cwd).below dir).parts :=
    List.forall_mem_append.mpr ⟨Path.proper_absolute (Expression.proper_pathSegments _)
      fun hrelative => (hcwd (hthere hrelative)).proper,
      fun s hs => proper_normalize (fun _ => noSlash_of_mem_splitSlash) s (hmem s hs)⟩
  rw [hdir, Path.absolute_below hplain] at hinner ⊢
  refine ⟨(inner.filter fun names => Pattern.matchesPath
    (Expression.atPath (base ++ "/" ++ pattern)).globText (joinSlash names)).map (dir ++ ·), ?_, ?_⟩
  · rw [Source.matchingFiles, List.map_map]
    exact List.map_congr_left fun names _ => Source.fileLocator_below _ dir names
  · intro names hnames
    obtain ⟨below, hbelow, rfl⟩ := List.mem_map.mp hnames
    have habove := mem_filesBelow_above hproper hplain hfiles hinner (List.mem_filter.mp hbelow).1
    have hglobText : (Expression.atPath (base ++ "/" ++ "**")).globText = "**" := by
      rw [Expression.globText, hglob, hform]
      rfl
    rw [Source.mem_matchingFiles_iff hfiles habove, hglobText, Pattern.matchesPath_anyDepth_iff]

/-- If `**` is excluded, what it does not list is left. -/
theorem outcome_expand_excluding_anyDepth : ∃ files : List (List String),
    found = files.map (Source.fileLocator ((Expression.folderAt base).absolute w.cwd)) ∧
      (∀ names ∈ files,
        (Source.fileLocator ((Expression.folderAt base).absolute w.cwd) names ∈ top ↔
          ¬ BreaksInside (joinSlash names))) ∧
      (expand w setup [Source.fileOrigin ++ ":" ++ (base ++ "/" ++ pattern),
        "~" ++ (Source.fileOrigin ++ ":" ++ (base ++ "/" ++ "**"))]).outcome =
          .ok ((files.filter fun names => BreaksInside (joinSlash names)).map
            (Source.fileLocator ((Expression.folderAt base).absolute w.cwd))) := by
  obtain ⟨files, rfl, hall⟩ := mem_listing_anyDepth_iff hcwd hbase hdown hne hlast htop hfound
  refine ⟨files, rfl, hall, ?_⟩
  have hpattern : pattern ≠ "" := fun hempty => hne (by rw [hempty]; rfl)
  have hboth := outcome_expand_excluding_atPath w setup
    (isBlank_joined (by decide) isBlank_anyDepth) (isBlank_joined hpattern hlast) hfound htop
  rw [hboth, List.filter_map]
  congr 2
  refine List.filter_congr fun names hnames => ?_
  rw [Bool.eq_iff_iff, decide_eq_true_iff]
  simpa using not_congr (hall names hnames)

end Below

/-- **`**` is on top but for line feeds.** A path matches `**` whenever it matches some pattern exactly if
no line feed stands inside of it. So of what an expression lists below a folder, `**` in that folder lists
what has no line feed inside its path from there; and where `**` is excluded, just the rest is left. -/
theorem anyDepth_is_top_but_for_line_feeds (w : World) (setup : Setup) (base pattern : String)
    (top found : List Locator) (hcwd : w.HasWorkingFolder)
    (hbase : '*' ∉ base.toList ∧ '?' ∉ base.toList)
    (hdown : ".." ∉ Text.normalize false (splitSlash pattern))
    (hne : Text.normalize false (splitSlash pattern) ≠ [])
    (hlast : ∀ c, pattern.toList.getLast? = some c → isBlank c = false)
    (htop : listing w setup (Source.fileOrigin ++ ":" ++ (base ++ "/" ++ "**")) = .ok top)
    (hfound : listing w setup (Source.fileOrigin ++ ":" ++ (base ++ "/" ++ pattern)) = .ok found) :
    (∀ path : List String, path ≠ [] → (∀ s ∈ path, s ≠ "" ∧ '/' ∉ s.toList) →
      ((∀ pattern, Pattern.matchesPath pattern (joinSlash path) = true →
          Pattern.matchesPath "**" (joinSlash path) = true) ↔ ¬ BreaksInside (joinSlash path))) ∧
    ∃ files : List (List String),
      found = files.map (Source.fileLocator ((Expression.folderAt base).absolute w.cwd)) ∧
      (∀ names ∈ files,
        (Source.fileLocator ((Expression.folderAt base).absolute w.cwd) names ∈ top ↔
          ¬ BreaksInside (joinSlash names))) ∧
      (expand w setup [Source.fileOrigin ++ ":" ++ (base ++ "/" ++ pattern),
        "~" ++ (Source.fileOrigin ++ ":" ++ (base ++ "/" ++ "**"))]).outcome =
          .ok ((files.filter fun names => BreaksInside (joinSlash names)).map
            (Source.fileLocator ((Expression.folderAt base).absolute w.cwd))) :=
  ⟨fun _ hpath hsegments => Pattern.anyDepth_is_top_iff hpath hsegments,
    outcome_expand_excluding_anyDepth hcwd hbase hdown hne hlast htop hfound⟩

/-- A world with two files in the folder `d`, one of which has a line feed in its name. -/
def brokenName : World where
  tree := ⟨[(["d"], .folder), (["d", "a\nb"], .file ⟨#[49]⟩), (["d", "x.js"], .file ⟨#[50]⟩)], []⟩
  cwd := []
  defaultPath := []
  web := []

theorem hasWorkingFolder_brokenName : brokenName.HasWorkingFolder := fun _ => (FileTree.IsThere.nil _).stands

theorem listTree_brokenName (e : Expression) :
    (Source.listTree brokenName e ⟨.relative, ["d"]⟩).outcome =
      .ok (Source.matchingFiles e ⟨.root, ["d"]⟩ [["a\nb"], ["x.js"]]) := by
  have hchild : brokenName.tree.child? [] "d" = some .folder := rfl
  have hfind : brokenName.tree.find brokenName.cwd ⟨.relative, ["d"]⟩ =
      .ok ⟨["d"], FileTree.maxLinks⟩ :=
    FileTree.find_of_child rfl rfl (by decide) (by decide) (by decide) hchild (by simp)
  have hnames : brokenName.tree.names ["d"] = ["a\nb", "x.js"] := by
    rw [FileTree.names]
    exact List.mergeSort_of_pairwise (by decide)
  have hfiles : ∀ name ∈ brokenName.tree.names ["d"],
      ∃ content, brokenName.tree.child? ["d"] name = some (.file content) := by
    rw [hnames]
    simp only [List.forall_mem_cons]
    exact ⟨⟨_, rfl⟩, ⟨_, rfl⟩, by simp⟩
  have hwalk : brokenName.tree.walk (987 + 1) ⟨.root, ["d"]⟩ ⟨["d"], FileTree.maxLinks⟩ = _ :=
    FileTree.walk_of_files (FileTree.isListable_of_allOpen rfl (by decide) rfl) hfiles
  rw [hnames] at hwalk
  rw [Source.outcome_listTree_of_plain_folder e hasWorkingFolder_brokenName (by unfold Path.IsPlain; decide)
    (fun hlost => absurd hlost.2 (by decide)) hfind rfl]
  show _ <$> (brokenName.tree.walk maxNesting ⟨.root, ["d"]⟩ _).mapError _ = _
  rw [show maxNesting = 987 + 1 from rfl, hwalk]
  rfl

/-- The file with the line feed is listed for `*` and not for `**`, and is left where `**` is excluded. -/
theorem anyDepth_brokenName :
    listing brokenName ⟨SearchPath.resolve [] brokenName, 1⟩ "file:d/**" = .ok [⟨"file:/d/x.js"⟩] ∧
    listing brokenName ⟨SearchPath.resolve [] brokenName, 1⟩ "file:d/*" =
      .ok [⟨"file:/d/a\nb"⟩, ⟨"file:/d/x.js"⟩] ∧
    ∃ files : List (List String),
      [⟨"file:/d/a\nb"⟩, ⟨"file:/d/x.js"⟩] = files.map (Source.fileLocator ⟨.root, ["d"]⟩) ∧
      (∀ names ∈ files, (Source.fileLocator ⟨.root, ["d"]⟩ names ∈ [(⟨"file:/d/x.js"⟩ : Locator)] ↔
        ¬ BreaksInside (joinSlash names))) ∧
      (expand brokenName ⟨SearchPath.resolve [] brokenName, 1⟩ ["file:d/*", "~file:d/**"]).outcome =
        .ok ((files.filter fun names => BreaksInside (joinSlash names)).map
          (Source.fileLocator ⟨.root, ["d"]⟩)) := by
  have hlisting : ∀ pattern : String,
      (∀ c, ("d/" ++ pattern).toList.getLast? = some c → isBlank c = false) →
      (Expression.atPath ("d/" ++ pattern)).root = ["d"] →
      listing brokenName ⟨SearchPath.resolve [] brokenName, 1⟩ ("file:" ++ ("d/" ++ pattern)) =
        .ok (Source.matchingFiles (Expression.atPath ("d/" ++ pattern)) ⟨.root, ["d"]⟩
          [["a\nb"], ["x.js"]]) := by
    intro pattern hlast hroot
    rw [show "file:" = Source.fileOrigin ++ ":" from rfl, listing_atPath _ _ hlast, hroot,
      if_neg (by simp)]
    exact listTree_brokenName _
  have htop := hlisting "**" (isBlank_of_eq_some rfl rfl) (by decide +kernel)
  have hfound := hlisting "*" (isBlank_of_eq_some rfl rfl) (by decide +kernel)
  have hall : Source.matchingFiles (Expression.atPath ("d/" ++ "*")) ⟨.root, ["d"]⟩
      [["a\nb"], ["x.js"]] = [⟨"file:/d/a\nb"⟩, ⟨"file:/d/x.js"⟩] := by decide +kernel
  have hsome : Source.matchingFiles (Expression.atPath ("d/" ++ "**")) ⟨.root, ["d"]⟩
      [["a\nb"], ["x.js"]] = [⟨"file:/d/x.js"⟩] := by decide +kernel
  rw [hsome] at htop
  rw [hall] at hfound
  obtain ⟨-, hlisted⟩ := anyDepth_is_top_but_for_line_feeds brokenName
    ⟨SearchPath.resolve [] brokenName, 1⟩ "d" "*" _ _ hasWorkingFolder_brokenName (by decide)
    (by decide +kernel) (by decide +kernel) (isBlank_of_eq_some rfl rfl) htop hfound
  exact ⟨htop, hfound, hlisted⟩

end AntResources
