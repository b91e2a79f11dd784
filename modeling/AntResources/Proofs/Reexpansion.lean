import AntResources.Proofs.JoinedPaths
import AntResources.Proofs.ReadingFiles

/-!
# AntResources.Proofs.Reexpansion

**What is listed is listed again.** A listed file has a locator that is an expression itself: it begins
with the folder that the file was found in, and its glob is the name of the file
(`Expression.parse_fileLocator`). Listing it walks a part of what was walked before, so that ends well,
and the one name that the glob accepts is the one of the file (`listing_fileLocator`). So expanding the
locators of a result gives the result again. That needs names without wildcards and line ends, and
locators with no blank at their end, which parsing would take off.
-/

namespace AntResources

open Text

open Contribution (Setup)

/-! ### A locator as an expression -/

namespace Expression

variable {above : List String} {name : String}

/-- The expression that the locator of a file is. -/
def ofFile (above : List String) (name : String) : Expression where
  raw := (Source.fileLocator ⟨.root, above⟩ [name]).text
  exclusion := false
  origin := some Source.fileOrigin
  root := above
  glob := [name]
  absolute := true

/-- **The locator of a file parses** to the folder that it is in and its name. -/
theorem parse_fileLocator (hproper : Proper (above ++ [name])) (hup : ".." ∉ above ++ [name])
    (hliteral : ∀ s ∈ above, isGlob s = false)
    (hblank : ∀ c, (Source.fileLocator ⟨.root, above⟩ [name]).text.toList.getLast? = some c →
      isBlank c = false) :
    parse (Source.fileLocator ⟨.root, above⟩ [name]).text = some (ofFile above name) := by
  have hne : above ++ [name] ≠ [] := by simp
  have htext : (Source.fileLocator ⟨.root, above⟩ [name]).text.toList =
      mark false ++ (['f', 'i', 'l', 'e'] ++ ':' :: '/' :: (joinSlash (above ++ [name])).toList) := by
    rw [Source.fileLocator, Path.toString_of_ne_nil hne]
    simp [Source.fileOrigin, Anchor.slashes]
  have hlast : ∀ c, ('/' :: (joinSlash (above ++ [name])).toList).getLast? = some c →
      isBlank c = false := by
    intro c hc
    refine hblank c ?_
    rw [htext, mark_false, List.nil_append, List.getLast?_append_cons, List.getLast?_cons, hc]
    rfl
  have hcut : splitGlob (above ++ [name]) = (above, [name]) := by
    simpa [splitGlob] using splitGlob_literal_append hliteral (List.cons_ne_nil name [])
  rw [parse_of_cut htext (by decide) (by decide) (by decide) (by decide)
    (isBlank_of_eq_some rfl rfl) hlast,
    pathSegments_absolute hproper hup, hcut]
  rfl

end Expression

/-! ### Names in the tree -/

namespace FileTree

variable {t : FileTree}

/-- No name in the tree has a wildcard or a line end in it. -/
def HasLiteralNames (t : FileTree) : Prop :=
  ∀ l name node, t.child? l name = some node →
    '*' ∉ name.toList ∧ '?' ∉ name.toList ∧ '\n' ∉ name.toList

theorem HasLiteralNames.isGlob (h : t.HasLiteralNames) {l : Location} {name : String} {node : Node}
    (hchild : t.child? l name = some node) : Expression.isGlob name = false := by
  obtain ⟨hstar, hmark, -⟩ := h l name node hchild
  exact Expression.isGlob_eq_false_iff.mpr ⟨hstar, hmark⟩

/-- A path leads through things that are there. -/
theorem exists_child?_of_descend {links : Nat} {here : Location} {parts : List String} {spot : Spot}
    (h : t.descend links here parts = .ok spot) {s : String} (hs : s ∈ parts) (hname : s ≠ "")
    (hdot : s ≠ ".") (hup : s ≠ "..") : ∃ l node, t.child? l s = some node := by
  fun_induction FileTree.descend t links here parts with
  | case1 => cases hs
  | case3 | case6 | case7 | case8 => cases h
  | case2 links here part rest hempty ih =>
      exact ih h ((List.mem_cons.mp hs).resolve_left (hempty.1 ▸ hname))
  | case4 links here rest hfolder hempty ih =>
      exact ih h ((List.mem_cons.mp hs).resolve_left hdot)
  | case5 links here rest hfolder hempty hdot' ih =>
      exact ih h ((List.mem_cons.mp hs).resolve_left hup)
  | case9 here part rest hempty hfolder hpart hpart' hlong target hchild links ih =>
      rcases List.mem_cons.mp hs with rfl | hrest
      · exact ⟨here, _, hchild⟩
      · exact ih h (List.mem_append_right _ hrest)
  | case10 links here part rest hempty hfolder hpart hpart' hlong node hlink hchild ih =>
      rcases List.mem_cons.mp hs with rfl | hrest
      · exact ⟨here, node, hchild⟩
      · exact ih h hrest

theorem Reaches.exists_child? {path : Path} {spot sub : Spot} {dir : List String}
    (h : t.Reaches path spot dir sub) : ∀ s ∈ dir, ∃ l node, t.child? l s = some node := by
  induction h with
  | here => simp
  | down hname _ ih => exact List.forall_mem_cons.mpr ⟨⟨_, hname.exists_child?⟩, ih⟩

theorem HasFile.exists_child? {path : Path} {spot : Spot} {names : List String}
    (h : t.HasFile path spot names) : ∀ s ∈ names, ∃ l node, t.child? l s = some node := by
  obtain ⟨dir, name, sub, node, rfl, hreaches, hnode, -⟩ := h
  exact List.forall_mem_append.mpr ⟨hreaches.exists_child?, by simpa using ⟨_, _, hnode⟩⟩

/-- Where names lead in two parts. -/
theorem folderBelow?_append {path : Path} {spot sub : Spot} {above : List String}
    (h : t.folderBelow? path spot above = some sub) (below : List String) :
    t.folderBelow? path spot (above ++ below) = t.folderBelow? (path.below above) sub below := by
  induction above generalizing path spot with
  | nil =>
      obtain rfl := Option.some.inj h
      rw [Path.below_nil]
      rfl
  | cons name above ih =>
      obtain ⟨next, hnext, hrest⟩ := folderBelow?_cons_eq_some_iff.mp h
      rw [List.cons_append, folderBelow?, hnext, Option.bind_some, ih hrest, Path.below_child]

/-- **A walk that ends well** does so from each folder that it comes to. -/
theorem exists_walk_of_folderBelow? {room : Nat} {path : Path} {spot sub : Spot} {dir : List String}
    {found : List (List String)} (h : t.walk room path spot = .ok found)
    (hdir : t.folderBelow? path spot dir = some sub) :
    ∃ files, t.walk room (path.below dir) sub = .ok files := by
  refine exists_walk_eq_ok_iff.mpr fun names final hfinal => ?_
  obtain ⟨hroom, hlistable⟩ := exists_walk_eq_ok_iff.mp ⟨found, h⟩ (dir ++ names) final
    ((folderBelow?_append hdir names).trans hfinal)
  rw [List.length_append] at hroom
  exact ⟨by omega, by rwa [← Path.below_append]⟩

end FileTree

/-! ### A name as a glob -/

namespace Pattern

/-- Pieces that are characters denote just these. -/
theorem denotes_exactly_iff {cs text : List Char} :
    Piece.Denotes (cs.map .exactly) text ↔ text = cs := by
  induction cs generalizing text with
  | nil => rfl
  | cons c cs ih =>
      constructor
      · rintro ⟨rest, rfl, hrest⟩
        rw [ih.mp hrest]
      · rintro rfl
        exact ⟨cs, rfl, ih.mpr rfl⟩

variable {name : String} {names : List String} (hname : Proper [name])
  (hliteral : Expression.isGlob name = false) (hnames : Proper names) (hne : names ≠ [])

include hname hliteral

theorem ofString_literal : Pattern.ofString name = [.name (name.toList.map .char)] := by
  rw [← joinSlash_singleton name, ofString_joinSlash hname, joinSlash_singleton, List.map_singleton,
    Segment.ofChars_of_not_isGlob hliteral]

include hnames hne

/-- **A glob that is a name without wildcards** accepts that name, and that name with a line feed. -/
theorem matchesPath_literal_iff : Pattern.matchesPath name (joinSlash names) = true ↔
    names = [name] ∨ names = [name ++ "\n"] := by
  have hpieces : (Pattern.ofString name).pieces = name.toList.map .exactly := by
    rw [ofString_literal hname hliteral]
    simp [pieces, collapse, piecesFrom, Glyph.piece, Function.comp_def]
  have hsome : Pattern.ofString name ≠ [] := by
    rw [ofString_literal hname hliteral]
    exact List.cons_ne_nil _ _
  have hfeed : Proper [name ++ "\n"] := by
    obtain ⟨hempty, -, hslash⟩ := hname name (List.mem_singleton_self name)
    intro s hs
    obtain rfl := List.mem_singleton.mp hs
    have hlast : ∀ other : String, other.toList.getLast? ≠ some '\n' → name ++ "\n" ≠ other := by
      rintro other hother rfl
      exact hother (by simp)
    exact ⟨hlast "" (by decide), hlast "." (by decide), by simpa using hslash⟩
  have hsame : ∀ {other : String}, Proper [other] →
      ((joinSlash names).toList = other.toList ↔ names = [other]) := by
    intro other hother
    rw [String.toList_inj]
    constructor
    · rw [← joinSlash_singleton other]
      intro heq
      rw [hnames.joinSlash_inj hother hne (List.cons_ne_nil _ _) heq, joinSlash_singleton]
    · rintro rfl
      exact joinSlash_singleton other
  rw [matchesPath_iff_denotes, dropPathStart_joinSlash hnames, hpieces, and_iff_right hsome]
  simp only [denotes_exactly_iff, exists_eq_right, hsame hname, ← hsame hfeed, String.toList_append]
  rfl

/-- Of names without line feeds it accepts just that one. -/
theorem matchesPath_name_iff (hline : ∀ s ∈ names, '\n' ∉ s.toList) :
    Pattern.matchesPath name (joinSlash names) = true ↔ names = [name] := by
  rw [matchesPath_literal_iff hname hliteral hnames hne, or_iff_left]
  rintro rfl
  exact hline _ (List.mem_singleton_self _) (by simp)

end Pattern

/-! ### Listing a file again -/

section Listing

variable {w : World} {root : Path} {spot sub : FileTree.Spot} {files : List (List String)}
  {dir : List String} {name : String}

/-- A folder that a walk comes to is found under its own path. -/
theorem find_of_reaches (hanchor : root.anchor ≠ .relative) (hfind : w.tree.find w.cwd root = .ok spot)
    (hfolder : w.tree.isFolderAt spot.location = true) (hreaches : w.tree.Reaches root spot dir sub)
    (hlistable : w.tree.isListable (root.below dir) = true) :
    w.tree.find w.cwd (root.below dir) = .ok sub := by
  have hnul : (root.below dir).hasNul = false := by
    refine FileTree.hasNul_below (FileTree.hasNul_of_find hfind) fun s hs => ?_
    obtain ⟨-, -, -, -, hnul⟩ := FileTree.isName_iff.mp (hreaches.isName s hs)
    exact hnul
  obtain ⟨hbytes, -⟩ := FileTree.isListable_iff.mp hlistable
  rw [FileTree.find_below hfind, hnul, if_neg Bool.false_ne_true, if_neg (by omega),
    hreaches.find hanchor hfind hfolder hlistable]

/-- Of the files below a folder, the name of one in it as a glob lists just that. -/
theorem matchingFiles_name (above : List String) (hliteral : w.tree.HasLiteralNames)
    (hwalk : w.tree.walk maxNesting root spot = .ok files) (hname : [name] ∈ files) :
    Source.matchingFiles (Expression.ofFile above name) root files = [Source.fileLocator root [name]] := by
  have hfile : ∀ names ∈ files, w.tree.HasFile root spot names := fun _ =>
    (FileTree.mem_walk_iff_hasFile hwalk).mp
  have hnodup : files.Nodup := FileTree.nodup_of_pairwise (FileTree.pairwise_walk hwalk)
  have hmatches : ∀ names ∈ files,
      Pattern.matchesPath (Expression.ofFile above name).globText (joinSlash names) =
        decide (names = [name]) := by
    intro names hnames
    obtain ⟨l, node, hnode⟩ := (hfile _ hname).exists_child? name (List.mem_singleton_self _)
    rw [Bool.eq_iff_iff, decide_eq_true_iff]
    refine Pattern.matchesPath_name_iff (hfile _ hname).proper (hliteral.isGlob hnode)
      (hfile _ hnames).proper (hfile _ hnames).ne_nil fun s hs => ?_
    obtain ⟨l, node, hnode⟩ := (hfile _ hnames).exists_child? s hs
    exact (hliteral l s node hnode).2.2
  rw [Source.matchingFiles, List.filter_congr hmatches, List.filter_eq,
    List.count_eq_one_of_mem hnodup hname]
  rfl

end Listing

namespace World.Finds

variable {w : World} {entry : Entry}

/-- The path of an entry that was found has no wildcards in it, as nothing in the tree has. -/
theorem isGlob_path (h : w.Finds entry) (hliteral : w.tree.HasLiteralNames)
    (hup : ".." ∉ entry.root.parts) : ∀ s ∈ entry.path.parts, Expression.isGlob s = false := by
  obtain ⟨spot, hfind, -, hreaches⟩ := h.reached
  obtain ⟨node, hnode⟩ := h.there
  obtain ⟨-, -, -, hdescend⟩ := FileTree.find_eq_ok_iff.mp hfind
  have hthere : ∀ s ∈ entry.path.parts, ∃ l node, w.tree.child? l s = some node := by
    refine List.forall_mem_append.mpr ⟨fun s hs => ?_, List.forall_mem_append.mpr
      ⟨hreaches.exists_child?, by simpa using ⟨_, node, hnode⟩⟩⟩
    obtain ⟨hempty, hdot, -⟩ := h.proper s hs
    exact FileTree.exists_child?_of_descend hdescend hs hempty hdot fun heq => hup (heq ▸ hs)
  intro s hs
  obtain ⟨l, node, hnode⟩ := hthere s hs
  exact hliteral.isGlob hnode

/-- The locator of an entry is that of its name in its folder. -/
theorem locator_eq (hanchor : entry.root.anchor = .root) :
    entry.locator = Source.fileLocator ⟨.root, entry.root.parts ++ entry.dir⟩ [entry.name] := by
  simp [Entry.locator, Source.fileLocator, hanchor]

theorem parse_locator (h : w.Finds entry) (hliteral : w.tree.HasLiteralNames)
    (hanchor : entry.root.anchor = .root) (hup : ".." ∉ entry.root.parts)
    (hblank : ∀ c, entry.locator.text.toList.getLast? = some c → isBlank c = false) :
    Expression.parse entry.locator.text =
      some (Expression.ofFile (entry.root.parts ++ entry.dir) entry.name) := by
  have hparts : entry.path.parts = entry.root.parts ++ entry.dir ++ [entry.name] := by
    simp [Entry.path, Path.below]
  have hproper := h.proper_path
  have hliteral := h.isGlob_path hliteral hup
  have hup : ".." ∉ entry.path.parts := by
    rw [Entry.path, Path.below, List.mem_append, not_or]
    exact ⟨hup, fun hmem => (FileTree.isName_iff.mp (h.isName _ hmem)).2.2.1 rfl⟩
  rw [hparts] at hproper hup hliteral
  rw [locator_eq hanchor] at hblank ⊢
  exact Expression.parse_fileLocator hproper hup
    (fun s hs => hliteral s (List.mem_append_left _ hs)) hblank

/-- **An entry that was found is listed again**, and on its own, by its locator. -/
theorem listing_locator (h : w.Finds entry) (hliteral : w.tree.HasLiteralNames)
    (hcwd : w.HasWorkingFolder) (hanchor : entry.root.anchor = .root)
    (hup : ".." ∉ entry.root.parts)
    (hblank : ∀ c, entry.locator.text.toList.getLast? = some c → isBlank c = false)
    {files : List (List String)} (hfiles : Source.filesBelow w entry.root = .ok files)
    (setup : Setup) : listing w setup entry.locator.text = .ok [entry.locator] := by
  obtain ⟨spot, hfind, hfolder, hwalk⟩ := exists_walk_of_filesBelow hfiles
  obtain ⟨spot', hfind', -, hreaches⟩ := h.reached
  obtain rfl := Except.ok.inj (hfind.symm.trans hfind')
  have hparse := h.parse_locator hliteral hanchor hup hblank
  have hsub := hreaches.isFolderAt hfolder
  have hbelow := FileTree.folderBelow?_eq_some_iff_reaches.mpr hreaches
  -- The folder of the entry is found, and walked, under its own path.
  obtain ⟨-, hlistable⟩ := FileTree.exists_walk_eq_ok_iff.mp ⟨files, hwalk⟩ entry.dir _ hbelow
  have hspot := find_of_reaches h.anchored hfind hfolder hreaches hlistable
  obtain ⟨found, hfound⟩ := FileTree.exists_walk_of_folderBelow? hwalk hbelow
  have hfile : [entry.name] ∈ found := by
    obtain ⟨node, hnode⟩ := h.there
    refine (FileTree.mem_walk_iff_hasFile hfound).mpr
      ⟨[], entry.name, entry.sub, node, rfl, .here, hnode, ?_⟩
    rw [Path.below_nil]
    exact h.noFolder
  have hbase : entry.root.below entry.dir = ⟨.root, entry.root.parts ++ entry.dir⟩ := by
    rw [Path.below, hanchor]
  have hplain : (entry.root.below entry.dir).IsPlain := by
    refine List.forall_mem_append.mpr ⟨fun s hs => ?_, fun s hs => ?_⟩
    · exact ⟨(h.proper s hs).1, (h.proper s hs).2.1, fun heq => hup (heq ▸ hs)⟩
    · obtain ⟨hempty, hdot, hup, -⟩ := FileTree.isName_iff.mp (hreaches.isName s hs)
      exact ⟨hempty, hdot, hup⟩
  have habsolute : (entry.root.below entry.dir).absolute w.cwd = entry.root.below entry.dir := by
    rw [hplain.absolute, if_neg (by simp [hbase])]
  have hlisted := Source.outcome_listTree_of_plain_folder
    (Expression.ofFile (entry.root.parts ++ entry.dir) entry.name) hcwd hplain
    (fun hlost => absurd hlost.1 (by simp [hbase])) hspot hsub
  rw [habsolute, hfound] at hlisted
  have hstart : Path.ofString (Expression.ofFile (entry.root.parts ++ entry.dir) entry.name).baseDir =
      entry.root.below entry.dir := by
    rw [Expression.ofString_baseDir hparse, hbase]
    rfl
  obtain ⟨lookup, workers⟩ := setup
  rw [listing_of_fileOrigin hparse rfl, hstart, hlisted, locator_eq hanchor, ← hbase]
  exact congrArg Except.ok (matchingFiles_name _ hliteral hfound hfile)

end World.Finds

/-! ### Expanding again -/

/-- Entries that each list one resource, all different, list these in their order. -/
theorem outcome_expand_of_listing_singleton {w : World} {setup : Setup} {ls : List Locator}
    (hnodup : ls.Nodup)
    (h : ∀ l ∈ ls, listing w setup l.text = .ok [l] ∧ isExclusion l.text = false) :
    (expand w setup (ls.map Locator.text)).outcome = .ok ls := by
  have hexclusion : ∀ text ∈ ls.map Locator.text, isExclusion text = false := by
    simpa using fun l hl => (h l hl).2
  have hinclusion : ∀ l ∈ ls, isInclusion l.text = true := by
    intro l hl
    have hne : l.text ≠ "" := fun hempty => by
      have hlisting := (h l hl).1
      rw [hempty] at hlisting
      cases hlisting
    simp [isInclusion, hne, (h l hl).2]
  have hlisting : inclusionListing w setup (ls.map Locator.text) = ls := by
    have hkept : (ls.map Locator.text).filter isInclusion = ls.map Locator.text := by
      rw [List.filter_eq_self]
      simpa using hinclusion
    have hlisted : ls.map (fun l => listed w setup l.text) = ls.map fun l => [l] :=
      List.map_congr_left fun l hl => listed_of_listing (h l hl).1
    rw [inclusionListing, hkept, List.flatMap_map, List.flatMap_def, hlisted, ← List.flatMap_def,
      List.flatMap_singleton']
  refine outcome_expand_eq_ok_iff.mpr ⟨fun text htext _ => ?_, ?_⟩
  · obtain ⟨l, hl, rfl⟩ := List.mem_map.mp htext
    exact ⟨_, (h l hl).1⟩
  · have hexpansion : IsExpansion w setup (ls.map Locator.text) _ :=
      isExpansion_unique_inclusionListing hexclusion
    rwa [hlisting, Locator.unique_of_nodup hnodup] at hexpansion

/-- **Expanding a result again gives the same result**, whatever the search path is. -/
theorem expand_expanded (w : World) (setup other : Setup) (texts : List String) (ls : List Locator)
    (hcwd : w.HasWorkingFolder) (hliteral : w.tree.HasLiteralNames)
    (hfile : ∀ text ∈ texts, ∀ e, Expression.parse text = some e → e.origin = some Source.fileOrigin)
    (hexpand : (expand w setup texts).outcome = .ok ls)
    (hblank : ∀ l ∈ ls, ∀ c, l.text.toList.getLast? = some c → isBlank c = false) :
    (expand w other (ls.map Locator.text)).outcome = .ok ls := by
  refine outcome_expand_of_listing_singleton (outcome_expand_eq_ok_iff.mp hexpand).2.nodup ?_
  intro l hl
  obtain ⟨text, htext, e, source, found, hparse, -, hsource, hlist, hfound⟩ :=
    exists_source_of_mem_expand hexpand hl
  have horigin := hfile text htext e hparse
  have htree : source = .tree (Path.ofString e.baseDir) := by
    rw [Source.outcome_choose, if_neg (by rw [horigin]; decide), if_pos horigin] at hsource
    exact (Except.ok.inj hsource).symm
  rw [htree, Expression.ofString_baseDir hparse] at hlist
  obtain ⟨root, files, names, habsolute, hfiles, hnames, rfl⟩ :=
    Source.exists_file_of_mem_listTree hlist hfound
  obtain ⟨hroot, hthere⟩ := FileTree.absolute_eq_ok habsolute
  have hanchor : root.anchor = .root := by
    rw [hroot, Path.anchor_absolute]
    cases e.absolute <;> rfl
  have hproper : Proper root.parts := by
    rw [hroot]
    exact Path.proper_absolute (Expression.proper_root_of_parse hparse) fun hrel =>
      (hcwd (hthere hrel)).proper
  have hup : ".." ∉ root.parts := by
    rw [hroot]
    exact Path.not_mem_absolute fun hrel => (hcwd (hthere hrel)).not_mem_up
  obtain ⟨entry, hfinds, rfl, rfl⟩ :=
    exists_finds_of_mem_filesBelow (by simp [hanchor]) hproper hfiles hnames
  refine ⟨hfinds.listing_locator hliteral hcwd hanchor hup (hblank _ hl) hfiles other, ?_⟩
  have hagain := hfinds.parse_locator hliteral hanchor hup (hblank _ hl)
  rw [Entry.locator] at hagain
  rw [isExclusion, hagain]
  rfl

theorem hasLiteralNames_twoFolders : twoFolders.tree.HasLiteralNames := by
  intro l name node hchild
  obtain ⟨-, node, hnode⟩ := FileTree.exists_child?_iff.mp ⟨node, hchild⟩
  have hlast : name ∈ ["c", "d", "x.js", "d", "x.js"] := by
    have hplace := List.mem_map_of_mem (f := fun entry => entry.1.getLast?) hnode
    simpa [twoFolders] using hplace
  have hall : ∀ name ∈ ["c", "d", "x.js", "d", "x.js"],
      '*' ∉ name.toList ∧ '?' ∉ name.toList ∧ '\n' ∉ name.toList := by decide
  exact hall name hlast

/-- The scripts in the folder next to the working folder. -/
def scriptsBeside : Expression :=
  ⟨"file:../d/*.js", false, some "file", ["..", "d"], ["*.js"], false⟩

theorem parse_scriptsBeside : Expression.parse "file:../d/*.js" = some scriptsBeside := rfl

theorem expand_scriptsBeside : (expand twoFolders ⟨SearchPath.resolve [] twoFolders, 1⟩
    ["file:../d/*.js"]).outcome = .ok [⟨"file:/d/x.js"⟩] := by
  have hfind : twoFolders.tree.find twoFolders.cwd ⟨.relative, ["..", "d"]⟩ =
      .ok ⟨["d"], FileTree.maxLinks⟩ := by
    have hchild : twoFolders.tree.child? [] "d" = some .folder := rfl
    rw [FileTree.find, if_neg (by decide), if_neg (by decide), FileTree.along_of_ne_nil (by simp)]
    show twoFolders.tree.descend _ ["c"] _ = _
    rw [FileTree.descend_up rfl]
    show twoFolders.tree.descend _ [] _ = _
    rw [FileTree.descend_of_child_eq_some _ _ rfl (by decide) hchild (by simp), FileTree.descend]
    rfl
  have hlist : (Source.listTree twoFolders scriptsBeside ⟨.relative, ["..", "d"]⟩).outcome =
      .ok [⟨"file:/d/x.js"⟩] := by
    rw [Source.outcome_listTree, World.isFolder_of_find hfind]
    show Source.matchingFiles scriptsBeside _ <$> Source.filesBelow twoFolders ⟨.root, ["d"]⟩ = _
    rw [filesBelow_twoFolders]
    decide +kernel
  rw [outcome_expand_singleton _ _ (by decide), listing_of_fileOrigin parse_scriptsBeside rfl,
    Expression.ofString_baseDir parse_scriptsBeside]
  show _ <$> (Source.listTree twoFolders scriptsBeside ⟨.relative, ["..", "d"]⟩).outcome = _
  rw [hlist]
  rfl

/-- What a relative path finds beside the working folder is found there again. -/
theorem expand_expanded_twoFolders : (expand twoFolders ⟨SearchPath.resolve [] twoFolders, 1⟩
    ["file:/d/x.js"]).outcome = .ok [⟨"file:/d/x.js"⟩] := by
  have hfile : ∀ text ∈ ["file:../d/*.js"], ∀ e, Expression.parse text = some e →
      e.origin = some Source.fileOrigin := by
    intro text htext e hparse
    rw [List.mem_singleton.mp htext, parse_scriptsBeside] at hparse
    rw [← Option.some.inj hparse]
    rfl
  have hblank : ∀ l ∈ [(⟨"file:/d/x.js"⟩ : Locator)], ∀ c, l.text.toList.getLast? = some c →
      isBlank c = false := by
    intro l hl c hc
    rw [List.mem_singleton.mp hl] at hc
    exact isBlank_of_eq_some rfl rfl c hc
  exact expand_expanded twoFolders _ _ ["file:../d/*.js"] _ hasWorkingFolder_twoFolders
    hasLiteralNames_twoFolders hfile expand_scriptsBeside hblank

end AntResources
