import AntResources.Proofs.Climbs
import AntResources.Proofs.LookupLocality

/-!
# AntResources.Proofs.Containment

**How far a lookup gets from the search path.** What is listed or read for a root or a name is in an archive
of the search path, or it is found from a folder of the search path by going the way of the root or the name.
That way may climb first. From a folder it then comes out below the folder exactly if it goes down again
where it has climbed, and otherwise beside it (`classpath_containment`). The root of an expression that
starts with a slash does not climb.
-/

namespace AntResources

open Text

/-! ### The roots of expressions -/

namespace Expression

variable {text : String} {e : Expression}

theorem climbsFirst_root (h : parse text = some e) : ClimbsFirst e.root := by
  obtain ⟨path, hpath, -⟩ := exists_of_parse h
  have hall : ClimbsFirst (e.root ++ e.glob) := hpath ▸ climbsFirst_normalize _ _
  exact hall.of_append

/-- Behind a slash the root of an expression does not climb. -/
theorem climbs_root_of_absolute (h : parse text = some e) (habsolute : e.absolute = true) :
    climbs e.root = 0 := by
  obtain ⟨path, hpath, hslash⟩ := exists_of_parse h
  have hup : ".." ∉ e.root ++ e.glob := by
    rw [hpath, pathSegments, ← hslash, habsolute]
    exact not_mem_normalizeOnto_rooted List.not_mem_nil _
  exact climbs_replicate_append 0 fun hmem => hup (List.mem_append_left _ hmem)

end Expression

/-! ### What is listed -/

section Listed

variable {w : World} {sp : SearchPath} {workers : Int} {text : String} {e : Expression}
  {ls : List Locator} {l : Locator}

/-- **A file that is listed on the search path** is found from a folder of it, by the way of the root. -/
theorem exists_folder_of_mem_expandOn (hparse : Expression.parse text = some e)
    (horigin : e.origin = some Source.classpathOrigin) (h : w.expandOn workers sp text = .ok ls)
    (hl : l ∈ ls) (hfile : l.origin = some Source.fileOrigin) :
    ∃ d ∈ sp, w.isFolder d = .ok true ∧ ¬ w.IsLost d ∧
      ∃ names, l = Source.fileLocator ((d.below e.root).absolute w.cwd) names := by
  obtain ⟨other, hmem, e', source, found, hparse', -, hsource, hlist, hl⟩ :=
    exists_source_of_mem_expand h hl
  obtain rfl := List.mem_singleton.mp hmem
  obtain rfl := Option.some.inj (hparse.symm.trans hparse')
  rcases Source.choose_resolve_cases hparse hsource with ⟨-, roots, rfl, -⟩ |
    ⟨-, d, hd, hfolder, rfl⟩ | ⟨hother, -⟩ | ⟨hother, -⟩
  · obtain ⟨-, -, -, -, m, -, -, -, rfl⟩ := Source.exists_member_of_mem_listArchives hlist hl
    rw [horigin, Option.getD_some, Locator.origin_classpath] at hfile
    exact absurd hfile (by decide)
  · obtain ⟨root, files, names, hroot, -, -, rfl⟩ := Source.exists_file_of_mem_listTree hlist hl
    obtain ⟨rfl, hthere⟩ := FileTree.absolute_eq_ok hroot
    exact ⟨d, hd, hfolder, fun hlost => by simpa [hlost.2] using hthere hlost.1, names, rfl⟩
  · rw [horigin] at hother
    exact absurd hother (by decide)
  · exact absurd horigin hother

end Listed

/-! ### What is read -/

namespace World

variable {w : World} {p : Path}

theorem exists_of_isFolder (h : w.isFolder p = .ok true) :
    ∃ spot, w.tree.find w.cwd p = .ok spot ∧ w.tree.isFolderAt spot.location = true := by
  cases hfind : w.tree.find w.cwd p with
  | ok spot => exact ⟨spot, rfl, Except.ok.inj ((isFolder_of_find hfind).symm.trans h)⟩
  | error obstacle =>
      cases hrefusal : obstacle.refusal? with
      | none => cases (isFolder_of_find_error hfind hrefusal).symm.trans h
      | some fault => cases (isFolder_of_refuses ⟨obstacle, hfind, hrefusal⟩).symm.trans h

theorem exists_file_of_contents {content : ByteArray} (hfile : w.isFile p = .ok true)
    (h : w.contents p = .ok (some content)) : ∃ spot, w.tree.find w.cwd p = .ok spot ∧
      w.tree.node? spot.location = some (.file content) := by
  obtain ⟨spot, node, hspot, hnode, hcontent⟩ := contents_eq_ok_some_iff.mp h
  refine ⟨spot, hspot, ?_⟩
  rw [isFile, FileTree.isFile, FileTree.test, FileTree.lookUp, hspot] at hfile
  simp only [hnode] at hfile
  cases node with
  | file other =>
      cases hcontent
      exact hnode
  | _ => cases hfile

end World

section Read

variable {w : World} {sp : SearchPath} {timeout : Option Binary64} {encoding : Encoding}
  {name text : String}

theorem SearchPath.exists_readAt_of_readFrom {places : List RootLocation}
    (h : readFrom w encoding name places = .ok (some text)) :
    ∃ place ∈ places, readAt w encoding name place = .ok (some text) := by
  induction places with
  | nil => cases h
  | cons place rest ih =>
      rw [readFrom_cons] at h
      obtain ⟨found, hfound, hrest⟩ := bind_eq_ok_iff.mp h
      cases found with
      | some other =>
          cases hrest
          exact ⟨place, List.mem_cons_self, hfound⟩
      | none =>
          obtain ⟨other, hother, hread⟩ := ih hrest
          exact ⟨other, List.mem_cons_of_mem _ hother, hread⟩

/-- What is read under a name is read from an entry that provides it. -/
theorem exists_provider_of_read
    (h : ((nameLocator name).read w ⟨sp.resolve w, timeout, encoding⟩).outcome = .ok text) :
    ∃ p ∈ sp, w.Provides (stripSlashes name) p ∧ SearchPath.readAt w encoding (stripSlashes name)
      (w.placeAt (stripSlashes name) p) = .ok (some text) := by
  rcases w.answer_or_stops (stripSlashes name) sp with hanswers | ⟨before, p, after, failure, hstops⟩
  · rw [Locator.outcome_read_of_answers hanswers] at h
    obtain ⟨found, hfound, htext⟩ := bind_eq_ok_iff.mp h
    cases found with
    | none => cases htext
    | some other =>
        cases htext
        obtain ⟨place, hplace, hread⟩ := SearchPath.exists_readAt_of_readFrom hfound
        obtain ⟨p, hp, rfl⟩ := List.mem_map.mp hplace
        obtain ⟨hmem, hprovides⟩ := World.mem_providers_iff.mp hp
        exact ⟨p, hmem, hprovides, hread⟩
  · rw [Locator.outcome_read_of_stops ⟨before, p, after, hstops⟩] at h
    cases h

/-- The segments of a name without the slashes at its ends. -/
def nameSegments (name : String) : List String := (Path.ofString (stripSlashes name)).parts

/-- The way of a name, in normal form. -/
def nameWay (name : String) : List String := normalize false (nameSegments name)

theorem SearchPath.candidate_stripSlashes (name : String) (p : Path) :
    candidate (stripSlashes name) p = p.below (nameSegments name) := by
  have hrelative : (Path.ofString (stripSlashes name)).anchor = .relative := by
    rw [Path.ofString, takeWhile_slash (head?_stripSlashes name)]
    rfl
  rw [candidate]
  split
  · next hempty => rw [nameSegments, hempty]; simp [Path.ofString, splitSlash, split]
  · rw [Path.join, if_pos hrelative]
    rfl

/-- A text that is read below a folder of the search path: `top` is where the folder is, and `spot` where the
way of the segments leads from there. -/
structure World.ReadsBelow (w : World) (encoding : Encoding) (d : Path) (segments : List String)
    (text : String) (top spot : FileTree.Spot) : Prop where
  folder : w.tree.find w.cwd d = .ok top
  isFolder : w.tree.isFolderAt top.location = true
  way : w.tree.find w.cwd (d.below segments) = .ok spot
  content : ∃ content, w.tree.node? spot.location = some (.file content) ∧
    encoding.decodeFile content = .text text

/-- Where no link is met, the way leads where its text says. -/
theorem World.ReadsBelow.location {d : Path} {segments : List String} {top spot : FileTree.Spot}
    (h : w.ReadsBelow encoding d segments text top spot) (hsegments : Proper segments)
    (hlinks : w.tree.LinklessBelow
      (top.location.take (top.location.length - climbs (normalize false segments)))) :
    spot.location = top.location.take (top.location.length - climbs (normalize false segments)) ++
      descent (normalize false segments) := by
  have hway := h.way
  rw [FileTree.find_below h.folder] at hway
  split at hway
  · cases hway
  split at hway
  · cases hway
  have hnone : ".." ∉ ([] : List String) := List.not_mem_nil
  have hform : normalizeOnto false (List.replicate 0 ".." ++ []).reverse segments =
      List.replicate (climbs (normalize false segments)) ".." ++ descent (normalize false segments) :=
    (replicate_climbs_append_descent _).symm
  exact FileTree.descend_of_linkless hsegments hnone (climbsFirst_normalize false segments) hform hlinks
    (by simpa using hway)

/-- **A text that is read under a name** is that of a member of an archive on the search path, or it is read
below a folder of it. -/
theorem exists_source_of_read
    (h : ((nameLocator name).read w ⟨sp.resolve w, timeout, encoding⟩).outcome = .ok text) :
    (∃ z ∈ sp, ∃ archive, w.openArchive z = .ok archive ∧ ∃ m ∈ archive.members,
      m.name = stripSlashes name ∧ archive.text? w.decompressors encoding m = some text) ∨
    ∃ d ∈ sp, ∃ top spot, w.ReadsBelow encoding d (nameSegments name) text top spot := by
  obtain ⟨p, hp, hprovides, hread⟩ := exists_provider_of_read h
  rw [World.placeAt] at hread
  split at hread
  next hfolder =>
    rw [SearchPath.candidate_stripSlashes] at hread
    obtain ⟨isFile, hisFile, hread⟩ := bind_eq_ok_iff.mp hread
    cases isFile with
    | false => cases hread
    | true =>
        rw [if_pos rfl] at hread
        obtain ⟨other, hother, htext⟩ := bind_eq_ok_iff.mp hread
        cases htext
        obtain ⟨content, hcontent, hdecode⟩ := World.readFile_eq_ok_iff.mp hother
        obtain ⟨spot, hspot, hnode⟩ := World.exists_file_of_contents hisFile hcontent
        obtain ⟨top, htop, hthere⟩ := World.exists_of_isFolder hfolder
        exact .inr ⟨p, hp, top, spot, htop, hthere, hspot, content, hnode, hdecode⟩
  next hfolder =>
    obtain ⟨archive, hopen, -⟩ := bind_eq_ok_iff.mp hread
    obtain ⟨m, hm, htext⟩ := SearchPath.exists_of_readAt_archive hopen hread
    obtain ⟨hname, before, after, hmembers, -⟩ := Archive.member?_eq_some_iff.mp hm
    exact .inl ⟨p, hp, archive, hopen, m, by simp [hmembers], hname, htext⟩

end Read

/-! ### The result -/

/-- **How far a lookup gets from the search path.** A file that is listed on the search path lies below the
folder from which it is found, unless the root of the expression climbs and does not go down again where it
has climbed; behind a slash it does not climb. What is read under a name is the member of that name of an
archive, or a file below a folder, with the same exception. -/
theorem classpath_containment (w : World) (sp : SearchPath) (workers : Int) (hcwd : w.HasWorkingFolder) :
    (∀ text e ls l, Expression.parse text = some e → e.origin = some Source.classpathOrigin →
      w.expandOn workers sp text = .ok ls → l ∈ ls → l.origin = some Source.fileOrigin →
      ∃ d ∈ sp, w.isFolder d = .ok true ∧ ∃ names path,
        path = ((d.absolute w.cwd).ascend (climbs e.root)).below (descent e.root ++ names) ∧
        l = ⟨Source.fileOrigin ++ ":" ++ path.toString⟩ ∧
        (path.LiesBelow (d.absolute w.cwd) ↔
          (d.absolute w.cwd).parts.drop ((d.absolute w.cwd).parts.length - climbs e.root) <+:
            descent e.root ++ names) ∧
        (e.absolute = true → path.LiesBelow (d.absolute w.cwd))) ∧
    (∀ name timeout encoding text,
      ((nameLocator name).read w ⟨sp.resolve w, timeout, encoding⟩).outcome = .ok text →
      (∃ z ∈ sp, ∃ archive, w.openArchive z = .ok archive ∧ ∃ m ∈ archive.members,
        m.name = stripSlashes name ∧ archive.text? w.decompressors encoding m = some text) ∨
      ∃ d ∈ sp, ∃ top spot, w.ReadsBelow encoding d (nameSegments name) text top spot ∧
        (w.tree.LinklessBelow (top.location.take (top.location.length - climbs (nameWay name))) →
          spot.location = top.location.take (top.location.length - climbs (nameWay name)) ++
            descent (nameWay name) ∧
          (top.location <+: spot.location ↔
            top.location.drop (top.location.length - climbs (nameWay name)) <+:
              descent (nameWay name)))) := by
  constructor
  · intro text e ls l hparse horigin hexpand hl hfile
    obtain ⟨d, hd, hfolder, hlost, names, rfl⟩ :=
      exists_folder_of_mem_expandOn hparse horigin hexpand hl hfile
    have hup : d.anchor = .relative → ".." ∉ w.cwd := fun hanchor =>
      (hcwd (by simpa [World.IsLost, hanchor] using hlost)).not_mem_up
    have hbase := Path.absolute_below_of_climbsFirst hup (Expression.climbsFirst_root hparse)
      (Expression.proper_root_of_parse hparse)
    refine ⟨d, hd, hfolder, names, _, rfl, ?_, Path.liesBelow_ascend_iff, fun habsolute => ?_⟩
    · rw [hbase, Path.below_append]
      rfl
    · rw [Path.liesBelow_ascend_iff, Expression.climbs_root_of_absolute hparse habsolute]
      simp
  · intro name timeout encoding text hread
    rcases exists_source_of_read hread with hmember | ⟨d, hd, top, spot, hbelow⟩
    · exact .inl hmember
    · refine .inr ⟨d, hd, top, spot, hbelow, fun hlinks => ?_⟩
      have hlocation := hbelow.location (Path.proper_ofString _) hlinks
      exact ⟨hlocation, hlocation ▸ prefix_take_append_iff _ _ _⟩

/-- An expression for the scripts in a folder `d` two levels further up. -/
def scriptsFurtherUp : Expression :=
  ⟨"classpath:../../d/*.js", false, some "classpath", ["..", "..", "d"], ["*.js"], false⟩

theorem find_up_twoFolders : twoFolders.tree.find twoFolders.cwd ⟨.relative, ["d", "..", "..", "d"]⟩ =
    .ok ⟨["d"], FileTree.maxLinks⟩ := by
  have hinner : twoFolders.tree.child? ["c"] "d" = some .folder := rfl
  have houter : twoFolders.tree.child? [] "d" = some .folder := rfl
  rw [FileTree.find, if_neg (by decide), if_neg (by decide), FileTree.along_of_ne_nil (by simp)]
  show twoFolders.tree.descend _ ["c"] _ = _
  rw [FileTree.descend_of_child_eq_some _ _ rfl (by decide) hinner (by simp)]
  show twoFolders.tree.descend _ ["c", "d"] _ = _
  rw [FileTree.descend_up rfl, FileTree.descend_up rfl]
  show twoFolders.tree.descend _ [] _ = _
  rw [FileTree.descend_of_child_eq_some _ _ rfl (by decide) houter (by simp), FileTree.descend]
  rfl

theorem isFolder_twoFolders : twoFolders.isFolder ⟨.relative, ["d"]⟩ = .ok true := by
  have hchild : twoFolders.tree.child? (FileTree.start twoFolders.cwd ⟨.relative, ["d"]⟩ ++ []) "d" =
      some .folder := rfl
  exact World.isFolder_of_find (isThere_twoFolders.find rfl rfl (by decide) (by decide) hchild (by simp))

/-- The folder `c/d` provides what is in the other folder. -/
theorem locate_up_twoFolders {root : String} {names : List String} {spot : FileTree.Spot} {node : Node}
    (hroot : SearchPath.candidate root ⟨.relative, ["d"]⟩ = ⟨.relative, names⟩)
    (hfind : twoFolders.tree.find twoFolders.cwd ⟨.relative, names⟩ = .ok spot)
    (hnode : twoFolders.tree.node? spot.location = some node) :
    SearchPath.locate twoFolders root ⟨.relative, ["d"]⟩ = .ok (some (.tree ⟨.relative, names⟩)) := by
  have hpresent : twoFolders.isPresent ⟨.relative, names⟩ = .ok true := by
    unfold World.isPresent FileTree.isPresent FileTree.test FileTree.lookUp
    rw [hfind]
    dsimp only
    rw [hnode]
    rfl
  rw [SearchPath.locate_of_isFolder isFolder_twoFolders, hroot, hpresent]
  rfl

theorem expandOn_twoFolders : twoFolders.expandOn 1 [⟨.relative, ["d"]⟩] "classpath:../../d/*.js" =
    .ok [⟨"file:/d/x.js"⟩] := by
  have hparse : Expression.parse "classpath:../../d/*.js" = some scriptsFurtherUp := rfl
  have hlocate : SearchPath.locate twoFolders scriptsFurtherUp.rootDir ⟨.relative, ["d"]⟩ =
      .ok (some (.tree ⟨.relative, ["d", "..", "..", "d"]⟩)) :=
    locate_up_twoFolders rfl find_up_twoFolders rfl
  have hanswers : ∀ p ∈ [(⟨.relative, ["d"]⟩ : Path)], twoFolders.Answers scriptsFurtherUp.rootDir p := by
    simpa using World.answers_iff.mpr ⟨_, hlocate⟩
  have hfirst := World.providers_cons_of_provides (SearchPath.locate_eq_ok_some_iff.mp hlocate).1 []
  have hlist : (Source.listTree twoFolders scriptsFurtherUp
      ⟨.relative, ["d", "..", "..", "d"]⟩).outcome = .ok [⟨"file:/d/x.js"⟩] := by
    rw [Source.outcome_listTree, World.isFolder_of_find find_up_twoFolders]
    show Source.matchingFiles scriptsFurtherUp _ <$> Source.filesBelow twoFolders ⟨.root, ["d"]⟩ = _
    rw [filesBelow_twoFolders]
    decide +kernel
  rw [World.expandOn_eq hparse, listing_of_first_folder hparse rfl hanswers hfirst isFolder_twoFolders]
  show _ <$> (Source.listTree twoFolders scriptsFurtherUp _).outcome = _
  rw [show Path.below ⟨.relative, ["d"]⟩ scriptsFurtherUp.root = ⟨.relative, ["d", "..", "..", "d"]⟩
    from rfl, hlist]
  rfl

theorem read_up_twoFolders : ((nameLocator "../../d/x.js").read twoFolders
    ⟨SearchPath.resolve [⟨.relative, ["d"]⟩] twoFolders, none, .utf8⟩).outcome = .ok "1" := by
  have hchild : twoFolders.tree.child? ["d"] "x.js" = some (.file ⟨#[49]⟩) := rfl
  have hnode : twoFolders.tree.node? ["d", "x.js"] = some (.file ⟨#[49]⟩) := rfl
  have hfind : twoFolders.tree.find twoFolders.cwd ⟨.relative, ["d", "..", "..", "d", "x.js"]⟩ =
      .ok ⟨["d", "x.js"], FileTree.maxLinks⟩ := by
    show twoFolders.tree.find _ (Path.below ⟨.relative, ["d", "..", "..", "d"]⟩ ["x.js"]) = _
    rw [FileTree.find_below find_up_twoFolders, if_neg (by decide), if_neg (by decide),
      FileTree.descend_of_child_eq_some _ _ rfl (by decide) hchild (by simp), FileTree.descend]
    rfl
  have hfile : twoFolders.isFile ⟨.relative, ["d", "..", "..", "d", "x.js"]⟩ = .ok true := by
    unfold World.isFile FileTree.isFile FileTree.test FileTree.lookUp
    rw [hfind]
    rfl
  have htext : twoFolders.readFile ⟨.relative, ["d", "..", "..", "d", "x.js"]⟩ .utf8 = .ok "1" :=
    World.readFile_eq_ok_iff.mpr ⟨_, World.contents_eq_ok_some_iff.mpr ⟨_, _, hfind, hnode, rfl⟩,
      by decide +kernel⟩
  have hread : SearchPath.readAt twoFolders .utf8 "../../d/x.js"
      (.tree ⟨.relative, ["d", "..", "..", "d", "x.js"]⟩) = .ok (some "1") := by
    rw [SearchPath.readAt, hfile]
    show some <$> twoFolders.readFile _ _ = _
    rw [htext]
    rfl
  have hstrip : stripSlashes "../../d/x.js" = "../../d/x.js" := by decide +kernel
  have hbefore : ∀ q ∈ ([] : SearchPath), twoFolders.Lacks q "../../d/x.js" := by simp
  have hafter : ∀ q ∈ ([] : SearchPath), ∃ found,
      SearchPath.locate twoFolders "../../d/x.js" q = .ok found := by simp
  exact outcome_read_classpath_of_first hstrip hbefore
    (locate_up_twoFolders (by decide +kernel) hfind hnode) hread hafter

/-- From the folder `c/d` a file is listed and read which lies beside it. -/
theorem classpath_containment_twoFolders :
    (∃ path : Path, twoFolders.expandOn 1 [⟨.relative, ["d"]⟩] "classpath:../../d/*.js" =
        .ok [⟨Source.fileOrigin ++ ":" ++ path.toString⟩] ∧
      ¬ path.LiesBelow (Path.absolute twoFolders.cwd ⟨.relative, ["d"]⟩)) ∧
    ∃ top spot, twoFolders.ReadsBelow .utf8 ⟨.relative, ["d"]⟩ ["..", "..", "d", "x.js"] "1" top spot := by
  obtain ⟨hlists, hreads⟩ := classpath_containment twoFolders [⟨.relative, ["d"]⟩] 1
    hasWorkingFolder_twoFolders
  constructor
  · obtain ⟨d, hd, -, names, path, hpath, hlocator, hbelow, -⟩ := hlists _ scriptsFurtherUp _
      ⟨"file:/d/x.js"⟩ rfl rfl expandOn_twoFolders (List.mem_singleton_self _)
      ((Locator.origin_eq_some_iff (by decide) (by decide)).mpr ⟨"/d/x.js", rfl⟩)
    obtain rfl := List.mem_singleton.mp hd
    refine ⟨path, hlocator ▸ expandOn_twoFolders, fun h => ?_⟩
    -- From the root it goes down another way.
    have hdown : ["c", "d"] <+: ["d"] ++ names := hbelow.mp h
    simp at hdown
  · rcases hreads _ _ _ _ read_up_twoFolders with ⟨z, hz, archive, hopen, -⟩ |
      ⟨d, hd, top, spot, hbelow, -⟩
    · obtain rfl := List.mem_singleton.mp hz
      have hfolder := World.isFolder_of_isArchive (World.isArchive_of_openArchive hopen)
      rw [isFolder_twoFolders] at hfolder
      cases hfolder
    · obtain rfl := List.mem_singleton.mp hd
      exact ⟨top, spot, hbelow⟩

end AntResources
