import AntResources.Proofs.ReadingNames

/-!
# AntResources.Proofs.ReadingMembers

**What a listed member reads as.** A listed name is that of a member of some archive on the search path
(`exists_member_of_nameLocator_mem`). It is lost only if it starts with a slash, since reading takes that
off and listing does not. Where no name starts with a slash and all archives can be read, it is read from
the first archive that has it.
-/

namespace AntResources

open Text

section Expand

variable {w : World} {searchPath : SearchPath} {workers : Int} {texts : List String}
  {ls : List Locator} {name : String}

/-- A listed name is that of a member of an archive on the search path, and not that of a folder. -/
theorem exists_member_of_nameLocator_mem
    (h : (expand w ⟨searchPath.resolve w, workers⟩ texts).outcome = .ok ls)
    (hl : nameLocator name ∈ ls) :
    name ≠ "" ∧ name.toList.getLast? ≠ some '/' ∧
      ∃ p ∈ searchPath, ∃ archive, w.openArchive p = .ok archive ∧ ∃ m ∈ archive.members,
        m.name = name := by
  obtain ⟨p, hp, archive, hopen, m, hm, hfile, hne, hlocator⟩ :=
    exists_member_of_mem_expand h hl (Locator.origin_classpath name)
  obtain rfl : name = m.name := (String.append_right_inj _).mp (Locator.mk.inj hlocator)
  exact ⟨hne, by simpa [Member.isFolder] using hfile, p, hp, archive, hopen, m, hm, rfl⟩

end Expand

/-- **When a listed name is lost**: it starts with a slash, and without that slash it is at no entry of
the search path. Reading a name takes the slashes off its ends, and listing does not. -/
theorem isNotFound_read_listed_member_iff (w : World) (workers : Int) (searchPath : SearchPath)
    (texts : List String) (timeout : Option Binary64) (encoding : Encoding) (ls : List Locator)
    (name : String) (hexpand : (expand w ⟨searchPath.resolve w, workers⟩ texts).outcome = .ok ls)
    (hlisted : nameLocator name ∈ ls) :
    IsNotFound ((nameLocator name).read w ⟨searchPath.resolve w, timeout, encoding⟩).outcome ↔
      name.toList.head? = some '/' ∧ ∀ entry ∈ searchPath, w.Lacks entry (stripSlashes name) := by
  obtain ⟨-, hlast, p, hp, archive, hopen, m, hm, hsame⟩ :=
    exists_member_of_nameLocator_mem hexpand hlisted
  rw [isNotFound_read_classpath_iff]
  refine ⟨fun hlacks => ⟨?_, hlacks⟩, fun h => h.2⟩
  -- A name without slashes at its ends is not lacked by the archive that it was listed from.
  by_contra hhead
  rw [stripSlashes_of_ends hhead hlast] at hlacks
  cases hlacks p hp with
  | folder hfolder =>
      obtain ⟨bytes, hbytes, -⟩ := World.exists_of_openArchive hopen
      rw [World.isFolder_of_contents hbytes] at hfolder
      cases hfolder
  | archive hother hnone =>
      obtain rfl := Except.ok.inj (hopen.symm.trans hother)
      exact hnone m hm hsame
  | neither _ harchive =>
      rw [World.isArchive_of_openArchive hopen] at harchive
      cases harchive

/-! ### Three small archives -/

/-- The members of an archive, if it opens. -/
def Archive.members? (bytes : ByteArray) : Option (List Member) :=
  match ofBytes bytes with
  | .ok archive => some archive.members
  | .error _ => none

theorem Archive.bytes_of_ofBytes {bytes : ByteArray} {archive : Archive}
    (h : ofBytes bytes = .ok archive) : archive.bytes = bytes := by
  unfold ofBytes at h
  cases hend : findEnd bytes with
  | found record =>
      rw [hend] at h
      dsimp only at h
      split at h
      · cases h
      · obtain ⟨members, -, h⟩ := bind_eq_ok_iff.mp h
        rw [← Except.ok.inj h]
  | _ =>
      rw [hend] at h
      cases h

/-- A path of one name, that of an archive, opens. -/
theorem World.openArchive_of_child {w : World} {p : Path} {name : String} {bytes : ByteArray}
    {members : List Member} (hstart : FileTree.start w.cwd p = []) (hparts : p.parts = [name])
    (hnul : p.hasNul = false) (hbytes : p.byteLength < FileTree.maxPathBytes)
    (hlong : name.utf8ByteSize ≤ FileTree.maxNameBytes)
    (hchild : w.tree.child? [] name = some (.file bytes))
    (hmembers : Archive.members? bytes = some members) : w.openArchive p = .ok ⟨bytes, members⟩ := by
  have hfind : w.tree.find w.cwd p = .ok ⟨[name], FileTree.maxLinks⟩ :=
    FileTree.find_of_child hstart hparts hnul hbytes hlong hchild (by simp)
  have hnode : w.tree.node? [name] = some (.file bytes) := by
    rwa [FileTree.child?, if_pos (FileTree.isName_of_child? hchild)] at hchild
  have hcontents : w.contents p = .ok (some bytes) := by
    rw [contents, FileTree.contents, FileTree.lookUp, hfind]
    dsimp only
    rw [hnode]
    rfl
  unfold Archive.members? at hmembers
  cases hopen : Archive.ofBytes bytes with
  | error defect =>
      rw [hopen] at hmembers
      cases hmembers
  | ok archive =>
      rw [hopen] at hmembers
      have harchive : archive = ⟨bytes, members⟩ := by
        rw [← Option.some.inj hmembers, ← Archive.bytes_of_ofBytes hopen]
      rw [openArchive, hcontents, ok_bind]
      dsimp only
      rw [hopen, harchive]
      rfl

/-- An archive with the one member `/x.js`, which is empty. -/
def slashZip : ByteArray := ⟨#[
  80, 75, 3, 4, 20, 0, 0, 0, 0, 0, 0, 0, 33, 0, 0, 0, 0, 0, 0, 0, 0, 0, 0, 0, 0, 0, 5, 0, 0, 0,
  47, 120, 46, 106, 115,
  80, 75, 1, 2, 20, 0, 20, 0, 0, 0, 0, 0, 0, 0, 33, 0, 0, 0, 0, 0, 0, 0, 0, 0, 0, 0, 0, 0, 5, 0,
  0, 0, 0, 0, 0, 0, 0, 0, 0, 0, 128, 1, 0, 0, 0, 0, 47, 120, 46, 106, 115,
  80, 75, 5, 6, 0, 0, 0, 0, 1, 0, 1, 0, 51, 0, 0, 0, 35, 0, 0, 0, 0, 0]⟩

/-- An archive with the one member `a/x.js/y`, which is empty. -/
def belowZip : ByteArray := ⟨#[
  80, 75, 3, 4, 20, 0, 0, 0, 0, 0, 0, 0, 33, 0, 0, 0, 0, 0, 0, 0, 0, 0, 0, 0, 0, 0, 8, 0, 0, 0,
  97, 47, 120, 46, 106, 115, 47, 121,
  80, 75, 1, 2, 20, 0, 20, 0, 0, 0, 0, 0, 0, 0, 33, 0, 0, 0, 0, 0, 0, 0, 0, 0, 0, 0, 0, 0, 8, 0,
  0, 0, 0, 0, 0, 0, 0, 0, 0, 0, 128, 1, 0, 0, 0, 0, 97, 47, 120, 46, 106, 115, 47, 121,
  80, 75, 5, 6, 0, 0, 0, 0, 1, 0, 1, 0, 54, 0, 0, 0, 38, 0, 0, 0, 0, 0]⟩

/-- A world with three archives of one empty member each: `/x.js` in `s.zip`, `a/x.js/y` in `y.zip` and
`a/x.js` in `z.zip`. -/
def threeArchives : World where
  tree := ⟨[(["s.zip"], .file slashZip), (["y.zip"], .file belowZip), (["z.zip"], .file smallZip)], []⟩
  cwd := []
  defaultPath := []
  web := []

/-- A member without content at the start of an archive. -/
def emptyMember (name : String) (bound : Int) : Member := ⟨name, name, 0, 0, 0, 0, 0, 0, bound⟩

theorem openArchive_slashZip : threeArchives.openArchive ⟨.relative, ["s.zip"]⟩ =
    .ok ⟨slashZip, [emptyMember "/x.js" 35]⟩ :=
  World.openArchive_of_child rfl rfl (by decide) (by decide) (by decide) rfl (by decide +kernel)

theorem openArchive_belowZip : threeArchives.openArchive ⟨.relative, ["y.zip"]⟩ =
    .ok ⟨belowZip, [emptyMember "a/x.js/y" 38]⟩ :=
  World.openArchive_of_child rfl rfl (by decide) (by decide) (by decide) rfl (by decide +kernel)

theorem openArchive_smallZip : threeArchives.openArchive ⟨.relative, ["z.zip"]⟩ =
    .ok ⟨smallZip, [emptyMember "a/x.js" 36]⟩ :=
  World.openArchive_of_child rfl rfl (by decide) (by decide) (by decide) rfl (by decide +kernel)

/-- What an expression for archives lists, where each of them opens and has no member without a name. -/
theorem listing_archives (w : World) (workers : Int) (searchPath : SearchPath) (text : String)
    (e : Expression) (roots : List ArchiveRoot) (scans : List (List Locator))
    (hparse : Expression.parse text = some e) (horigin : e.origin = some Source.classpathOrigin)
    (hne : roots ≠ [])
    (hresolve : (searchPath.resolve w e.rootDir).outcome = .ok (roots.map .archive))
    (hscans : roots.map (Source.scan w e) = scans.map .ok) :
    listing w ⟨searchPath.resolve w, workers⟩ text = .ok (Locator.unique scans.flatten) := by
  obtain ⟨root, rest, rfl⟩ := List.exists_cons_of_ne_nil hne
  have hrest : (rest.map RootLocation.archive).filterMap RootLocation.archive? = rest := by
    rw [List.filterMap_map]
    exact List.filterMap_some
  rw [listing_of_classpathOrigin hparse horigin, hresolve, List.map_cons, ok_bind, Source.ofLocations,
    hrest, ok_bind]
  show (Source.listArchives w workers e (root :: rest)).outcome = _
  rw [Source.outcome_listArchives, Source.gather_eq_ok_iff (List.Perm.refl _)]
  exact ⟨scans, hscans, rfl⟩

/-- A name with a slash at its start is listed, and then nowhere. -/
theorem isNotFound_read_slashed_member :
    (expand threeArchives ⟨SearchPath.resolve [⟨.relative, ["s.zip"]⟩] threeArchives, 4⟩
      ["classpath:*.js"]).outcome = .ok [nameLocator "/x.js"] ∧
    IsNotFound ((nameLocator "/x.js").read threeArchives
      ⟨SearchPath.resolve [⟨.relative, ["s.zip"]⟩] threeArchives, none, .utf8⟩).outcome := by
  have hresolve : (SearchPath.resolve [⟨.relative, ["s.zip"]⟩] threeArchives "").outcome =
      .ok [.archive ⟨⟨.relative, ["s.zip"]⟩, ""⟩] := by
    rw [SearchPath.outcome_resolve_singleton, SearchPath.locate_of_openArchive openArchive_slashZip]
    rfl
  have hmatching : Source.membersMatching
      ⟨"classpath:*.js", false, some "classpath", [], ["*.js"], false⟩ ⟨⟨.relative, ["s.zip"]⟩, ""⟩
      ⟨slashZip, [emptyMember "/x.js" 35]⟩ = [nameLocator "/x.js"] := by decide +kernel
  have hlisting := listing_archives threeArchives 4 _ "classpath:*.js"
    ⟨"classpath:*.js", false, some "classpath", [], ["*.js"], false⟩
    [⟨⟨.relative, ["s.zip"]⟩, ""⟩] [[nameLocator "/x.js"]] rfl rfl (by simp) hresolve (by
      rw [List.map_singleton, Source.scan_of_openArchive openArchive_slashZip (by decide), hmatching]
      rfl)
  have hexpand : (expand threeArchives
      ⟨SearchPath.resolve [⟨.relative, ["s.zip"]⟩] threeArchives, 4⟩ ["classpath:*.js"]).outcome =
        .ok [nameLocator "/x.js"] := by
    rw [outcome_expand_singleton _ _ (by decide), hlisting]
    rfl
  refine ⟨hexpand, (isNotFound_read_listed_member_iff threeArchives 4 _ ["classpath:*.js"] none .utf8 _
    "/x.js" hexpand (List.mem_singleton_self _)).mpr ⟨by decide, fun entry hentry => ?_⟩⟩
  obtain rfl := List.mem_singleton.mp hentry
  exact .archive openArchive_slashZip (by decide)

/-- A list with something of a kind in it has a first such. -/
theorem exists_first {α : Type} {P : α → Prop} {xs : List α} (h : ∃ x ∈ xs, P x) :
    ∃ before x after, xs = before ++ x :: after ∧ (∀ y ∈ before, ¬ P y) ∧ P x := by
  classical
  obtain ⟨x, hfind⟩ : ∃ x, xs.find? (fun x => decide (P x)) = some x := by
    rw [← Option.isSome_iff_exists, List.find?_isSome]
    simpa using h
  obtain ⟨hx, before, after, rfl, hbefore⟩ := List.find?_eq_some_iff_append.mp hfind
  exact ⟨before, x, after, rfl, by simpa using hbefore, by simpa using hx⟩

/-- The text of a member, if it can be read. -/
def Archive.text? (archive : Archive) (d : Decompressors) (encoding : Encoding) (m : Member) :
    Option String :=
  match archive.contentOf d m with
  | .ok content => (encoding.decode content).text?
  | .error _ => none

/-- A member with a text has some content that decodes to it. -/
theorem Archive.text?_eq_some_iff {archive : Archive} {d : Decompressors} {encoding : Encoding}
    {m : Member} {text : String} : archive.text? d encoding m = some text ↔
      ∃ content, archive.contentOf d m = .ok content ∧ encoding.decode content = .text text := by
  unfold text?
  cases archive.contentOf d m with
  | error defect => simp
  | ok content => cases hdecode : encoding.decode content <;> simp [hdecode, Decoded.text?]

theorem SearchPath.readAt_of_text? {w : World} {encoding : Encoding} {p : Path} {archive : Archive}
    {name text : String} {m : Member} (hopen : w.openArchive p = .ok archive)
    (hmember : archive.member? name = some m)
    (htext : archive.text? w.decompressors encoding m = some text) :
    readAt w encoding name (.archive ⟨p, name⟩) = .ok (some text) := by
  obtain ⟨content, hcontent, hdecode⟩ := Archive.text?_eq_some_iff.mp htext
  rw [readAt_archive hopen, hmember]
  dsimp only
  rw [hcontent]
  dsimp only
  rw [hdecode]
  rfl

/-- What is read from an archive is the text of the member that the name stands for. -/
theorem SearchPath.exists_of_readAt_archive {w : World} {encoding : Encoding} {p : Path}
    {archive : Archive} {name text : String} (hopen : w.openArchive p = .ok archive)
    (h : readAt w encoding name (.archive ⟨p, name⟩) = .ok (some text)) :
    ∃ m, archive.member? name = some m ∧ archive.text? w.decompressors encoding m = some text := by
  rw [readAt_archive hopen] at h
  cases hmember : archive.member? name with
  | none =>
      rw [hmember] at h
      cases h
  | some m =>
      refine ⟨m, rfl, ?_⟩
      rw [hmember] at h
      dsimp only at h
      rw [Archive.text?_eq_some_iff]
      cases hcontent : archive.contentOf w.decompressors m with
      | error defect => simp [hcontent] at h
      | ok content =>
          rw [hcontent] at h
          dsimp only at h
          refine ⟨content, rfl, ?_⟩
          cases hdecode : encoding.decode content with
          | text s =>
              rw [hdecode] at h
              exact congrArg Decoded.text (Option.some.inj (Except.ok.inj h))
          | undecodable | refused => simp [hdecode, World.decoded] at h

/-- An archive whose members can be read as text, and have names without a slash at their start. -/
structure World.IsIntact (w : World) (encoding : Encoding) (p : Path) (archive : Archive) : Prop where
  opens : w.openArchive p = .ok archive
  named : ∀ m ∈ archive.members, m.name.toList.head? ≠ some '/'
  readable : ∀ m ∈ archive.members, m.isFolder = false →
    ∃ text, archive.text? w.decompressors encoding m = some text

/-- **Listing and reading agree on which archive provides a name.** On a search path of intact archives
a listed name reads as the last member of that name in the first archive that has one, whatever the
archives before have below it. -/
theorem outcome_read_listed_member (w : World) (workers : Int) (searchPath : SearchPath)
    (texts : List String) (timeout : Option Binary64) (encoding : Encoding) (ls : List Locator)
    (name : String) (hintact : ∀ p ∈ searchPath, ∃ archive, w.IsIntact encoding p archive)
    (hexpand : (expand w ⟨searchPath.resolve w, workers⟩ texts).outcome = .ok ls)
    (hlisted : nameLocator name ∈ ls) :
    ∃ before p after archive above m below text,
      searchPath = before ++ p :: after ∧
      (∀ q ∈ before, ∃ other, w.openArchive q = .ok other ∧ ∀ k ∈ other.members, k.name ≠ name) ∧
      w.openArchive p = .ok archive ∧ archive.members = above ++ m :: below ∧
      m.name = name ∧ m.isFolder = false ∧ (∀ k ∈ below, k.name ≠ name) ∧
      archive.text? w.decompressors encoding m = some text ∧
      ((nameLocator name).read w ⟨searchPath.resolve w, timeout, encoding⟩).outcome = .ok text := by
  obtain ⟨-, hlast, p, hp, archive, hopen, m, hm, hsame⟩ :=
    exists_member_of_nameLocator_mem hexpand hlisted
  -- The first archive that has a member of that name.
  obtain ⟨before, p, after, rfl, hbefore, archive, hopen, hhas⟩ :=
    exists_first (P := fun p => ∃ archive, w.openArchive p = .ok archive ∧
      ∃ m ∈ archive.members, m.name = name) ⟨p, hp, archive, hopen, m, hm, hsame⟩
  obtain ⟨m, hmember⟩ : ∃ m, archive.member? name = some m := by
    rw [← Option.isSome_iff_exists, ← Option.ne_none_iff_isSome, ne_eq, Archive.member?_eq_none_iff]
    obtain ⟨m, hm, hsame⟩ := hhas
    exact fun hnone => hnone m hm hsame
  obtain ⟨hsame, above, below, hmembers, hbelow⟩ := Archive.member?_eq_some_iff.mp hmember
  have hm : m ∈ archive.members := by simp [hmembers]
  have hfile : m.isFolder = false := by simpa [Member.isFolder, hsame] using hlast
  obtain ⟨same, hintactArchive⟩ := hintact p (by simp)
  obtain rfl := Except.ok.inj (hopen.symm.trans hintactArchive.opens)
  obtain ⟨text, htext⟩ := hintactArchive.readable m hm hfile
  have hstrip : stripSlashes name = name :=
    stripSlashes_of_ends (hsame ▸ hintactArchive.named m hm) hlast
  have hothers : ∀ q ∈ before, ∃ other, w.openArchive q = .ok other ∧
      ∀ k ∈ other.members, k.name ≠ name := by
    intro q hq
    obtain ⟨other, hother⟩ := hintact q (by simp [hq])
    exact ⟨other, hother.opens, fun k hk hname => hbefore q hq ⟨other, hother.opens, k, hk, hname⟩⟩
  refine ⟨before, p, after, archive, above, m, below, text, rfl, hothers, hopen, hmembers, hsame,
    hfile, hbelow, htext, ?_⟩
  have hprovides : SearchPath.provides archive name = true :=
    List.any_eq_true.mpr ⟨m, hm, by simp [hsame]⟩
  have hplace : SearchPath.locate w name p = .ok (some (.archive ⟨p, name⟩)) := by
    rw [SearchPath.locate_of_openArchive hopen, if_pos (.inr hprovides)]
  refine outcome_read_classpath_of_first hstrip (fun q hq => ?_) hplace ?_ fun q hq => ?_
  · obtain ⟨other, hother, hnone⟩ := hothers q hq
    exact .archive hother hnone
  · exact SearchPath.readAt_of_text? hopen hmember htext
  · obtain ⟨other, hother⟩ := hintact q (by simp [hq])
    exact ⟨_, SearchPath.locate_of_openArchive hother.opens name⟩

/-- An archive with one member that can be read is intact. -/
theorem World.isIntact_of_text? {w : World} {encoding : Encoding} {p : Path} {bytes : ByteArray}
    {m : Member} {text : String} (hopen : w.openArchive p = .ok ⟨bytes, [m]⟩)
    (hhead : m.name.toList.head? ≠ some '/')
    (htext : Archive.text? ⟨bytes, [m]⟩ w.decompressors encoding m = some text) :
    w.IsIntact encoding p ⟨bytes, [m]⟩ where
  opens := hopen
  named := by simpa using hhead
  readable := by simpa using fun _ => ⟨text, htext⟩

/-- A name that the first archive has something below, and the second has itself. -/
theorem outcome_read_second_archive :
    ∃ before p after archive above m below text,
      [⟨.relative, ["y.zip"]⟩, ⟨.relative, ["z.zip"]⟩] = before ++ p :: after ∧
      (∀ q ∈ before, ∃ other, threeArchives.openArchive q = .ok other ∧
        ∀ k ∈ other.members, k.name ≠ "a/x.js") ∧
      threeArchives.openArchive p = .ok archive ∧ archive.members = above ++ m :: below ∧
      m.name = "a/x.js" ∧ m.isFolder = false ∧ (∀ k ∈ below, k.name ≠ "a/x.js") ∧
      archive.text? {} .utf8 m = some text ∧ ((nameLocator "a/x.js").read threeArchives
        ⟨SearchPath.resolve [⟨.relative, ["y.zip"]⟩, ⟨.relative, ["z.zip"]⟩] threeArchives, none,
          .utf8⟩).outcome = .ok text := by
  have hbelow : threeArchives.IsIntact .utf8 ⟨.relative, ["y.zip"]⟩
      ⟨belowZip, [emptyMember "a/x.js/y" 38]⟩ :=
    World.isIntact_of_text? openArchive_belowZip (by decide) (show _ = some "" by decide +kernel)
  have hsmall : threeArchives.IsIntact .utf8 ⟨.relative, ["z.zip"]⟩
      ⟨smallZip, [emptyMember "a/x.js" 36]⟩ :=
    World.isIntact_of_text? openArchive_smallZip (by decide) (show _ = some "" by decide +kernel)
  have hresolve : (SearchPath.resolve [⟨.relative, ["y.zip"]⟩, ⟨.relative, ["z.zip"]⟩] threeArchives
      "a").outcome = .ok [.archive ⟨⟨.relative, ["y.zip"]⟩, "a"⟩,
        .archive ⟨⟨.relative, ["z.zip"]⟩, "a"⟩] := by
    rw [SearchPath.outcome_resolve, List.mapM_cons, List.mapM_cons, List.mapM_nil,
      SearchPath.locate_of_openArchive openArchive_belowZip,
      SearchPath.locate_of_openArchive openArchive_smallZip]
    rfl
  have hlisting := listing_archives threeArchives 4 _ "classpath:a/*.js"
    ⟨"classpath:a/*.js", false, some "classpath", ["a"], ["*.js"], false⟩
    [⟨⟨.relative, ["y.zip"]⟩, "a"⟩, ⟨⟨.relative, ["z.zip"]⟩, "a"⟩] [[], [nameLocator "a/x.js"]]
    rfl rfl (by simp) hresolve (by
      rw [List.map_cons, List.map_singleton,
        Source.scan_of_openArchive openArchive_belowZip (by decide),
        Source.scan_of_openArchive openArchive_smallZip (by decide)]
      decide +kernel)
  have hexpand : (expand threeArchives
      ⟨SearchPath.resolve [⟨.relative, ["y.zip"]⟩, ⟨.relative, ["z.zip"]⟩] threeArchives, 4⟩
        ["classpath:a/*.js"]).outcome = .ok [nameLocator "a/x.js"] := by
    rw [outcome_expand_singleton _ _ (by decide), hlisting]
    rfl
  refine outcome_read_listed_member threeArchives 4 _ ["classpath:a/*.js"] none .utf8 _ "a/x.js" ?_
    hexpand (List.mem_singleton_self _)
  intro p hp
  rcases List.mem_pair.mp hp with rfl | rfl
  · exact ⟨_, hbelow⟩
  · exact ⟨_, hsmall⟩

end AntResources
