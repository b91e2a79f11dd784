import AntResources.Proofs.ReadingMembers

/-!
# AntResources.Proofs.ReadingPackaged

**The same files read from a folder and from an archive.** One entry of a search path is asked for a
name and then read (`readOn_eq`). For a folder and an archive that hold the same files with
the same content the two readings give the same text or fail for the same reason, with two exceptions:
the path of the name below the folder is too long, which is a fault there; and the encoding has something
else to say of a file than of a member (`Text.Encoding.AgreesOn`). It always does of a text with a carriage
return in it, which a file loses and a member keeps.
-/

namespace AntResources

open Text

/-! ### Line ends -/

namespace Text

theorem not_mem_unifyNewlines (cs : List Char) : '\r' ∉ unifyNewlines cs := by
  fun_induction unifyNewlines cs with
  | case1 => simp
  | case2 rest ih => simpa using ih
  | case3 rest _ ih => simpa using ih
  | case4 c rest _ hreturn ih => simpa using ⟨fun h => hreturn h.symm, ih⟩

/-- A text keeps its line ends exactly if it has no carriage return. -/
theorem unifyNewlines_eq_self_iff {cs : List Char} : unifyNewlines cs = cs ↔ '\r' ∉ cs := by
  constructor
  · intro h
    rw [← h]
    exact not_mem_unifyNewlines cs
  · intro h
    fun_induction unifyNewlines cs with
    | case1 => rfl
    | case2 => simp at h
    | case3 => simp at h
    | case4 c rest _ _ ih => rw [ih fun hrest => h (List.mem_cons_of_mem _ hrest)]

/-- Bytes that are the same text as a file and in one piece, or none either way. -/
def Encoding.AgreesOn (encoding : Encoding) (bytes : ByteArray) : Prop :=
  (∃ s, encoding.decodeFile bytes = .text s ∧ encoding.decode bytes = .text s) ∨
  encoding.decodeFile bytes = .undecodable ∧ encoding.decode bytes = .undecodable

/-- Where both decoders come to the same, only line ends can make a difference. -/
theorem Encoding.agreesOn_iff {encoding : Encoding} {bytes : ByteArray}
    (hsame : encoding.decodeStream bytes = encoding.decode bytes) : encoding.AgreesOn bytes ↔
      encoding.decode bytes ≠ .refused ∧
        ∀ s, encoding.decode bytes = .text s → '\r' ∉ s.toList := by
  rw [AgreesOn, decodeFile, hsame]
  cases encoding.decode bytes with
  | text s =>
      have hself : unified s = s ↔ '\r' ∉ s.toList := by
        rw [unified, ← unifyNewlines_eq_self_iff, ← String.toList_inj, String.toList_ofList]
      simp [Decoded.map, ← hself, eq_comm]
  | undecodable | refused => simp [Decoded.map]

end Text

/-! ### One entry of a search path -/

/-- What a name reads as, with one folder or archive as the search path. -/
def readOn (w : World) (entry : Path) (timeout : Option Binary64) (encoding : Encoding)
    (text : String) : Except Failure String :=
  ((nameLocator text).read w ⟨SearchPath.resolve [entry] w, timeout, encoding⟩).outcome

section Singleton

variable {w : World} {timeout : Option Binary64} {encoding : Encoding} {entry : Path} {text : String}

/-- The entry is asked for the name, and the place that it answers with is read. -/
theorem readOn_eq : readOn w entry timeout encoding text =
      SearchPath.locate w (stripSlashes text) entry >>= fun found =>
        SearchPath.readFrom w encoding (stripSlashes text) found.toList >>= fun
          | some content => .ok content
          | none => .error (.resource (.resourceNotFound text)) := by
  rw [readOn, nameLocator, Locator.read_classpath, Locator.outcome_readClasspath]
  dsimp only
  rw [SearchPath.outcome_resolve_singleton, stripSlashes_stripSlashes]
  cases SearchPath.locate w (stripSlashes text) entry <;> rfl

/-- An entry without a place that has the name itself says that it is nowhere. -/
theorem readOn_of_none {found : Option RootLocation}
    (hlocate : SearchPath.locate w (stripSlashes text) entry = .ok found)
    (hnone : ∀ place, found = some place →
      SearchPath.readAt w encoding (stripSlashes text) place = .ok none) :
    readOn w entry timeout encoding text = .error (.resource (.resourceNotFound text)) := by
  rw [readOn_eq, hlocate, ok_bind,
    SearchPath.readFrom_eq_ok_none_iff.mpr fun place hplace => hnone place (by simpa using hplace)]
  rfl

/-- An entry that answers with a place is read there. -/
theorem readOn_of_place {place : RootLocation} {content : Except Failure String}
    (hlocate : SearchPath.locate w (stripSlashes text) entry = .ok (some place))
    (hread : SearchPath.readAt w encoding (stripSlashes text) place = some <$> content) :
    readOn w entry timeout encoding text = content := by
  rw [readOn_eq, hlocate, ok_bind, Option.toList_some, SearchPath.readFrom_cons, hread]
  cases content <;> rfl

end Singleton

/-! ### Files with content -/

/-- A path that leads to a folder with some files in it, of the given content, and nothing else. -/
def World.HoldsContent (w : World) (folder : Path) (files : List (List String))
    (content : List String → ByteArray) : Prop :=
  ∃ spot, w.tree.find w.cwd folder = .ok spot ∧ w.tree.HoldsAt spot.location files ∧
    ∀ file ∈ files, w.tree.node? (spot.location ++ file) = some (.file (content file))

/-- An archive that holds some files, of the given content. -/
structure Archive.HoldsContent (archive : Archive) (d : Decompressors) (files : List (List String))
    (content : List String → ByteArray) : Prop where
  held : archive.Holds files
  content? : ∀ file ∈ files, archive.content? d (joinSlash file) = .ok (some (content file))

/-- Two outcomes of reading the same: the same text, or resource errors of one category. -/
def SameReading (first second : Except Failure String) : Prop :=
  (∃ text, first = .ok text ∧ second = .ok text) ∨
  ∃ error other, first = .error (.resource error) ∧ second = .error (.resource other) ∧
    error.category = other.category

theorem not_sameReading_fault {fault : Fault} {second : Except Failure String} :
    ¬ SameReading (.error (.fault fault)) second := by
  rintro (⟨s, hs, -⟩ | ⟨error, other, herror, -⟩)
  · cases hs
  · cases herror

/-- Two outcomes of decoding come to the same reading exactly if both are the same text, or both are none. -/
theorem sameReading_decoded_iff {first second : Decoded} (error other : ResourceError)
    (hcategory : error.category = other.category) :
    SameReading (World.decoded (.resource error) first) (World.decoded (.resource other) second) ↔
      (∃ s, first = .text s ∧ second = .text s) ∨ first = .undecodable ∧ second = .undecodable := by
  cases first <;> cases second <;> simp [SameReading, World.decoded, hcategory]

theorem Archive.Holds.name_ne_joinSlash {archive : Archive} {files : List (List String)}
    {names : List String} (h : archive.Holds files) (hfiles : AreFiles files) (hnames : Proper names)
    (hmem : names ∉ files) : ∀ m ∈ archive.members, m.name ≠ joinSlash names := by
  intro m hm hsame
  cases hfolder : m.isFolder with
  | false =>
      obtain ⟨file, hfile, hname⟩ := h.exists_file hm hfolder
      by_cases hne : names = []
      · subst hne
        exact h.name_ne_empty hfiles m hm hsame
      · have heq := (hfiles.proper hfile).joinSlash_inj hnames (hfiles.ne_nil file hfile) hne
          (hname.symm.trans hsame)
        exact hmem (heq ▸ hfile)
  | true =>
      -- A joined name has no slash at its end.
      have hslash : (joinSlash names).toList.getLast? = some '/' := by
        simpa [Member.isFolder, hsame] using hfolder
      rw [toList_joinSlash] at hslash
      exact getLast?_pathText (by simpa using hnames.isSegment) hslash

section Reading

variable {w : World} {text : String} {files : List (List String)} {names : List String}
  {content : List String → ByteArray}

/-- **What a folder with some files reads as a name.** -/
theorem World.HoldsContent.readOn_cases {folder : Path} (timeout : Option Binary64)
    (encoding : Encoding) (h : w.HoldsContent folder files content)
    (hfiles : AreFiles files) (hproper : Proper names) (hfollow : CanFollow names)
    (htext : stripSlashes text = joinSlash names) :
    ((folder.below names).TooLong →
      readOn w folder timeout encoding text = .error (.fault .nameTooLong)) ∧
    (¬ (folder.below names).TooLong → names ∈ files → readOn w folder timeout encoding text =
      World.decoded (.resource (.unreadableFile (folder.below names)))
        (encoding.decodeFile (content names))) ∧
    (¬ (folder.below names).TooLong → names ∉ files →
      readOn w folder timeout encoding text = .error (.resource (.resourceNotFound text))) := by
  obtain ⟨spot, hspot, hheld, hcontent⟩ := h
  obtain ⟨hlong, hthere, hnone⟩ := SearchPath.locate_of_holdsAt hheld hspot hfiles hproper hfollow
  obtain ⟨-, hfolder, hfile, -⟩ := hheld.lookUp_below hspot hfiles hproper hfollow
  rw [← htext] at hlong hthere hnone
  refine ⟨fun hl => ?_, fun hl hmem => ?_, fun hl hmem => ?_⟩
  · rw [readOn_eq, hlong hl]
    rfl
  · obtain ⟨bytes, hnode, hlookUp⟩ := hfile hl hmem
    obtain rfl : bytes = content names := by
      rw [hcontent names hmem] at hnode
      exact (Node.file.inj (Option.some.inj hnode)).symm
    have hisFile : w.isFile (folder.below names) = .ok true := by
      rw [World.isFile, FileTree.isFile, FileTree.test, hlookUp]
      rfl
    have hcontents : w.contents (folder.below names) = .ok (some (content names)) := by
      rw [World.contents, FileTree.contents, hlookUp]
      rfl
    refine readOn_of_place (hthere hl (.inr hmem)) ?_
    rw [SearchPath.readAt, hisFile, ok_bind, if_pos rfl, World.readFile, hcontents, ok_bind]
    exact bind_pure_comp _ _
  · by_cases hdir : IsFolderOf files names
    · refine readOn_of_none (hthere hl (.inl hdir)) ?_
      intro place hplace
      obtain rfl := Option.some.inj hplace
      rw [SearchPath.readAt_tree_eq_ok_none_iff, World.isFile, FileTree.isFile, FileTree.test,
        hfolder hl hdir]
      rfl
    · exact readOn_of_none (hnone hl hdir hmem) (by simp)

/-- **What an archive with some files reads as a name.** -/
theorem Archive.HoldsContent.readOn_cases {zip : Path} {archive : Archive}
    (timeout : Option Binary64) (encoding : Encoding) (hopen : w.openArchive zip = .ok archive)
    (h : archive.HoldsContent w.decompressors files content) (hfiles : AreFiles files) (hproper : Proper names)
    (htext : stripSlashes text = joinSlash names) :
    (names ∈ files → readOn w zip timeout encoding text =
      World.decoded (.resource (.undecodableMember (joinSlash names) zip))
        (encoding.decode (content names))) ∧
    (names ∉ files →
      readOn w zip timeout encoding text = .error (.resource (.resourceNotFound text))) := by
  have hlocate := SearchPath.locate_of_openArchive hopen (stripSlashes text)
  refine ⟨fun hmem => ?_, fun hmem => ?_⟩
  · obtain ⟨m, hm, -, hname⟩ := h.held.exists_member hmem
    have hprovides : SearchPath.provides archive (stripSlashes text) = true :=
      List.any_eq_true.mpr ⟨m, hm, by simp [htext, hname]⟩
    rw [if_pos (.inr hprovides)] at hlocate
    refine readOn_of_place hlocate ?_
    rw [SearchPath.readAt, SearchPath.readMember, hopen, ok_bind, htext, h.content? names hmem]
    rfl
  · refine readOn_of_none hlocate fun place hplace => ?_
    rw [Option.ite_none_right_eq_some, Option.some.injEq] at hplace
    rw [← hplace.2, SearchPath.readAt_archive_eq_ok_none_iff hopen, htext]
    exact h.held.name_ne_joinSlash hfiles hproper hmem

end Reading

/-- **The same files, read from a folder and from an archive.** Let a folder and an archive hold the same
files with the same content, and let a name have, apart from slashes at its ends, only segments that a
folder could have. Then the name reads the same with the folder as the search path and with the archive,
exactly unless the path of the name below the folder is too long, or the name is that of a file and the
encoding does not agree with itself on the content. In the first case the folder ends with a fault. In the
second each side gives what its own decoder says. If both decoders say the same, then they agree unless they
give up or the text has a carriage return in it: the archive gives that text, and the folder gives it with
its line ends unified. -/
theorem sameReading_of_folder_and_archive_iff (w : World) (timeout : Option Binary64)
    (encoding : Encoding) (text : String) (names : List String) (files : List (List String))
    (content : List String → ByteArray) (folder zip : Path) (archive : Archive)
    (hfiles : AreFiles files) (hfolder : w.HoldsContent folder files content)
    (hopen : w.openArchive zip = .ok archive)
    (harchive : archive.HoldsContent w.decompressors files content)
    (hproper : Proper names) (hfollow : CanFollow names)
    (htext : stripSlashes text = joinSlash names) :
    (SameReading (readOn w folder timeout encoding text) (readOn w zip timeout encoding text) ↔
      ¬ (folder.below names).TooLong ∧ (names ∈ files → encoding.AgreesOn (content names))) ∧
    ((folder.below names).TooLong →
      readOn w folder timeout encoding text = .error (.fault .nameTooLong)) ∧
    (¬ (folder.below names).TooLong → names ∈ files →
      readOn w folder timeout encoding text =
        World.decoded (.resource (.unreadableFile (folder.below names)))
          (encoding.decodeFile (content names)) ∧
      readOn w zip timeout encoding text =
        World.decoded (.resource (.undecodableMember (joinSlash names) zip))
          (encoding.decode (content names))) ∧
    (encoding.decodeStream (content names) = encoding.decode (content names) →
      (encoding.AgreesOn (content names) ↔ encoding.decode (content names) ≠ .refused ∧
        ∀ s, encoding.decode (content names) = .text s → '\r' ∉ s.toList) ∧
      (¬ (folder.below names).TooLong → names ∈ files →
        ∀ s, encoding.decode (content names) = .text s →
          readOn w folder timeout encoding text = .ok (unified s) ∧
          readOn w zip timeout encoding text = .ok s)) := by
  obtain ⟨htoolong, hfile, hnone⟩ :=
    hfolder.readOn_cases timeout encoding hfiles hproper hfollow htext
  obtain ⟨hmember, hnomember⟩ :=
    harchive.readOn_cases timeout encoding hopen hfiles hproper htext
  have hboth : ¬ (folder.below names).TooLong → names ∈ files → _ ∧ _ :=
    fun hshort hmem => ⟨hfile hshort hmem, hmember hmem⟩
  refine ⟨⟨fun hsame => ?_, fun ⟨hshort, hagrees⟩ => ?_⟩, htoolong, hboth, fun hdecoders =>
    ⟨Encoding.agreesOn_iff hdecoders, fun hshort hmem s hs => ?_⟩⟩
  · have hshort : ¬ (folder.below names).TooLong := by
      intro hlong
      rw [htoolong hlong] at hsame
      exact not_sameReading_fault hsame
    refine ⟨hshort, fun hmem => ?_⟩
    rw [hfile hshort hmem, hmember hmem] at hsame
    exact (sameReading_decoded_iff (.unreadableFile _) (.undecodableMember ..) rfl).mp hsame
  · by_cases hmem : names ∈ files
    · rw [hfile hshort hmem, hmember hmem]
      exact (sameReading_decoded_iff (.unreadableFile _) (.undecodableMember ..) rfl).mpr (hagrees hmem)
    · rw [hnone hshort hmem, hnomember hmem]
      exact .inr ⟨_, _, rfl, rfl, rfl⟩
  · obtain ⟨hinFolder, hinArchive⟩ := hboth hshort hmem
    rw [hinFolder, hinArchive, Encoding.decodeFile, hdecoders, hs]
    exact ⟨rfl, rfl⟩

/-! ### A carriage return, packed both ways -/

/-- An archive with the one member `x.js`, which is a carriage return. -/
def returnZip : ByteArray := ⟨#[
  80, 75, 3, 4, 20, 0, 0, 0, 0, 0, 0, 0, 33, 0, 48, 147, 179, 172, 1, 0, 0, 0, 1, 0, 0, 0, 4, 0, 0, 0,
  120, 46, 106, 115, 13,
  80, 75, 1, 2, 20, 0, 20, 0, 0, 0, 0, 0, 0, 0, 33, 0, 48, 147, 179, 172, 1, 0, 0, 0, 1, 0, 0, 0, 4, 0,
  0, 0, 0, 0, 0, 0, 0, 0, 0, 0, 128, 1, 0, 0, 0, 0, 120, 46, 106, 115,
  80, 75, 5, 6, 0, 0, 0, 0, 1, 0, 1, 0, 50, 0, 0, 0, 35, 0, 0, 0, 0, 0]⟩

/-- A world with the file `x.js` in the folder `d` and in the archive `z.zip`. -/
def returnTwice : World where
  tree := ⟨[(["d"], .folder), (["d", "x.js"], .file ⟨#[13]⟩), (["z.zip"], .file returnZip)], []⟩
  cwd := []
  defaultPath := []
  web := []

theorem isFolderOf_single_iff {dir : List String} : IsFolderOf [["x.js"]] dir ↔ dir = [] := by
  unfold IsFolderOf
  match dir with
  | [] => simp
  | first :: dir => simp

theorem child?_returnTwice (name : String) : returnTwice.tree.child? ["d"] name =
    if name = "x.js" then some (.file ⟨#[13]⟩) else none := by
  by_cases hx : name = "x.js"
  · subst hx
    rfl
  · rw [if_neg hx]
    cases hchild : returnTwice.tree.child? ["d"] name with
    | none => rfl
    | some node =>
        obtain ⟨-, other, hmem⟩ := FileTree.exists_child?_iff.mp ⟨node, hchild⟩
        simp [returnTwice, hx] at hmem

theorem returnTwice_holdsContent : returnTwice.HoldsContent ⟨.relative, ["d"]⟩ [["x.js"]]
    fun _ => ⟨#[13]⟩ := by
  have hchild : returnTwice.tree.child? [] "d" = some .folder := rfl
  refine ⟨_, FileTree.find_of_child rfl rfl (by decide) (by decide) (by decide) hchild (by simp),
    ⟨rfl, ?_, ?_, ?_⟩, fun file hfile => ?_⟩
  · intro dir hdir name
    rw [isFolderOf_single_iff.mp hdir, List.append_nil, child?_returnTwice]
    by_cases hx : name = "x.js" <;> simp [hx]
  · intro dir hdir name
    rw [isFolderOf_single_iff.mp hdir, List.append_nil, child?_returnTwice, isFolderOf_single_iff]
    by_cases hx : name = "x.js" <;> simp [hx]
  · intro dir hdir name node hnode
    rw [isFolderOf_single_iff.mp hdir, List.append_nil, child?_returnTwice,
      Option.ite_none_right_eq_some] at hnode
    exact .inr ⟨_, (Option.some.inj hnode.2).symm⟩
  · rw [List.mem_singleton.mp hfile]
    rfl

/-- What the archive has in its table. -/
def returnMember : Member := ⟨"x.js", "x.js", 0, 0, 2897449776, 1, 1, 0, 35⟩

theorem openArchive_returnZip : returnTwice.openArchive ⟨.relative, ["z.zip"]⟩ =
    .ok ⟨returnZip, [returnMember]⟩ :=
  World.openArchive_of_child rfl rfl (by decide) (by decide) (by decide) rfl (by decide +kernel)

theorem returnZip_holdsContent : Archive.HoldsContent ⟨returnZip, [returnMember]⟩ {} [["x.js"]]
    fun _ => ⟨#[13]⟩ := by
  have hfolder : returnMember.isFolder = false := by decide
  have hname : joinSlash ["x.js"] = returnMember.name := rfl
  refine ⟨⟨?_, ?_⟩, fun file hfile => ?_⟩
  · simp [hfolder, hname]
  · simp [hfolder]
  · rw [List.mem_singleton.mp hfile]
    decide +kernel

/-- The folder gives a line feed, and the archive the carriage return. -/
theorem readOn_returnTwice :
    readOn returnTwice ⟨.relative, ["d"]⟩ none .utf8 "/x.js" = .ok "\n" ∧
    readOn returnTwice ⟨.relative, ["z.zip"]⟩ none .utf8 "/x.js" = .ok "\r" ∧
    ¬ SameReading (readOn returnTwice ⟨.relative, ["d"]⟩ none .utf8 "/x.js")
      (readOn returnTwice ⟨.relative, ["z.zip"]⟩ none .utf8 "/x.js") := by
  have hfiles : AreFiles [["x.js"]] := ⟨by decide, by unfold AreNames; decide⟩
  obtain ⟨hsame, -, -, hboth⟩ := sameReading_of_folder_and_archive_iff returnTwice none .utf8 "/x.js"
    ["x.js"] _ _ _ _ _ hfiles returnTwice_holdsContent openArchive_returnZip returnZip_holdsContent
    (by unfold Proper; decide) (by unfold CanFollow; decide) rfl
  have hdecode : Encoding.utf8.decode ⟨#[13]⟩ = .text "\r" := by decide +kernel
  obtain ⟨hagrees, hboth⟩ := hboth rfl
  obtain ⟨hinFolder, hinArchive⟩ :=
    hboth (fun hlong => absurd hlong.2 (by decide)) List.mem_cons_self _ hdecode
  refine ⟨hinFolder, hinArchive, fun h => ?_⟩
  exact (hagrees.mp ((hsame.mp h).2 List.mem_cons_self)).2 _ hdecode (by decide)

end AntResources
