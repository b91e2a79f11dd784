import AntResources.Proofs.Containment

/-!
# AntResources.Proofs.AnchoredPaths

**What starts at the root does not depend on the working folder.** The working folder is asked for at two
places only: a relative path is followed from there, and its absolute path starts with it. So all questions
about an anchored path have the same answer in a world that is moved to another working folder, and so has
everything that is made of such questions: a lookup on a search path of anchored entries
(`SearchPath.resolve_movedTo`), the expansion of expressions that list no files of their own
(`expand_movedTo`), and the reading of what was listed, unless two slashes before a path make it relative
(`Locator.read_movedTo`, `isAnchored_of_mem_expand`).
-/

namespace AntResources

open Text

open Contribution (Setup)

/-! ### Sequences -/

/-- Steps that are the same on all elements of a list are so in a row. -/
theorem mapM_congr {m : Type → Type} [Monad m] [LawfulMonad m] {α β : Type} {f g : α → m β}
    {xs : List α} (h : ∀ x ∈ xs, f x = g x) : xs.mapM f = xs.mapM g := by
  induction xs with
  | nil => rfl
  | cons x xs ih =>
      obtain ⟨hx, hxs⟩ := List.forall_mem_cons.mp h
      rw [List.mapM_cons, List.mapM_cons, hx, ih hxs]

/-- What comes after an operation only matters for the value that it has. -/
theorem Trace.bind_congr {α β : Type} {t : Trace α} {f g : α → Trace β}
    (h : ∀ a, t.outcome = .ok a → f a = g a) : t >>= f = t >>= g := by
  show Trace.bind t f = Trace.bind t g
  unfold Trace.bind
  split
  · rfl
  · next a houtcome => rw [h a houtcome]

/-! ### Paths -/

/-- The path starts at the root. -/
def Path.IsAnchored (p : Path) : Prop := p.anchor ≠ .relative

namespace Path.IsAnchored

variable {p : Path}

theorem join (h : p.IsAnchored) (rel : Path) : (p.join rel).IsAnchored := by
  unfold Path.join
  split
  · exact h
  · assumption

/-- It is written with a slash at its start. -/
theorem ofString_toString (h : p.IsAnchored) : (Path.ofString p.toString).IsAnchored := by
  obtain ⟨anchor, parts⟩ := p
  cases anchor with
  | relative => exact absurd rfl h
  | root | doubleRoot =>
      unfold Path.IsAnchored Path.ofString Anchor.ofSlashes
      simp only [Path.toString, Anchor.text]
      split <;> simp_all

theorem absolute_eq (h : p.IsAnchored) (cwd other : Location) : p.absolute cwd = p.absolute other := by
  obtain ⟨anchor, parts⟩ := p
  cases anchor with
  | relative => exact absurd rfl h
  | root | doubleRoot => rfl

variable (t : FileTree)

theorem find_eq (h : p.IsAnchored) (cwd other : Location) : t.find cwd p = t.find other p :=
  FileTree.find_of_anchored h cwd other

theorem lookUp_eq (h : p.IsAnchored) (cwd other : Location) : t.lookUp cwd p = t.lookUp other p := by
  rw [FileTree.lookUp, FileTree.lookUp, h.find_eq t cwd other]

theorem test_eq (h : p.IsAnchored) (cwd other : Location) (kind : Node → Bool) :
    t.test cwd p kind = t.test other p kind := by
  rw [FileTree.test, FileTree.test, h.lookUp_eq t cwd other]

theorem contents_eq (h : p.IsAnchored) (cwd other : Location) :
    t.contents cwd p = t.contents other p := by
  rw [FileTree.contents, FileTree.contents, h.lookUp_eq t cwd other]

theorem fileTree_absolute_eq (h : p.IsAnchored) (cwd other : Location) :
    FileTree.absolute cwd p = FileTree.absolute other p := by
  have hanchor : decide (p.anchor = .relative) = false := decide_eq_false h
  rw [FileTree.absolute, FileTree.absolute, hanchor, h.absolute_eq cwd other]
  rfl

end Path.IsAnchored

/-! ### Worlds -/

namespace World

/-- The same world, with another working folder. -/
def movedTo (w : World) (cwd : Location) : World := { w with cwd := cwd }

@[simp] theorem movedTo_tree (w : World) (cwd : Location) : (w.movedTo cwd).tree = w.tree := rfl

@[simp] theorem movedTo_cwd (w : World) (cwd : Location) : (w.movedTo cwd).cwd = cwd := rfl

variable {w : World} {p : Path} (cwd : Location)

theorem isFolder_movedTo (h : p.IsAnchored) : (w.movedTo cwd).isFolder p = w.isFolder p :=
  congrArg (Except.mapError Failure.fault) (h.test_eq w.tree cwd w.cwd _)

theorem isPresent_movedTo (h : p.IsAnchored) : (w.movedTo cwd).isPresent p = w.isPresent p :=
  congrArg (Except.mapError Failure.fault) (h.test_eq w.tree cwd w.cwd _)

theorem isFile_movedTo (h : p.IsAnchored) : (w.movedTo cwd).isFile p = w.isFile p :=
  congrArg (Except.mapError Failure.fault) (h.test_eq w.tree cwd w.cwd _)

theorem contents_movedTo (h : p.IsAnchored) : (w.movedTo cwd).contents p = w.contents p :=
  congrArg (Except.mapError Failure.fault) (h.contents_eq w.tree cwd w.cwd)

theorem isArchive_movedTo (h : p.IsAnchored) : (w.movedTo cwd).isArchive p = w.isArchive p := by
  rw [isArchive, isArchive, contents_movedTo cwd h]

theorem openArchive_movedTo (h : p.IsAnchored) : (w.movedTo cwd).openArchive p = w.openArchive p := by
  rw [openArchive, openArchive, contents_movedTo cwd h]

theorem readFile_movedTo (h : p.IsAnchored) (encoding : Encoding) :
    (w.movedTo cwd).readFile p encoding = w.readFile p encoding := by
  rw [readFile, readFile, contents_movedTo cwd h]

end World

/-! ### Lookups -/

/-- The path of the folder or the archive that a place is in. -/
def RootLocation.path : RootLocation → Path
  | .tree p => p
  | .archive root => root.archive

/-- All places that a lookup finds are at paths of some kind. -/
def Lookup.Yields (lookup : Lookup) (P : Path → Prop) : Prop :=
  ∀ root places, (lookup root).outcome = .ok places → ∀ place ∈ places, P place.path

namespace SearchPath

variable {w : World} {searchPath : SearchPath}

theorem locate_movedTo (cwd : Location) (root : String) {entry : Path} (h : entry.IsAnchored) :
    locate (w.movedTo cwd) root entry = locate w root entry := by
  have hcandidate : (candidate root entry).IsAnchored := by
    unfold candidate
    split
    · exact h
    · exact h.join _
  rw [locate, locate, World.isFolder_movedTo cwd h, World.isArchive_movedTo cwd h,
    World.openArchive_movedTo cwd h]
  simp only [candidate] at hcandidate
  simp only [World.isPresent_movedTo cwd hcandidate]

/-- **A lookup on a search path** of anchored entries does not depend on the working folder. -/
theorem resolve_movedTo (cwd : Location) (h : ∀ entry ∈ searchPath, entry.IsAnchored) :
    resolve searchPath (w.movedTo cwd) = resolve searchPath w := by
  funext text
  have hfound : searchPath.mapM (locate (w.movedTo cwd) (stripSlashes text)) =
      searchPath.mapM (locate w (stripSlashes text)) :=
    mapM_congr fun entry hentry => locate_movedTo cwd _ (h entry hentry)
  rw [resolve, resolve, hfound]

/-- The places that it finds are those of the entries, or below them. -/
theorem resolve_yields {P : Path → Prop} (h : ∀ entry ∈ searchPath, P entry)
    (hbelow : ∀ entry ∈ searchPath, ∀ names, Proper names → P (entry.below names)) :
    Lookup.Yields (resolve searchPath w) P := by
  intro text places hplaces place hplace
  obtain ⟨entry, hentry, hlocate⟩ := exists_locate_of_mem_resolve hplaces hplace
  have hcandidate : P (candidate (stripSlashes text) entry) := by
    rw [candidate_stripSlashes]
    exact hbelow entry hentry _ (Path.proper_ofString _)
  rcases locate_eq_ok_iff.mp hlocate with
    ⟨-, present, -, hsome⟩ | ⟨-, -, hnone⟩ | ⟨-, -, -, hsome⟩ | ⟨-, -, -, archive, -, hsome⟩
  · cases present with
    | false => cases hsome
    | true =>
        obtain rfl := Option.some.inj hsome
        exact hcandidate
  · cases hnone
  · obtain rfl := Option.some.inj hsome
    exact h entry hentry
  · split at hsome
    · obtain rfl := Option.some.inj hsome
      exact h entry hentry
    · cases hsome

end SearchPath

/-! ### Listings -/

namespace Source

/-- The resources are listed at anchored paths, if in the file system at all. -/
def IsAnchored : Source → Prop
  | .archives roots => ∀ root ∈ roots, root.archive.IsAnchored
  | .tree base => base.IsAnchored
  | .remote => True

variable {w : World} {e : Expression} {source : Source} {lookup : Lookup}

/-- What a lookup leads to is where its places are. -/
theorem choose_cases {P : Path → Prop} (hlookup : lookup.Yields P)
    (horigin : e.origin ≠ some fileOrigin) (h : (choose lookup e).outcome = .ok source) :
    (e.origin = some classpathOrigin ∧ ((∃ roots, source = .archives roots ∧
        ∀ root ∈ roots, P root.archive) ∨ ∃ base, source = .tree base ∧ P base)) ∨
      e.origin ≠ some classpathOrigin ∧ source = .remote := by
  rw [outcome_choose] at h
  split at h
  · next hclass =>
      obtain ⟨places, hplaces, hsource⟩ := bind_eq_ok_iff.mp h
      have hall := hlookup _ places hplaces
      refine .inl ⟨hclass, ?_⟩
      cases places with
      | nil => cases hsource
      | cons first rest =>
          obtain ⟨hfirst, hrest⟩ := List.forall_mem_cons.mp hall
          cases first with
          | tree path =>
              obtain rfl := Except.ok.inj hsource
              exact .inr ⟨path, rfl, hfirst⟩
          | archive root =>
              obtain rfl := Except.ok.inj hsource
              refine .inl ⟨_, rfl, List.forall_mem_cons.mpr ⟨hfirst, fun other hother => ?_⟩⟩
              obtain ⟨place, hplace, hroot⟩ := List.mem_filterMap.mp hother
              cases place with
              | tree path => cases hroot
              | archive found =>
                  obtain rfl := Option.some.inj hroot
                  exact hrest _ hplace
  · next hclass =>
      exact .inr ⟨hclass, (Except.ok.inj h).symm⟩

theorem isAnchored_of_choose (hlookup : lookup.Yields Path.IsAnchored)
    (horigin : e.origin ≠ some fileOrigin) (h : (choose lookup e).outcome = .ok source) :
    source.IsAnchored := by
  rcases choose_cases hlookup horigin h with
    ⟨-, ⟨roots, rfl, hroots⟩ | ⟨base, rfl, hbase⟩⟩ | ⟨-, rfl⟩
  · exact hroots
  · exact hbase
  · trivial

theorem filesBelow_movedTo (cwd : Location) {root : Path} (h : root.IsAnchored) :
    filesBelow (w.movedTo cwd) root = filesBelow w root := by
  rw [filesBelow, filesBelow, World.movedTo_tree, h.find_eq w.tree _ w.cwd]

theorem listTree_movedTo (cwd : Location) (e : Expression) {base : Path} (h : base.IsAnchored) :
    listTree (w.movedTo cwd) e base = listTree w e base := by
  have hroot : ∀ root, (Trace.ofExcept ((FileTree.absolute w.cwd base).mapError .fault)).outcome =
      .ok root → filesBelow (w.movedTo cwd) root = filesBelow w root := by
    intro root hroot
    refine filesBelow_movedTo cwd ?_
    have habsolute : FileTree.absolute w.cwd base = .ok root := by
      cases hcase : FileTree.absolute w.cwd base <;> rw [hcase] at hroot <;> cases hroot
      rfl
    obtain ⟨rfl, -⟩ := FileTree.absolute_eq_ok habsolute
    rw [Path.IsAnchored, Path.anchor_absolute, if_neg h]
    exact h
  unfold listTree
  rw [World.isFolder_movedTo cwd h]
  refine Trace.bind_congr fun isFolder _ => ?_
  cases isFolder with
  | false => rfl
  | true =>
      simp only [Bool.not_true, Bool.false_eq_true, if_false]
      rw [World.movedTo_cwd, h.fileTree_absolute_eq cwd w.cwd]
      exact Trace.bind_congr fun root h => by rw [hroot root h]

/-- **A listing** at anchored paths does not depend on the working folder. -/
theorem list_movedTo (cwd : Location) (workers : Int) (e : Expression) (h : source.IsAnchored) :
    source.list (w.movedTo cwd) workers e = source.list w workers e := by
  cases source with
  | archives roots =>
      have htasks : scanTasks (w.movedTo cwd) e roots = scanTasks w e roots := by
        refine List.map_congr_left fun ⟨root, i⟩ hentry => ?_
        have hroot : root ∈ roots := by
          rw [← List.zipIdx_map_fst 0 roots]
          exact List.mem_map_of_mem hentry
        show Task.mk i (scan (w.movedTo cwd) e root) = Task.mk i (scan w e root)
        rw [scan, scan, World.openArchive_movedTo cwd (h root hroot)]
      show listArchives (w.movedTo cwd) workers e roots = listArchives w workers e roots
      rw [listArchives, listArchives, htasks]
  | tree base => exact listTree_movedTo cwd e h
  | remote => rfl

end Source

/-- **An expansion** without files of its own does not depend on the working folder. -/
theorem expand_movedTo {w : World} {setup : Setup} {texts : List String} (cwd : Location)
    (hlookup : setup.lookup.Yields Path.IsAnchored)
    (horigin : ∀ text ∈ texts, ∀ e, Expression.parse text = some e →
      e.origin ≠ some Source.fileOrigin) :
    expand (w.movedTo cwd) setup texts = expand w setup texts := by
  have hcontributions : contributions (w.movedTo cwd) setup texts = contributions w setup texts := by
    refine mapM_congr fun text htext => ?_
    unfold Contribution.ofText
    cases hparse : Expression.parse text with
    | none => rfl
    | some e =>
        refine Trace.bind_congr fun source hsource => ?_
        have hfile := horigin text (List.mem_filter.mp htext).1 e hparse
        rw [Source.list_movedTo cwd _ e (Source.isAnchored_of_choose hlookup hfile hsource)]
  rw [expand, expand, hcontributions]

/-! ### Readings -/

namespace SearchPath

theorem readFrom_movedTo {w : World} (cwd : Location) (encoding : Encoding) (name : String)
    {places : List RootLocation} (h : ∀ place ∈ places, place.path.IsAnchored) :
    readFrom (w.movedTo cwd) encoding name places = readFrom w encoding name places := by
  induction places with
  | nil => rfl
  | cons place rest ih =>
      obtain ⟨hplace, hrest⟩ := List.forall_mem_cons.mp h
      cases place with
      | tree path =>
          have hplace : path.IsAnchored := hplace
          rw [readFrom, readFrom, World.isFile_movedTo cwd hplace, World.readFile_movedTo cwd hplace,
            ih hrest]
      | archive root =>
          have hplace : root.archive.IsAnchored := hplace
          have hmember : readMember (w.movedTo cwd) encoding name root.archive =
              readMember w encoding name root.archive := by
            rw [readMember, readMember, World.openArchive_movedTo cwd hplace]
            rfl
          rw [readFrom, readFrom, hmember, ih hrest]

end SearchPath

namespace Locator

/-- If a locator names a file, then at an anchored path. -/
def IsAnchored (l : Locator) : Prop :=
  ∀ rest, l.text = Source.fileOrigin ++ ":" ++ rest → (filePath rest.toList).IsAnchored

theorem readClasspath_movedTo {w : World} {setup : ReadSetup} (cwd : Location)
    (hlookup : setup.lookup.Yields Path.IsAnchored) (name : String) :
    readClasspath (w.movedTo cwd) setup name = readClasspath w setup name := by
  unfold readClasspath
  refine Trace.bind_congr fun places hplaces => ?_
  rw [SearchPath.readFrom_movedTo cwd setup.encoding _ (hlookup _ places hplaces)]

/-- **A reading** of what the lookup finds, or of an anchored path, does not depend on the working
folder. -/
theorem read_movedTo {w : World} {setup : ReadSetup} (cwd : Location)
    (hlookup : setup.lookup.Yields Path.IsAnchored) {l : Locator} (h : l.IsAnchored) :
    l.read (w.movedTo cwd) setup = l.read w setup := by
  by_cases hcolon : ':' ∈ l.text.toList
  · obtain ⟨scheme, rest, hscheme, rfl⟩ := exists_scheme_of_mem hcolon
    obtain ⟨htake, hdrop⟩ := cut_at_colon scheme hscheme rest
    simp only [read, htake, hdrop, String.ofList_toList]
    split
    · exact readClasspath_movedTo cwd hlookup _
    · split
      · next hfile => rw [World.readFile_movedTo cwd (h rest (by rw [hfile]))]
      · rfl
  · simp only [read, dropWhile_of_no_colon hcolon]

/-- The locator of a file whose path has one slash at its start names it at that path. -/
theorem isAnchored_fileLocator {root : Path} {names : List String} (hanchor : root.anchor = .root)
    (hproper : Proper (root.parts ++ names)) (hne : root.parts ++ names ≠ []) :
    (Source.fileLocator root names).IsAnchored := by
  intro rest hrest
  obtain rfl : rest = (Path.mk root.anchor (root.parts ++ names)).toString :=
    ((String.append_right_inj (Source.fileOrigin ++ ":")).mp hrest).symm
  rw [filePath_toString hproper hne, if_neg (by simp [hanchor])]
  simp [Path.IsAnchored, hanchor]

end Locator

/-- The path starts with one slash. -/
def Path.IsRooted (p : Path) : Prop := p.anchor = .root ∧ Proper p.parts

/-- **What is listed below paths with one slash** is read at such paths. -/
theorem isAnchored_of_mem_expand {w : World} {setup : Setup} {texts : List String} {ls : List Locator}
    (hlookup : setup.lookup.Yields Path.IsRooted)
    (horigin : ∀ text ∈ texts, ∀ e, Expression.parse text = some e →
      e.origin ≠ some Source.fileOrigin)
    (h : (expand w setup texts).outcome = .ok ls) : ∀ l ∈ ls, l.IsAnchored := by
  intro l hl
  obtain ⟨text, htext, e, source, found, hparse, -, hsource, hlist, hfound⟩ :=
    exists_source_of_mem_expand h hl
  have hfile := horigin text htext e hparse
  have hscheme : ∀ rest, l.text = Source.fileOrigin ++ ":" ++ rest →
      l.origin = some Source.fileOrigin := fun rest hrest =>
    (Locator.origin_eq_some_iff (by decide) (by decide)).mpr ⟨rest, congrArg Locator.mk hrest⟩
  rcases Source.choose_cases hlookup hfile hsource with
    ⟨hclass, ⟨roots, rfl, -⟩ | ⟨base, rfl, hanchor, hproper⟩⟩ | ⟨-, rfl⟩
  · intro rest hrest
    obtain ⟨-, -, -, -, m, -, -, -, rfl⟩ := Source.exists_member_of_mem_listArchives hlist hfound
    have hscheme := hscheme rest hrest
    rw [hclass, Option.getD_some, Locator.origin_classpath] at hscheme
    exact absurd hscheme (by decide)
  · obtain ⟨root, files, names, habsolute, hfiles, hnames, rfl⟩ :=
      Source.exists_file_of_mem_listTree hlist hfound
    obtain ⟨rfl, -⟩ := FileTree.absolute_eq_ok habsolute
    have hrelative : base.anchor ≠ .relative := by simp [hanchor]
    have hroot : (base.absolute w.cwd).anchor = .root := by
      rw [Path.anchor_absolute, if_neg hrelative, hanchor]
    have habove : Proper (base.absolute w.cwd).parts :=
      Path.proper_absolute hproper fun hrel => absurd hrel hrelative
    obtain ⟨entry, hfinds, hentry, hsplit⟩ :=
      exists_finds_of_mem_filesBelow (by simp [hroot]) habove hfiles hnames
    refine Locator.isAnchored_fileLocator hroot ?_ ?_
    · have hpath := hfinds.proper_path
      rwa [Entry.path, Path.below, hentry, hsplit] at hpath
    · rw [← hsplit]
      simp
  · intro rest hrest
    obtain rfl := Source.eq_location_of_mem_listRemote hlist hfound
    exact absurd (Expression.origin_of_location hparse (by decide) (hscheme rest hrest)) hfile

end AntResources
