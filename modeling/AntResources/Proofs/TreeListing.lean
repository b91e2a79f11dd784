import Mathlib.Data.List.Induction
import AntResources.Proofs.Packaging
import AntResources.Proofs.ReachableFolders
import AntResources.Proofs.WalkOrder

/-!
# AntResources.Proofs.TreeListing

**What the listing of a folder comes to.** The folder is looked up under the path that is given, and
walked under its absolute path. If the path has no `..` in it, both lead to the same folder
(`World.absoluteLeadsThere_of_isPlain`), and the listing finds each file below it once and in order,
unless a folder cannot be listed (`Source.listsFolder_of_not_fault`). There are four ways in which it
ends without saying so in its own words: the given path is too long to be looked up, or leads through a
folder that may not be searched, the working folder is gone and with it every absolute path, or folders
lie too deep in each other.
-/

namespace AntResources

open Text

/-! ### Under the absolute path -/

/-- The segments of a path mean what they say: none is empty, `.` or `..`. -/
def Path.IsPlain (p : Path) : Prop := ∀ s ∈ p.parts, s ≠ "" ∧ s ≠ "." ∧ s ≠ ".."

theorem Path.IsPlain.absolute {p : Path} (h : p.IsPlain) (cwd : Location) :
    p.absolute cwd = if p.anchor = .relative then ⟨.root, cwd ++ p.parts⟩ else p := by
  obtain ⟨anchor, parts⟩ := p
  have hparts : ∀ kept, normalizeOnto true kept parts = kept.reverse ++ parts := fun kept =>
    normalizeOnto_of_plain h
  cases anchor with
  | relative => simp [Path.absolute, hparts]
  | root | doubleRoot => simp [Path.absolute, Text.normalize, hparts]

/-- The text of a path is followed from where the path starts. -/
theorem Path.parts_absolute (cwd : Location) (p : Path) :
    (p.absolute cwd).parts = normalizeOnto true (FileTree.start cwd p).reverse p.parts := by
  obtain ⟨anchor, parts⟩ := p
  cases anchor <;> rfl

namespace FileTree

variable {t : FileTree} {l : Location}

/-- A location with folders all the way down to it, whose names a path can have. They need not be folders
that may be searched. -/
def Stands (t : FileTree) (l : Location) : Prop :=
  ∀ above name below, l = above ++ name :: below → ∃ node, t.child? above name = some node ∧
    node.isFolder = true ∧ name.utf8ByteSize ≤ maxNameBytes

namespace Stands

theorem upper {above below : Location} (h : t.Stands (above ++ below)) : t.Stands above := by
  intro first name rest hl
  exact h first name (rest ++ below) (by rw [hl, List.append_assoc, List.cons_append])

theorem take (h : t.Stands l) (n : Nat) : t.Stands (l.take n) := by
  rw [← List.take_append_drop n l] at h
  exact h.upper

theorem isName_of_mem (h : t.Stands l) {name : String} (hname : name ∈ l) : isName name = true := by
  obtain ⟨above, below, hl⟩ := List.append_of_mem hname
  obtain ⟨node, hchild, -⟩ := h above name below hl
  exact isName_of_child? hchild

theorem proper (h : t.Stands l) : Proper l := by
  intro name hname
  obtain ⟨hempty, hdot, -, hslash, -⟩ := isName_iff.mp (h.isName_of_mem hname)
  exact ⟨hempty, hdot, hslash⟩

theorem hasNul (h : t.Stands l) (anchor : Anchor) : (Path.mk anchor l).hasNul = false := by
  rw [Path.hasNul, List.any_eq_false]
  intro name hname
  obtain ⟨-, -, -, -, hnul⟩ := isName_iff.mp (h.isName_of_mem hname)
  simpa using hnul

theorem isPlain (h : t.Stands l) (anchor : Anchor) : (Path.mk anchor l).IsPlain := by
  intro name hname
  obtain ⟨hempty, hdot, hup, -⟩ := isName_iff.mp (h.isName_of_mem hname)
  exact ⟨hempty, hdot, hup⟩

theorem not_mem_up (h : t.Stands l) : ".." ∉ l := by
  intro hmem
  obtain ⟨-, -, hup⟩ := h.isPlain .root ".." hmem
  exact hup rfl

theorem isFolderAt (h : t.Stands l) : t.isFolderAt l = true := by
  rcases List.eq_nil_or_concat l with rfl | ⟨above, name, rfl⟩
  · rfl
  · rw [List.concat_eq_append] at h ⊢
    obtain ⟨node, hchild, hnode, -⟩ := h above name [] rfl
    rw [isFolderAt_of_child hchild, hnode]

/-- Going down to it takes no links, unless a folder on the way may not be searched. -/
theorem descend (h : t.Stands l) (links : Nat) :
    t.descend links [] l = .ok ⟨l, links⟩ ∨ t.descend links [] l = .error .denied := by
  induction l using List.reverseRecOn with
  | nil => exact .inl (by rw [FileTree.descend])
  | append_singleton above name ih =>
      obtain ⟨node, hchild, hnode, hlong⟩ := h above name [] rfl
      rw [descend_append]
      rcases ih h.upper with habove | habove
      · rw [habove, ok_bind]
        cases hopen : t.isOpenAt above with
        | true =>
            rw [descend_of_child_eq_some links [] hopen hlong hchild (by rintro target rfl; cases hnode),
              FileTree.descend]
            exact .inl rfl
        | false =>
            obtain ⟨hempty, -⟩ := isName_iff.mp (isName_of_child? hchild)
            rw [descend_of_not_open hempty hopen, barrier, h.upper.isFolderAt]
            exact .inr rfl
      · exact .inr (by rw [habove, error_bind])

end Stands

/-- A location with folders all the way down to it that may be searched. -/
def IsThere (t : FileTree) (l : Location) : Prop :=
  ∀ above name below, l = above ++ name :: below →
    t.child? above name = some .folder ∧ name.utf8ByteSize ≤ maxNameBytes

namespace IsThere

theorem nil (t : FileTree) : t.IsThere [] := fun above name below h => by
  simp at h

theorem stands (h : t.IsThere l) : t.Stands l := fun above name below hl =>
  ⟨.folder, (h above name below hl).1, rfl, (h above name below hl).2⟩

/-- One folder more. -/
theorem child (h : t.IsThere l) {name : String} (hchild : t.child? l name = some .folder)
    (hlong : name.utf8ByteSize ≤ maxNameBytes) : t.IsThere (l ++ [name]) := by
  intro above other below hl
  rcases List.eq_nil_or_concat below with rfl | ⟨first, last, rfl⟩
  · obtain ⟨rfl, rfl⟩ := List.append_singleton_inj.mp hl
    exact ⟨hchild, hlong⟩
  · rw [List.concat_eq_append, ← List.cons_append, ← List.append_assoc] at hl
    exact h above other first (List.append_singleton_inj.mp hl).1

theorem upper {above below : Location} (h : t.IsThere (above ++ below)) : t.IsThere above := by
  intro first name rest hl
  exact h first name (rest ++ below) (by rw [hl, List.append_assoc, List.cons_append])

theorem isOpenAt {above below : Location} (h : t.IsThere (above ++ below)) :
    t.isOpenAt above = true := by
  rcases List.eq_nil_or_concat above with rfl | ⟨first, name, rfl⟩
  · rfl
  · rw [List.concat_eq_append] at h ⊢
    exact isOpenAt_of_child (h first name below (by simp)).1

theorem isOpenAt_self (h : t.IsThere l) : t.isOpenAt l = true :=
  isOpenAt ((List.append_nil l).symm ▸ h)

theorem isName_of_mem (h : t.IsThere l) {name : String} (hname : name ∈ l) : isName name = true :=
  h.stands.isName_of_mem hname

theorem hasNul (h : t.IsThere l) (anchor : Anchor) : (Path.mk anchor l).hasNul = false :=
  h.stands.hasNul anchor

theorem not_mem_up (h : t.IsThere l) : ".." ∉ l := h.stands.not_mem_up

/-- Going down to it takes no links. -/
theorem descend {above below : Location} (h : t.IsThere (above ++ below)) (links : Nat) :
    t.descend links above below = .ok ⟨above ++ below, links⟩ := by
  induction below generalizing above with
  | nil => rw [FileTree.descend, List.append_nil]
  | cons name below ih =>
      obtain ⟨hchild, hlong⟩ := h above name below rfl
      have hnext : above ++ name :: below = above ++ [name] ++ below := List.append_cons above name below
      rw [descend_of_child_eq_some links below (isOpenAt h) hlong hchild (by simp), hnext]
      exact ih (hnext ▸ h)

/-- A path leads to what the last folder on the way has under its last name. -/
theorem find {cwd above : Location} {p : Path} {name : String} {node : Node}
    (h : t.IsThere (start cwd p ++ above)) (hparts : p.parts = above ++ [name])
    (hnul : p.hasNul = false) (hbytes : p.byteLength < maxPathBytes)
    (hlong : name.utf8ByteSize ≤ maxNameBytes)
    (hchild : t.child? (start cwd p ++ above) name = some node) (hlink : ∀ target, node ≠ .link target) :
    t.find cwd p = .ok ⟨start cwd p ++ above ++ [name], maxLinks⟩ := by
  refine find_eq_ok_iff.mpr ⟨hnul, hbytes, by simp [hparts], ?_⟩
  rw [hparts, descend_append, h.descend, ok_bind,
    descend_of_child_eq_some _ _ h.isOpenAt_self hlong hchild hlink, FileTree.descend]

end IsThere

end FileTree

/-- The working folder is there, unless it has been removed. -/
def World.HasWorkingFolder (w : World) : Prop :=
  Location.isGone w.cwd = false → w.tree.Stands w.cwd

/-- A relative path has no absolute one once the working folder has been removed. -/
def World.IsLost (w : World) (p : Path) : Prop :=
  p.anchor = .relative ∧ Location.isGone w.cwd = true

namespace World

variable {w : World} {base : Path} {spot : FileTree.Spot}

theorem absolute_eq_ok (h : ¬ w.IsLost base) :
    FileTree.absolute w.cwd base = .ok (base.absolute w.cwd) := by
  have hnot : ¬ (base.anchor = .relative && Location.isGone w.cwd) = true := by
    simpa [IsLost] using h
  rw [FileTree.absolute, if_neg hnot]

theorem absolute_eq_error (h : w.IsLost base) :
    FileTree.absolute w.cwd base = .error .missingFolder := by
  rw [FileTree.absolute, h.1, h.2]
  rfl

/-- The absolute path leads where the path leads, if what is there may be listed under it. -/
def AbsoluteLeadsThere (w : World) (base : Path) : Prop :=
  ∀ spot, w.tree.find w.cwd base = .ok spot → w.tree.isListable (base.absolute w.cwd) = true →
    w.tree.find w.cwd (base.absolute w.cwd) = .ok spot

/-- Where a listable path leads whose first segments lead down to a location. -/
theorem find_of_stands {l : Location} {names : List String} (hthere : w.tree.Stands l)
    (hnul : (Path.mk .root (l ++ names)).hasNul = false)
    (hlistable : w.tree.isListable ⟨.root, l ++ names⟩ = true)
    (hdescend : w.tree.descend FileTree.maxLinks l names = .ok spot) :
    w.tree.find w.cwd ⟨.root, l ++ names⟩ = .ok spot := by
  obtain ⟨hbytes, hbarred, -⟩ := FileTree.isListable_iff.mp hlistable
  refine FileTree.find_eq_ok_iff.mpr ⟨hnul, hbytes, fun _ => rfl, ?_⟩
  show w.tree.descend FileTree.maxLinks [] (l ++ names) = .ok spot
  rcases hthere.descend FileTree.maxLinks with hdown | hdown
  · rw [FileTree.descend_append, hdown, ok_bind, hdescend]
  · refine absurd ?_ hbarred
    rw [FileTree.find, hnul, if_neg Bool.false_ne_true, if_neg (by omega), FileTree.descend_along rfl]
    show w.tree.descend FileTree.maxLinks [] (l ++ names) = _
    rw [FileTree.descend_append, hdown, error_bind]

/-- **The absolute path leads to the same folder** as a path without `..`. -/
theorem absoluteLeadsThere_of_isPlain (hcwd : w.HasWorkingFolder) (hbase : base.IsPlain)
    (hlost : ¬ w.IsLost base) : w.AbsoluteLeadsThere base := by
  intro spot hfind hlistable
  rw [hbase.absolute] at hlistable ⊢
  by_cases hanchor : base.anchor = .relative
  · obtain ⟨hnul, -, -, hdescend⟩ := FileTree.find_eq_ok_iff.mp hfind
    have hthere : w.tree.Stands w.cwd := hcwd (by simpa [IsLost, hanchor] using hlost)
    have hnul' : (Path.mk .root (w.cwd ++ base.parts)).hasNul = false := by
      have hcwdNul := hthere.hasNul .root
      unfold Path.hasNul at hnul hcwdNul ⊢
      rw [List.any_append, hcwdNul, hnul]
      rfl
    rw [if_pos hanchor] at hlistable ⊢
    rw [FileTree.start, if_pos hanchor] at hdescend
    exact find_of_stands hthere hnul' hlistable hdescend
  · rw [if_neg hanchor, hfind]

/-- What a listing that ends early says. -/
def walkFailure : FileTree.WalkFailure → Failure
  | .unlistable folder => .resource (.unreadableFolder folder)
  | .tooDeep => .fault .nestedTooDeep

/-- **The files below a folder** are those that a walk finds under its absolute path. -/
theorem filesBelow_absolute (hsame : w.AbsoluteLeadsThere base)
    (hfind : w.tree.find w.cwd base = .ok spot) (hfolder : w.tree.isFolderAt spot.location = true) :
    Source.filesBelow w (base.absolute w.cwd) =
      (w.tree.walk maxNesting (base.absolute w.cwd) spot).mapError walkFailure := by
  cases hlistable : w.tree.isListable (base.absolute w.cwd) with
  | true =>
      rw [Source.filesBelow, hsame spot hfind hlistable]
      simp only [hfolder, if_true]
      cases w.tree.walk maxNesting (base.absolute w.cwd) spot with
      | ok found => rfl
      | error failure => cases failure <;> rfl
  | false =>
      -- Then it does not matter where the absolute path leads.
      have hwalk : ∀ spot, w.tree.walk maxNesting (base.absolute w.cwd) spot =
          .error (.unlistable (base.absolute w.cwd)) := fun spot => by
        rw [show maxNesting = 987 + 1 from rfl, FileTree.walk_succ, hlistable, if_neg Bool.false_ne_true]
      rw [Source.filesBelow, hwalk]
      cases w.tree.find w.cwd (base.absolute w.cwd) with
      | error obstacle => rfl
      | ok other =>
          dsimp only
          rw [hwalk]
          split <;> rfl

/-! ### Which folder is listed -/

theorem isFolder_of_find (hfind : w.tree.find w.cwd base = .ok spot) :
    w.isFolder base = .ok (w.tree.isFolderAt spot.location) := by
  unfold isFolder FileTree.isFolder FileTree.test FileTree.lookUp FileTree.isFolderAt
  rw [hfind]
  dsimp only
  cases w.tree.node? spot.location with
  | none => rfl
  | some node => rfl

theorem isFolder_of_find_error {obstacle : FileTree.Obstacle}
    (hfind : w.tree.find w.cwd base = .error obstacle) (hrefusal : obstacle.refusal? = none) :
    w.isFolder base = .ok false := by
  unfold isFolder FileTree.isFolder
  rw [FileTree.test_of_error hrefusal (by rw [FileTree.lookUp, hfind])]
  rfl

/-- The system refuses to say what a path leads to: for its length, or that of a segment on the way, or
because a folder on the way may not be searched. -/
def Refuses (w : World) (p : Path) (fault : Fault) : Prop :=
  ∃ obstacle, w.tree.find w.cwd p = .error obstacle ∧ obstacle.refusal? = some fault

/-- There are two ways to refuse a path. -/
theorem Refuses.cases {p : Path} {fault : Fault} (h : w.Refuses p fault) :
    fault = .nameTooLong ∨ fault = .permissionDenied := by
  obtain ⟨obstacle, -, hrefusal⟩ := h
  cases obstacle <;> simp_all [FileTree.Obstacle.refusal?]

theorem not_refuses_iff {p : Path} : (∀ fault, ¬ w.Refuses p fault) ↔
    w.tree.find w.cwd p ≠ .error .tooLong ∧ w.tree.find w.cwd p ≠ .error .denied := by
  constructor
  · intro h
    exact ⟨fun hfind => h .nameTooLong ⟨_, hfind, rfl⟩, fun hfind => h .permissionDenied ⟨_, hfind, rfl⟩⟩
  · rintro ⟨hlong, hdenied⟩ fault ⟨obstacle, hfind, hrefusal⟩
    cases obstacle with
    | tooLong => exact hlong hfind
    | denied => exact hdenied hfind
    | nul | absent | notFolder | linkLoop => cases hrefusal

theorem Refuses.exists_lookUp {fault : Fault} (h : w.Refuses base fault) :
    ∃ obstacle, w.tree.lookUp w.cwd base = .error obstacle ∧ obstacle.refusal? = some fault := by
  obtain ⟨obstacle, hfind, hrefusal⟩ := h
  exact ⟨obstacle, by rw [FileTree.lookUp, hfind], hrefusal⟩

theorem isFolder_of_refuses {fault : Fault} (h : w.Refuses base fault) :
    w.isFolder base = .error (.fault fault) := by
  obtain ⟨obstacle, hlookUp, hrefusal⟩ := h.exists_lookUp
  unfold isFolder FileTree.isFolder FileTree.test
  rw [hlookUp]
  dsimp only
  rw [hrefusal]
  rfl

end World

namespace Source

variable {w : World} {base : Path} {spot : FileTree.Spot} (e : Expression)

theorem outcome_listTree_of_find_error {obstacle : FileTree.Obstacle}
    (hfind : w.tree.find w.cwd base = .error obstacle) (hrefusal : obstacle.refusal? = none) :
    (listTree w e base).outcome = .error (.resource (.baseNotFound base)) := by
  rw [outcome_listTree, World.isFolder_of_find_error hfind hrefusal]
  rfl

theorem outcome_listTree_of_refuses {fault : Fault} (h : w.Refuses base fault) :
    (listTree w e base).outcome = .error (.fault fault) := by
  rw [outcome_listTree, World.isFolder_of_refuses h, error_bind]

theorem outcome_listTree_of_not_folder (hfind : w.tree.find w.cwd base = .ok spot)
    (hfolder : w.tree.isFolderAt spot.location = false) :
    (listTree w e base).outcome = .error (.resource (.baseNotFound base)) := by
  rw [outcome_listTree, World.isFolder_of_find hfind, hfolder]
  rfl

theorem outcome_listTree_of_lost (hfind : w.tree.find w.cwd base = .ok spot)
    (hfolder : w.tree.isFolderAt spot.location = true) (hlost : w.IsLost base) :
    (listTree w e base).outcome = .error (.fault .missingFolder) := by
  rw [outcome_listTree, World.isFolder_of_find hfind, hfolder, ok_bind, if_pos rfl,
    World.absolute_eq_error hlost]
  rfl

/-- **A folder is listed** by a walk. -/
theorem outcome_listTree_of_folder (hsame : w.AbsoluteLeadsThere base) (hlost : ¬ w.IsLost base)
    (hfind : w.tree.find w.cwd base = .ok spot)
    (hfolder : w.tree.isFolderAt spot.location = true) :
    (listTree w e base).outcome = matchingFiles e (base.absolute w.cwd) <$>
      (w.tree.walk maxNesting (base.absolute w.cwd) spot).mapError World.walkFailure := by
  rw [outcome_listTree, World.isFolder_of_find hfind, hfolder, ok_bind, if_pos rfl,
    World.absolute_eq_ok hlost, ← World.filesBelow_absolute hsame hfind hfolder]
  rfl

theorem outcome_listTree_of_plain_folder (hcwd : w.HasWorkingFolder) (hbase : base.IsPlain)
    (hlost : ¬ w.IsLost base) (hfind : w.tree.find w.cwd base = .ok spot)
    (hfolder : w.tree.isFolderAt spot.location = true) :
    (listTree w e base).outcome = matchingFiles e (base.absolute w.cwd) <$>
      (w.tree.walk maxNesting (base.absolute w.cwd) spot).mapError World.walkFailure :=
  outcome_listTree_of_folder e (World.absoluteLeadsThere_of_isPlain hcwd hbase hlost) hlost hfind hfolder

end Source

/-! ### What a listing should be -/

namespace World

/-- A path that leads to a folder. -/
def LeadsToFolder (w : World) (base : Path) : Prop :=
  ∃ spot, w.tree.find w.cwd base = .ok spot ∧ w.tree.isFolderAt spot.location = true

/-- The given names lead from the folder at `base` down to another. -/
def Reaches (w : World) (base : Path) (dir : List String) (sub : FileTree.Spot) : Prop :=
  ∃ spot, w.tree.find w.cwd base = .ok spot ∧ w.tree.isFolderAt spot.location = true ∧
    w.tree.Reaches (base.absolute w.cwd) spot dir sub

/-- The given names lead from the folder at `base` down to something that is no folder. -/
def HasFile (w : World) (base : Path) (names : List String) : Prop :=
  ∃ spot, w.tree.find w.cwd base = .ok spot ∧ w.tree.isFolderAt spot.location = true ∧
    w.tree.HasFile (base.absolute w.cwd) spot names

/-- Whether a folder below `base`, or `base` itself, may be listed under its absolute path. -/
def MayList (w : World) (base : Path) (dir : List String) : Prop :=
  w.tree.isListable ((base.absolute w.cwd).below dir) = true

/-- Some folder lies too deep below `base`, and no folder that is listed before it ends the listing. -/
def IsTooDeep (w : World) (base : Path) : Prop :=
  ∃ dir sub, w.Reaches base dir sub ∧ maxNesting ≤ dir.length ∧
    ∀ dir' < dir, ∀ sub', w.Reaches base dir' sub' → dir'.length < maxNesting ∧ w.MayList base dir'

variable {w : World} {base : Path}

theorem Reaches.leadsToFolder {dir : List String} {sub : FileTree.Spot} (h : w.Reaches base dir sub) :
    w.LeadsToFolder base := by
  obtain ⟨spot, hfind, hfolder, -⟩ := h
  exact ⟨spot, hfind, hfolder⟩

theorem HasFile.leadsToFolder {names : List String} (h : w.HasFile base names) :
    w.LeadsToFolder base := by
  obtain ⟨spot, hfind, hfolder, -⟩ := h
  exact ⟨spot, hfind, hfolder⟩

theorem IsTooDeep.leadsToFolder (h : w.IsTooDeep base) : w.LeadsToFolder base := by
  obtain ⟨_, _, hsub, -⟩ := h
  exact hsub.leadsToFolder

end World

/-- Something is there and cannot be read, as the rules of the library have it. -/
def IsUnreadable {α : Type} (outcome : Except Failure α) : Prop :=
  ∃ error, outcome = .error (.resource error) ∧ error.category = .unreadable

theorem not_isUnreadable_fault {α : Type} {fault : Fault} :
    ¬ IsUnreadable (.error (.fault fault) : Except Failure α) := by
  intro h
  obtain ⟨error, herror, -⟩ := h
  cases herror

theorem IsUnreadable.map {α β : Type} {outcome : Except Failure α} (h : IsUnreadable outcome) (f : α → β) :
    IsUnreadable (f <$> outcome) := by
  obtain ⟨error, rfl, hcategory⟩ := h
  exact ⟨error, rfl, hcategory⟩

/-- A listing as it should be: it says that it cannot read the folder exactly if that is none, or if it
or a folder below it may not be listed; and else it consists of the files below the folder that match,
each once, in order, under the absolute path of the folder. -/
structure Source.ListsFolder (w : World) (e : Expression) (base : Path) : Prop where
  fails_iff : IsUnreadable (listTree w e base).outcome ↔
    ¬ w.LeadsToFolder base ∨ ∃ dir sub, w.Reaches base dir sub ∧ ¬ w.MayList base dir
  lists : w.LeadsToFolder base → (∀ dir sub, w.Reaches base dir sub → w.MayList base dir) →
    ∃ files : List (List String),
      (listTree w e base).outcome = .ok (files.map (fileLocator (base.absolute w.cwd))) ∧
      (∀ names, names ∈ files ↔
        w.HasFile base names ∧ Pattern.matchesPath e.globText (joinSlash names) = true) ∧
      files.Pairwise FileTree.Before ∧ (files.map (fileLocator (base.absolute w.cwd))).Nodup

/-! ### When it is -/

namespace Source

variable {w : World} {base : Path} {spot : FileTree.Spot} {e : Expression}

theorem not_listsFolder_of_fault {fault : Fault}
    (h : (listTree w e base).outcome = .error (.fault fault)) : ¬ ListsFolder w e base := by
  intro hlists
  have hreadable : ¬ IsUnreadable (listTree w e base).outcome := by
    rw [h]
    exact not_isUnreadable_fault
  obtain ⟨hfolder, hmay⟩ := not_or.mp (mt hlists.fails_iff.mpr hreadable)
  obtain ⟨files, hok, -⟩ := hlists.lists (not_not.mp hfolder) fun dir sub hsub =>
    not_not.mp fun hnot => hmay ⟨dir, sub, hsub, hnot⟩
  rw [h] at hok
  cases hok

theorem listsFolder_of_not_folder (hfolder : ¬ w.LeadsToFolder base)
    (h : (listTree w e base).outcome = .error (.resource (.baseNotFound base))) :
    ListsFolder w e base where
  fails_iff := iff_of_true ⟨_, h, rfl⟩ (.inl hfolder)
  lists := fun hthere => absurd hthere hfolder

/-- The locators of the files that match are as they should be if the files are. -/
theorem nodup_map_fileLocator {root : Path} {files : List (List String)}
    (hfiles : files.Pairwise FileTree.Before) (hproper : ∀ names ∈ files, Proper names ∧ names ≠ []) :
    (files.map (fileLocator root)).Nodup := by
  rw [List.Nodup, List.pairwise_map]
  refine hfiles.imp_of_mem fun hfirst hsecond hbefore heq => ?_
  obtain ⟨hfirst, hne⟩ := hproper _ hfirst
  obtain ⟨hsecond, hne'⟩ := hproper _ hsecond
  obtain rfl := fileLocator_inj_of_proper hfirst hsecond hne hne' heq
  exact hbefore.irrefl

theorem reaches_iff (hfind : w.tree.find w.cwd base = .ok spot)
    (hfolder : w.tree.isFolderAt spot.location = true) {dir : List String} {sub : FileTree.Spot} :
    w.Reaches base dir sub ↔ w.tree.folderBelow? (base.absolute w.cwd) spot dir = some sub := by
  rw [FileTree.folderBelow?_eq_some_iff_reaches]
  constructor
  · rintro ⟨spot', hfind', -, hreaches⟩
    obtain rfl := Except.ok.inj (hfind.symm.trans hfind')
    exact hreaches
  · exact fun hreaches => ⟨spot, hfind, hfolder, hreaches⟩

theorem hasFile_iff (hfind : w.tree.find w.cwd base = .ok spot)
    (hfolder : w.tree.isFolderAt spot.location = true) {names : List String} :
    w.HasFile base names ↔ w.tree.HasFile (base.absolute w.cwd) spot names := by
  constructor
  · rintro ⟨spot', hfind', -, hfile⟩
    obtain rfl := Except.ok.inj (hfind.symm.trans hfind')
    exact hfile
  · exact fun hfile => ⟨spot, hfind, hfolder, hfile⟩

/-- **A walk that ends well** is a listing as it should be. -/
theorem listsFolder_of_walk_eq_ok (hfind : w.tree.find w.cwd base = .ok spot)
    (hfolder : w.tree.isFolderAt spot.location = true) {found : List (List String)}
    (hwalk : w.tree.walk maxNesting (base.absolute w.cwd) spot = .ok found)
    (h : (listTree w e base).outcome = .ok (matchingFiles e (base.absolute w.cwd) found)) :
    ListsFolder w e base := by
  have hmay : ∀ dir sub, w.Reaches base dir sub → w.MayList base dir := fun dir sub hsub =>
    (FileTree.exists_walk_eq_ok_iff.mp ⟨found, hwalk⟩ dir sub ((reaches_iff hfind hfolder).mp hsub)).2
  refine ⟨iff_of_false ?_ ?_, fun _ _ => ⟨_, h, fun names => ?_, ?_, ?_⟩⟩
  · rw [h]
    rintro ⟨error, herror, -⟩
    cases herror
  · rintro (hnot | ⟨dir, sub, hsub, hnot⟩)
    · exact hnot ⟨spot, hfind, hfolder⟩
    · exact hnot (hmay dir sub hsub)
  · rw [List.mem_filter, FileTree.mem_walk_iff_hasFile hwalk, hasFile_iff hfind hfolder]
  · exact (FileTree.pairwise_walk hwalk).filter _
  · refine nodup_map_fileLocator ((FileTree.pairwise_walk hwalk).filter _) fun names hnames => ?_
    have hfile := (FileTree.mem_walk_iff_hasFile hwalk).mp (List.mem_filter.mp hnames).1
    exact ⟨hfile.proper, hfile.ne_nil⟩

/-- **A walk that comes to a folder which may not be listed** is one too. -/
theorem listsFolder_of_walk_eq_unlistable (hfind : w.tree.find w.cwd base = .ok spot)
    (hfolder : w.tree.isFolderAt spot.location = true) {folder : Path}
    (hwalk : w.tree.walk maxNesting (base.absolute w.cwd) spot = .error (.unlistable folder))
    (h : (listTree w e base).outcome = .error (.resource (.unreadableFolder folder))) :
    ListsFolder w e base := by
  obtain ⟨dir, sub, hdir, rfl, hlistable⟩ := FileTree.exists_of_walk_eq_unlistable hwalk
  have hsub := (reaches_iff hfind hfolder).mpr hdir
  have hnot : ¬ w.MayList base dir := by simp [World.MayList, hlistable]
  exact ⟨iff_of_true ⟨_, h, rfl⟩ (.inr ⟨dir, sub, hsub, hnot⟩),
    fun _ hmay => absurd (hmay dir sub hsub) hnot⟩

/-- When a walk fails for the depth of the folders. -/
theorem isTooDeep_iff (hfind : w.tree.find w.cwd base = .ok spot)
    (hfolder : w.tree.isFolderAt spot.location = true) :
    w.IsTooDeep base ↔
      w.tree.walk maxNesting (base.absolute w.cwd) spot = .error .tooDeep := by
  simp only [FileTree.walk_eq_error_iff, FileTree.stop?_eq_tooDeep_iff, World.IsTooDeep,
    reaches_iff hfind hfolder, FileTree.stop?_eq_none_iff, World.MayList]

theorem outcome_of_isTooDeep (hsame : w.AbsoluteLeadsThere base) (hlost : ¬ w.IsLost base)
    (hdeep : w.IsTooDeep base) :
    (listTree w e base).outcome = .error (.fault .nestedTooDeep) := by
  obtain ⟨-, -, ⟨spot, hfind, hfolder, -⟩, -⟩ := id hdeep
  rw [outcome_listTree_of_folder e hsame hlost hfind hfolder,
    (isTooDeep_iff hfind hfolder).mp hdeep]
  rfl

/-- A listing is as it should be where nothing stands against it. -/
theorem listsFolder_of_not_fault (hsame : ¬ w.IsLost base → w.AbsoluteLeadsThere base)
    (hrefuses : ∀ fault, ¬ w.Refuses base fault) (hlost : ¬ (w.LeadsToFolder base ∧ w.IsLost base))
    (hdeep : ¬ w.IsTooDeep base) : ListsFolder w e base := by
  cases hfind : w.tree.find w.cwd base with
  | error obstacle =>
      have hrefusal : obstacle.refusal? = none :=
        Option.eq_none_iff_forall_ne_some.mpr fun fault hfault => hrefuses fault ⟨obstacle, hfind, hfault⟩
      refine listsFolder_of_not_folder ?_ (outcome_listTree_of_find_error e hfind hrefusal)
      rintro ⟨spot, hspot, -⟩
      rw [hfind] at hspot
      cases hspot
  | ok spot =>
      cases hfolder : w.tree.isFolderAt spot.location with
      | false =>
          refine listsFolder_of_not_folder ?_ (outcome_listTree_of_not_folder e hfind hfolder)
          rintro ⟨spot', hspot', hfolder'⟩
          obtain rfl := Except.ok.inj (hfind.symm.trans hspot')
          rw [hfolder] at hfolder'
          cases hfolder'
      | true =>
          have hlost : ¬ w.IsLost base := fun h => hlost ⟨⟨spot, hfind, hfolder⟩, h⟩
          have houtcome := outcome_listTree_of_folder e (hsame hlost) hlost hfind hfolder
          cases hwalk : w.tree.walk maxNesting (base.absolute w.cwd) spot with
          | ok found =>
              rw [hwalk] at houtcome
              exact listsFolder_of_walk_eq_ok hfind hfolder hwalk houtcome
          | error failure =>
              rw [hwalk] at houtcome
              cases failure with
              | unlistable folder => exact listsFolder_of_walk_eq_unlistable hfind hfolder hwalk houtcome
              | tooDeep => exact absurd ((isTooDeep_iff hfind hfolder).mpr hwalk) hdeep

theorem outcome_of_lost (hfolder : w.LeadsToFolder base) (hlost : w.IsLost base) :
    (listTree w e base).outcome = .error (.fault .missingFolder) := by
  obtain ⟨spot, hfind, hfolder⟩ := hfolder
  exact outcome_listTree_of_lost e hfind hfolder hlost

/-- A listing is as it should be exactly where nothing stands against it. -/
theorem listsFolder_iff_not_fault (hsame : ¬ w.IsLost base → w.AbsoluteLeadsThere base) :
    ListsFolder w e base ↔ (∀ fault, ¬ w.Refuses base fault) ∧
      ¬ (w.LeadsToFolder base ∧ w.IsLost base) ∧ ¬ w.IsTooDeep base := by
  constructor
  · intro hlists
    refine ⟨fun fault hrefuses => ?_, fun hlost => ?_, fun hdeep => ?_⟩
    · exact not_listsFolder_of_fault (outcome_listTree_of_refuses e hrefuses) hlists
    · exact not_listsFolder_of_fault (outcome_of_lost hlost.1 hlost.2) hlists
    · by_cases hlost : w.IsLost base
      · exact not_listsFolder_of_fault (outcome_of_lost hdeep.leadsToFolder hlost) hlists
      · exact not_listsFolder_of_fault (outcome_of_isTooDeep (hsame hlost) hlost hdeep) hlists
  · rintro ⟨hrefuses, hlost, hdeep⟩
    exact listsFolder_of_not_fault hsame hrefuses hlost hdeep

/-- **A listing does not depend on the order of the nodes.** -/
theorem listTree_congr {tree : FileTree} (h : FileTree.SameNodes w.tree tree) (e : Expression)
    (base : Path) : listTree { w with tree := tree } e base = listTree w e base := by
  have hisFolder : World.isFolder { w with tree := tree } base = w.isFolder base := by
    rw [World.isFolder, World.isFolder, h.isFolder]
  have hfiles : ∀ root, filesBelow { w with tree := tree } root = filesBelow w root := by
    intro root
    rw [filesBelow, filesBelow, h.find]
    simp only [h.isFolderAt, h.walk]
  rw [listTree, listTree, hisFolder]
  simp only [hfiles]

/-- **When a listing is as it should be**: always but for four faults of what lies beneath. The path is
too long to be looked up, or leads through a folder that may not be searched; the working folder is gone,
so that a relative path has no absolute one; or folders lie too deep in each other. In no case does the
order in which the nodes of the tree are enumerated matter. -/
theorem listsFolder_iff (w : World) (e : Expression) (base : Path) (hcwd : w.HasWorkingFolder)
    (hbase : base.IsPlain) :
    (ListsFolder w e base ↔
      w.tree.find w.cwd base ≠ .error .tooLong ∧ w.tree.find w.cwd base ≠ .error .denied ∧
        ¬ (w.LeadsToFolder base ∧ w.IsLost base) ∧ ¬ w.IsTooDeep base) ∧
    (w.tree.find w.cwd base = .error .tooLong →
      (listTree w e base).outcome = .error (.fault .nameTooLong)) ∧
    (w.tree.find w.cwd base = .error .denied →
      (listTree w e base).outcome = .error (.fault .permissionDenied)) ∧
    (w.LeadsToFolder base → w.IsLost base →
      (listTree w e base).outcome = .error (.fault .missingFolder)) ∧
    (w.IsTooDeep base → ¬ w.IsLost base →
      (listTree w e base).outcome = .error (.fault .nestedTooDeep)) ∧
    ∀ tree, FileTree.SameNodes w.tree tree →
      listTree { w with tree := tree } e base = listTree w e base := by
  have hsame : ¬ w.IsLost base → w.AbsoluteLeadsThere base :=
    World.absoluteLeadsThere_of_isPlain hcwd hbase
  refine ⟨?_, fun hfind => outcome_listTree_of_refuses e ⟨_, hfind, rfl⟩,
    fun hfind => outcome_listTree_of_refuses e ⟨_, hfind, rfl⟩, outcome_of_lost,
    fun hdeep hlost => outcome_of_isTooDeep (hsame hlost) hlost hdeep,
    fun tree htree => listTree_congr htree e base⟩
  rw [listsFolder_iff_not_fault hsame, World.not_refuses_iff, and_assoc]

/-- A path of many long segments is too long. -/
theorem find_manyLong (t : FileTree) (cwd : Location) :
    t.find cwd ⟨.relative, List.replicate 21 (String.ofList (List.replicate 200 'a'))⟩ =
      .error .tooLong := by
  rw [FileTree.find, if_neg (by decide +kernel), if_pos (by decide +kernel)]

/-- An expression for all scripts below the folder `d`. -/
def scriptsBelow : Expression := ⟨"file:d/**/*.js", false, some "file", ["d"], ["**", "*.js"], false⟩

/-- A world with a folder `d` that may not be searched, and with a file in a folder below it. -/
def behindLocked : World where
  tree := ⟨[(["d"], .lockedFolder), (["d", "a"], .folder), (["d", "a", "x.js"], .file ByteArray.empty)], []⟩
  cwd := []
  defaultPath := []
  web := []

theorem find_behindLocked :
    behindLocked.tree.find behindLocked.cwd ⟨.relative, ["d", "a"]⟩ = .error .denied := by
  have hchild : behindLocked.tree.child? [] "d" = some .lockedFolder := rfl
  rw [FileTree.find, if_neg (by decide), if_neg (by decide), FileTree.along_of_ne_nil (by simp)]
  show behindLocked.tree.descend FileTree.maxLinks [] ["d", "a"] = _
  rw [FileTree.descend_of_child_eq_some _ _ rfl (by decide) hchild (by simp),
    FileTree.descend_of_not_open (by decide) rfl]
  rfl

/-- The folder `d` is listed as it should be; a path of many long segments is not, and neither is a folder
behind one that may not be searched. -/
theorem listsFolder_packedTwice :
    ListsFolder packedTwice scriptsBelow ⟨.relative, ["d"]⟩ ∧
      ¬ ListsFolder packedTwice scriptsBelow
        ⟨.relative, List.replicate 21 (String.ofList (List.replicate 200 'a'))⟩ ∧
      (listTree behindLocked scriptsBelow ⟨.relative, ["d", "a"]⟩).outcome =
        .error (.fault .permissionDenied) := by
  have hcwd : packedTwice.HasWorkingFolder := fun _ above name below h => by
    simp [packedTwice] at h
  have hlong := find_manyLong packedTwice.tree packedTwice.cwd
  have hchild : packedTwice.tree.child? [] "d" = some .folder := rfl
  have hfind := find_packedTwice (p := ⟨.relative, ["d"]⟩) rfl (by decide) (by decide) (by decide)
    hchild (by simp)
  have hdeep : ¬ packedTwice.IsTooDeep ⟨.relative, ["d"]⟩ := by
    rintro ⟨dir, sub, hsub, hlength, -⟩
    rw [reaches_iff hfind rfl] at hsub
    have hfiles : AreFiles [["a", "x.js"]] := ⟨by decide, by unfold AreNames; decide⟩
    have hfolder : IsFolderOf [["a", "x.js"]] ([] ++ dir) :=
      ((packedTwice_holdsAt.folderBelow?_eq_some_iff hfiles isFolderOf_nil).mp hsub).1
    rcases isFolderOf_small_iff.mp hfolder with rfl | rfl <;> exact absurd hlength (by decide)
  refine ⟨(listsFolder_iff packedTwice scriptsBelow _ hcwd (by unfold Path.IsPlain; decide)).1.mpr
    ⟨by simp [hfind], by simp [hfind], fun h => absurd h.2.2 (by decide), hdeep⟩, fun h => ?_, ?_⟩
  · exact ((listsFolder_iff packedTwice scriptsBelow _ hcwd
      (by unfold Path.IsPlain; decide +kernel)).1.mp h).1 hlong
  · obtain ⟨-, -, hdenied, -⟩ := listsFolder_iff behindLocked scriptsBelow ⟨.relative, ["d", "a"]⟩
      (fun _ => (FileTree.IsThere.nil _).stands) (by unfold Path.IsPlain; decide)
    exact hdenied find_behindLocked

end Source

end AntResources
