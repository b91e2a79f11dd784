import AntResources.Proofs.JoinedPaths
import AntResources.Proofs.ListingFaults
import AntResources.Proofs.Reexpansion

/-!
# AntResources.Proofs.RelativePaths

**A relative expression and the absolute one for the same files.** Put behind the path of the working folder,
a relative path comes to the same glob, below the absolute path of its own root
(`Expression.atPath_behind`): how far the `..` at its start climb is settled by the text in both cases, and
the tree agrees, because the working folder is reached through folders only
(`FileTree.Stands.descend_climbing`). So both expressions list the same files. They differ in the paths that
are asked for the folder, of which one can be too long without the other, or lead through a folder that may
not be searched.
-/

namespace AntResources

open Contribution (Setup)
open Text

/-! ### Two spellings of a path -/

namespace Text

/-- Segments in normal form are some that climb, and others that go down. -/
theorem exists_climbing_of_normalize {segments : List String} (h : ∀ s ∈ segments, '/' ∉ s.toList) :
    ∃ k below, normalize false segments = List.replicate k ".." ++ below ∧
      ∀ s ∈ below, s ≠ "" ∧ s ≠ "." ∧ s ≠ ".." := by
  have hsplit := replicate_climbs_append_descent (normalize false segments)
  refine ⟨_, _, hsplit.symm, fun s hs => ?_⟩
  obtain ⟨hempty, hdot, -⟩ := proper_normalize h s ((List.dropWhile_suffix _).mem hs)
  exact ⟨hempty, hdot, fun heq => climbsFirst_normalize false segments (heq ▸ hs)⟩

/-- Behind the path of a place, segments that climb first lead down from a place above it. -/
theorem normalizeOnto_rooted_climbs_append {above names : List String} (hup : ".." ∉ above)
    (hnames : ∀ s ∈ names, s ≠ "" ∧ s ≠ "." ∧ s ≠ "..") (k : Nat) :
    normalizeOnto true above.reverse (List.replicate k ".." ++ names) =
      above.take (above.length - k) ++ names := by
  rw [normalizeOnto_append, normalizeOnto_rooted_climbing (by simpa using hup),
    normalizeOnto_of_plain hnames]
  simp

end Text

namespace Expression

variable {cwd : Location} {path : String}

/-- The path of a place with another behind it, as text. -/
def behind (cwd : Location) (path : String) : String :=
  (Path.ofLocation cwd).toString ++ "/" ++ path

theorem toList_behind (cwd : Location) (path : String) : (behind cwd path).toList =
    ('/' :: (joinSlash cwd).toList) ++ '/' :: path.toList := by
  simp [behind, Path.ofLocation, Path.toString, Anchor.text]

/-- The segments of a joined path, if the folder is given by its own absolute path. -/
theorem pathSegments_behind (hproper : Proper cwd) (hup : ".." ∉ cwd) (path : String) :
    pathSegments (behind cwd path).toList =
      normalizeOnto true cwd.reverse (Text.normalize false (splitSlash path)) := by
  rw [toList_behind, pathSegments_append, pathSegments_concat_slash (List.cons_ne_nil _ _),
    pathSegments_absolute hproper hup, normalizeOnto_normalize]
  rfl

theorem pathSegments_relative (h : path.toList.head? ≠ some '/') :
    pathSegments path.toList = Text.normalize false (splitSlash path) := by
  rw [pathSegments, decide_eq_false h, splitSlash]

/-- A relative path that does not only climb is cut behind all the `..` at its start. -/
theorem exists_atPath_climbs (hrelative : path.toList.head? ≠ some '/')
    (hdown : ∃ s ∈ Text.normalize false (splitSlash path), s ≠ "..") :
    ∃ k below, Text.normalize false (splitSlash path) = List.replicate k ".." ++ below ∧ below ≠ [] ∧
      (∀ s ∈ below, s ≠ "" ∧ s ≠ "." ∧ s ≠ "..") ∧
      (atPath path).root = List.replicate k ".." ++ (splitGlob below).1 ∧
      (atPath path).glob = (splitGlob below).2 := by
  obtain ⟨k, below, heq, hplain⟩ :=
    exists_climbing_of_normalize fun (s : String) (hs : s ∈ splitSlash path) =>
      noSlash_of_mem_splitSlash hs
  have hne : below ≠ [] := by
    rintro rfl
    obtain ⟨s, hs, hother⟩ := hdown
    rw [heq, List.append_nil] at hs
    exact hother (List.eq_of_mem_replicate hs)
  have hclimb : ∀ s ∈ List.replicate k "..", isGlob s = false := fun s hs => by
    rw [List.eq_of_mem_replicate hs]
    decide
  refine ⟨k, below, heq, hne, hplain, ?_⟩
  simp only [atPath, pathSegments_relative hrelative, heq, splitGlob_literal_append hclimb hne,
    and_self]

theorem plain_of_mem_splitGlob {names : List String}
    (h : ∀ s ∈ names, s ≠ "" ∧ s ≠ "." ∧ s ≠ "..") :
    ∀ s ∈ (splitGlob names).1, s ≠ "" ∧ s ≠ "." ∧ s ≠ ".." := fun s hs =>
  h s (splitGlob_append names ▸ List.mem_append_left _ hs)

/-- **Both spellings are cut at the same place**, and what is before it in the one is the absolute path of
what is before it in the other. -/
theorem atPath_behind (hproper : Proper cwd) (hup : ".." ∉ cwd)
    (hliteral : ∀ s ∈ cwd, isGlob s = false) (hrelative : path.toList.head? ≠ some '/')
    (hdown : ∃ s ∈ Text.normalize false (splitSlash path), s ≠ "..") :
    (atPath (behind cwd path)).glob = (atPath path).glob ∧
      ⟨.root, (atPath (behind cwd path)).root⟩ =
        Path.absolute cwd ⟨.relative, (atPath path).root⟩ := by
  obtain ⟨k, below, heq, hne, hplain, hroot, hglob⟩ := exists_atPath_climbs hrelative hdown
  have hupper : ∀ s ∈ cwd.take (cwd.length - k), isGlob s = false := fun s hs =>
    hliteral s (List.mem_of_mem_take hs)
  have hsegments : pathSegments (behind cwd path).toList = cwd.take (cwd.length - k) ++ below := by
    rw [pathSegments_behind hproper hup, heq, normalizeOnto_rooted_climbs_append hup hplain]
  have hcut := splitGlob_literal_append hupper hne
  rw [← hsegments] at hcut
  rw [hroot, hglob, Path.absolute,
    normalizeOnto_rooted_climbs_append hup (plain_of_mem_splitGlob hplain), atPath, hcut]
  exact ⟨rfl, rfl⟩

end Expression

/-! ### The folder in the tree -/

namespace FileTree

variable {t : FileTree} {l : Location}

theorem Stands.isThere_of_dropLast (h : t.Stands l) (habove : t.IsThere l.dropLast)
    (hopen : t.isOpenAt l = true) : t.IsThere l := by
  rcases List.eq_nil_or_concat l with rfl | ⟨above, name, rfl⟩
  · exact .nil t
  · rw [List.concat_eq_append] at h hopen habove ⊢
    rw [List.dropLast_concat] at habove
    obtain ⟨node, hchild, -, hlong⟩ := h above name [] rfl
    refine habove.child ?_ hlong
    rw [child?, if_pos (isName_of_child? hchild), node?_of_isOpenAt hopen]

/-- Some levels of a place are left away one after the other. -/
theorem take_take_levels (l : Location) (k : Nat) :
    (l.take (l.length - 1)).take ((l.take (l.length - 1)).length - k) = l.take (l.length - (k + 1)) := by
  rw [List.length_take, List.take_take]
  congr 1
  omega

/-- A place that can be left by `..` is there, if the place is there that this comes to. -/
theorem Stands.isThere_of_climbing (h : t.Stands l) {links k : Nat} {rest : List String} {spot : Spot}
    (hthere : t.IsThere (l.take (l.length - k)))
    (hdescend : t.descend links l (List.replicate k ".." ++ rest) = .ok spot) : t.IsThere l := by
  induction k generalizing l with
  | zero => simpa using hthere
  | succ k ih =>
      rw [List.replicate_succ, List.cons_append] at hdescend
      have hopen := isOpenAt_of_descend (by decide) hdescend
      rw [descend_up hopen, List.dropLast_eq_take] at hdescend
      rw [← take_take_levels l k] at hthere
      refine h.isThere_of_dropLast ?_ hopen
      rw [List.dropLast_eq_take]
      exact ih (h.take _) hthere hdescend

/-- From a place that stands, `..` leads up, unless it comes to a folder that may not be searched. -/
theorem Stands.descend_climbing (h : t.Stands l) (links k : Nat) (rest : List String) :
    t.descend links l (List.replicate k ".." ++ rest) = t.descend links (l.take (l.length - k)) rest ∨
      t.descend links l (List.replicate k ".." ++ rest) = .error .denied := by
  induction k generalizing l with
  | zero => simp
  | succ k ih =>
      rw [List.replicate_succ, List.cons_append]
      cases hopen : t.isOpenAt l with
      | false =>
          rw [descend_of_not_open (by decide) hopen, barrier, h.isFolderAt]
          exact .inr rfl
      | true =>
          rw [descend_up hopen, List.dropLast_eq_take, ← take_take_levels l k]
          exact ih (h.take _)

end FileTree

section Climbing

/-! A relative path that climbs some levels from the working folder, and goes down from there. -/

variable {w : World} {base : Path} {k : Nat} {names : List String} (hthere : w.tree.Stands w.cwd)
  (hnames : ∀ s ∈ names, s ≠ "" ∧ s ≠ "." ∧ s ≠ "..")
  (hbase : base = ⟨.relative, List.replicate k ".." ++ names⟩)

include hthere hnames hbase

namespace World

theorem absolute_of_climbs :
    base.absolute w.cwd = ⟨.root, w.cwd.take (w.cwd.length - k) ++ names⟩ := by
  rw [hbase, Path.absolute, normalizeOnto_rooted_climbs_append hthere.not_mem_up hnames]

/-- What is left of the working folder stands, so that a NUL can stand only in the names below it. -/
theorem hasNul_absolute_of_climbs : (base.absolute w.cwd).hasNul = base.hasNul := by
  have hnone := (hthere.take (w.cwd.length - k)).hasNul .root
  rw [absolute_of_climbs hthere hnames hbase, hbase]
  unfold Path.hasNul at hnone ⊢
  rw [List.any_append, List.any_append, hnone, List.any_replicate]
  simp

/-- Climbing from the working folder comes to the place that the absolute path starts with, unless it comes
to a folder that may not be searched. -/
theorem descend_of_climbs :
    w.tree.descend FileTree.maxLinks (FileTree.start w.cwd base) (FileTree.along base) =
        w.tree.descend FileTree.maxLinks (w.cwd.take (w.cwd.length - k)) names ∨
      w.tree.descend FileTree.maxLinks (FileTree.start w.cwd base) (FileTree.along base) =
        .error .denied := by
  have hstart : FileTree.start w.cwd base = w.cwd := by rw [hbase, FileTree.start, if_pos rfl]
  rw [hstart]
  cases hopen : w.tree.isOpenAt w.cwd with
  | true =>
      rw [FileTree.descend_along hopen, hbase]
      exact hthere.descend_climbing FileTree.maxLinks k names
  | false =>
      have hdenied : w.tree.barrier w.cwd = .denied := by rw [FileTree.barrier, hthere.isFolderAt, if_pos rfl]
      have hnonempty : ∀ s ∈ base.parts, s ≠ "" := by
        rw [hbase]
        refine List.forall_mem_append.mpr ⟨fun s hs => ?_, fun s hs => (hnames s hs).1⟩
        rw [List.eq_of_mem_replicate hs]
        decide
      obtain ⟨first, rest, halong, hfirst⟩ := FileTree.exists_along_eq_cons hnonempty
      rw [halong, FileTree.descend_of_not_open hfirst hopen, hdenied]
      exact .inr rfl

/-- So does the absolute path itself. -/
theorem descend_absolute_of_climbs :
    w.tree.descend FileTree.maxLinks (FileTree.start w.cwd (base.absolute w.cwd))
        (FileTree.along (base.absolute w.cwd)) =
        w.tree.descend FileTree.maxLinks (w.cwd.take (w.cwd.length - k)) names ∨
      w.tree.descend FileTree.maxLinks (FileTree.start w.cwd (base.absolute w.cwd))
        (FileTree.along (base.absolute w.cwd)) = .error .denied := by
  rw [absolute_of_climbs hthere hnames hbase, FileTree.start, if_neg (by simp), FileTree.descend_along rfl,
    FileTree.descend_append]
  rcases (hthere.take (w.cwd.length - k)).descend FileTree.maxLinks with hdown | hdown
  · rw [hdown, ok_bind]
    exact .inl rfl
  · rw [hdown, error_bind]
    exact .inr rfl

/-- **The path and its absolute path** lead to the same place, unless one of them is too long or leads through
a folder that may not be searched. -/
theorem find_absolute_cases (hbytes : base.hasNul = false → base.byteLength < FileTree.maxPathBytes)
    (hbytes' : base.hasNul = false → (base.absolute w.cwd).byteLength < FileTree.maxPathBytes) :
    w.tree.find w.cwd (base.absolute w.cwd) = w.tree.find w.cwd base ∨
      w.tree.find w.cwd base = .error .denied ∨
      w.tree.find w.cwd (base.absolute w.cwd) = .error .denied := by
  unfold FileTree.find
  rw [hasNul_absolute_of_climbs hthere hnames hbase]
  cases hnul : base.hasNul with
  | true => exact .inl rfl
  | false =>
      rw [if_neg Bool.false_ne_true, if_neg Bool.false_ne_true, if_neg (hbytes hnul).not_ge,
        if_neg (hbytes' hnul).not_ge]
      rcases descend_of_climbs hthere hnames hbase with hway | hway
      · rcases descend_absolute_of_climbs hthere hnames hbase with hdown | hdown
        · exact .inl (hdown.trans hway.symm)
        · exact .inr (.inr hdown)
      · exact .inr (.inl hway)

theorem find_absolute_of_climbs (hrefuses : ∀ fault, ¬ w.Refuses base fault)
    (hrefuses' : ∀ fault, ¬ w.Refuses (base.absolute w.cwd) fault) :
    w.tree.find w.cwd (base.absolute w.cwd) = w.tree.find w.cwd base := by
  have hshort : ∀ {p : Path}, p.hasNul = false → (∀ fault, ¬ w.Refuses p fault) →
      p.byteLength < FileTree.maxPathBytes := by
    intro p hp hnot
    by_contra hlong
    refine hnot .nameTooLong ⟨.tooLong, ?_, rfl⟩
    rw [FileTree.find, hp, if_neg Bool.false_ne_true, if_pos (Nat.not_lt.mp hlong)]
  have hnul := hasNul_absolute_of_climbs hthere hnames hbase
  rcases find_absolute_cases hthere hnames hbase (fun hp => hshort hp hrefuses)
    (fun hp => hshort (hnul.trans hp) hrefuses') with hsame | hdenied | hdenied
  · exact hsame
  · exact absurd ⟨_, hdenied, rfl⟩ (hrefuses .permissionDenied)
  · exact absurd ⟨_, hdenied, rfl⟩ (hrefuses' .permissionDenied)

theorem absoluteLeadsThere_of_climbs : w.AbsoluteLeadsThere base := by
  intro spot hfind hlistable
  obtain ⟨hnul, hbytes, -⟩ := FileTree.find_eq_ok_iff.mp hfind
  obtain ⟨hbytes', hbarred, -⟩ := FileTree.isListable_iff.mp hlistable
  rcases find_absolute_cases hthere hnames hbase (fun _ => hbytes) (fun _ => hbytes') with
    hsame | hdenied | hdenied
  · exact hsame.trans hfind
  · cases hdenied.symm.trans hfind
  · refine absurd ?_ hbarred
    rw [← hdenied]
    exact FileTree.find_of_anchored (by simp [absolute_of_climbs hthere hnames hbase]) [] w.cwd

/-- The absolute path is its own absolute path. -/
theorem absolute_absolute_of_climbs : (base.absolute w.cwd).absolute w.cwd = base.absolute w.cwd := by
  have hplain : (base.absolute w.cwd).IsPlain := by
    rw [absolute_of_climbs hthere hnames hbase]
    exact List.forall_mem_append.mpr ⟨(hthere.take _).isPlain .root, hnames⟩
  rw [hplain.absolute, if_neg (by simp [absolute_of_climbs hthere hnames hbase])]

end World

namespace Source

/-- **What is listed at the path and at its absolute path** is the same, unless one of them is refused. Where
no folder is, each of them is named in the failure. -/
theorem outcome_listTree_absolute {e other : Expression} (hgone : Location.isGone w.cwd = false)
    (hglob : other.glob = e.glob) (hrefuses : ∀ fault, ¬ w.Refuses base fault)
    (hrefuses' : ∀ fault, ¬ w.Refuses (base.absolute w.cwd) fault) :
    (listTree w other (base.absolute w.cwd)).outcome = (listTree w e base).outcome ∨
      ((listTree w e base).outcome = .error (.resource (.baseNotFound base)) ∧
        (listTree w other (base.absolute w.cwd)).outcome =
          .error (.resource (.baseNotFound (base.absolute w.cwd)))) := by
  have hfind := World.find_absolute_of_climbs hthere hnames hbase hrefuses hrefuses'
  have hfolder : w.isFolder (base.absolute w.cwd) = w.isFolder base := by
    unfold World.isFolder FileTree.isFolder FileTree.test FileTree.lookUp
    rw [hfind]
  have hmatching : matchingFiles other = matchingFiles e := by
    funext root files
    rw [matchingFiles, matchingFiles, Expression.globText, Expression.globText, hglob]
  have hlost : ∀ p, ¬ w.IsLost p := fun p hlost => by
    rw [World.IsLost, hgone] at hlost
    exact absurd hlost.2 (by decide)
  rw [outcome_listTree, outcome_listTree, hfolder, World.absolute_eq_ok (hlost _),
    World.absolute_eq_ok (hlost _), World.absolute_absolute_of_climbs hthere hnames hbase, hmatching]
  cases w.isFolder base with
  | error failure => exact .inl rfl
  | ok isFolder =>
      cases isFolder with
      | false => exact .inr ⟨rfl, rfl⟩
      | true => exact .inl rfl

end Source

end Climbing

/-! ### Expanding both -/

/-- Two outcomes of the same: the same resources, or failures that both say that something cannot be read. -/
def SameListing (first second : Except Failure (List Locator)) : Prop :=
  (∃ ls, first = .ok ls ∧ second = .ok ls) ∨ IsUnreadable first ∧ IsUnreadable second

theorem not_sameListing_of_fault {first second : Except Failure (List Locator)} {fault : Fault}
    (h : first = .error (.fault fault) ∨ second = .error (.fault fault)) :
    ¬ SameListing first second := by
  intro hsame
  rcases hsame with ⟨ls, rfl, rfl⟩ | ⟨hfirst, hsecond⟩
  · rcases h with h | h <;> cases h
  · rcases h with rfl | rfl
    · exact not_isUnreadable_fault hfirst
    · exact not_isUnreadable_fault hsecond

namespace Source

variable {w : World} {e : Expression} {base : Path}

/-- A listing that no fault ends counts as the same as itself. -/
theorem sameListing_listTree_self (h : ∀ fault, ¬ w.FolderFault base fault) :
    SameListing (listTree w e base).outcome (listTree w e base).outcome := by
  cases houtcome : (listTree w e base).outcome with
  | ok ls => exact .inl ⟨ls, rfl, rfl⟩
  | error failure =>
      cases failure with
      | fault fault => exact absurd (outcome_listTree_eq_fault_iff.mp houtcome) (h fault)
      | resource error =>
          have hunreadable : IsUnreadable (.error (.resource error) : Except Failure (List Locator)) :=
            ⟨error, rfl, category_of_listTree houtcome⟩
          exact .inr ⟨hunreadable, hunreadable⟩

end Source

/-- Folders that lie too deep in a folder are come upon only if the folder is found under both paths. -/
theorem World.FolderFault.not_refuses {w : World} {base : Path} (h : w.FolderFault base .nestedTooDeep) :
    (∀ fault, ¬ w.Refuses base fault) ∧ ∀ fault, ¬ w.Refuses (base.absolute w.cwd) fault := by
  generalize hfault : Fault.nestedTooDeep = cause at h
  cases h with
  | refused hrefuses => rcases hrefuses.cases with rfl | rfl <;> cases hfault
  | lost => cases hfault
  | tooDeep hfolder _ hspot _ _ =>
      constructor
      · intro fault hrefuses
        rw [isFolder_of_refuses hrefuses] at hfolder
        cases hfolder
      · rintro fault ⟨obstacle, hfind, -⟩
        rw [hfind] at hspot
        cases hspot

/-- The folder that a relative path is listed in. -/
def Expression.relativeRoot (path : String) : Path :=
  ⟨.relative, (Expression.atPath path).root⟩

section Relative

variable {w : World} {setup : Setup} {path : String} (hrelative : path.toList.head? ≠ some '/')
  (hlast : ∀ c, path.toList.getLast? = some c → isBlank c = false)

include hrelative hlast

theorem outcome_expand_relative : (expand w setup [Source.fileOrigin ++ ":" ++ path]).outcome =
    (Source.listTree w (Expression.atPath path) (Expression.relativeRoot path)).outcome := by
  rw [outcome_expand_atPath w setup hlast, listing_atPath w setup hlast, if_neg hrelative,
    Expression.relativeRoot]

theorem outcome_expand_behind (hthere : w.tree.Stands w.cwd)
    (hliteral : ∀ s ∈ w.cwd, Expression.isGlob s = false)
    (hdown : ∃ s ∈ Text.normalize false (splitSlash path), s ≠ "..") :
    (expand w setup [Source.fileOrigin ++ ":" ++ Expression.behind w.cwd path]).outcome =
      (Source.listTree w (Expression.atPath (Expression.behind w.cwd path))
        ((Expression.relativeRoot path).absolute w.cwd)).outcome := by
  obtain ⟨-, habsolute⟩ :=
    Expression.atPath_behind hthere.proper hthere.not_mem_up hliteral hrelative hdown
  have hpath : path ≠ "" := by
    rintro rfl
    obtain ⟨s, hs, -⟩ := hdown
    cases hs
  have hlast : ∀ c, (Expression.behind w.cwd path).toList.getLast? = some c → isBlank c = false :=
    isBlank_joined hpath hlast
  have hslash : (Expression.behind w.cwd path).toList.head? = some '/' := by
    rw [Expression.toList_behind]
    rfl
  rw [outcome_expand_atPath w setup hlast, listing_atPath w setup hlast, if_pos hslash, habsolute,
    Expression.relativeRoot]

end Relative

/-- **A relative path and the same path behind that of the working folder** come to the same, but for three
faults of what lies beneath. The folder is asked for by different paths, each of which can be too long or lead
through a folder that may not be searched; and folders can lie too deep in it, which ends both listings. -/
theorem sameListing_behind_iff (w : World) (setup : Setup) (path : String) (hcwd : w.HasWorkingFolder)
    (hgone : Location.isGone w.cwd = false) (hliteral : ∀ s ∈ w.cwd, Expression.isGlob s = false)
    (hrelative : path.toList.head? ≠ some '/')
    (hlast : ∀ c, path.toList.getLast? = some c → isBlank c = false)
    (hdown : ∃ s ∈ Text.normalize false (splitSlash path), s ≠ "..") :
    (SameListing (expand w setup [Source.fileOrigin ++ ":" ++ path]).outcome
        (expand w setup [Source.fileOrigin ++ ":" ++ Expression.behind w.cwd path]).outcome ↔
      (∀ fault, ¬ w.Refuses (Expression.relativeRoot path) fault) ∧
        (∀ fault, ¬ w.Refuses ((Expression.relativeRoot path).absolute w.cwd) fault) ∧
        ¬ w.FolderFault (Expression.relativeRoot path) .nestedTooDeep) ∧
    (∀ fault, w.Refuses (Expression.relativeRoot path) fault →
      (expand w setup [Source.fileOrigin ++ ":" ++ path]).outcome = .error (.fault fault)) ∧
    (∀ fault, w.Refuses ((Expression.relativeRoot path).absolute w.cwd) fault →
      (expand w setup [Source.fileOrigin ++ ":" ++ Expression.behind w.cwd path]).outcome =
        .error (.fault fault)) ∧
    (w.FolderFault (Expression.relativeRoot path) .nestedTooDeep →
      (expand w setup [Source.fileOrigin ++ ":" ++ path]).outcome = .error (.fault .nestedTooDeep) ∧
        (expand w setup [Source.fileOrigin ++ ":" ++ Expression.behind w.cwd path]).outcome =
          .error (.fault .nestedTooDeep)) := by
  have hthere := hcwd hgone
  obtain ⟨k, below, -, -, hplain, hroot, -⟩ := Expression.exists_atPath_climbs hrelative hdown
  have hnames := Expression.plain_of_mem_splitGlob hplain
  have hbase : Expression.relativeRoot path =
      ⟨.relative, List.replicate k ".." ++ (Expression.splitGlob below).1⟩ := by
    rw [Expression.relativeRoot, hroot]
  obtain ⟨hglob, -⟩ := Expression.atPath_behind hthere.proper hthere.not_mem_up hliteral hrelative hdown
  rw [outcome_expand_relative hrelative hlast, outcome_expand_behind hrelative hlast hthere hliteral hdown]
  have hlisted := Source.outcome_listTree_absolute hthere hnames hbase hgone hglob
  have hrefused : ∀ {e base} fault, w.Refuses base fault →
      (Source.listTree w e base).outcome = .error (.fault fault) := fun fault =>
    Source.outcome_listTree_of_refuses _
  have hdeep : ∀ {e}, w.FolderFault (Expression.relativeRoot path) .nestedTooDeep →
      (Source.listTree w e (Expression.relativeRoot path)).outcome = .error (.fault .nestedTooDeep) :=
    Source.outcome_listTree_eq_fault_iff.mpr
  refine ⟨⟨fun hsame => ⟨fun fault h => ?_, fun fault h => ?_, fun h => ?_⟩, fun hnone => ?_⟩, hrefused,
    hrefused, fun h => ⟨hdeep h, ?_⟩⟩
  · exact not_sameListing_of_fault (.inl (hrefused fault h)) hsame
  · exact not_sameListing_of_fault (.inr (hrefused fault h)) hsame
  · exact not_sameListing_of_fault (.inl (hdeep h)) hsame
  · obtain ⟨hrefuses, hrefuses', hnot⟩ := hnone
    rcases hlisted hrefuses hrefuses' with heq | ⟨hmissing, hmissing'⟩
    · rw [heq]
      refine Source.sameListing_listTree_self fun fault hfault => ?_
      cases hfault with
      | refused h => exact hrefuses fault h
      | lost _ hlost => exact absurd (hgone.symm.trans hlost.2) (by decide)
      | tooDeep hfolder hlost hspot hthere htoo => exact hnot (.tooDeep hfolder hlost hspot hthere htoo)
    · rw [hmissing, hmissing']
      exact .inr ⟨⟨_, rfl, rfl⟩, ⟨_, rfl, rfl⟩⟩
  · obtain ⟨hrefuses, hrefuses'⟩ := h.not_refuses
    rcases hlisted hrefuses hrefuses' with heq | ⟨hmissing, -⟩
    · exact heq.trans (hdeep h)
    · rw [hdeep h] at hmissing
      cases hmissing

/-- The scripts beside the working folder are also those beside it in its absolute path. -/
theorem sameListing_scriptsBeside :
    SameListing (expand twoFolders ⟨SearchPath.resolve [] twoFolders, 1⟩ ["file:../d/*.js"]).outcome
        (expand twoFolders ⟨SearchPath.resolve [] twoFolders, 1⟩ ["file:/c/../d/*.js"]).outcome ∧
      (expand twoFolders ⟨SearchPath.resolve [] twoFolders, 1⟩ ["file:../d/*.js"]).outcome =
        .ok [⟨"file:/d/x.js"⟩] := by
  have hlast : ∀ c, "../d/*.js".toList.getLast? = some c → isBlank c = false :=
    isBlank_of_eq_some rfl rfl
  have hlisted : (Source.listTree twoFolders (Expression.atPath "../d/*.js")
      (Expression.relativeRoot "../d/*.js")).outcome = .ok [⟨"file:/d/x.js"⟩] := by
    have hlisting := outcome_expand_atPath twoFolders ⟨SearchPath.resolve [] twoFolders, 1⟩ hlast
    rw [listing_atPath _ _ hlast, if_neg (by decide)] at hlisting
    exact hlisting.symm.trans expand_scriptsBeside
  have hfault : ∀ fault, ¬ twoFolders.FolderFault (Expression.relativeRoot "../d/*.js") fault := by
    intro fault hfolder
    rw [Source.outcome_listTree_eq_fault_iff.mpr hfolder] at hlisted
    cases hlisted
  have hfind : twoFolders.tree.find twoFolders.cwd
      ((Expression.relativeRoot "../d/*.js").absolute twoFolders.cwd) =
        .ok ⟨["d"], FileTree.maxLinks⟩ := by
    have hchild : twoFolders.tree.child? [] "d" = some .folder := rfl
    have habsolute : (Expression.relativeRoot "../d/*.js").absolute twoFolders.cwd = ⟨.root, ["d"]⟩ := by
      decide +kernel
    rw [habsolute]
    exact FileTree.find_of_child rfl rfl (by decide) (by decide) (by decide) hchild (by simp)
  have hrefuses : ∀ fault, ¬ twoFolders.Refuses
      ((Expression.relativeRoot "../d/*.js").absolute twoFolders.cwd) fault := by
    rintro fault ⟨obstacle, hobstacle, -⟩
    cases hfind.symm.trans hobstacle
  obtain ⟨hsame, -⟩ := sameListing_behind_iff twoFolders ⟨SearchPath.resolve [] twoFolders, 1⟩
    "../d/*.js" hasWorkingFolder_twoFolders (by decide) (by decide) (by decide) hlast
    ⟨"d", by decide +kernel, by decide⟩
  exact ⟨hsame.mpr ⟨fun _ h => hfault _ (.refused h), hrefuses, hfault _⟩, expand_scriptsBeside⟩

end AntResources
