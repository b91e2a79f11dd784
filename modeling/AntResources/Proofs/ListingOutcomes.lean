import AntResources.Proofs.ResourceSets

/-!
# AntResources.Proofs.ListingOutcomes

**What choosing and listing come to.** Each operation of `Source` leaves a trace; here is its outcome
alone, as an equation without events. From these follows what the listing of an expression comes to, by
its origin. Later proofs cite these equations and do not open the operations again.
-/

namespace AntResources.Source

/-! ### The choice -/

/-- The source for the places that provide the root of `e`, the first of which decides. -/
def ofLocations (e : Expression) : List RootLocation → Except Failure Source
  | [] => .error (.resource (.rootNotFound e.rootDir e.raw))
  | .archive root :: rest => .ok (.archives (root :: rest.filterMap RootLocation.archive?))
  | .tree path :: _ => .ok (.tree path)

theorem outcome_choose (lookup : Lookup) (e : Expression) :
    (choose lookup e).outcome =
      if e.origin = some classpathOrigin then (lookup e.rootDir).outcome >>= ofLocations e
      else if e.origin = some fileOrigin then .ok (.tree (Path.ofString e.baseDir))
      else .ok .remote := by
  unfold choose
  by_cases hclass : e.origin = some classpathOrigin
  · rw [if_pos hclass, if_pos hclass, Trace.outcome_bind]
    congr 1
    funext locations
    cases locations with
    | nil => rfl
    | cons first rest => cases first <;> rfl
  · rw [if_neg hclass, if_neg hclass]
    by_cases hfile : e.origin = some fileOrigin
    · rw [if_pos hfile, if_pos hfile]
      rfl
    · rw [if_neg hfile, if_neg hfile]
      rfl

/-! ### Listing -/

variable (w : World) (e : Expression)

theorem outcome_listArchives (workers : Int) (roots : List ArchiveRoot) :
    (listArchives w workers e roots).outcome =
      gather workers (scanTasks w e roots) (scanTasks w e roots) := by
  simp only [listArchives, Trace.outcome_bind, Trace.outcome_ofExcept, Trace.outcome_tell,
    Trace.outcome_pure]
  cases gather workers (scanTasks w e roots) (scanTasks w e roots) <;> rfl

/-- One archive is scanned without a pool. -/
theorem outcome_listArchives_singleton (workers : Int) (root : ArchiveRoot) :
    (listArchives w workers e [root]).outcome = Locator.unique <$> scan w e root := by
  have hsingle : (scanTasks w e [root]).length ≤ 1 := Nat.le_refl 1
  rw [outcome_listArchives, gather, TaskPool.run, if_pos (Or.inr hsingle)]
  show (TaskPool.sequential [⟨0, scan w e root⟩] >>= _) = _
  cases hscan : scan w e root with
  | error f => simp [TaskPool.sequential]
  | ok found => simp [TaskPool.sequential, pure, Except.pure]

/-- The files below a folder that match an expression, as locators. -/
def matchingFiles (root : Path) (files : List (List String)) : List Locator :=
  (files.filter fun names => Pattern.matchesPath e.globText (Text.joinSlash names)).map
    (fileLocator root)

theorem outcome_listTree (base : Path) :
    (listTree w e base).outcome = w.isFolder base >>= fun isFolder =>
      if isFolder then
        (FileTree.absolute w.cwd base).mapError .fault >>= fun root =>
          matchingFiles e root <$> filesBelow w root
      else .error (.resource (.baseNotFound base)) := by
  unfold listTree
  rw [Trace.outcome_bind, Trace.outcome_ofExcept]
  congr 1
  funext isFolder
  cases isFolder with
  | false => rfl
  | true =>
      simp only [Bool.not_true, Bool.false_eq_true, if_false, if_true, Trace.outcome_bind,
        Trace.outcome_ofExcept, Trace.outcome_tell, Trace.outcome_pure]
      rfl

/-- A listing of a folder that ends well found the files below it under its absolute path. -/
theorem outcome_listTree_eq_ok_iff {w : World} {e : Expression} {base : Path} {found : List Locator} :
    (listTree w e base).outcome = .ok found ↔ w.isFolder base = .ok true ∧ ∃ root files,
      FileTree.absolute w.cwd base = .ok root ∧ filesBelow w root = .ok files ∧
        found = matchingFiles e root files := by
  rw [outcome_listTree]
  cases w.isFolder base with
  | error failure => simp
  | ok isFolder =>
      cases isFolder with
      | false => simp
      | true =>
          cases FileTree.absolute w.cwd base with
          | error fault => simp [Except.mapError]
          | ok root => cases hfiles : filesBelow w root <;> simp [Except.mapError, hfiles, eq_comm]

theorem outcome_listRemote :
    (listRemote e).outcome =
      match Remote.judge e.location with
      | .malformed => .error (.resource (.malformedLocation e.location))
      | .notALocation => .error (.resource (.notALocation e.location))
      | .location => .ok [⟨e.location⟩] := by
  delta listRemote
  cases Remote.judge e.location with
  | malformed => rfl
  | notALocation => rfl
  | location => rfl

end AntResources.Source

namespace AntResources.SearchPath

/-! ### Lookups -/

theorem outcome_resolve (searchPath : SearchPath) (w : World) (text : String) :
    (resolve searchPath w text).outcome =
      List.filterMap id <$> searchPath.mapM (locate w (Text.stripSlashes text)) := by
  simp only [resolve, Trace.outcome_bind, Trace.outcome_ofExcept, Trace.outcome_tell,
    Trace.outcome_pure]
  cases searchPath.mapM (locate w (Text.stripSlashes text)) with
  | error f => rfl
  | ok found => rfl

theorem outcome_resolve_singleton (entry : Path) (w : World) (text : String) :
    (resolve [entry] w text).outcome =
      Option.toList <$> locate w (Text.stripSlashes text) entry := by
  rw [outcome_resolve, List.mapM_cons, List.mapM_nil]
  cases locate w (Text.stripSlashes text) entry with
  | error f => rfl
  | ok found => cases found <;> rfl

end AntResources.SearchPath

namespace AntResources

open Contribution (Setup)

/-! ### Expressions -/

section Expressions

variable {w : World} {setup : Setup} {lookup : Lookup} {workers : Int} {text : String} {e : Expression}
  {ls : List Locator}

theorem exists_parse_of_listing (h : listing w setup text = .ok ls) :
    ∃ e, Expression.parse text = some e := by
  cases hparse : Expression.parse text with
  | none =>
      rw [listing, hparse] at h
      cases h
  | some e => exact ⟨e, rfl⟩

theorem listing_of_parse (hparse : Expression.parse text = some e) :
    listing w setup text = (Source.choose setup.lookup e).outcome >>= fun source =>
      (source.list w setup.maxWorkers e).outcome := by
  rw [listing, hparse]

/-- The root is looked up, and what is listed depends on the places that are found. -/
theorem listing_of_classpathOrigin (hparse : Expression.parse text = some e)
    (horigin : e.origin = some Source.classpathOrigin) :
    listing w ⟨lookup, workers⟩ text = (lookup e.rootDir).outcome >>= fun places =>
      Source.ofLocations e places >>= fun source => (source.list w workers e).outcome := by
  rw [listing_of_parse hparse, Source.outcome_choose, if_pos horigin]
  cases (lookup e.rootDir).outcome <;> rfl

theorem listing_of_fileOrigin (hparse : Expression.parse text = some e)
    (horigin : e.origin = some Source.fileOrigin) :
    listing w ⟨lookup, workers⟩ text = (Source.listTree w e (Path.ofString e.baseDir)).outcome := by
  have hclass : e.origin ≠ some Source.classpathOrigin := by
    rw [horigin]
    decide
  rw [listing_of_parse hparse, Source.outcome_choose, if_neg hclass, if_pos horigin]
  rfl

theorem listing_of_remote (hparse : Expression.parse text = some e)
    (hclass : e.origin ≠ some Source.classpathOrigin) (hfile : e.origin ≠ some Source.fileOrigin) :
    listing w ⟨lookup, workers⟩ text = (Source.listRemote e).outcome := by
  rw [listing_of_parse hparse, Source.outcome_choose, if_neg hclass, if_neg hfile]
  rfl

end Expressions

end AntResources
