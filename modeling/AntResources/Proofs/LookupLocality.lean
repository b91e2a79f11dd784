import AntResources.Proofs.LookupAnswers

/-!
# AntResources.Proofs.LookupLocality

**How far the result of an expression depends on the search path.** The first entry that provides the
root of the expression decides where its resources are listed. If it is a folder, they are listed there
and nowhere else; if it is an archive, they are listed in all archives that provide the root, and in no
folder. So what stands behind the first provider may be exchanged, all of it or its folders
(`World.isLocal_of_answers`). This holds as long as every entry answers: they are all asked before any
resource is listed, and the first that puts an end to the lookup decides how it ends
(`World.outcome_expand_of_stops`).
-/

namespace AntResources

open Contribution (Setup)
open Text

/-! ### Archives among the entries -/

namespace World

variable {w : World} {root : String} {searchPath : SearchPath}

/-- The entries of a search path that end like archives, in their order. -/
def archivesAmong (w : World) (searchPath : SearchPath) : SearchPath :=
  searchPath.filter fun p => w.isArchive p = .ok true

theorem archivesAmong_append (before after : SearchPath) :
    w.archivesAmong (before ++ after) = w.archivesAmong before ++ w.archivesAmong after := by
  simp [archivesAmong]

theorem archivesAmong_cons_of_isArchive {p : Path} (h : w.isArchive p = .ok true) (rest : SearchPath) :
    w.archivesAmong (p :: rest) = p :: w.archivesAmong rest := by
  simp [archivesAmong, h]

/-- Taking the archives out and then those that provide a root, or the other way round. -/
theorem archivesAmong_providers (w : World) (root : String) (searchPath : SearchPath) :
    w.archivesAmong (w.providers root searchPath) = w.providers root (w.archivesAmong searchPath) := by
  simp [archivesAmong, providers, List.filter_filter, Bool.and_comm]

/-- What stands before and behind an entry that provides a root, if it is the first. -/
theorem providers_of_first {before : SearchPath} {p : Path} (hbefore : w.providers root before = [])
    (hp : w.Provides root p) (after : SearchPath) :
    w.providers root (before ++ p :: after) = p :: w.providers root after := by
  rw [providers_append, hbefore, List.nil_append, providers_cons_of_provides hp]

/-- The archives that provide a root stay the same if only folders behind the first are exchanged. -/
theorem archivesAmong_providers_exchange {before after others : SearchPath} {p : Path}
    (hsame : w.archivesAmong others = w.archivesAmong after) :
    w.archivesAmong (w.providers root (before ++ p :: others)) =
      w.archivesAmong (w.providers root (before ++ p :: after)) := by
  have hall : w.archivesAmong (before ++ p :: others) = w.archivesAmong (before ++ p :: after) := by
    rw [List.append_cons, archivesAmong_append, hsame, ← archivesAmong_append, ← List.append_cons]
  rw [archivesAmong_providers, archivesAmong_providers, hall]

/-- Entries that answer may stand in for those behind an entry. -/
theorem answers_exchange {before after others : SearchPath} {p : Path}
    (hall : ∀ q ∈ before ++ p :: after, w.Answers root q) (hothers : ∀ q ∈ others, w.Answers root q) :
    ∀ q ∈ before ++ p :: others, w.Answers root q := by
  obtain ⟨hbefore, hbehind⟩ := List.forall_mem_append.mp hall
  have hp : w.Answers root p := (List.forall_mem_cons.mp hbehind).1
  exact List.forall_mem_append.mpr ⟨hbefore, List.forall_mem_cons.mpr ⟨hp, hothers⟩⟩

/-- The archives among the places that entries have for a root. -/
theorem filterMap_archive?_placeAt (h : ∀ p ∈ searchPath, w.Provides root p) :
    (searchPath.map (w.placeAt root)).filterMap RootLocation.archive? =
      (w.archivesAmong searchPath).map (⟨·, root⟩) := by
  induction searchPath with
  | nil => rfl
  | cons p rest ih =>
      obtain ⟨hp, hrest⟩ := List.forall_mem_cons.mp h
      rw [List.map_cons, placeAt]
      by_cases hfolder : w.isFolder p = .ok true
      · have harchive : w.isArchive p ≠ .ok true := fun harchive => by
          rw [isFolder_of_isArchive harchive] at hfolder
          cases hfolder
        rw [if_pos hfolder, archivesAmong, List.filter_cons_of_neg (by simpa using harchive)]
        exact ih hrest
      · rw [if_neg hfolder, archivesAmong_cons_of_isArchive (hp.isArchive hfolder), List.map_cons,
          ← ih hrest]
        rfl

end World

/-! ### What an expression lists on a search path -/

section Listing

variable {w : World} {searchPath : SearchPath} {workers : Int} {text : String} {e : Expression}

variable (hparse : Expression.parse text = some e) (horigin : e.origin = some Source.classpathOrigin)

include hparse horigin

/-- The first entry that does not answer ends it. -/
theorem listing_of_stops {failure : Failure} (hstops : ∃ before p after,
    searchPath = before ++ p :: after ∧ (∀ q ∈ before, w.Answers e.rootDir q) ∧
      w.Stops e.rootDir p failure) :
    listing w ⟨SearchPath.resolve searchPath w, workers⟩ text = .error failure := by
  have hresolve : (SearchPath.resolve searchPath w e.rootDir).outcome = .error failure := by
    rw [SearchPath.outcome_resolve_eq_error_iff, Expression.stripSlashes_rootDir hparse]
    exact hstops
  rw [listing_of_classpathOrigin hparse horigin, hresolve, error_bind]

variable (hanswers : ∀ p ∈ searchPath, w.Answers e.rootDir p)

include hanswers

theorem listing_of_answers : listing w ⟨SearchPath.resolve searchPath w, workers⟩ text =
    Source.ofLocations e ((w.providers e.rootDir searchPath).map (w.placeAt e.rootDir)) >>=
      fun source => (source.list w workers e).outcome := by
  have hstrip := Expression.stripSlashes_rootDir hparse
  have hresolve : (SearchPath.resolve searchPath w e.rootDir).outcome = .ok
      ((w.providers (stripSlashes e.rootDir) searchPath).map (w.placeAt (stripSlashes e.rootDir))) :=
    SearchPath.outcome_resolve_of_answers (hstrip.symm ▸ hanswers)
  rw [hstrip] at hresolve
  rw [listing_of_classpathOrigin hparse horigin, hresolve, ok_bind]

theorem listing_of_no_provider (hnone : w.providers e.rootDir searchPath = []) :
    listing w ⟨SearchPath.resolve searchPath w, workers⟩ text =
      .error (.resource (.rootNotFound e.rootDir e.raw)) := by
  rw [listing_of_answers hparse horigin hanswers, hnone]
  rfl

/-- **A folder that comes first** is the only place where anything is listed. -/
theorem listing_of_first_folder {d : Path} {rest : SearchPath}
    (hfirst : w.providers e.rootDir searchPath = d :: rest) (hfolder : w.isFolder d = .ok true) :
    listing w ⟨SearchPath.resolve searchPath w, workers⟩ text =
      (Source.listTree w e (d.below e.root)).outcome := by
  rw [listing_of_answers hparse horigin hanswers, hfirst, List.map_cons, World.placeAt, if_pos hfolder,
    Expression.rootDir, SearchPath.candidate_joinSlash (Expression.proper_root_of_parse hparse)]
  rfl

/-- **An archive that comes first** is listed with all other archives that provide the root. -/
theorem listing_of_first_archive {z : Path} {rest : SearchPath}
    (hfirst : w.providers e.rootDir searchPath = z :: rest) (harchive : w.isArchive z = .ok true) :
    listing w ⟨SearchPath.resolve searchPath w, workers⟩ text =
      (fun scans => Locator.unique scans.flatten) <$>
        (w.archivesAmong (w.providers e.rootDir searchPath)).mapM fun p =>
          Source.scan w e ⟨p, e.rootDir⟩ := by
  have hfolder : w.isFolder z ≠ .ok true := by simp [World.isFolder_of_isArchive harchive]
  have hplaces : ((w.providers e.rootDir searchPath).map (w.placeAt e.rootDir)).filterMap
      RootLocation.archive? = (w.archivesAmong (w.providers e.rootDir searchPath)).map
        (⟨·, e.rootDir⟩) :=
    World.filterMap_archive?_placeAt fun p hp => (World.mem_providers_iff.mp hp).2
  rw [listing_of_answers hparse horigin hanswers]
  rw [hfirst, List.map_cons, World.placeAt, if_neg hfolder] at hplaces ⊢
  rw [Source.ofLocations, ok_bind]
  show (Source.listArchives w workers e _).outcome = _
  rw [List.filterMap_cons_some (show RootLocation.archive? _ = some _ from rfl)] at hplaces
  rw [Source.outcome_listArchives_eq_mapM, hplaces, List.mapM_map]
  rfl

end Listing

/-! ### What the archives list -/

/-- All members of the archive at a path have names. -/
def World.HasNamedMembers (w : World) (p : Path) : Prop :=
  ∀ archive, w.openArchive p = .ok archive → ∀ m ∈ archive.members, m.name ≠ ""

namespace Source

/-- The locators of the members that match in the archive at a path. -/
def matchesIn (w : World) (e : Expression) (p : Path) : List Locator :=
  match w.openArchive p with
  | .ok archive => membersMatching e ⟨p, e.rootDir⟩ archive
  | .error _ => []

variable {w : World} {e : Expression} {archives : SearchPath}

theorem scan_of_named {p : Path} {archive : Archive} (hopen : w.openArchive p = .ok archive)
    (hnamed : w.HasNamedMembers p) : scan w e ⟨p, e.rootDir⟩ = .ok (matchesIn w e p) := by
  rw [scan_of_openArchive hopen (hnamed archive hopen), matchesIn, hopen]

theorem scan_of_not_named {p : Path} {archive : Archive} (hopen : w.openArchive p = .ok archive)
    (hnamed : ¬ w.HasNamedMembers p) (entry : String) :
    scan w e ⟨p, entry⟩ = .error (.fault .namelessMember) := by
  have hany : archive.members.any (·.name = "") = true := by
    by_contra hnone
    refine hnamed fun other hother => ?_
    obtain rfl := Except.ok.inj (hopen.symm.trans hother)
    simpa using hnone
  rw [scan, hopen, ok_bind, hany]
  rfl

/-- **Archives that open are listed**, unless one of them has a member without a name. -/
theorem mapM_scan_of_open (hopen : ∀ p ∈ archives, ∃ archive, w.openArchive p = .ok archive) :
    ((∀ p ∈ archives, w.HasNamedMembers p) → (archives.mapM fun p => scan w e ⟨p, e.rootDir⟩) =
      .ok (archives.map (matchesIn w e))) ∧
    ((∃ p ∈ archives, ¬ w.HasNamedMembers p) →
      (archives.mapM fun p => scan w e ⟨p, e.rootDir⟩) = .error (.fault .namelessMember)) := by
  constructor
  · intro hnamed
    rw [mapM_eq_ok_iff, List.map_map]
    refine List.map_congr_left fun p hp => ?_
    obtain ⟨archive, harchive⟩ := hopen p hp
    exact scan_of_named harchive (hnamed p hp)
  · intro hnameless
    obtain ⟨before, p, after, rfl, hbefore, hp⟩ := exists_first hnameless
    refine mapM_eq_error_iff.mpr ⟨before, p, after, rfl, fun q hq => ?_, ?_⟩
    · obtain ⟨archive, harchive⟩ := hopen q (by simp [hq])
      exact ⟨_, scan_of_named harchive (not_not.mp (hbefore q hq))⟩
    · obtain ⟨archive, harchive⟩ := hopen p (by simp)
      exact scan_of_not_named harchive hp e.rootDir

/-! ### Failures that do not say that the root is nowhere -/

/-- How the listing of a folder fails. -/
theorem outcome_listTree_eq_error_iff {base : Path} {failure : Failure} :
    (listTree w e base).outcome = .error failure ↔
      (∃ fault, w.Refuses base fault ∧ failure = .fault fault) ∨
        w.isFolder base = .ok false ∧ failure = .resource (.baseNotFound base) ∨
        w.isFolder base = .ok true ∧ (w.IsLost base ∧ failure = .fault .missingFolder ∨
          ¬ w.IsLost base ∧ filesBelow w (base.absolute w.cwd) = .error failure) := by
  rw [outcome_listTree, ← World.isFolder_eq_error_iff]
  cases w.isFolder base with
  | error other => simp
  | ok isFolder =>
      cases isFolder with
      | false => simp [eq_comm]
      | true =>
          by_cases hlost : w.IsLost base
          · simp [World.absolute_eq_error hlost, hlost, Except.mapError, eq_comm]
          · simp [World.absolute_eq_ok hlost, hlost, Except.mapError, map_eq_error_iff]

theorem category_of_filesBelow {root : Path} {error : ResourceError}
    (h : filesBelow w root = .error (.resource error)) :
    error.category = .unreadable := by
  unfold filesBelow at h
  cases hspot : w.tree.find w.cwd root with
  | error obstacle =>
      rw [hspot] at h
      cases h
      rfl
  | ok spot =>
      rw [hspot] at h
      dsimp only at h
      split at h
      · obtain ⟨failure, -, hfailure⟩ := mapError_eq_error_iff.mp h
        cases failure with
        | unlistable folder =>
            cases hfailure
            rfl
        | tooDeep => cases hfailure
      · cases h
        rfl

/-- What a listing of a folder says when it fails by the rules of the library. -/
theorem category_of_listTree {base : Path} {error : ResourceError}
    (h : (listTree w e base).outcome = .error (.resource error)) :
    error.category = .unreadable := by
  rcases outcome_listTree_eq_error_iff.mp h with
    ⟨fault, -, herror⟩ | ⟨-, herror⟩ | ⟨-, ⟨-, herror⟩ | ⟨-, hfiles⟩⟩
  · cases herror
  · cases herror
    rfl
  · cases herror
  · exact category_of_filesBelow hfiles

/-- A listing of a folder has no repeats. -/
theorem nodup_of_listTree {base : Path} {found : List Locator}
    (h : (listTree w e base).outcome = .ok found) : found.Nodup := by
  obtain ⟨-, root, files, -, hfiles, rfl⟩ := outcome_listTree_eq_ok_iff.mp h
  obtain ⟨spot, -, -, hwalk⟩ := exists_walk_of_filesBelow hfiles
  refine nodup_map_fileLocator ((FileTree.pairwise_walk hwalk).filter _) fun names hnames => ?_
  have hfile := (FileTree.mem_walk_iff_hasFile hwalk).mp (List.mem_filter.mp hnames).1
  exact ⟨hfile.proper, hfile.ne_nil⟩

theorem not_isNotFound_listTree {base : Path} : ¬ IsNotFound (listTree w e base).outcome := by
  intro h
  obtain ⟨error, herror, hcategory⟩ := h
  rw [category_of_listTree herror] at hcategory
  cases hcategory

theorem not_isNotFound_scan {root : ArchiveRoot} : ¬ IsNotFound (scan w e root) := by
  refine not_isNotFound_bind not_isNotFound_openArchive fun archive => ?_
  cases archive.members.any (·.name = "") with
  | true => exact not_isNotFound_fault
  | false => exact not_isNotFound_ok

end Source

theorem isNotFound_map_iff {α β : Type} {f : α → β} {x : Except Failure α} :
    IsNotFound (f <$> x) ↔ IsNotFound x := by
  cases x with
  | ok a => exact iff_of_false not_isNotFound_ok not_isNotFound_ok
  | error failure => simp only [IsNotFound, map_error, Except.error.injEq]

/-! ### The result -/

/-- The resources that one expression stands for on a search path. -/
def World.expandOn (w : World) (workers : Int) (searchPath : SearchPath) (text : String) :
    Except Failure (List Locator) :=
  (expand w ⟨SearchPath.resolve searchPath w, workers⟩ [text]).outcome

/-- What an expression alone leaves of the resources that it lists: an exclusion leaves nothing. -/
def Expression.leaves (e : Expression) (ls : List Locator) : List Locator :=
  if e.exclusion then [] else ls

theorem Expression.leaves_of_exclusion {e : Expression} (h : e.exclusion = true) (ls : List Locator) :
    e.leaves ls = [] := by
  rw [leaves, h, if_pos rfl]

theorem Expression.leaves_of_inclusion {e : Expression} (h : e.exclusion = false) (ls : List Locator) :
    e.leaves ls = ls := by
  rw [leaves, h, if_neg Bool.false_ne_true]

/-- The result of an expression is that of the entries which provide its root, and does not depend on
what the first provider shuts out. -/
structure World.IsLocal (w : World) (workers : Int) (text : String) (e : Expression)
    (searchPath : SearchPath) : Prop where
  /-- Without a provider, and only then, the root is said to be nowhere. -/
  notFound_iff : IsNotFound (w.expandOn workers searchPath text) ↔
    w.providers e.rootDir searchPath = []
  /-- A folder that comes first shuts out all that is behind it. -/
  folder : ∀ before d after, searchPath = before ++ d :: after → w.providers e.rootDir before = [] →
    w.Provides e.rootDir d → w.isFolder d = .ok true →
    w.expandOn workers searchPath text =
      e.leaves <$> (Source.listTree w e (d.below e.root)).outcome ∧
    ∀ others, (∀ p ∈ others, w.Answers e.rootDir p) →
      w.expandOn workers (before ++ d :: others) text = w.expandOn workers searchPath text
  /-- An archive that comes first shuts out all folders. -/
  archive : ∀ before z after, searchPath = before ++ z :: after → w.providers e.rootDir before = [] →
    w.Provides e.rootDir z → w.isArchive z = .ok true →
    ((∀ p ∈ w.archivesAmong (w.providers e.rootDir searchPath), w.HasNamedMembers p) →
      w.expandOn workers searchPath text = .ok (e.leaves (Locator.unique
        ((w.archivesAmong (w.providers e.rootDir searchPath)).flatMap (Source.matchesIn w e))))) ∧
    ((∃ p ∈ w.archivesAmong (w.providers e.rootDir searchPath), ¬ w.HasNamedMembers p) →
      w.expandOn workers searchPath text = .error (.fault .namelessMember)) ∧
    ∀ others, (∀ p ∈ others, w.Answers e.rootDir p) →
      w.archivesAmong others = w.archivesAmong after →
      w.expandOn workers (before ++ z :: others) text = w.expandOn workers searchPath text

section Result

variable {w : World} {searchPath : SearchPath} {workers : Int} {text : String} {e : Expression}

/-- **What an expression alone comes to** is what it leaves of the resources that it lists. -/
theorem outcome_expand_of_parse (setup : Setup) (hparse : Expression.parse text = some e) :
    (expand w setup [text]).outcome =
      (fun ls => e.leaves (Locator.unique ls)) <$> listing w setup text := by
  have hexclusion : isExclusion text = e.exclusion := by rw [isExclusion, hparse]
  rw [outcome_expand_singleton w _ (Expression.ne_empty_of_parse hparse), hexclusion]
  rfl

theorem World.expandOn_eq (hparse : Expression.parse text = some e) :
    w.expandOn workers searchPath text = (fun ls => e.leaves (Locator.unique ls)) <$>
      listing w ⟨SearchPath.resolve searchPath w, workers⟩ text :=
  outcome_expand_of_parse _ hparse

/-- A listing of a folder is left as it is. -/
theorem Source.leaves_unique_listTree (base : Path) :
    (fun ls => e.leaves (Locator.unique ls)) <$> (listTree w e base).outcome =
      e.leaves <$> (listTree w e base).outcome := by
  cases hlist : (listTree w e base).outcome with
  | error failure => rfl
  | ok found => rw [map_ok, map_ok, Locator.unique_of_nodup (nodup_of_listTree hlist)]

variable (hparse : Expression.parse text = some e) (horigin : e.origin = some Source.classpathOrigin)

include hparse horigin

variable (hanswers : ∀ p ∈ searchPath, w.Answers e.rootDir p)

include hanswers

theorem World.expandOn_of_first_folder {d : Path} {rest : SearchPath}
    (hfirst : w.providers e.rootDir searchPath = d :: rest) (hfolder : w.isFolder d = .ok true) :
    w.expandOn workers searchPath text =
      e.leaves <$> (Source.listTree w e (d.below e.root)).outcome := by
  rw [World.expandOn_eq hparse, listing_of_first_folder hparse horigin hanswers hfirst hfolder,
    Source.leaves_unique_listTree]

theorem World.expandOn_of_first_archive {z : Path} {rest : SearchPath}
    (hfirst : w.providers e.rootDir searchPath = z :: rest) (harchive : w.isArchive z = .ok true) :
    w.expandOn workers searchPath text = (fun scans => e.leaves (Locator.unique scans.flatten)) <$>
      (w.archivesAmong (w.providers e.rootDir searchPath)).mapM fun p =>
        Source.scan w e ⟨p, e.rootDir⟩ := by
  rw [World.expandOn_eq hparse, listing_of_first_archive hparse horigin hanswers hfirst harchive]
  cases (w.archivesAmong (w.providers e.rootDir searchPath)).mapM fun p =>
      Source.scan w e ⟨p, e.rootDir⟩ with
  | error failure => rfl
  | ok scans => rw [map_ok, map_ok, map_ok, Locator.unique_of_nodup (Locator.nodup_unique _)]

/-- The root is said to be nowhere exactly if no entry provides it. -/
theorem World.isNotFound_expandOn_iff :
    IsNotFound (w.expandOn workers searchPath text) ↔ w.providers e.rootDir searchPath = [] := by
  cases hfirst : w.providers e.rootDir searchPath with
  | nil =>
      rw [World.expandOn_eq hparse, isNotFound_map_iff,
        listing_of_no_provider hparse horigin hanswers hfirst]
      exact iff_of_true isNotFound_rootNotFound rfl
  | cons p rest =>
      refine iff_of_false ?_ (List.cons_ne_nil p rest)
      by_cases hfolder : w.isFolder p = .ok true
      · rw [World.expandOn_of_first_folder hparse horigin hanswers hfirst hfolder, isNotFound_map_iff]
        exact Source.not_isNotFound_listTree
      · have hp : p ∈ w.providers e.rootDir searchPath := hfirst ▸ List.mem_cons_self
        have harchive := (World.mem_providers_iff.mp hp).2.isArchive hfolder
        rw [World.expandOn_of_first_archive hparse horigin hanswers hfirst harchive,
          isNotFound_map_iff]
        exact not_isNotFound_mapM fun q _ => Source.not_isNotFound_scan

end Result

/-- **Lookups are local.** Let the archives on a search path open. If every entry answers, then the result
of an expression is that of the entries which provide its root: it says that the root is nowhere exactly
if there are none; a folder that comes first is listed alone, and whatever stands behind it may be
exchanged for other entries that answer; an archive that comes first is listed with all others that
provide the root, each resource once, unless one of them has a member without a name, and the folders
behind it may be exchanged. If some entry does not answer, the path of the first such entry, or that of
the root below it, is too long, leads through a folder that may not be searched or has a NUL in it, and
the result is that fault. -/
theorem World.isLocal_of_answers (w : World) (workers : Int) (searchPath : SearchPath) (text : String)
    (e : Expression) (hparse : Expression.parse text = some e)
    (horigin : e.origin = some Source.classpathOrigin) (hwhole : ∀ p ∈ searchPath, w.IsWhole p) :
    ((∀ p ∈ searchPath, w.Answers e.rootDir p) → w.IsLocal workers text e searchPath) ∧
    ∀ before p after failure, searchPath = before ++ p :: after →
      (∀ q ∈ before, w.Answers e.rootDir q) → w.Stops e.rootDir p failure →
      w.expandOn workers searchPath text = .error failure ∧
        (failure = .fault .nameTooLong ∨ failure = .fault .permissionDenied ∨
          failure = .fault .nulInPath) := by
  refine ⟨fun hanswers => ⟨isNotFound_expandOn_iff hparse horigin hanswers, ?_, ?_⟩, ?_⟩
  · intro before d after hsplit hbefore hprovides hfolder
    subst hsplit
    have hlisted : w.expandOn workers _ text = _ := expandOn_of_first_folder hparse horigin hanswers
      (providers_of_first hbefore hprovides after) hfolder
    refine ⟨hlisted, fun others hothers => ?_⟩
    rw [hlisted, expandOn_of_first_folder hparse horigin (answers_exchange hanswers hothers)
      (providers_of_first hbefore hprovides others) hfolder]
  · intro before z after hsplit hbefore hprovides harchive
    subst hsplit
    have hlisted : w.expandOn workers _ text = _ := expandOn_of_first_archive hparse horigin hanswers
      (providers_of_first hbefore hprovides after) harchive
    have hopen : ∀ p ∈ w.archivesAmong (w.providers e.rootDir (before ++ z :: after)),
        ∃ archive, w.openArchive p = .ok archive := by
      intro p hp
      obtain ⟨hprovider, hends⟩ := List.mem_filter.mp hp
      exact (hwhole p (mem_providers_iff.mp hprovider).1).exists_archive (by simpa using hends)
    refine ⟨fun hnamed => ?_, fun hnameless => ?_, fun others hothers hsame => ?_⟩
    · rw [hlisted, (Source.mapM_scan_of_open hopen).1 hnamed, map_ok, List.flatMap_def]
    · rw [hlisted, (Source.mapM_scan_of_open hopen).2 hnameless, map_error]
    · rw [hlisted, expandOn_of_first_archive hparse horigin (answers_exchange hanswers hothers)
        (providers_of_first hbefore hprovides others) harchive, archivesAmong_providers_exchange hsame]
  · intro before p after failure hsplit hbefore hstops
    refine ⟨?_, (hwhole p (by simp [hsplit])).eq_fault_of_stops hstops⟩
    rw [expandOn_eq hparse,
      listing_of_stops hparse horigin ⟨before, p, after, hsplit, hbefore, hstops⟩, map_error]

theorem openArchive_packedTwice : packedTwice.openArchive ⟨.relative, ["z.zip"]⟩ =
    .ok ⟨smallZip, [emptyMember "a/x.js" 36]⟩ :=
  World.openArchive_of_child rfl rfl (by decide) (by decide) (by decide) rfl (by decide +kernel)

theorem isFolder_packedTwice : packedTwice.isFolder ⟨.relative, ["d"]⟩ = .ok true :=
  World.isFolder_of_find (find_packedTwice rfl (by decide) (by decide) (by decide)
    (show packedTwice.tree.child? [] "d" = some .folder from rfl) (by simp))

/-- The folder `d` and the archive `z.zip` are whole. -/
theorem isWhole_packedTwice :
    ∀ p ∈ [⟨.relative, ["d"]⟩, ⟨.relative, ["z.zip"]⟩], packedTwice.IsWhole p := by
  intro p hp
  rcases List.mem_pair.mp hp with rfl | rfl
  · exact World.isWhole_of_isFolder_ne (by simp [isFolder_packedTwice])
  · exact World.isWhole_of_openArchive openArchive_packedTwice

theorem locate_packedTwice : SearchPath.locate packedTwice "a" ⟨.relative, ["d"]⟩ =
    .ok (some (.tree ⟨.relative, ["d", "a"]⟩)) := by
  obtain ⟨spot, -, hspot, -, -, hheld⟩ := packedTwice_holdsFolder.held
  have hfiles : AreFiles [["a", "x.js"]] := ⟨by decide, by unfold AreNames; decide⟩
  have hfollow : CanFollow ["a"] := by
    unfold CanFollow
    decide
  exact (SearchPath.locate_of_holdsAt hheld hspot hfiles (by unfold Proper; decide) hfollow).2.1
    (fun hlong => absurd hlong.2 (by decide)) (.inl (isFolderOf_small_iff.mpr (.inr rfl)))

/-- An expression for all scripts in the folder `a`. -/
def scriptsOfA : Expression :=
  ⟨"classpath:a/*.js", false, some "classpath", ["a"], ["*.js"], false⟩

theorem answers_packedTwice : ∀ p ∈ [⟨.relative, ["d"]⟩, ⟨.relative, ["z.zip"]⟩],
    packedTwice.Answers scriptsOfA.rootDir p := by
  intro p hp
  rcases List.mem_pair.mp hp with rfl | rfl
  · exact World.answers_iff.mpr ⟨_, locate_packedTwice⟩
  · exact World.answers_iff.mpr ⟨_, SearchPath.locate_of_openArchive openArchive_packedTwice "a"⟩

theorem provides_packedTwice : packedTwice.Provides "a" ⟨.relative, ["z.zip"]⟩ :=
  .archive openArchive_packedTwice (by decide +kernel)

/-- Only the archive is left of the providers that are archives. -/
theorem archivesAmong_packedTwice : packedTwice.archivesAmong
    (packedTwice.providers "a" [⟨.relative, ["z.zip"]⟩, ⟨.relative, ["d"]⟩]) =
      [⟨.relative, ["z.zip"]⟩] := by
  have hends := World.isArchive_of_openArchive openArchive_packedTwice
  have hnone : packedTwice.isArchive ⟨.relative, ["d"]⟩ ≠ .ok true := fun h => by
    have hboth := World.isFolder_of_isArchive h
    rw [isFolder_packedTwice] at hboth
    cases hboth
  rw [World.archivesAmong_providers, World.archivesAmong_cons_of_isArchive hends,
    World.archivesAmong, List.filter_cons_of_neg (by simpa using hnone)]
  exact World.providers_cons_of_provides provides_packedTwice []

/-- A folder and an archive with the same file. If the folder comes first, the archive may as well not be
there; if the archive does, the folder. Behind a path that is too long neither is reached. -/
theorem expandOn_packedTwice :
    packedTwice.IsLocal 4 "classpath:a/*.js" scriptsOfA
      [⟨.relative, ["d"]⟩, ⟨.relative, ["z.zip"]⟩] ∧
    packedTwice.expandOn 4 [⟨.relative, ["d"]⟩] "classpath:a/*.js" =
      packedTwice.expandOn 4 [⟨.relative, ["d"]⟩, ⟨.relative, ["z.zip"]⟩] "classpath:a/*.js" ∧
    packedTwice.expandOn 4 [⟨.relative, ["z.zip"]⟩, ⟨.relative, ["d"]⟩] "classpath:a/*.js" =
      .ok [nameLocator "a/x.js"] ∧
    packedTwice.expandOn 4 [⟨.relative, List.replicate 21 (String.ofList (List.replicate 200 'a'))⟩,
      ⟨.relative, ["z.zip"]⟩] "classpath:a/*.js" = .error (.fault .nameTooLong) := by
  have hroot : scriptsOfA.rootDir = "a" := rfl
  have hends := World.isArchive_of_openArchive openArchive_packedTwice
  have hlocal := (World.isLocal_of_answers packedTwice 4
    [⟨.relative, ["d"]⟩, ⟨.relative, ["z.zip"]⟩] "classpath:a/*.js" scriptsOfA rfl rfl
    isWhole_packedTwice).1 answers_packedTwice
  have hreversed := (World.isLocal_of_answers packedTwice 4
    [⟨.relative, ["z.zip"]⟩, ⟨.relative, ["d"]⟩] "classpath:a/*.js" scriptsOfA rfl rfl
    fun p hp => isWhole_packedTwice p (by simpa [or_comm] using hp)).1
    fun p hp => answers_packedTwice p (by simpa [or_comm] using hp)
  refine ⟨hlocal, ?_, ?_, ?_⟩
  · exact (hlocal.folder [] _ _ rfl rfl (SearchPath.locate_eq_ok_some_iff.mp locate_packedTwice).1
      isFolder_packedTwice).2 [] (by simp)
  · have hlisted := (hreversed.archive [] _ _ rfl rfl provides_packedTwice hends).1
    rw [hroot, archivesAmong_packedTwice] at hlisted
    have hmatches : Source.matchesIn packedTwice scriptsOfA ⟨.relative, ["z.zip"]⟩ =
        [nameLocator "a/x.js"] := by
      rw [Source.matchesIn, openArchive_packedTwice]
      decide +kernel
    rw [hlisted, List.flatMap_singleton, hmatches]
    · rfl
    · intro p hp archive hopen
      obtain rfl := List.mem_singleton.mp hp
      rw [openArchive_packedTwice] at hopen
      cases hopen
      decide
  · have hlong : packedTwice.Refuses
        ⟨.relative, List.replicate 21 (String.ofList (List.replicate 200 'a'))⟩ .nameTooLong :=
      ⟨_, Source.find_manyLong _ _, rfl⟩
    refine ((World.isLocal_of_answers packedTwice 4 _ "classpath:a/*.js" scriptsOfA rfl rfl ?_).2
      [] _ _ _ rfl (by simp) (.entry hlong)).1
    intro p hp
    rcases List.mem_pair.mp hp with rfl | rfl
    · refine World.isWhole_of_isFolder_ne fun hfolder => ?_
      rw [World.isFolder_of_refuses hlong] at hfolder
      cases hfolder
    · exact isWhole_packedTwice _ (by simp)

end AntResources
