import AntResources.Proofs.ArchiveFaults
import AntResources.Proofs.LookupLocality

/-!
# AntResources.Proofs.ListingFaults

**When a listing ends with a fault.** Most failures of a listing are errors of the library. The others are
faults of what lies beneath, and here is where each of them comes from: from a lookup that an entry of the
search path puts an end to, from a folder (`World.FolderFault`), or from an archive (`World.ScanFault`).
There is no other way (`outcome_expand_eq_fault_iff`).
-/

namespace AntResources

open Contribution (Setup)
open Text

/-! ### Folders -/

/-- Some folder lies too deep below the one at `spot`, which is reached under `path`, and no folder that is
listed before it ends the walk. -/
def FileTree.LiesTooDeep (t : FileTree) (path : Path) (spot : FileTree.Spot) : Prop :=
  ∃ dir sub, t.Reaches path spot dir sub ∧ maxNesting ≤ dir.length ∧
    ∀ dir' < dir, ∀ sub', t.Reaches path spot dir' sub' →
      dir'.length < maxNesting ∧ t.isListable (path.below dir') = true

theorem FileTree.walk_eq_tooDeep_iff {t : FileTree} {path : Path} {spot : FileTree.Spot} :
    t.walk maxNesting path spot = .error .tooDeep ↔ t.LiesTooDeep path spot := by
  simp only [walk_eq_error_iff, stop?_eq_tooDeep_iff, LiesTooDeep, stop?_eq_none_iff,
    folderBelow?_eq_some_iff_reaches]

namespace World

variable {w : World} {base : Path} {fault : Fault}

/-- The faults with which the listing of a folder ends. -/
inductive FolderFault (w : World) (base : Path) : Fault → Prop where
  /-- The path is refused. -/
  | refused {fault : Fault} : w.Refuses base fault → FolderFault w base fault
  /-- The path is relative, and the working folder has been removed. -/
  | lost : w.isFolder base = .ok true → w.IsLost base → FolderFault w base .missingFolder
  /-- Folders lie too deep in each other below the absolute path. -/
  | tooDeep {spot : FileTree.Spot} : w.isFolder base = .ok true → ¬ w.IsLost base →
      w.tree.find w.cwd (base.absolute w.cwd) = .ok spot → w.tree.isFolderAt spot.location = true →
      w.tree.LiesTooDeep (base.absolute w.cwd) spot → FolderFault w base .nestedTooDeep

end World

namespace Source

variable {w : World} {e : Expression} {base root : Path} {fault : Fault}

theorem filesBelow_eq_fault_iff : filesBelow w root = .error (.fault fault) ↔
    fault = .nestedTooDeep ∧ ∃ spot, w.tree.find w.cwd root = .ok spot ∧
      w.tree.isFolderAt spot.location = true ∧ w.tree.LiesTooDeep root spot := by
  unfold filesBelow
  cases hspot : w.tree.find w.cwd root with
  | error obstacle => simp
  | ok spot =>
      dsimp only
      cases hfolder : w.tree.isFolderAt spot.location with
      | false => simp [hfolder]
      | true =>
          simp only [if_true, ← FileTree.walk_eq_tooDeep_iff, Except.ok.injEq,
            exists_eq_left', hfolder, true_and]
          cases w.tree.walk maxNesting root spot with
          | ok found => simp [Except.mapError]
          | error failure =>
              cases failure with
              | unlistable folder => simp [Except.mapError]
              | tooDeep => simpa [Except.mapError] using eq_comm

/-- **When the listing of a folder ends with a fault.** -/
theorem outcome_listTree_eq_fault_iff :
    (listTree w e base).outcome = .error (.fault fault) ↔ w.FolderFault base fault := by
  rw [outcome_listTree_eq_error_iff]
  constructor
  · intro h
    rcases h with ⟨cause, hrefused, hfault⟩ | ⟨-, hfault⟩ | ⟨hfolder, ⟨hlost, hfault⟩ | ⟨hlost, hfiles⟩⟩
    · cases hfault
      exact .refused hrefused
    · cases hfault
    · cases hfault
      exact .lost hfolder hlost
    · obtain ⟨rfl, spot, hspot, hthere, hdeep⟩ := filesBelow_eq_fault_iff.mp hfiles
      exact .tooDeep hfolder hlost hspot hthere hdeep
  · intro h
    cases h with
    | refused hrefused => exact .inl ⟨_, hrefused, rfl⟩
    | lost hfolder hlost => exact .inr (.inr ⟨hfolder, .inl ⟨hlost, rfl⟩⟩)
    | tooDeep hfolder hlost hspot hthere hdeep =>
        have hfiles := filesBelow_eq_fault_iff.mpr ⟨rfl, _, hspot, hthere, hdeep⟩
        exact .inr (.inr ⟨hfolder, .inr ⟨hlost, hfiles⟩⟩)

end Source

/-! ### Archives -/

namespace World

variable {w : World} {p : Path} {fault : Fault}

theorem openArchive_eq_fault_iff : w.openArchive p = .error (.fault fault) ↔
    p.hasNul = true ∧ fault = .nulInPath ∨
      ∃ bytes, w.contents p = .ok (some bytes) ∧ Archive.ofBytes bytes = .error (.fault fault) := by
  have hnul : p.hasNul = true ∧ fault = .nulInPath ↔ w.contents p = .error (.fault fault) := by
    simp [contents_eq_error_iff]
  rw [hnul, openArchive]
  cases w.contents p with
  | error failure => simp
  | ok content? =>
      cases content? with
      | none => simp [throw, throwThe, MonadExceptOf.throw]
      | some bytes =>
          rw [ok_bind]
          dsimp only
          cases hbytes : Archive.ofBytes bytes with
          | ok archive => simp [Except.mapError, hbytes]
          | error defect => cases defect <;> simp [Except.mapError, defectFailure, hbytes]

/-- What opening an archive can be at fault with. -/
theorem mem_of_openArchive_eq_fault (h : w.openArchive p = .error (.fault fault)) :
    fault ∈ .nulInPath :: Archive.tableFaults := by
  rcases openArchive_eq_fault_iff.mp h with ⟨-, rfl⟩ | ⟨bytes, -, hbytes⟩
  · exact List.mem_cons_self
  · exact List.mem_cons_of_mem _ (Archive.faultsIn_ofBytes bytes fault hbytes)

/-- The faults with which the scan of an archive ends. -/
inductive ScanFault (w : World) (p : Path) : Fault → Prop where
  /-- The table is at fault. -/
  | table {fault : Fault} : w.openArchive p = .error (.fault fault) → ScanFault w p fault
  /-- A member has no name. -/
  | nameless {archive : Archive} : w.openArchive p = .ok archive → ¬ w.HasNamedMembers p →
      ScanFault w p .namelessMember

/-- The archive at a path can be scanned. -/
def IsScanned (w : World) (p : Path) : Prop :=
  (∃ archive, w.openArchive p = .ok archive) ∧ w.HasNamedMembers p

end World

namespace Source

variable {w : World} {e : Expression} {root : ArchiveRoot} {fault : Fault}

/-- **When the scan of an archive ends with a fault.** -/
theorem scan_eq_fault_iff :
    scan w e root = .error (.fault fault) ↔ w.ScanFault root.archive fault := by
  cases hopen : w.openArchive root.archive with
  | error failure =>
      have hscan : scan w e root = .error failure := by rw [scan, hopen, error_bind]
      rw [hscan]
      constructor
      · intro h
        cases h
        exact .table hopen
      · intro h
        cases h with
        | table hfails =>
            rw [hopen] at hfails
            cases hfails
            rfl
        | nameless hother =>
            rw [hopen] at hother
            cases hother
  | ok archive =>
      by_cases hnamed : w.HasNamedMembers root.archive
      · rw [scan_of_openArchive hopen (hnamed archive hopen) e root.entry]
        refine iff_of_false (by simp) fun h => ?_
        cases h with
        | table hfails =>
            rw [hopen] at hfails
            cases hfails
        | nameless _ hnot => exact hnot hnamed
      · rw [scan_of_not_named hopen hnamed root.entry]
        constructor
        · intro h
          cases h
          exact .nameless hopen hnamed
        · intro h
          cases h with
          | table hfails =>
              rw [hopen] at hfails
              cases hfails
          | nameless => rfl

theorem exists_scan_eq_ok_iff :
    (∃ found, scan w e root = .ok found) ↔ w.IsScanned root.archive := by
  constructor
  · rintro ⟨found, hfound⟩
    obtain ⟨archive, hopen, -⟩ := bind_eq_ok_iff.mp hfound
    refine ⟨⟨archive, hopen⟩, by_contra fun hnamed => ?_⟩
    rw [scan_of_not_named hopen hnamed root.entry] at hfound
    cases hfound
  · rintro ⟨⟨archive, hopen⟩, hnamed⟩
    exact ⟨_, scan_of_openArchive hopen (hnamed archive hopen) e root.entry⟩

end Source

/-! ### Expressions -/

/-- The faults with which the listing of an expression on a search path ends. -/
inductive World.ListingFault (w : World) (searchPath : SearchPath) (e : Expression) : Fault → Prop where
  /-- An entry puts an end to the lookup of the root. -/
  | lookup {before after : SearchPath} {p : Path} {fault : Fault} :
      e.origin = some Source.classpathOrigin → searchPath = before ++ p :: after →
      (∀ q ∈ before, w.Answers e.rootDir q) → w.Stops e.rootDir p (.fault fault) →
      ListingFault w searchPath e fault
  /-- The folder that comes first cannot be listed. -/
  | folder {d : Path} {rest : SearchPath} {fault : Fault} : e.origin = some Source.classpathOrigin →
      (∀ q ∈ searchPath, w.Answers e.rootDir q) → w.providers e.rootDir searchPath = d :: rest →
      w.isFolder d = .ok true → w.FolderFault (d.below e.root) fault →
      ListingFault w searchPath e fault
  /-- An archive comes first, and one of those that provide the root cannot be scanned. -/
  | archive {z p : Path} {rest before after : SearchPath} {fault : Fault} :
      e.origin = some Source.classpathOrigin → (∀ q ∈ searchPath, w.Answers e.rootDir q) →
      w.providers e.rootDir searchPath = z :: rest → w.isArchive z = .ok true →
      w.archivesAmong (w.providers e.rootDir searchPath) = before ++ p :: after →
      (∀ q ∈ before, w.IsScanned q) → w.ScanFault p fault → ListingFault w searchPath e fault
  /-- The folder that the expression starts with cannot be listed. -/
  | file {fault : Fault} : e.origin = some Source.fileOrigin →
      w.FolderFault ⟨if e.absolute then .root else .relative, e.root⟩ fault →
      ListingFault w searchPath e fault

section Listing

variable {w : World} {searchPath : SearchPath} {workers : Int} {text : String} {e : Expression}
  {fault : Fault}

/-- **When the listing of an expression ends with a fault.** -/
theorem listing_eq_fault_iff (hparse : Expression.parse text = some e) :
    listing w ⟨SearchPath.resolve searchPath w, workers⟩ text = .error (.fault fault) ↔
      w.ListingFault searchPath e fault := by
  constructor
  · intro h
    by_cases hclass : e.origin = some Source.classpathOrigin
    · rcases w.answer_or_stops e.rootDir searchPath with
        hanswers | ⟨before, p, after, failure, hsplit, hbefore, hstops⟩
      · cases hfirst : w.providers e.rootDir searchPath with
        | nil =>
            rw [listing_of_no_provider hparse hclass hanswers hfirst] at h
            cases h
        | cons p rest =>
            by_cases hfolder : w.isFolder p = .ok true
            · rw [listing_of_first_folder hparse hclass hanswers hfirst hfolder] at h
              exact .folder hclass hanswers hfirst hfolder
                (Source.outcome_listTree_eq_fault_iff.mp h)
            · have hprovides : w.Provides e.rootDir p :=
                (World.mem_providers_iff.mp (hfirst ▸ List.mem_cons_self)).2
              have harchive := hprovides.isArchive hfolder
              rw [listing_of_first_archive hparse hclass hanswers hfirst harchive, map_eq_error_iff,
                mapM_eq_error_iff] at h
              obtain ⟨before, q, after, hsplit, hbefore, hfault⟩ := h
              exact .archive hclass hanswers hfirst harchive hsplit
                (fun r hr => Source.exists_scan_eq_ok_iff.mp (hbefore r hr))
                (Source.scan_eq_fault_iff.mp hfault)
      · -- Here the lookup comes to an end at the first entry that does not answer.
        rw [listing_of_stops hparse hclass ⟨before, p, after, hsplit, hbefore, hstops⟩] at h
        cases h
        exact .lookup hclass hsplit hbefore hstops
    · by_cases hfile : e.origin = some Source.fileOrigin
      · rw [listing_of_fileOrigin hparse hfile, Expression.ofString_baseDir hparse] at h
        exact .file hfile (Source.outcome_listTree_eq_fault_iff.mp h)
      · rw [listing_of_remote hparse hclass hfile, Source.outcome_listRemote] at h
        split at h <;> cases h
  · intro h
    cases h with
    | lookup hclass hsplit hbefore hstops =>
        exact listing_of_stops hparse hclass ⟨_, _, _, hsplit, hbefore, hstops⟩
    | folder hclass hanswers hfirst hfolder hfault =>
        rw [listing_of_first_folder hparse hclass hanswers hfirst hfolder]
        exact Source.outcome_listTree_eq_fault_iff.mpr hfault
    | archive hclass hanswers hfirst harchive hsplit hbefore hfault =>
        rw [listing_of_first_archive hparse hclass hanswers hfirst harchive, map_eq_error_iff,
          mapM_eq_error_iff]
        exact ⟨_, _, _, hsplit, fun q hq => Source.exists_scan_eq_ok_iff.mpr (hbefore q hq),
          Source.scan_eq_fault_iff.mpr hfault⟩
    | file hfile hfault =>
        rw [listing_of_fileOrigin hparse hfile, Expression.ofString_baseDir hparse]
        exact Source.outcome_listTree_eq_fault_iff.mpr hfault

/-! ### Lists of expressions -/

/-- What a listing can be at fault with. -/
def listingFaults : List Fault :=
  [.nameTooLong, .permissionDenied, .nulInPath, .splitArchive, .missingFolder, .nestedTooDeep,
    .namelessMember] ++ Archive.tableFaults

theorem World.Refuses.mem_listingFaults {p : Path} (h : w.Refuses p fault) : fault ∈ listingFaults := by
  rcases h.cases with rfl | rfl <;> decide

theorem World.ListingFault.mem_listingFaults (h : w.ListingFault searchPath e fault) :
    fault ∈ listingFaults := by
  have htable : ∀ {p : Path} {fault : Fault}, w.openArchive p = .error (.fault fault) →
      fault ∈ listingFaults := fun hopen => by
    rcases List.mem_cons.mp (World.mem_of_openArchive_eq_fault hopen) with rfl | hmem
    · decide
    · exact List.mem_append_right _ hmem
  have hfolder : ∀ {base : Path}, w.FolderFault base fault → fault ∈ listingFaults := fun hbase => by
    cases hbase with
    | refused hrefused => exact hrefused.mem_listingFaults
    | lost | tooDeep => decide
  cases h with
  | lookup _ _ _ hstops =>
      cases hstops with
      | entry hrefused | root _ hrefused => exact hrefused.mem_listingFaults
      | table _ _ hopen => exact htable hopen
      | nul | split => decide
  | folder _ _ _ _ hfault => exact hfolder hfault
  | archive _ _ _ _ _ _ hfault =>
      cases hfault with
      | table hopen => exact htable hopen
      | nameless => decide
  | file _ hfault => exact hfolder hfault

/-- **When a list of expressions ends with a fault**: if the first listing that fails does. -/
theorem outcome_expand_eq_fault_iff {texts : List String} :
    (expand w ⟨SearchPath.resolve searchPath w, workers⟩ texts).outcome = .error (.fault fault) ↔
      ∃ before text after e, texts = before ++ text :: after ∧
        AllListed w ⟨SearchPath.resolve searchPath w, workers⟩ before ∧
        Expression.parse text = some e ∧ w.ListingFault searchPath e fault := by
  rw [outcome_expand_eq_error_iff]
  constructor
  · rintro ⟨before, text, after, hsplit, -, hbefore, hlisting⟩
    cases hparse : Expression.parse text with
    | none =>
        rw [listing, hparse] at hlisting
        cases hlisting
    | some e =>
        have hfault := (listing_eq_fault_iff hparse).mp hlisting
        exact ⟨before, text, after, e, hsplit, hbefore, hparse, hfault⟩
  · rintro ⟨before, text, after, e, hsplit, hbefore, hparse, hfault⟩
    exact ⟨before, text, after, hsplit, Expression.ne_empty_of_parse hparse, hbefore,
      (listing_eq_fault_iff hparse).mpr hfault⟩

end Listing

end AntResources
