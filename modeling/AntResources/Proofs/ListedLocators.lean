import AntResources.Proofs.ArchiveScans
import AntResources.Proofs.ReadingOutcomes
import AntResources.Proofs.RootAndGlob

/-!
# AntResources.Proofs.ListedLocators

**Where the locators of an expansion come from.** A locator in the result was listed for one of the
inclusions, and its scheme says from what: with `classpath` it is the name of a member of an archive on
the search path (`exists_member_of_mem_expand`), and with `file` the path of a file that was found below
a folder (`exists_file_of_mem_expand`). A remote location has a scheme of its own. What reading makes of
a locator is derived from these facts and not from the listing.
-/

namespace AntResources

open Contribution (Setup)
open Text

variable {w : World}

/-! ### The places on a search path -/

namespace SearchPath

/-- **What one entry of a search path answers**, if it does not fail. -/
theorem locate_eq_ok_iff {root : String} {entry : Path} {found : Option RootLocation} :
    locate w root entry = .ok found ↔
      (w.isFolder entry = .ok true ∧ ∃ present, w.isPresent (candidate root entry) = .ok present ∧
        (if present then some (.tree (candidate root entry)) else none) = found) ∨
      (w.isFolder entry = .ok false ∧ w.isArchive entry = .ok false ∧ none = found) ∨
      (w.isFolder entry = .ok false ∧ w.isArchive entry = .ok true ∧ root = "" ∧
        some (.archive ⟨entry, root⟩) = found) ∨
      (w.isFolder entry = .ok false ∧ w.isArchive entry = .ok true ∧ root ≠ "" ∧
        ∃ archive, w.openArchive entry = .ok archive ∧
          (if provides archive root then some (.archive ⟨entry, root⟩) else none) = found) := by
  unfold locate candidate
  cases w.isFolder entry with
  | error failure => simp
  | ok isFolder =>
      cases isFolder with
      | true =>
          cases hpresent : w.isPresent (if root = "" then entry else entry.join (Path.ofString root)) with
          | error failure => simp [hpresent]
          | ok present => cases present <;> simp [hpresent, pure, Except.pure]
      | false =>
          cases w.isArchive entry with
          | error failure => simp
          | ok isArchive =>
              cases isArchive with
              | false => simp [pure, Except.pure]
              | true =>
                  by_cases hroot : root = ""
                  · simp [hroot, pure, Except.pure]
                  · cases hopen : w.openArchive entry with
                    | error failure => simp [hroot]
                    | ok archive =>
                        cases hprovides : provides archive root <;>
                          simp [hroot, hprovides, pure, Except.pure]

/-- The places that a lookup finds are at entries of the search path. -/
theorem exists_locate_of_mem_resolve {searchPath : SearchPath} {text : String}
    {places : List RootLocation} (h : (resolve searchPath w text).outcome = .ok places)
    {place : RootLocation} (hplace : place ∈ places) :
    ∃ entry ∈ searchPath, locate w (stripSlashes text) entry = .ok (some place) := by
  rw [outcome_resolve] at h
  obtain ⟨found, hfound, rfl⟩ := map_eq_ok_iff.mp h
  obtain ⟨some?, hsome, heq⟩ := List.mem_filterMap.mp hplace
  obtain rfl : some? = some place := heq
  exact (mem_iff_of_mapM_eq_ok hfound).mp hsome

end SearchPath

theorem Path.proper_ofString (s : String) : Proper (ofString s).parts := by
  intro part hpart
  obtain ⟨hmem, hkept⟩ := List.mem_filter.mp hpart
  obtain ⟨hempty, hdot⟩ : part ≠ "" ∧ part ≠ "." := by simpa using hkept
  exact ⟨hempty, hdot, noSlash_of_mem_splitSlash hmem⟩

namespace Expression

variable {text : String} {e : Expression}

theorem stripSlashes_rootDir (h : parse text = some e) : stripSlashes e.rootDir = e.rootDir :=
  stripSlashes_joinSlash (proper_root_of_parse h).isSegment

theorem ofString_baseDir (h : parse text = some e) :
    Path.ofString e.baseDir = ⟨if e.absolute then .root else .relative, e.root⟩ := by
  have hproper := proper_root_of_parse h
  unfold baseDir rootDir
  cases e.absolute with
  | true => exact Path.ofString_slashes_append 1 hproper
  | false =>
      simp only [Bool.false_eq_true, if_false]
      by_cases hne : e.root = []
      · rw [hne]
        rfl
      · rw [if_neg (joinSlash_ne_empty hne hproper.isSegment), Path.ofString_joinSlash hproper]

/-- The scheme of a remote location is the origin of its expression. -/
theorem origin_of_location {scheme : String} (h : parse text = some e) (hne : scheme ≠ "")
    (hlocation : (Locator.mk e.location).origin = some scheme) : e.origin = some scheme := by
  simp only [Locator.origin, Option.ite_none_right_eq_some, Bool.and_eq_true, Bool.not_eq_true',
    Option.some.injEq, List.contains_eq_mem, decide_eq_true_eq] at hlocation
  obtain ⟨⟨hcolon, hslash⟩, rfl⟩ := hlocation
  obtain ⟨before, rest, hbody, hfirst⟩ := List.eq_append_cons_of_mem hcolon
  obtain ⟨htake, hdrop⟩ := Text.cut_append hfirst rest
  rw [hbody, htake] at hne hslash ⊢
  have hbefore : ¬ (before = [] ∨ before.contains '/') := by
    rintro (hnil | hmem)
    · exact hne (by rw [hnil])
    · rw [List.contains_eq_mem, hslash] at hmem
      cases hmem
  have hcut : splitOrigin (before ++ ':' :: rest) = (some before, rest) := by
    unfold splitOrigin
    dsimp only
    rw [htake, if_neg hbefore, hdrop]
  rw [origin_of_parse h, hbody, hcut]
  rfl

end Expression

/-! ### One entry of a list -/

/-- What an expansion has in it was listed for one of its inclusions. -/
theorem exists_source_of_mem_expand {setup : Setup} {texts : List String} {ls : List Locator}
    {l : Locator} (h : (expand w setup texts).outcome = .ok ls) (hl : l ∈ ls) :
    ∃ text ∈ texts, ∃ e source found, Expression.parse text = some e ∧ e.exclusion = false ∧
      (Source.choose setup.lookup e).outcome = .ok source ∧
      (source.list w setup.maxWorkers e).outcome = .ok found ∧ l ∈ found := by
  obtain ⟨hall, hexpansion⟩ := outcome_expand_eq_ok_iff.mp h
  obtain ⟨⟨text, htext, hinclusion, hlisted⟩, -⟩ := (hexpansion.mem_iff l).mp hl
  simp only [isInclusion, Bool.and_eq_true, decide_eq_true_eq, Bool.not_eq_true'] at hinclusion
  obtain ⟨found, hfound⟩ := hall text htext hinclusion.1
  rw [listed_of_listing hfound] at hlisted
  refine ⟨text, htext, ?_⟩
  obtain ⟨e, hparse⟩ := exists_parse_of_listing hfound
  rw [listing_of_parse hparse] at hfound
  obtain ⟨source, hsource, hlist⟩ := bind_eq_ok_iff.mp hfound
  have hexclusion : e.exclusion = false := by
    have hmark := hinclusion.2
    rwa [isExclusion, hparse] at hmark
  exact ⟨e, source, found, hparse, hexclusion, hsource, hlist, hlisted⟩

namespace Source

variable {searchPath : SearchPath} {text : String} {e : Expression}

/-- A place that provides the root is in an archive of the search path or below an entry of it. -/
theorem resolve_cases {places : List RootLocation} {place : RootLocation}
    (hparse : Expression.parse text = some e)
    (h : (SearchPath.resolve searchPath w e.rootDir).outcome = .ok places) (hplace : place ∈ places) :
    (∃ root, place = .archive root ∧ root.archive ∈ searchPath) ∨
      ∃ entry ∈ searchPath, w.isFolder entry = .ok true ∧ place = .tree (entry.below e.root) := by
  obtain ⟨entry, hmem, hlocate⟩ := SearchPath.exists_locate_of_mem_resolve h hplace
  have hcandidate := SearchPath.candidate_joinSlash (Expression.proper_root_of_parse hparse) entry
  rw [Expression.stripSlashes_rootDir hparse, Expression.rootDir] at hlocate
  rcases SearchPath.locate_eq_ok_iff.mp hlocate with ⟨hfolder, present, -, hfound⟩ | ⟨-, -, hfound⟩ |
    ⟨-, -, -, hfound⟩ | ⟨-, -, -, archive, -, hfound⟩
  · rw [Option.ite_none_right_eq_some, Option.some.injEq] at hfound
    exact .inr ⟨entry, hmem, hfolder, by rw [← hfound.2, hcandidate]⟩
  · cases hfound
  · exact .inl ⟨_, (Option.some.inj hfound).symm, hmem⟩
  · rw [Option.ite_none_right_eq_some, Option.some.injEq] at hfound
    exact .inl ⟨_, hfound.2.symm, hmem⟩

/-- **What is chosen** on a search path: the archives or the folder that provide the root, the folder
that the expression starts with, or the expression itself. -/
theorem choose_resolve_cases {source : Source} (hparse : Expression.parse text = some e)
    (h : (choose (SearchPath.resolve searchPath w) e).outcome = .ok source) :
    (e.origin = some classpathOrigin ∧ ∃ roots, source = .archives roots ∧
      ∀ root ∈ roots, root.archive ∈ searchPath) ∨
    (e.origin = some classpathOrigin ∧ ∃ entry ∈ searchPath, w.isFolder entry = .ok true ∧
      source = .tree (entry.below e.root)) ∨
    (e.origin = some fileOrigin ∧
      source = .tree ⟨if e.absolute then .root else .relative, e.root⟩) ∨
    (e.origin ≠ some classpathOrigin ∧ e.origin ≠ some fileOrigin ∧ source = .remote) := by
  rw [outcome_choose] at h
  split at h
  case isTrue hclass =>
    obtain ⟨places, hplaces, h⟩ := bind_eq_ok_iff.mp h
    have hentry : ∀ place ∈ places, (∃ root, place = .archive root ∧ root.archive ∈ searchPath) ∨
        ∃ entry ∈ searchPath, w.isFolder entry = .ok true ∧ place = .tree (entry.below e.root) :=
      fun place hplace => resolve_cases hparse hplaces hplace
    cases places with
    | nil => cases h
    | cons first rest =>
        cases first with
        | archive root =>
            obtain rfl := Except.ok.inj h
            refine .inl ⟨hclass, _, rfl, fun other hother => ?_⟩
            have hplace : RootLocation.archive other ∈ RootLocation.archive root :: rest := by
              rcases List.mem_cons.mp hother with rfl | hother
              · exact List.mem_cons_self
              · obtain ⟨place, hplace, heq⟩ := List.mem_filterMap.mp hother
                cases place with
                | tree path => cases heq
                | archive found =>
                    obtain rfl := Option.some.inj heq
                    exact List.mem_cons_of_mem _ hplace
            rcases hentry _ hplace with ⟨found, hfound, hmem⟩ | ⟨entry, -, -, hfound⟩
            · exact RootLocation.archive.inj hfound ▸ hmem
            · cases hfound
        | tree path =>
            obtain rfl := Except.ok.inj h
            rcases hentry _ List.mem_cons_self with ⟨found, hfound, -⟩ | ⟨entry, hmem, hfolder, hfound⟩
            · cases hfound
            · have hsource := congrArg Source.tree (RootLocation.tree.inj hfound)
              exact .inr (.inl ⟨hclass, entry, hmem, hfolder, hsource⟩)
  case isFalse hclass =>
    split at h
    case isTrue hfile =>
      refine .inr (.inr (.inl ⟨hfile, ?_⟩))
      rw [← Expression.ofString_baseDir hparse]
      exact (Except.ok.inj h).symm
    case isFalse hfile => exact .inr (.inr (.inr ⟨hclass, hfile, (Except.ok.inj h).symm⟩))

/-! ### What is listed -/

variable {l : Locator} {found : List Locator}

theorem exists_member_of_mem_listArchives {workers : Int} {roots : List ArchiveRoot}
    (h : (listArchives w workers e roots).outcome = .ok found) (hl : l ∈ found) :
    ∃ root ∈ roots, ∃ archive, w.openArchive root.archive = .ok archive ∧
      ∃ m ∈ archive.members, m.isFolder = false ∧ m.name ≠ "" ∧
        l = ⟨e.origin.getD classpathOrigin ++ ":" ++ m.name⟩ := by
  rw [outcome_listArchives, gather_eq_ok_iff (List.Perm.refl _)] at h
  obtain ⟨scans, hscans, rfl⟩ := h
  obtain ⟨members, hmembers, hl⟩ := List.mem_flatten.mp (Locator.mem_unique.mp hl)
  obtain ⟨root, hroot, hscan⟩ :=
    (mem_iff_of_mapM_eq_ok (mapM_eq_ok_iff.mpr hscans)).mp hmembers
  obtain ⟨archive, hopen, hscan⟩ := bind_eq_ok_iff.mp hscan
  cases hany : archive.members.any (·.name = "") with
  | true =>
      rw [hany] at hscan
      cases hscan
  | false =>
      rw [hany] at hscan
      obtain rfl : membersMatching e root archive = members := Except.ok.inj hscan
      obtain ⟨m, hm, hfile, -, -, -, rfl⟩ := mem_membersMatching_iff.mp hl
      have hne : m.name ≠ "" := by simpa using List.any_eq_false.mp hany m hm
      exact ⟨root, hroot, archive, hopen, m, hm, hfile, hne, rfl⟩

theorem exists_file_of_mem_listTree {base : Path} (h : (listTree w e base).outcome = .ok found)
    (hl : l ∈ found) : ∃ root files names, FileTree.absolute w.cwd base = .ok root ∧
      filesBelow w root = .ok files ∧ names ∈ files ∧ l = fileLocator root names := by
  obtain ⟨-, root, files, hroot, hfiles, rfl⟩ := outcome_listTree_eq_ok_iff.mp h
  obtain ⟨names, hnames, rfl⟩ := List.mem_map.mp hl
  exact ⟨root, files, names, hroot, hfiles, (List.mem_filter.mp hnames).1, rfl⟩

theorem eq_location_of_mem_listRemote (h : (listRemote e).outcome = .ok found) (hl : l ∈ found) :
    l = ⟨e.location⟩ := by
  rw [outcome_listRemote] at h
  split at h
  · cases h
  · cases h
  · obtain rfl := Except.ok.inj h
    exact List.mem_singleton.mp hl

end Source

/-! ### The schemes -/

theorem Locator.origin_classpath (name : String) :
    (Locator.mk (Source.classpathOrigin ++ ":" ++ name)).origin = some Source.classpathOrigin :=
  (origin_eq_some_iff (by decide) (by decide)).mpr ⟨name, rfl⟩

theorem Source.origin_fileLocator (root : Path) (names : List String) :
    (fileLocator root names).origin = some fileOrigin :=
  (Locator.origin_eq_some_iff (by decide) (by decide)).mpr ⟨_, rfl⟩

section Expand

variable {searchPath : SearchPath} {workers : Int} {texts : List String} {ls : List Locator}
  {l : Locator}

/-- **A locator with the scheme `classpath`** is the name of a member of an archive on the search
path. -/
theorem exists_member_of_mem_expand
    (h : (expand w ⟨SearchPath.resolve searchPath w, workers⟩ texts).outcome = .ok ls) (hl : l ∈ ls)
    (horigin : l.origin = some Source.classpathOrigin) :
    ∃ p ∈ searchPath, ∃ archive, w.openArchive p = .ok archive ∧ ∃ m ∈ archive.members,
      m.isFolder = false ∧ m.name ≠ "" ∧ l = ⟨Source.classpathOrigin ++ ":" ++ m.name⟩ := by
  obtain ⟨text, -, e, source, found, hparse, -, hsource, hlist, hl⟩ :=
    exists_source_of_mem_expand h hl
  have htree : ∀ base, source = .tree base → False := by
    rintro base rfl
    obtain ⟨root, files, names, -, -, -, rfl⟩ := Source.exists_file_of_mem_listTree hlist hl
    rw [Source.origin_fileLocator] at horigin
    exact absurd horigin (by decide)
  rcases Source.choose_resolve_cases hparse hsource with ⟨hclass, roots, rfl, hroots⟩ |
    ⟨-, entry, -, -, hbase⟩ | ⟨-, hbase⟩ | ⟨hclass, -, rfl⟩
  · obtain ⟨root, hroot, archive, hopen, m, hm, hfile, hne, rfl⟩ :=
      Source.exists_member_of_mem_listArchives hlist hl
    rw [hclass, Option.getD_some]
    exact ⟨root.archive, hroots root hroot, archive, hopen, m, hm, hfile, hne, rfl⟩
  · exact (htree _ hbase).elim
  · exact (htree _ hbase).elim
  · obtain rfl := Source.eq_location_of_mem_listRemote hlist hl
    exact absurd (Expression.origin_of_location hparse (by decide) horigin) hclass

/-- **A locator with the scheme `file`** is the path of a file that was found below a folder. Two
slashes at the start of that path come from the search path. -/
theorem exists_file_of_mem_expand
    (h : (expand w ⟨SearchPath.resolve searchPath w, workers⟩ texts).outcome = .ok ls) (hl : l ∈ ls)
    (horigin : l.origin = some Source.fileOrigin)
    (hproper : ∀ entry ∈ searchPath, Proper entry.parts) :
    ∃ base root files names, Proper base.parts ∧
      (base.anchor = .doubleRoot → ∃ entry ∈ searchPath, entry.anchor = .doubleRoot) ∧
      FileTree.absolute w.cwd base = .ok root ∧ Source.filesBelow w root = .ok files ∧
      names ∈ files ∧ l = Source.fileLocator root names := by
  obtain ⟨text, -, e, source, found, hparse, -, hsource, hlist, hl⟩ :=
    exists_source_of_mem_expand h hl
  have hroot := Expression.proper_root_of_parse hparse
  rcases Source.choose_resolve_cases hparse hsource with ⟨hclass, roots, rfl, -⟩ |
    ⟨-, entry, hentry, -, rfl⟩ | ⟨-, rfl⟩ | ⟨-, hfile, rfl⟩
  · obtain ⟨-, -, -, -, m, -, -, -, rfl⟩ := Source.exists_member_of_mem_listArchives hlist hl
    rw [hclass, Option.getD_some, Locator.origin_classpath] at horigin
    exact absurd horigin (by decide)
  · obtain ⟨root, files, names, hfound⟩ := Source.exists_file_of_mem_listTree hlist hl
    exact ⟨entry.below e.root, root, files, names,
      List.forall_mem_append.mpr ⟨hproper entry hentry, hroot⟩,
      fun hanchor => ⟨entry, hentry, hanchor⟩, hfound⟩
  · obtain ⟨root, files, names, hfound⟩ := Source.exists_file_of_mem_listTree hlist hl
    refine ⟨_, root, files, names, hroot, fun hanchor => ?_, hfound⟩
    cases habsolute : e.absolute <;> simp [habsolute] at hanchor
  · obtain rfl := Source.eq_location_of_mem_listRemote hlist hl
    exact absurd (Expression.origin_of_location hparse (by decide) horigin) hfile

end Expand

end AntResources
