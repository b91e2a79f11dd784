import Mathlib.Data.List.DropRight
import AntResources.Proofs.ListedLocators

/-!
# AntResources.Proofs.ReadingNames

**What a name on the search path reads as.** A name, without the slashes at its ends, is looked for at
the entries of the search path one after the other. It is nowhere exactly if each of them lacks it
(`isNotFound_read_classpath_iff`), which no other failure is taken for; and otherwise the first entry
that does not lack it is read (`outcome_read_classpath_of_first`).
-/

namespace AntResources

open Text

/-! ### Slashes at the ends of a name -/

namespace Text

theorem stripSlashes_eq (s : String) : stripSlashes s =
    String.ofList ((s.toList.dropWhile (· = '/')).rdropWhile (· = '/')) := rfl

theorem head?_stripSlashes (s : String) : (stripSlashes s).toList.head? ≠ some '/' := by
  rw [stripSlashes_eq, String.toList_ofList]
  obtain ⟨rest, hrest⟩ := List.rdropWhile_prefix (· = '/') (s.toList.dropWhile (· = '/'))
  intro hslash
  have hfirst : (s.toList.dropWhile (· = '/')).head? = some '/' := by
    rw [← hrest, List.head?_append, hslash]
    rfl
  have hnot := List.head?_dropWhile_not (fun c => decide (c = '/')) s.toList
  rw [hfirst] at hnot
  simp at hnot

/-- Slashes that are off are off. -/
@[simp] theorem stripSlashes_stripSlashes (s : String) :
    stripSlashes (stripSlashes s) = stripSlashes s := by
  have hhead := head?_stripSlashes s
  rw [stripSlashes_eq, String.toList_ofList] at hhead
  rw [stripSlashes_eq, stripSlashes_eq, String.toList_ofList, dropWhile_slash hhead,
    List.rdropWhile_idempotent]

theorem stripSlashes_of_ends {s : String} (hhead : s.toList.head? ≠ some '/')
    (hlast : s.toList.getLast? ≠ some '/') : stripSlashes s = s := by
  have hend : s.toList.rdropWhile (· = '/') = s.toList := by
    rw [List.rdropWhile_eq_self_iff]
    intro hne hslash
    exact hlast (by rw [List.getLast?_eq_getLast_of_ne_nil hne]; simpa using hslash)
  rw [stripSlashes_eq, dropWhile_slash hhead, hend, String.ofList_toList]

end Text

/-! ### Entries that lack a name -/

/-- An entry of the search path does not have the name itself: it is a folder in which that is no file, an
archive without such a member, or neither. -/
inductive World.Lacks (w : World) (entry : Path) (name : String) : Prop where
  | folder : w.isFolder entry = .ok true →
      w.isFile (SearchPath.candidate name entry) = .ok false → Lacks w entry name
  | archive {archive : Archive} : w.openArchive entry = .ok archive →
      (∀ m ∈ archive.members, m.name ≠ name) → Lacks w entry name
  | neither : w.isFolder entry = .ok false → w.isArchive entry = .ok false → Lacks w entry name

theorem Archive.member?_eq_none_iff {archive : Archive} {name : String} :
    archive.member? name = none ↔ ∀ m ∈ archive.members, m.name ≠ name := by
  simp [member?]

/-- The member that a name stands for is the last one of that name. -/
theorem Archive.member?_eq_some_iff {archive : Archive} {name : String} {m : Member} :
    archive.member? name = some m ↔ m.name = name ∧ ∃ before after,
      archive.members = before ++ m :: after ∧ ∀ other ∈ after, other.name ≠ name := by
  have hreverse : ∀ before after, archive.members.reverse = before ++ m :: after ↔
      archive.members = after.reverse ++ m :: before.reverse := by
    intro before after
    rw [← List.reverse_inj, List.reverse_reverse]
    simp
  rw [member?, List.find?_eq_some_iff_append, decide_eq_true_eq]
  refine and_congr_right fun _ => ⟨?_, ?_⟩
  · rintro ⟨before, after, hsplit, hnone⟩
    exact ⟨after.reverse, before.reverse, (hreverse before after).mp hsplit, by simpa using hnone⟩
  · rintro ⟨before, after, hsplit, hnone⟩
    exact ⟨after.reverse, before.reverse, (hreverse _ _).mpr (by simpa using hsplit),
      by simpa using hnone⟩

namespace World

variable {w : World} {p : Path}

theorem isPresent_of_isFile {isFile : Bool} (h : w.isFile p = .ok isFile) :
    ∃ present, w.isPresent p = .ok present := by
  unfold World.isFile FileTree.isFile FileTree.test at h
  unfold World.isPresent FileTree.isPresent FileTree.test
  cases hnode : w.tree.lookUp w.cwd p with
  | ok node => exact ⟨true, rfl⟩
  | error obstacle =>
      rw [hnode] at h
      cases obstacle with
      | tooLong | denied => cases h
      | _ => exact ⟨false, rfl⟩

theorem isFile_of_not_present (h : w.isPresent p = .ok false) : w.isFile p = .ok false := by
  unfold World.isPresent FileTree.isPresent FileTree.test at h
  unfold World.isFile FileTree.isFile FileTree.test
  cases hnode : w.tree.lookUp w.cwd p with
  | ok node =>
      rw [hnode] at h
      cases h
  | error obstacle =>
      rw [hnode] at h
      cases obstacle with
      | tooLong | denied => cases h
      | _ => rfl

end World

namespace SearchPath

variable {w : World} {encoding : Encoding} {name : String} {entry : Path}

theorem readAt_tree_eq_ok_none_iff {path : Path} :
    readAt w encoding name (.tree path) = .ok none ↔ w.isFile path = .ok false := by
  rw [readAt]
  cases w.isFile path with
  | error failure => simp
  | ok isFile =>
      cases isFile with
      | false => simp [pure, Except.pure]
      | true => cases hread : w.readFile path encoding <;> simp

/-- What the last member of a name in an archive reads as. -/
theorem readAt_archive {root : ArchiveRoot} {archive : Archive}
    (h : w.openArchive root.archive = .ok archive) : readAt w encoding name (.archive root) =
      match archive.member? name with
      | none => .ok none
      | some m =>
        match archive.contentOf w.decompressors m with
        | .error defect => .error (World.defectFailure root.archive defect)
        | .ok content => some <$>
          World.decoded (.resource (.undecodableMember name root.archive)) (encoding.decode content) := by
  rw [readAt, readMember, h, ok_bind, Archive.content?]
  cases archive.member? name with
  | none => rfl
  | some m =>
      dsimp only
      cases archive.contentOf w.decompressors m with
      | error defect => rfl
      | ok content => rfl

theorem readAt_archive_eq_ok_none_iff {root : ArchiveRoot} {archive : Archive}
    (h : w.openArchive root.archive = .ok archive) :
    readAt w encoding name (.archive root) = .ok none ↔ ∀ m ∈ archive.members, m.name ≠ name := by
  rw [← Archive.member?_eq_none_iff, readAt_archive h]
  cases archive.member? name with
  | none => simp
  | some m =>
      dsimp only
      cases archive.contentOf w.decompressors m with
      | error defect => simp
      | ok content => cases hdecode : encoding.decode content <;> simp [hdecode, World.decoded]

/-- **An entry lacks a name** exactly if it can be asked for it, and the place where it provides it, if
there is one, does not have the name itself. -/
theorem lacks_iff (encoding : Encoding) : w.Lacks entry name ↔
    ∃ found, locate w name entry = .ok found ∧
      ∀ place, found = some place → readAt w encoding name place = .ok none := by
  constructor
  · intro h
    cases h with
    | folder hfolder hfile =>
        obtain ⟨present, hpresent⟩ := World.isPresent_of_isFile hfile
        refine ⟨_, locate_eq_ok_iff.mpr (.inl ⟨hfolder, present, hpresent, rfl⟩), fun place hplace => ?_⟩
        rw [Option.ite_none_right_eq_some, Option.some.injEq] at hplace
        rw [← hplace.2]
        exact readAt_tree_eq_ok_none_iff.mpr hfile
    | @archive archive hopen hnone =>
        refine ⟨_, locate_of_openArchive hopen name, fun place hplace => ?_⟩
        rw [Option.ite_none_right_eq_some, Option.some.injEq] at hplace
        rw [← hplace.2]
        exact (readAt_archive_eq_ok_none_iff hopen).mpr hnone
    | neither hfolder harchive =>
        refine ⟨none, locate_eq_ok_iff.mpr (.inr (.inl ⟨hfolder, harchive, rfl⟩)), ?_⟩
        simp
  · rintro ⟨found, hlocate, hplaces⟩
    rcases locate_eq_ok_iff.mp hlocate with ⟨hfolder, present, hpresent, rfl⟩ |
      ⟨hfolder, harchive, -⟩ | ⟨-, -, -, rfl⟩ | ⟨-, -, -, archive, hopen, rfl⟩
    · refine .folder hfolder ?_
      cases present with
      | false => exact World.isFile_of_not_present hpresent
      | true => exact readAt_tree_eq_ok_none_iff.mp (hplaces _ rfl)
    · exact .neither hfolder harchive
    · -- Every archive provides the empty root, but it has to open before it lacks a member.
      have hnone : readAt w encoding name (.archive ⟨entry, name⟩) = .ok none := hplaces _ rfl
      obtain ⟨archive, hopen, -⟩ := bind_eq_ok_iff.mp hnone
      exact .archive hopen ((readAt_archive_eq_ok_none_iff hopen).mp hnone)
    · refine .archive hopen ?_
      cases hprovides : provides archive name with
      | true =>
          have hnone : readAt w encoding name (.archive ⟨entry, name⟩) = .ok none :=
            hplaces _ (by rw [hprovides]; rfl)
          exact (readAt_archive_eq_ok_none_iff hopen).mp hnone
      | false =>
          intro m hm hsame
          have hhas : provides archive name = true :=
            List.any_eq_true.mpr ⟨m, hm, by simp [hsame]⟩
          rw [hprovides] at hhas
          cases hhas

/-- Nothing is read from a search path exactly if each entry lacks the name. -/
theorem resolve_readFrom_eq_ok_none_iff {searchPath : SearchPath} {text : String}
    (encoding : Encoding) :
    (∃ places, (resolve searchPath w (stripSlashes text)).outcome = .ok places ∧
      readFrom w encoding (stripSlashes text) places = .ok none) ↔
        ∀ entry ∈ searchPath, w.Lacks entry (stripSlashes text) := by
  rw [outcome_resolve, stripSlashes_stripSlashes]
  constructor
  · rintro ⟨places, hplaces, hread⟩ entry hentry
    obtain ⟨found, hfound, rfl⟩ := map_eq_ok_iff.mp hplaces
    obtain ⟨place?, hlocate⟩ := exists_mapM_eq_ok_iff.mp ⟨found, hfound⟩ entry hentry
    refine (lacks_iff encoding).mpr ⟨place?, hlocate, ?_⟩
    rintro place rfl
    have hmem : some place ∈ found := (mem_iff_of_mapM_eq_ok hfound).mpr ⟨entry, hentry, hlocate⟩
    exact readFrom_eq_ok_none_iff.mp hread place (List.mem_filterMap.mpr ⟨some place, hmem, rfl⟩)
  · intro hlacks
    obtain ⟨found, hfound⟩ := exists_mapM_eq_ok_iff.mpr fun entry hentry => by
      obtain ⟨place?, hlocate, -⟩ := (lacks_iff encoding).mp (hlacks entry hentry)
      exact ⟨place?, hlocate⟩
    refine ⟨found.filterMap id, by rw [hfound, map_ok], readFrom_eq_ok_none_iff.mpr ?_⟩
    intro place hplace
    obtain ⟨place?, hmem, heq⟩ := List.mem_filterMap.mp hplace
    obtain rfl : place? = some place := heq
    obtain ⟨entry, hentry, hlocate⟩ := (mem_iff_of_mapM_eq_ok hfound).mp hmem
    obtain ⟨other, hother, hnone⟩ := (lacks_iff encoding).mp (hlacks entry hentry)
    obtain rfl := Except.ok.inj (hlocate.symm.trans hother)
    exact hnone place rfl

end SearchPath

/-! ### Failures that do not say that something is nowhere -/

section NotFound

variable {α β : Type} {w : World} {p : Path} {encoding : Encoding} {name : String}

theorem not_isNotFound_unreadable {error : ResourceError} (h : error.category = .unreadable) :
    ¬ IsNotFound (.error (.resource error) : Except Failure α) := by
  rintro ⟨other, hother, hcategory⟩
  cases hother
  rw [h] at hcategory
  cases hcategory

/-- A sequence says so only where its second step does, if the first does not. -/
theorem isNotFound_bind_iff {x : Except Failure α} {f : α → Except Failure β} (hx : ¬ IsNotFound x) :
    IsNotFound (x >>= f) ↔ ∃ a, x = .ok a ∧ IsNotFound (f a) := by
  cases x with
  | ok a => simp
  | error failure =>
      refine iff_of_false ?_ (by simp)
      rintro ⟨error, herror, hcategory⟩
      exact hx ⟨error, by rw [Except.error.inj herror], hcategory⟩

theorem not_isNotFound_bind {x : Except Failure α} {f : α → Except Failure β} (hx : ¬ IsNotFound x)
    (hf : ∀ a, ¬ IsNotFound (f a)) : ¬ IsNotFound (x >>= f) := by
  rw [isNotFound_bind_iff hx]
  rintro ⟨a, -, h⟩
  exact hf a h

theorem not_isNotFound_mapM {f : α → Except Failure β} {xs : List α}
    (h : ∀ x ∈ xs, ¬ IsNotFound (f x)) : ¬ IsNotFound (xs.mapM f) := by
  rintro ⟨error, herror, hcategory⟩
  obtain ⟨before, x, after, rfl, -, hx⟩ := mapM_eq_error_iff.mp herror
  exact h x (by simp) ⟨error, hx, hcategory⟩

theorem not_isNotFound_mapError {x : Except Fault α} : ¬ IsNotFound (x.mapError Failure.fault) := by
  cases x with
  | error fault => exact not_isNotFound_fault
  | ok a => exact not_isNotFound_ok

theorem not_isNotFound_defect {x : Except Defect α} :
    ¬ IsNotFound (x.mapError (World.defectFailure p)) := by
  cases x with
  | ok a => exact not_isNotFound_ok
  | error defect =>
      cases defect with
      | broken => exact not_isNotFound_unreadable rfl
      | fault fault => exact not_isNotFound_fault

theorem not_isNotFound_openArchive : ¬ IsNotFound (w.openArchive p) := by
  refine not_isNotFound_bind not_isNotFound_mapError fun content? => ?_
  cases content? with
  | none => exact not_isNotFound_unreadable rfl
  | some bytes => exact not_isNotFound_defect

theorem not_isNotFound_isArchive : ¬ IsNotFound (w.isArchive p) := by
  refine not_isNotFound_bind not_isNotFound_mapError fun content? => ?_
  cases content? with
  | none => exact not_isNotFound_ok
  | some bytes =>
      dsimp only
      cases Archive.findEnd bytes with
      | split => exact not_isNotFound_fault
      | _ => exact not_isNotFound_ok

theorem not_isNotFound_decoded {error : ResourceError} (herror : error.category = .unreadable)
    (d : Decoded) : ¬ IsNotFound (World.decoded (.resource error) d) := by
  cases d with
  | text s => exact not_isNotFound_ok
  | undecodable => exact not_isNotFound_unreadable herror
  | refused => exact not_isNotFound_fault

theorem not_isNotFound_readFile : ¬ IsNotFound (w.readFile p encoding) := by
  refine not_isNotFound_bind not_isNotFound_mapError fun content? => ?_
  cases content? with
  | none => exact not_isNotFound_unreadable rfl
  | some content => exact not_isNotFound_decoded rfl _

namespace SearchPath

theorem not_isNotFound_locate : ¬ IsNotFound (locate w name p) := by
  refine not_isNotFound_bind not_isNotFound_mapError fun isFolder => ?_
  cases isFolder with
  | true =>
      refine not_isNotFound_bind not_isNotFound_mapError fun present => ?_
      cases present <;> exact not_isNotFound_ok
  | false =>
      refine not_isNotFound_bind not_isNotFound_isArchive fun isArchive => ?_
      cases isArchive with
      | false => exact not_isNotFound_ok
      | true =>
          simp only [if_true]
          split
          · exact not_isNotFound_ok
          · refine not_isNotFound_bind not_isNotFound_openArchive fun archive => ?_
            split <;> exact not_isNotFound_ok

theorem not_isNotFound_readAt {place : RootLocation} :
    ¬ IsNotFound (readAt w encoding name place) := by
  cases place with
  | archive root =>
      refine not_isNotFound_bind not_isNotFound_openArchive fun archive => ?_
      refine not_isNotFound_bind not_isNotFound_defect fun content? => ?_
      cases content? with
      | none => exact not_isNotFound_ok
      | some content =>
          dsimp only
          rw [← bind_pure_comp]
          exact not_isNotFound_bind (not_isNotFound_decoded rfl _) fun text => not_isNotFound_ok
  | tree path =>
      refine not_isNotFound_bind not_isNotFound_mapError fun isFile => ?_
      cases isFile with
      | false => exact not_isNotFound_ok
      | true => exact not_isNotFound_bind not_isNotFound_readFile fun text => not_isNotFound_ok

theorem not_isNotFound_readFrom {places : List RootLocation} :
    ¬ IsNotFound (readFrom w encoding name places) := by
  induction places with
  | nil => exact not_isNotFound_ok
  | cons place rest ih =>
      rw [readFrom_cons]
      refine not_isNotFound_bind not_isNotFound_readAt fun found => ?_
      cases found with
      | none => exact ih
      | some text => exact not_isNotFound_ok

theorem not_isNotFound_resolve {searchPath : SearchPath} {text : String} :
    ¬ IsNotFound (resolve searchPath w text).outcome := by
  rw [outcome_resolve, ← bind_pure_comp]
  exact not_isNotFound_bind (not_isNotFound_mapM fun entry _ => not_isNotFound_locate)
    fun found => not_isNotFound_ok

end SearchPath

end NotFound

/-! ### Names on the search path -/

section Names

variable {w : World} {searchPath : SearchPath} {timeout : Option Binary64} {encoding : Encoding}
  {name : String}

/-- The locator of a name on the search path. -/
def nameLocator (name : String) : Locator := ⟨Source.classpathOrigin ++ ":" ++ name⟩

/-- **A name is nowhere** exactly if every entry of the search path lacks it. -/
theorem isNotFound_read_classpath_iff :
    IsNotFound ((nameLocator name).read w ⟨searchPath.resolve w, timeout, encoding⟩).outcome ↔
      ∀ entry ∈ searchPath, w.Lacks entry (stripSlashes name) := by
  rw [nameLocator, Locator.read_classpath, Locator.outcome_readClasspath,
    ← SearchPath.resolve_readFrom_eq_ok_none_iff encoding]
  rw [isNotFound_bind_iff SearchPath.not_isNotFound_resolve]
  refine exists_congr fun places => and_congr_right fun _ => ?_
  rw [isNotFound_bind_iff SearchPath.not_isNotFound_readFrom]
  constructor
  · rintro ⟨found, hread, hnotFound⟩
    cases found with
    | none => exact hread
    | some text => exact absurd hnotFound not_isNotFound_ok
  · exact fun hread => ⟨none, hread, _, rfl, rfl⟩

/-- **The first entry that does not lack a name** is read, if all entries behind it can be asked. -/
theorem outcome_read_classpath_of_first {before after : SearchPath} {p : Path} {place : RootLocation}
    {entry text : String} (hstrip : stripSlashes name = entry)
    (hbefore : ∀ q ∈ before, w.Lacks q entry)
    (hplace : SearchPath.locate w entry p = .ok (some place))
    (hread : SearchPath.readAt w encoding entry place = .ok (some text))
    (hafter : ∀ q ∈ after, ∃ found, SearchPath.locate w entry q = .ok found) :
    ((nameLocator name).read w
      ⟨SearchPath.resolve (before ++ p :: after) w, timeout, encoding⟩).outcome = .ok text := by
  subst hstrip
  obtain ⟨places, hplaces, hnone⟩ :=
    (SearchPath.resolve_readFrom_eq_ok_none_iff encoding).mpr hbefore
  rw [SearchPath.outcome_resolve, stripSlashes_stripSlashes] at hplaces
  obtain ⟨found, hfound, rfl⟩ := map_eq_ok_iff.mp hplaces
  obtain ⟨others, hothers⟩ := exists_mapM_eq_ok_iff.mpr hafter
  have hall : (SearchPath.resolve (before ++ p :: after) w (stripSlashes name)).outcome =
      .ok (found.filterMap id ++ place :: others.filterMap id) := by
    rw [SearchPath.outcome_resolve, stripSlashes_stripSlashes, List.mapM_append, hfound, ok_bind,
      List.mapM_cons, hplace, ok_bind, hothers]
    simp [pure, Except.pure]
  rw [nameLocator, Locator.read_classpath, Locator.outcome_readClasspath]
  dsimp only
  rw [hall, ok_bind, SearchPath.readFrom_append _ (SearchPath.readFrom_eq_ok_none_iff.mp hnone),
    SearchPath.readFrom_cons, hread]
  rfl

end Names

end AntResources
