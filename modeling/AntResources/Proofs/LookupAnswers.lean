import AntResources.Proofs.ReadingFiles
import AntResources.Proofs.ReadingMembers

/-!
# AntResources.Proofs.LookupAnswers

**What a lookup on a search path answers, and when it gives none.** The entries of the search path are
asked for the root one after the other. An entry may put an end to that (`World.Stops`), and the first
one that does so decides how the lookup fails (`SearchPath.outcome_resolve_eq_error_iff`). If none does,
the lookup finds the places of the entries that provide the root (`World.Provides`), in the order of the
search path (`SearchPath.outcome_resolve_of_answers`). An entry whose archive is intact can put an end to
the lookup by its path alone.
-/

namespace AntResources

open Text

/-! ### Paths that are refused -/

namespace FileTree

variable {t : FileTree} {cwd : Location} {p : Path} {fault : Fault}

theorem find_eq_nul_iff : t.find cwd p = .error .nul ↔ p.hasNul = true := by
  cases hnul : p.hasNul with
  | false => simpa using @find_ne_nul t p cwd hnul
  | true => simp [find, hnul]

/-- A question about the kind of thing that a path leads to fails where the path is refused. -/
theorem test_eq_error_iff {kind : Node → Bool} : t.test cwd p kind = .error fault ↔
    ∃ obstacle, t.find cwd p = .error obstacle ∧ obstacle.refusal? = some fault := by
  unfold test lookUp
  cases t.find cwd p with
  | error obstacle => cases hrefusal : obstacle.refusal? <;> simp [hrefusal]
  | ok spot => cases hnode : t.node? spot.location <;> simp [hnode, Obstacle.refusal?]

/-- Reading what a path leads to fails in one way only, and then not for the length of the path. -/
theorem contents_eq_error_iff :
    t.contents cwd p = .error fault ↔ p.hasNul = true ∧ fault = .nulInPath := by
  rw [← @find_eq_nul_iff t cwd, contents, lookUp]
  cases t.find cwd p with
  | error obstacle => cases obstacle <;> simp [eq_comm]
  | ok spot =>
      dsimp only
      cases t.node? spot.location with
      | none => simp
      | some node => cases node <;> simp

end FileTree

theorem mapError_eq_error_iff {ε ε' α : Type} {f : ε → ε'} {x : Except ε α} {e : ε'} :
    x.mapError f = .error e ↔ ∃ cause, x = .error cause ∧ e = f cause := by
  cases x <;> simp [Except.mapError, eq_comm]

namespace World

variable {w : World} {p : Path} {failure : Failure}

theorem mapError_test_eq_error_iff {kind : Node → Bool} :
    (w.tree.test w.cwd p kind).mapError Failure.fault = .error failure ↔
      ∃ fault, w.Refuses p fault ∧ failure = .fault fault := by
  simp only [mapError_eq_error_iff, FileTree.test_eq_error_iff, Refuses]

theorem isFolder_eq_error_iff :
    w.isFolder p = .error failure ↔ ∃ fault, w.Refuses p fault ∧ failure = .fault fault :=
  mapError_test_eq_error_iff

theorem isPresent_eq_error_iff :
    w.isPresent p = .error failure ↔ ∃ fault, w.Refuses p fault ∧ failure = .fault fault :=
  mapError_test_eq_error_iff

theorem isFile_eq_error_iff :
    w.isFile p = .error failure ↔ ∃ fault, w.Refuses p fault ∧ failure = .fault fault :=
  mapError_test_eq_error_iff

theorem contents_eq_error_iff :
    w.contents p = .error failure ↔ p.hasNul = true ∧ failure = .fault .nulInPath := by
  simp [contents, mapError_eq_error_iff, FileTree.contents_eq_error_iff]

/-- A path with a NUL in it leads nowhere. -/
theorem isFolder_of_hasNul (h : p.hasNul = true) : w.isFolder p = .ok false :=
  isFolder_of_find_error (FileTree.find_eq_nul_iff.mpr h) rfl

/-! ### Files that are archives -/

theorem isArchive_eq_true_iff : w.isArchive p = .ok true ↔
    ∃ bytes record, w.contents p = .ok (some bytes) ∧ Archive.findEnd bytes = .found record := by
  unfold isArchive
  cases w.contents p with
  | error failure => simp
  | ok content? =>
      cases content? with
      | none => simp [pure, Except.pure]
      | some bytes =>
          rw [ok_bind]
          dsimp only
          cases hend : Archive.findEnd bytes <;>
            simp [hend, pure, Except.pure, throw, throwThe, MonadExceptOf.throw]

theorem isArchive_eq_error_iff : w.isArchive p = .error failure ↔
    p.hasNul = true ∧ failure = .fault .nulInPath ∨
    ∃ bytes, w.contents p = .ok (some bytes) ∧ Archive.findEnd bytes = .split ∧
      failure = .fault .splitArchive := by
  rw [← contents_eq_error_iff (w := w)]
  unfold isArchive
  cases w.contents p with
  | error other => simp
  | ok content? =>
      cases content? with
      | none => simp [pure, Except.pure]
      | some bytes =>
          rw [ok_bind]
          dsimp only
          cases hend : Archive.findEnd bytes <;>
            simp [hend, pure, Except.pure, throw, throwThe, MonadExceptOf.throw, eq_comm]

/-- What ends like an archive is no folder. -/
theorem isFolder_of_isArchive (h : w.isArchive p = .ok true) : w.isFolder p = .ok false := by
  obtain ⟨bytes, record, hbytes, -⟩ := isArchive_eq_true_iff.mp h
  exact isFolder_of_contents hbytes

/-! ### Entries that put an end to a lookup -/

/-- An entry of a search path that puts an end to every lookup of a root that comes to it, with the
given failure. -/
inductive Stops (w : World) (root : String) (entry : Path) : Failure → Prop where
  /-- The path of the entry is refused. -/
  | entry {fault : Fault} : w.Refuses entry fault → Stops w root entry (.fault fault)
  /-- The entry is a folder, and the path of the root below it is refused. -/
  | root {fault : Fault} : w.isFolder entry = .ok true →
      w.Refuses (SearchPath.candidate root entry) fault → Stops w root entry (.fault fault)
  /-- The path of the entry has a NUL in it. -/
  | nul : entry.hasNul = true → Stops w root entry (.fault .nulInPath)
  /-- The entry is one part of several of an archive. -/
  | split {bytes : ByteArray} : w.contents entry = .ok (some bytes) → Archive.findEnd bytes = .split →
      Stops w root entry (.fault .splitArchive)
  /-- The entry ends like an archive and does not open. Only the empty root is not looked for in its
  table. -/
  | table {failure : Failure} : root ≠ "" → w.isArchive entry = .ok true →
      w.openArchive entry = .error failure → Stops w root entry failure

end World

namespace SearchPath

variable {w : World} {root : String} {entry : Path} {failure : Failure}

/-- An entry is asked up to four questions, and fails to answer the root where one of them fails. -/
theorem locate_eq_error_cases : locate w root entry = .error failure ↔
    w.isFolder entry = .error failure ∨
    w.isFolder entry = .ok true ∧ w.isPresent (candidate root entry) = .error failure ∨
    w.isFolder entry = .ok false ∧ w.isArchive entry = .error failure ∨
    w.isFolder entry = .ok false ∧ w.isArchive entry = .ok true ∧ root ≠ "" ∧
      w.openArchive entry = .error failure := by
  unfold locate candidate
  cases w.isFolder entry with
  | error other => simp
  | ok isFolder =>
      cases isFolder with
      | true =>
          cases hpresent : w.isPresent (if root = "" then entry else entry.join (Path.ofString root)) with
          | error other => simp [hpresent]
          | ok present => cases present <;> simp [hpresent, pure, Except.pure]
      | false =>
          cases w.isArchive entry with
          | error other => simp
          | ok isArchive =>
              cases isArchive with
              | false => simp [pure, Except.pure]
              | true =>
                  by_cases hroot : root = ""
                  · simp [hroot, pure, Except.pure]
                  · cases hopen : w.openArchive entry with
                    | error other => simp [hroot]
                    | ok archive =>
                        cases hprovides : provides archive root <;>
                          simp [hroot, hprovides, pure, Except.pure]

/-- **When an entry puts an end to a lookup.** -/
theorem locate_eq_error_iff : locate w root entry = .error failure ↔ w.Stops root entry failure := by
  rw [locate_eq_error_cases, World.isFolder_eq_error_iff, World.isPresent_eq_error_iff,
    World.isArchive_eq_error_iff]
  constructor
  · rintro (⟨fault, hrefused, rfl⟩ | ⟨hfolder, fault, hrefused, rfl⟩ |
      ⟨-, ⟨hnul, rfl⟩ | ⟨bytes, hbytes, hend, rfl⟩⟩ | ⟨-, harchive, hroot, hopen⟩)
    · exact .entry hrefused
    · exact .root hfolder hrefused
    · exact .nul hnul
    · exact .split hbytes hend
    · exact .table hroot harchive hopen
  · intro h
    cases h with
    | entry hrefused => exact .inl ⟨_, hrefused, rfl⟩
    | root hfolder hrefused => exact .inr (.inl ⟨hfolder, _, hrefused, rfl⟩)
    | nul hnul => exact .inr (.inr (.inl ⟨World.isFolder_of_hasNul hnul, .inl ⟨hnul, rfl⟩⟩))
    | split hbytes hend =>
        exact .inr (.inr (.inl ⟨World.isFolder_of_contents hbytes, .inr ⟨_, hbytes, hend, rfl⟩⟩))
    | table hroot harchive hopen =>
        exact .inr (.inr (.inr ⟨World.isFolder_of_isArchive harchive, harchive, hroot, hopen⟩))

end SearchPath

namespace World

variable {w : World} {root : String} {entry : Path} {failure : Failure}

/-- An entry of a search path can be asked for a root. -/
def Answers (w : World) (root : String) (entry : Path) : Prop := ∀ failure, ¬ w.Stops root entry failure

theorem answers_iff :
    w.Answers root entry ↔ ∃ found, SearchPath.locate w root entry = .ok found := by
  simp only [Answers, ← SearchPath.locate_eq_error_iff]
  cases SearchPath.locate w root entry <;> simp

/-- Either all entries answer, or the first that does not puts an end to the lookup. -/
theorem answer_or_stops (w : World) (root : String) (searchPath : SearchPath) :
    (∀ q ∈ searchPath, w.Answers root q) ∨ ∃ before p after failure,
      searchPath = before ++ p :: after ∧ (∀ q ∈ before, w.Answers root q) ∧
        w.Stops root p failure := by
  by_cases h : ∃ q ∈ searchPath, ¬ w.Answers root q
  · obtain ⟨before, p, after, hsplit, hbefore, hp⟩ := exists_first h
    obtain ⟨failure, hstops⟩ : ∃ failure, w.Stops root p failure := by simpa [Answers] using hp
    exact .inr ⟨before, p, after, failure, hsplit, fun q hq => not_not.mp (hbefore q hq), hstops⟩
  · exact .inl (by simpa using h)

/-- What ends like an archive at the path opens as one. -/
def IsWhole (w : World) (p : Path) : Prop := ∀ bytes, w.contents p = .ok (some bytes) →
  Archive.findEnd bytes = .absent ∨ Archive.findEnd bytes = .cramped ∨
    ∃ archive, Archive.ofBytes bytes = .ok archive

/-- A path that leads to no file is whole. -/
theorem isWhole_of_isFolder_ne (h : w.isFolder entry ≠ .ok false) : w.IsWhole entry :=
  fun _ hbytes => absurd (isFolder_of_contents hbytes) h

theorem isWhole_of_openArchive {archive : Archive} (h : w.openArchive entry = .ok archive) :
    w.IsWhole entry := by
  intro bytes hbytes
  obtain ⟨same, hsame, hopen⟩ := exists_of_openArchive h
  rw [hbytes] at hsame
  cases hsame
  exact .inr (.inr ⟨_, hopen⟩)

theorem IsWhole.exists_archive (h : w.IsWhole entry) (harchive : w.isArchive entry = .ok true) :
    ∃ archive, w.openArchive entry = .ok archive := by
  obtain ⟨bytes, record, hbytes, hend⟩ := isArchive_eq_true_iff.mp harchive
  rcases h bytes hbytes with hnone | hnone | ⟨archive, hopen⟩
  · rw [hend] at hnone
    cases hnone
  · rw [hend] at hnone
    cases hnone
  · refine ⟨archive, ?_⟩
    rw [openArchive, hbytes, ok_bind]
    dsimp only
    rw [hopen]
    rfl

/-- A whole entry puts an end to a lookup by its path alone. -/
theorem IsWhole.eq_fault_of_stops (h : w.IsWhole entry) (hstops : w.Stops root entry failure) :
    failure = .fault .nameTooLong ∨ failure = .fault .permissionDenied ∨
      failure = .fault .nulInPath := by
  cases hstops with
  | entry hrefused | root _ hrefused => exact (hrefused.cases).imp (congrArg _) (.inl ∘ congrArg _)
  | nul => exact .inr (.inr rfl)
  | @split bytes hbytes hend =>
      rcases h bytes hbytes with hnone | hnone | ⟨archive, hopen⟩
      · rw [hend] at hnone
        cases hnone
      · rw [hend] at hnone
        cases hnone
      · rw [Archive.ofBytes, hend] at hopen
        cases hopen
  | table _ harchive hfails =>
      obtain ⟨archive, hopen⟩ := h.exists_archive harchive
      rw [hopen] at hfails
      cases hfails

/-! ### Entries that provide a root -/

/-- An entry of a search path provides a root: the root is there below the folder, or the archive has a
member of that name or below it. Every archive provides the empty root. -/
inductive Provides (w : World) (root : String) (entry : Path) : Prop where
  | folder : w.isFolder entry = .ok true → w.isPresent (SearchPath.candidate root entry) = .ok true →
      Provides w root entry
  | emptyRoot : root = "" → w.isArchive entry = .ok true → Provides w root entry
  | archive {archive : Archive} : w.openArchive entry = .ok archive →
      SearchPath.provides archive root = true → Provides w root entry

open Classical in
/-- The entries of a search path that provide a root, in their order. -/
noncomputable def providers (w : World) (root : String) (searchPath : SearchPath) : SearchPath :=
  searchPath.filter fun entry => w.Provides root entry

/-- The place where an entry would have a root. -/
def placeAt (w : World) (root : String) (entry : Path) : RootLocation :=
  if w.isFolder entry = .ok true then .tree (SearchPath.candidate root entry)
  else .archive ⟨entry, root⟩

theorem mem_providers_iff {searchPath : SearchPath} :
    entry ∈ w.providers root searchPath ↔ entry ∈ searchPath ∧ w.Provides root entry := by
  simp [providers]

theorem providers_append (before after : SearchPath) :
    w.providers root (before ++ after) = w.providers root before ++ w.providers root after := by
  simp [providers]

theorem providers_cons_of_provides (h : w.Provides root entry) (rest : SearchPath) :
    w.providers root (entry :: rest) = entry :: w.providers root rest := by
  simp [providers, h]

theorem providers_cons_of_not_provides (h : ¬ w.Provides root entry) (rest : SearchPath) :
    w.providers root (entry :: rest) = w.providers root rest := by
  simp [providers, h]

/-- An archive that provides a root is no folder. -/
theorem Provides.isArchive (h : w.Provides root entry) (hfolder : w.isFolder entry ≠ .ok true) :
    w.isArchive entry = .ok true := by
  cases h with
  | folder hthere => exact absurd hthere hfolder
  | emptyRoot _ harchive => exact harchive
  | archive hopen => exact isArchive_of_openArchive hopen

end World

namespace SearchPath

variable {w : World} {root : String} {entry : Path}

theorem locate_eq_ok_some_iff {place : RootLocation} : locate w root entry = .ok (some place) ↔
    w.Provides root entry ∧ place = w.placeAt root entry := by
  rw [locate_eq_ok_iff]
  constructor
  · rintro (⟨hfolder, present, hpresent, hplace⟩ | ⟨-, -, hplace⟩ | ⟨hfolder, harchive, hroot, hplace⟩ |
      ⟨hfolder, harchive, hroot, archive, hopen, hplace⟩)
    · rw [Option.ite_none_right_eq_some, Option.some.injEq] at hplace
      obtain ⟨rfl, rfl⟩ := hplace
      exact ⟨.folder hfolder hpresent, by rw [World.placeAt, if_pos hfolder]⟩
    · cases hplace
    · cases hplace
      exact ⟨.emptyRoot hroot harchive, by simp [World.placeAt, hfolder]⟩
    · rw [Option.ite_none_right_eq_some, Option.some.injEq] at hplace
      obtain ⟨hprovides, rfl⟩ := hplace
      exact ⟨.archive hopen hprovides, by simp [World.placeAt, hfolder]⟩
  · rintro ⟨hprovides, rfl⟩
    unfold World.placeAt
    cases hprovides with
    | folder hfolder hpresent =>
        rw [if_pos hfolder]
        exact .inl ⟨hfolder, true, hpresent, rfl⟩
    | emptyRoot hroot harchive =>
        have hfolder := World.isFolder_of_isArchive harchive
        rw [hfolder, if_neg (by simp)]
        exact .inr (.inr (.inl ⟨rfl, harchive, hroot, rfl⟩))
    | archive hopen hprovides =>
        have harchive := World.isArchive_of_openArchive hopen
        have hfolder := World.isFolder_of_isArchive harchive
        rw [hfolder, if_neg (by simp)]
        by_cases hroot : root = ""
        · exact .inr (.inr (.inl ⟨rfl, harchive, hroot, rfl⟩))
        · exact .inr (.inr (.inr ⟨rfl, harchive, hroot, _, hopen, by rw [if_pos hprovides]⟩))

theorem locate_of_answers (h : w.Answers root entry) :
    (w.Provides root entry ∧ locate w root entry = .ok (some (w.placeAt root entry))) ∨
      (¬ w.Provides root entry ∧ locate w root entry = .ok none) := by
  obtain ⟨found, hfound⟩ := World.answers_iff.mp h
  by_cases hprovides : w.Provides root entry
  · exact .inl ⟨hprovides, locate_eq_ok_some_iff.mpr ⟨hprovides, rfl⟩⟩
  · refine .inr ⟨hprovides, ?_⟩
    cases found with
    | none => exact hfound
    | some place => exact absurd (locate_eq_ok_some_iff.mp hfound).1 hprovides

/-! ### Lookups -/

variable {searchPath : SearchPath} {text : String}

/-- **What a lookup finds**, if every entry answers: the places of the entries that provide the root. -/
theorem outcome_resolve_of_answers (h : ∀ entry ∈ searchPath, w.Answers (stripSlashes text) entry) :
    (resolve searchPath w text).outcome = .ok
      ((w.providers (stripSlashes text) searchPath).map (w.placeAt (stripSlashes text))) := by
  rw [outcome_resolve]
  induction searchPath with
  | nil => rfl
  | cons entry rest ih =>
      obtain ⟨hentry, hrest⟩ := List.forall_mem_cons.mp h
      obtain ⟨found, hfound, hplaces⟩ := map_eq_ok_iff.mp (ih hrest)
      rw [List.mapM_cons, hfound]
      rcases locate_of_answers hentry with ⟨hprovides, hlocate⟩ | ⟨hprovides, hlocate⟩
      · rw [hlocate, World.providers_cons_of_provides hprovides, List.map_cons, ← hplaces]
        rfl
      · rw [hlocate, World.providers_cons_of_not_provides hprovides, ← hplaces]
        rfl

/-- **How a lookup fails**: as the first entry that does not answer has it. -/
theorem outcome_resolve_eq_error_iff {failure : Failure} :
    (resolve searchPath w text).outcome = .error failure ↔
      ∃ before entry after, searchPath = before ++ entry :: after ∧
        (∀ other ∈ before, w.Answers (stripSlashes text) other) ∧
        w.Stops (stripSlashes text) entry failure := by
  simp only [outcome_resolve, map_eq_error_iff, mapM_eq_error_iff, World.answers_iff,
    locate_eq_error_iff]

end SearchPath

/-! ### Names -/

namespace Locator

variable {w : World} {searchPath : SearchPath} {timeout : Option Binary64} {encoding : Encoding}
  {name : String}

/-- The outcome for a name that every entry can be asked for. -/
theorem outcome_read_of_answers (h : ∀ q ∈ searchPath, w.Answers (stripSlashes name) q) :
    ((nameLocator name).read w ⟨searchPath.resolve w, timeout, encoding⟩).outcome =
      SearchPath.readFrom w encoding (stripSlashes name)
          ((w.providers (stripSlashes name) searchPath).map (w.placeAt (stripSlashes name))) >>= fun
        | some text => .ok text
        | none => .error (.resource (.resourceNotFound name)) := by
  have hanswers : ∀ q ∈ searchPath, w.Answers (stripSlashes (stripSlashes name)) q := by simpa using h
  have hresolve := SearchPath.outcome_resolve_of_answers hanswers
  rw [stripSlashes_stripSlashes] at hresolve
  rw [nameLocator, read_classpath, outcome_readClasspath]
  dsimp only
  rw [hresolve]
  rfl

theorem outcome_read_of_stops {failure : Failure} (h : ∃ before p after,
    searchPath = before ++ p :: after ∧ (∀ q ∈ before, w.Answers (stripSlashes name) q) ∧
      w.Stops (stripSlashes name) p failure) :
    ((nameLocator name).read w ⟨searchPath.resolve w, timeout, encoding⟩).outcome = .error failure := by
  have hresolve : (SearchPath.resolve searchPath w (stripSlashes name)).outcome = .error failure := by
    rw [SearchPath.outcome_resolve_eq_error_iff, stripSlashes_stripSlashes]
    exact h
  rw [nameLocator, read_classpath, outcome_readClasspath]
  dsimp only
  rw [hresolve, error_bind]

end Locator

end AntResources
