import AntResources.Program
import AntResources.Proofs.ListingFaults

/-!
# AntResources.Proofs.ResolutionFaults

**How resolution fails.** A list of expressions that cannot be expanded and a locator that cannot be read
come to an error of the library, with the exception of certain faults. For locators they are a path with a
NUL in it, a lookup that an entry of the search path puts an end to, a member that cannot be unpacked, and a
decoder that gives up (`World.ReadingFault`), just as `World.ListingFault` has them for expressions. The
program reports all errors alike, and it does not report a fault (`Program.run_of_fails`).
-/

namespace AntResources

open Text

/-! ### Files -/

/-- The faults with which the reading of a file ends: there is a NUL in its path, or the decoder gives up on
its content. -/
inductive World.FileFault (w : World) (encoding : Encoding) (p : Path) : Fault → Prop where
  | nul : p.hasNul = true → FileFault w encoding p .nulInPath
  | refused {content : ByteArray} : w.contents p = .ok (some content) →
      encoding.decodeFile content = .refused → FileFault w encoding p .refusedText

theorem World.decoded_eq_fault_iff {failure : ResourceError} {d : Decoded} {fault : Fault} :
    decoded (.resource failure) d = .error (.fault fault) ↔ d = .refused ∧ fault = .refusedText := by
  cases d <;> simp [decoded, eq_comm]

theorem World.readFile_eq_fault_iff {w : World} {p : Path} {encoding : Encoding} {fault : Fault} :
    w.readFile p encoding = .error (.fault fault) ↔ w.FileFault encoding p fault := by
  constructor
  · intro h
    rw [readFile] at h
    cases hcontents : w.contents p with
    | error failure =>
        rw [hcontents, error_bind] at h
        rw [Except.error.inj h] at hcontents
        obtain ⟨hnul, hfault⟩ := contents_eq_error_iff.mp hcontents
        cases hfault
        exact .nul hnul
    | ok content? =>
        rw [hcontents, ok_bind] at h
        cases content? with
        | none => cases h
        | some content =>
            obtain ⟨hrefused, rfl⟩ := decoded_eq_fault_iff.mp h
            exact .refused hcontents hrefused
  · intro h
    cases h with
    | nul hnul => rw [readFile, contents_eq_error_iff.mpr ⟨hnul, rfl⟩, error_bind]
    | refused hcontents hrefused =>
        rw [readFile, hcontents, ok_bind]
        exact decoded_eq_fault_iff.mpr ⟨hrefused, rfl⟩

/-! ### Names on the search path -/

/-- The faults with which the reading of a name ends in an entry of the search path that provides it. -/
inductive World.ProviderFault (w : World) (encoding : Encoding) (entry : Path) (name : String) :
    Fault → Prop where
  /-- The decoder gives up on the file that a folder has under the name. -/
  | file {content : ByteArray} : w.isFolder entry = .ok true →
      w.isFile (SearchPath.candidate name entry) = .ok true →
      w.contents (SearchPath.candidate name entry) = .ok (some content) →
      encoding.decodeFile content = .refused → ProviderFault w encoding entry name .refusedText
  /-- The table of an archive is at fault. Only for the empty name it has not been looked at before. -/
  | table {fault : Fault} : name = "" → w.isArchive entry = .ok true →
      w.openArchive entry = .error (.fault fault) → ProviderFault w encoding entry name fault
  /-- The member that has the name cannot be unpacked. -/
  | content {archive : Archive} {m : Member} {fault : Fault} : w.openArchive entry = .ok archive →
      archive.member? name = some m → archive.contentOf w.decompressors m = .error (.fault fault) →
      ProviderFault w encoding entry name fault
  /-- The decoder gives up on the member that has the name. -/
  | member {archive : Archive} {m : Member} {content : ByteArray} : w.openArchive entry = .ok archive →
      archive.member? name = some m → archive.contentOf w.decompressors m = .ok content →
      encoding.decode content = .refused → ProviderFault w encoding entry name .refusedText

theorem World.providers_eq_append_cons_iff {w : World} {root : String} {searchPath xs ys : SearchPath}
    {p : Path} : w.providers root searchPath = xs ++ p :: ys ↔
      ∃ before after, searchPath = before ++ p :: after ∧ w.providers root before = xs ∧
        w.Provides root p ∧ w.providers root after = ys := by
  constructor
  · intro h
    obtain ⟨first, rest, rfl, rfl, hrest⟩ := List.filter_eq_append_iff.mp h
    obtain ⟨passed, after, rfl, hpassed, hp, rfl⟩ := List.filter_eq_cons_iff.mp hrest
    refine ⟨first ++ passed, after, by simp, ?_, by simpa using hp, rfl⟩
    have hnone : w.providers root passed = [] := List.filter_eq_nil_iff.mpr hpassed
    rw [providers_append, hnone, List.append_nil]
    rfl
  · intro h
    obtain ⟨before, after, rfl, rfl, hp, rfl⟩ := h
    rw [providers_append, providers_cons_of_provides hp]

namespace SearchPath

variable {w : World} {encoding : Encoding} {name : String} {p : Path} {fault : Fault}

/-- A reading fails as the first place that does not lack the name has it. -/
theorem readFrom_eq_error_iff {places : List RootLocation} {failure : Failure} :
    readFrom w encoding name places = .error failure ↔
      ∃ before place after, places = before ++ place :: after ∧
        (∀ other ∈ before, readAt w encoding name other = .ok none) ∧
        readAt w encoding name place = .error failure := by
  constructor
  · intro h
    induction places with
    | nil => cases h
    | cons place rest ih =>
        rw [readFrom_cons] at h
        cases hplace : readAt w encoding name place with
        | error other =>
            rw [hplace, error_bind] at h
            cases h
            exact ⟨[], place, rest, rfl, by simp, hplace⟩
        | ok found =>
            rw [hplace, ok_bind] at h
            cases found with
            | some text => cases h
            | none =>
                obtain ⟨before, other, after, rfl, hbefore, hother⟩ := ih h
                exact ⟨place :: before, other, after, rfl,
                  List.forall_mem_cons.mpr ⟨hplace, hbefore⟩, hother⟩
  · intro h
    obtain ⟨before, place, after, rfl, hbefore, hplace⟩ := h
    rw [readFrom_append _ hbefore, readFrom_cons, hplace, error_bind]

/-- What is there below a folder of the search path is read with one fault at most: the decoder gives up. -/
theorem readAt_tree_eq_fault_iff (hpresent : w.isPresent p = .ok true) :
    readAt w encoding name (.tree p) = .error (.fault fault) ↔ w.isFile p = .ok true ∧
      fault = .refusedText ∧
        ∃ content, w.contents p = .ok (some content) ∧ encoding.decodeFile content = .refused := by
  rw [readAt]
  cases hfile : w.isFile p with
  | error failure =>
      rw [World.isPresent_eq_error_iff.mpr (World.isFile_eq_error_iff.mp hfile)] at hpresent
      cases hpresent
  | ok isFile =>
      rw [ok_bind]
      cases isFile with
      | false => simp [pure, Except.pure]
      | true =>
          rw [if_pos rfl, bind_pure_comp, map_eq_error_iff, World.readFile_eq_fault_iff]
          constructor
          · intro h
            cases h with
            | nul hnul =>
                rw [World.isPresent, FileTree.isPresent, FileTree.test, FileTree.lookUp,
                  FileTree.find_eq_nul_iff.mpr hnul] at hpresent
                cases hpresent
            | refused hcontents hrefused => exact ⟨rfl, rfl, _, hcontents, hrefused⟩
          · intro h
            obtain ⟨-, rfl, content, hcontents, hrefused⟩ := h
            exact .refused hcontents hrefused

theorem lacks_iff_of_answers (encoding : Encoding) (h : w.Answers name p) : w.Lacks p name ↔
    (w.Provides name p → readAt w encoding name (w.placeAt name p) = .ok none) := by
  rw [lacks_iff encoding]
  rcases locate_of_answers h with ⟨hprovides, hlocate⟩ | ⟨hprovides, hlocate⟩
  · simp [hlocate, hprovides]
  · simp [hlocate, hprovides]

/-- An archive that opens is at fault with the content of a member. -/
theorem readAt_archive_eq_fault_iff {archive : Archive} (hopen : w.openArchive p = .ok archive) :
    readAt w encoding name (.archive ⟨p, name⟩) = .error (.fault fault) ↔
      ∃ m, archive.member? name = some m ∧
        (archive.contentOf w.decompressors m = .error (.fault fault) ∨
          fault = .refusedText ∧ ∃ content, archive.contentOf w.decompressors m = .ok content ∧
            encoding.decode content = .refused) := by
  rw [readAt_archive hopen]
  cases archive.member? name with
  | none => simp
  | some m =>
      cases hcontent : archive.contentOf w.decompressors m with
      | error defect => cases defect <;> simp [hcontent, World.defectFailure]
      | ok content => simp [hcontent, map_eq_error_iff, World.decoded_eq_fault_iff, and_comm]

/-- **When an entry that provides a name is at fault.** -/
theorem readAt_placeAt_eq_fault_iff (h : w.Answers name p) :
    (w.Provides name p ∧ readAt w encoding name (w.placeAt name p) = .error (.fault fault)) ↔
      w.ProviderFault encoding p name fault := by
  constructor
  · intro hfault
    obtain ⟨hprovides, hread⟩ := hfault
    rw [World.placeAt] at hread
    split at hread
    next hfolder =>
      cases hprovides with
      | folder _ hpresent =>
          obtain ⟨hfile, rfl, content, hcontents, hrefused⟩ :=
            (readAt_tree_eq_fault_iff hpresent).mp hread
          exact .file hfolder hfile hcontents hrefused
      | emptyRoot _ harchive =>
          rw [World.isFolder_of_isArchive harchive] at hfolder
          cases hfolder
      | archive hopen =>
          rw [World.isFolder_of_isArchive (World.isArchive_of_openArchive hopen)] at hfolder
          cases hfolder
    next hfolder =>
      have harchive := hprovides.isArchive hfolder
      cases hopen : w.openArchive p with
      | error failure =>
          rw [readAt, readMember, hopen, error_bind] at hread
          cases hread
          by_cases hname : name = ""
          · exact .table hname harchive hopen
          · exact absurd (.table hname harchive hopen) (h _)
      | ok archive =>
          obtain ⟨m, hmember, hcontent | ⟨rfl, content, hcontent, hrefused⟩⟩ :=
            (readAt_archive_eq_fault_iff hopen).mp hread
          · exact .content hopen hmember hcontent
          · exact .member hopen hmember hcontent hrefused
  · intro hfault
    -- An archive with a member of the name provides it, and is then read.
    have hmemberFault : ∀ {archive : Archive} {m : Member}, w.openArchive p = .ok archive →
        archive.member? name = some m →
        (archive.contentOf w.decompressors m = .error (.fault fault) ∨
          fault = .refusedText ∧ ∃ content, archive.contentOf w.decompressors m = .ok content ∧
            encoding.decode content = .refused) →
        w.Provides name p ∧ readAt w encoding name (w.placeAt name p) = .error (.fault fault) := by
      intro archive m hopen hmember hcontent
      obtain ⟨hname, before, after, hmembers, -⟩ := Archive.member?_eq_some_iff.mp hmember
      have hprovides : provides archive name = true :=
        List.any_eq_true.mpr ⟨m, by simp [hmembers], by simp [hname]⟩
      have hfolder := World.isFolder_of_isArchive (World.isArchive_of_openArchive hopen)
      refine ⟨.archive hopen hprovides, ?_⟩
      rw [World.placeAt, if_neg (by simp [hfolder])]
      exact (readAt_archive_eq_fault_iff hopen).mpr ⟨m, hmember, hcontent⟩
    cases hfault with
    | file hfolder hfile hcontents hrefused =>
        have hthere : w.isPresent (candidate name p) = .ok true := by
          obtain ⟨present, hpresent⟩ := World.isPresent_of_isFile hfile
          cases present with
          | true => exact hpresent
          | false =>
              rw [World.isFile_of_not_present hpresent] at hfile
              cases hfile
        refine ⟨.folder hfolder hthere, ?_⟩
        rw [World.placeAt, if_pos hfolder]
        exact (readAt_tree_eq_fault_iff hthere).mpr ⟨hfile, rfl, _, hcontents, hrefused⟩
    | table hname harchive hopen =>
        refine ⟨.emptyRoot hname harchive, ?_⟩
        rw [World.placeAt, if_neg (by simp [World.isFolder_of_isArchive harchive]), readAt, readMember,
          hopen, error_bind]
    | content hopen hmember hcontent => exact hmemberFault hopen hmember (.inl hcontent)
    | member hopen hmember hcontent hrefused =>
        exact hmemberFault hopen hmember (.inr ⟨rfl, _, hcontent, hrefused⟩)

/-- **When the places of a name are at fault**, if all entries answer: the first entry that does not lack
the name is. -/
theorem readFrom_providers_eq_fault_iff {searchPath : SearchPath}
    (h : ∀ q ∈ searchPath, w.Answers name q) :
    readFrom w encoding name ((w.providers name searchPath).map (w.placeAt name)) =
        .error (.fault fault) ↔
      ∃ before z after, searchPath = before ++ z :: after ∧ (∀ q ∈ before, w.Lacks q name) ∧
        w.ProviderFault encoding z name fault := by
  rw [readFrom_eq_error_iff]
  constructor
  · intro hread
    obtain ⟨passed, place, rest, hplaces, hpassed, hplace⟩ := hread
    obtain ⟨xs, ys, hsplit, rfl, hys⟩ := List.map_eq_append_iff.mp hplaces
    obtain ⟨z, zs, rfl, rfl, rfl⟩ := List.map_eq_cons_iff.mp hys
    obtain ⟨before, after, rfl, rfl, hz, rfl⟩ := World.providers_eq_append_cons_iff.mp hsplit
    refine ⟨before, z, after, rfl, fun q hq => ?_, ?_⟩
    · refine (lacks_iff_of_answers encoding (h q (by simp [hq]))).mpr fun hprovides => ?_
      exact hpassed _ (List.mem_map_of_mem (World.mem_providers_iff.mpr ⟨hq, hprovides⟩))
    · exact (readAt_placeAt_eq_fault_iff (h z (by simp))).mp ⟨hz, hplace⟩
  · intro hfault
    obtain ⟨before, z, after, rfl, hbefore, hz⟩ := hfault
    obtain ⟨hprovides, hread⟩ := (readAt_placeAt_eq_fault_iff (h z (by simp))).mpr hz
    refine ⟨(w.providers name before).map (w.placeAt name), _,
      (w.providers name after).map (w.placeAt name), ?_, ?_, hread⟩
    · rw [World.providers_append, World.providers_cons_of_provides hprovides, List.map_append,
        List.map_cons]
    · intro place hplace
      obtain ⟨q, hq, rfl⟩ := List.mem_map.mp hplace
      obtain ⟨hmem, hqprovides⟩ := World.mem_providers_iff.mp hq
      exact (lacks_iff_of_answers encoding (h q (by simp [hmem]))).mp (hbefore q hmem) hqprovides

end SearchPath

/-! ### Locators -/

/-- The faults with which the reading of a locator on a search path ends. -/
inductive World.ReadingFault (w : World) (searchPath : SearchPath) (encoding : Encoding) :
    Locator → Fault → Prop where
  /-- The file is at fault. -/
  | file {text : String} {fault : Fault} : w.FileFault encoding (Locator.filePath text.toList) fault →
      ReadingFault w searchPath encoding ⟨Source.fileOrigin ++ ":" ++ text⟩ fault
  /-- An entry puts an end to the lookup of a name. -/
  | lookup {name : String} {before after : SearchPath} {p : Path} {fault : Fault} :
      searchPath = before ++ p :: after → (∀ q ∈ before, w.Answers (stripSlashes name) q) →
      w.Stops (stripSlashes name) p (.fault fault) →
      ReadingFault w searchPath encoding (nameLocator name) fault
  /-- The first entry that does not lack the name is at fault. -/
  | provider {name : String} {before after : SearchPath} {p : Path} {fault : Fault} :
      (∀ q ∈ searchPath, w.Answers (stripSlashes name) q) → searchPath = before ++ p :: after →
      (∀ q ∈ before, w.Lacks q (stripSlashes name)) →
      w.ProviderFault encoding p (stripSlashes name) fault →
      ReadingFault w searchPath encoding (nameLocator name) fault

namespace Locator

variable {w : World} {searchPath : SearchPath} {timeout : Option Binary64} {encoding : Encoding}
  {fault : Fault}

theorem outcome_readRemote_ne_fault {setup : ReadSetup} {url : String} :
    (readRemote w setup url).outcome ≠ .error (.fault fault) := by
  rw [readRemote, Trace.outcome_bind, Trace.outcome_tell, ok_bind]
  cases w.web.fetch url <;> simp

/-- A name is at fault in the lookup, or where it is read. -/
theorem readingFault_of_read_name {name : String}
    (h : ((nameLocator name).read w ⟨searchPath.resolve w, timeout, encoding⟩).outcome =
      .error (.fault fault)) : w.ReadingFault searchPath encoding (nameLocator name) fault := by
  rcases w.answer_or_stops (stripSlashes name) searchPath with
    hanswers | ⟨before, p, after, failure, hsplit, hbefore, hstops⟩
  · rw [outcome_read_of_answers hanswers] at h
    cases hread : SearchPath.readFrom w encoding (stripSlashes name)
        ((w.providers (stripSlashes name) searchPath).map (w.placeAt (stripSlashes name))) with
    | error failure =>
        rw [hread, error_bind] at h
        cases h
        obtain ⟨before, z, after, hsplit, hbefore, hfault⟩ :=
          (SearchPath.readFrom_providers_eq_fault_iff hanswers).mp hread
        exact .provider hanswers hsplit hbefore hfault
    | ok found =>
        rw [hread, ok_bind] at h
        cases found <;> cases h
  · rw [outcome_read_of_stops ⟨before, p, after, hsplit, hbefore, hstops⟩] at h
    cases h
    exact .lookup hsplit hbefore hstops

/-- **When the reading of a locator ends with a fault.** -/
theorem outcome_read_eq_fault_iff {l : Locator} :
    (l.read w ⟨searchPath.resolve w, timeout, encoding⟩).outcome = .error (.fault fault) ↔
      w.ReadingFault searchPath encoding l fault := by
  constructor
  · intro h
    by_cases hcolon : ':' ∈ l.text.toList
    · obtain ⟨scheme, rest, hscheme, rfl⟩ := exists_scheme_of_mem hcolon
      by_cases hclass : scheme = Source.classpathOrigin
      · subst hclass
        exact readingFault_of_read_name h
      by_cases hfile : scheme = Source.fileOrigin
      · subst hfile
        rw [read_file] at h
        exact .file (World.readFile_eq_fault_iff.mp h)
      -- No other scheme leads to the file system.
      obtain ⟨htake, hdrop⟩ := cut_at_colon scheme hscheme rest
      simp only [read, htake, hdrop, String.ofList_toList, if_neg hclass, if_neg hfile] at h
      split at h
      · exact absurd h outcome_readRemote_ne_fault
      · cases h
    · simp only [read, dropWhile_of_no_colon hcolon] at h
      cases h
  · intro h
    cases h with
    | file hfault =>
        rw [read_file]
        exact World.readFile_eq_fault_iff.mpr hfault
    | lookup hsplit hbefore hstops => exact outcome_read_of_stops ⟨_, _, _, hsplit, hbefore, hstops⟩
    | provider hanswers hsplit hbefore hfault =>
        rw [outcome_read_of_answers hanswers, (SearchPath.readFrom_providers_eq_fault_iff hanswers).mpr
          ⟨_, _, _, hsplit, hbefore, hfault⟩, error_bind]

end Locator

/-- What the reading of a locator can be at fault with. -/
def readingFaults : List Fault :=
  [.nulInPath, .nameTooLong, .permissionDenied, .splitArchive, .refusedText] ++ Archive.contentFaults

theorem World.ReadingFault.mem_readingFaults {w : World} {searchPath : SearchPath}
    {encoding : Encoding} {l : Locator} {fault : Fault} (h : w.ReadingFault searchPath encoding l fault) :
    fault ∈ readingFaults := by
  have htable : ∀ {p : Path} {fault : Fault}, w.openArchive p = .error (.fault fault) →
      fault ∈ readingFaults := fun hopen => by
    have hmem := World.mem_of_openArchive_eq_fault hopen
    simp only [Archive.tableFaults, List.mem_cons, List.not_mem_nil, or_false] at hmem
    rcases hmem with rfl | rfl | rfl <;> decide
  cases h with
  | file hfault => cases hfault <;> decide
  | lookup _ _ hstops =>
      cases hstops with
      | entry hrefused | root _ hrefused => rcases hrefused.cases with rfl | rfl <;> decide
      | table _ _ hopen => exact htable hopen
      | nul | split => decide
  | provider _ _ _ hfault =>
      cases hfault with
      | file | member => decide
      | table _ _ hopen => exact htable hopen
      | content _ _ hcontent =>
          exact List.mem_append_right _ (Archive.faultsIn_contentOf _ _ _ _ hcontent)

/-! ### Runs of the program -/

namespace Program

open CommandLine

/-- A run with the words of a command line comes to resolve the expressions of the options `o`, on a search
path and with a number of workers. -/
structure Resolves (w : World) (args : List String) (o : Options) (sp : SearchPath) (workers : Int) :
    Prop where
  checked : ∃ first given, parse args = .run first given ∧ first.version = false ∧
    Program.checked w first given = .ok (.ok o)
  searchPath : Program.searchPath w o = .ok sp
  workers : o.maxWorkers = some workers

/-- The failures of the resolution: that of the list of expressions, and if the contents are asked for,
that of the first resource which cannot be read. -/
inductive Fails (w : World) (o : Options) (sp : SearchPath) (workers : Int) : Failure → Prop where
  | expand {failure : Failure} :
      (AntResources.expand w ⟨sp.resolve w, workers⟩ o.expressions).outcome = .error failure →
      Fails w o sp workers failure
  | read {before after : List Locator} {l : Locator} {failure : Failure} : o.cat = true →
      (AntResources.expand w ⟨sp.resolve w, workers⟩ o.expressions).outcome =
        .ok (before ++ l :: after) →
      (∀ other ∈ before, ∃ text,
        (other.read w ⟨sp.resolve w, o.remoteTimeout, .utf8⟩).outcome = .ok text) →
      (l.read w ⟨sp.resolve w, o.remoteTimeout, .utf8⟩).outcome = .error failure →
      Fails w o sp workers failure

variable {w : World} {args : List String} {o : Options} {sp : SearchPath} {workers : Int}

theorem Resolves.run_eq (h : Resolves w args o sp workers) : run w args = carryOut w o := by
  obtain ⟨first, given, hparse, hversion, hchecked⟩ := h.checked
  simp [run, hparse, hversion, hchecked]

theorem Resolves.lookup_eq (h : Resolves w args o sp workers) : lookup w o = sp.resolve w := by
  funext root
  simp only [lookup, h.searchPath]

theorem Resolves.listingSetup_eq (h : Resolves w args o sp workers) :
    listingSetup w o = ⟨sp.resolve w, workers⟩ := by
  have hlookup : listingLookup w o = sp.resolve w := by
    funext root
    rw [listingLookup, h.lookup_eq, h.workers]
    exact bind_pure _
  rw [listingSetup, hlookup, h.workers]
  rfl

theorem Resolves.readSetup_eq (h : Resolves w args o sp workers) :
    readSetup w o = ⟨sp.resolve w, o.remoteTimeout, .utf8⟩ := by
  rw [readSetup, h.lookup_eq]

/-- Rendering fails only where contents are asked for, at the first resource that cannot be read. -/
theorem outcome_render_eq_error_iff {resources : List Locator} {failure : Failure} :
    (render w o resources).outcome = .error failure ↔ o.cat = true ∧ ∃ before l after,
      resources = before ++ l :: after ∧
        (∀ other ∈ before, ∃ text, (other.read w (readSetup w o)).outcome = .ok text) ∧
        (l.read w (readSetup w o)).outcome = .error failure := by
  by_cases hcat : o.cat = true
  · rw [outcome_render_cat w hcat, map_eq_error_iff, mapM_eq_error_iff]
    simp only [hcat, true_and]
  · refine iff_of_false (fun h => ?_) fun h => hcat h.1
    rw [render, if_neg hcat] at h
    split at h <;> cases h

theorem Resolves.outcome_produce_eq_error_iff (h : Resolves w args o sp workers) {failure : Failure} :
    (produce w o).outcome = .error failure ↔ Fails w o sp workers failure := by
  rw [produce, h.listingSetup_eq, Trace.outcome_bind]
  constructor
  · intro hfailure
    cases hexpand : (AntResources.expand w ⟨sp.resolve w, workers⟩ o.expressions).outcome with
    | error other =>
        rw [hexpand, error_bind] at hfailure
        cases hfailure
        exact .expand hexpand
    | ok resources =>
        rw [hexpand, ok_bind, outcome_render_eq_error_iff, h.readSetup_eq] at hfailure
        obtain ⟨hcat, before, l, after, rfl, hbefore, hread⟩ := hfailure
        exact .read hcat hexpand hbefore hread
  · intro hfailure
    cases hfailure with
    | expand hexpand => rw [hexpand, error_bind]
    | read hcat hexpand hbefore hread =>
        rw [hexpand, ok_bind, outcome_render_eq_error_iff, h.readSetup_eq]
        exact ⟨hcat, _, _, _, rfl, hbefore, hread⟩

/-- **A run whose resolution fails** changes nothing. An error it reports, with the exit code 1; a fault
ends it without a report. -/
theorem Resolves.run_of_fails (h : Resolves w args o sp workers) :
    (∀ error, Fails w o sp workers (.resource error) → (run w args).tree = w.tree ∧
      ∃ ending, (run w args).ending = .ok ending ∧ ending.exitCode = 1 ∧ ending.stdout = "" ∧
        ending.stderr = "Error: " ++ error.message ++ "\n") ∧
    (∀ fault, Fails w o sp workers (.fault fault) → (run w args).tree = w.tree ∧
      (run w args).ending = .error fault) := by
  refine ⟨fun error herror => ?_, fun fault hfault => ?_⟩
  · have hproduce := h.outcome_produce_eq_error_iff.mpr herror
    rw [h.run_eq, carryOut]
    dsimp only
    rw [hproduce]
    exact ⟨rfl, _, rfl, rfl, rfl, rfl⟩
  · have hproduce := h.outcome_produce_eq_error_iff.mpr hfault
    rw [h.run_eq, carryOut]
    dsimp only
    rw [hproduce]
    exact ⟨rfl, rfl⟩

end Program

/-! ### The result -/

end AntResources
