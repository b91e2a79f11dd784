import AntResources.Proofs.AnchoredPaths
import AntResources.Proofs.SettingsLoading
import AntResources.Proofs.SettingsPrecedence

/-!
# AntResources.Proofs.WorkingFolders

**A project means the same in all its folders.** The settings file that counts is found under an absolute
path, and the entries of its search path are taken from the folder that the file is in. So two runs that
find the same settings file, with a search path in it, resolve their expressions alike, unless these list
files from the working folder (`Program.produce_movedTo`). What was resolved is also read alike, with one
exception: an entry with two slashes at its start makes locators that are read as relative paths. Where that
does not matter both runs come to the same outcome (`Program.run_movedTo`).
-/

namespace AntResources

open Text

open Contribution (Setup)

/-! ### Real paths -/

namespace FileTree

variable {t : FileTree}

theorem isAnchored_asWritten {here : Path} (h : here.IsAnchored) (steps : List Step) :
    (asWritten here steps).IsAnchored := by
  fun_induction asWritten here steps with
  | case1 => exact h
  | case2 here link s steps ih => exact ih (by simp [Path.IsAnchored])
  | case3 here link steps _ ih => exact ih h
  | case4 here s steps ih => exact ih h

theorem isAnchored_up {p : Path} (h : p.IsAnchored) : p.up.IsAnchored := by
  unfold Path.up
  split
  · rwa [if_neg h]
  · split <;> exact h

theorem linkTarget?_eq {p : Path} (h : p.IsAnchored) (cwd other : Location) :
    t.linkTarget? cwd p = t.linkTarget? other p := by
  have hstart : ∀ cwd, start cwd p = [] := fun cwd => if_neg h
  rw [linkTarget?, linkTarget?, hstart, hstart]

/-- The places that links have led to so far are anchored: the way may go on from any of them. -/
def AnchoredPlaces (known : List (Path × Option Path)) : Prop :=
  ∀ link there, known.lookup link = some (some there) → there.IsAnchored

theorem AnchoredPlaces.cons {known : List (Path × Option Path)} (h : AnchoredPlaces known) (link : Path)
    {place : Option Path} (hplace : ∀ there, place = some there → there.IsAnchored) :
    AnchoredPlaces ((link, place) :: known) := by
  intro other there hlookup
  rw [List.lookup_cons] at hlookup
  split at hlookup
  · exact hplace there (Option.some.inj hlookup)
  · exact h other there hlookup

theorem isAnchored_startOf {here : Path} (h : here.IsAnchored) (rooted : Bool) :
    (startOf here rooted).IsAnchored := by
  cases rooted with
  | false => exact h
  | true => simp [startOf, Path.IsAnchored]

section Settle

variable {cwd : Location} {unmet : Nat} {known : List (Path × Option Path)} {here p : Path}
  {steps : List Step}

/-- The way along an anchored path ends at an anchored path. -/
theorem isAnchored_of_settle (hhere : here.IsAnchored) (hknown : AnchoredPlaces known)
    (h : t.settle cwd unmet known here steps = .ok p) : p.IsAnchored := by
  fun_induction settle t cwd unmet known here steps with
  | case1 => exact Except.ok.inj h ▸ hhere
  | case2 unmet known here link steps ih =>
      exact ih hhere (hknown.cons link fun there hthere => Option.some.inj hthere ▸ hhere) h
  | case3 unmet known here s steps hskip ih => exact ih hhere hknown h
  | case4 unmet known here steps hskip ih => exact ih (isAnchored_up hhere) hknown h
  | case5 | case10 => cases h
  | case6 unmet known here s steps hskip hup hnul next hlink ih => exact ih hhere hknown h
  | case7 unmet known here s steps hskip hup hnul next target hlink there hthere ih =>
      exact ih (hknown next there hthere) hknown h
  | case8 | case9 => exact Except.ok.inj h ▸ isAnchored_asWritten (by exact hhere) _
  | case11 known here s steps hskip hup hnul next target hlink hthere unmet hdeep ih =>
      exact ih (isAnchored_startOf hhere _) (hknown.cons next fun there hthere => by cases hthere) h

/-- **Following the links on an anchored path** does not ask for the working folder. -/
theorem settle_eq (other : Location) (h : here.IsAnchored) (hknown : AnchoredPlaces known) :
    t.settle cwd unmet known here steps = t.settle other unmet known here steps := by
  -- Both runs ask for the same links, and so take the same steps.
  have hlinks : ∀ {here : Path} {s : String}, here.IsAnchored →
      t.linkTarget? other (here.child s) = t.linkTarget? cwd (here.child s) :=
    fun {here s} h => linkTarget?_eq (p := here.child s) h other cwd
  fun_induction settle t cwd unmet known here steps with
  | case1 => rw [settle]
  | case2 unmet known here link steps ih =>
      rw [settle, ih h (hknown.cons link fun there hthere => Option.some.inj hthere ▸ h)]
  | case3 unmet known here s steps hskip ih => rw [settle, if_pos hskip, ih h hknown]
  | case4 unmet known here steps hskip ih =>
      rw [settle, if_neg hskip, if_pos rfl, ih (isAnchored_up h) hknown]
  | case5 unmet known here s steps hskip hup hnul =>
      rw [settle, if_neg hskip, if_neg hup, if_pos hnul]
  | case6 unmet known here s steps hskip hup hnul next hlink ih =>
      subst next
      simp only [settle, hskip, hup, hnul, hlinks h, hlink, if_false, Bool.false_eq_true]
      exact ih h hknown
  | case7 unmet known here s steps hskip hup hnul next target hlink there hthere ih =>
      subst next
      simp only [settle, hskip, hup, hnul, hlinks h, hlink, hthere, if_false, Bool.false_eq_true]
      exact ih (hknown _ _ hthere) hknown
  | case8 unmet known here s steps hskip hup hnul next target hlink hthere =>
      subst next
      simp only [settle, hskip, hup, hnul, hlinks h, hlink, hthere, if_false, Bool.false_eq_true]
  | case9 known here s steps hskip hup hnul next target hlink hthere =>
      subst next
      simp only [settle, hskip, hup, hnul, hlinks h, hlink, hthere, if_false, Bool.false_eq_true]
  | case10 known here s steps hskip hup hnul next target hlink hthere unmet hdeep =>
      subst next
      simp only [settle, hskip, hup, hnul, hlinks h, hlink, hthere, hdeep, if_false, if_true,
        Bool.false_eq_true]
  | case11 known here s steps hskip hup hnul next target hlink hthere unmet hdeep ih =>
      subst next
      simp only [settle, hskip, hup, hnul, hlinks h, hlink, hthere, hdeep, if_false, Bool.false_eq_true]
      exact ih (isAnchored_startOf h _) (hknown.cons _ fun there hthere => by cases hthere)

end Settle

/-- **The real place of an anchored path** does not depend on the working folder. -/
theorem realPath_eq {p : Path} (h : p.IsAnchored) (cwd other : Location) :
    t.realPath cwd p = t.realPath other p := by
  have hstart : (startOf ⟨.relative, []⟩ (p.anchor ≠ .relative)).IsAnchored := by
    have hrooted : decide (p.anchor ≠ .relative) = true := decide_eq_true h
    rw [hrooted]
    simp [startOf, Path.IsAnchored]
  have hknown : AnchoredPlaces [] := by simp [AnchoredPlaces]
  have hsettled : t.settled cwd p = t.settled other p := settle_eq other hstart hknown
  have hanchored : ∀ there, t.settled cwd p = .ok there → there.IsAnchored :=
    fun there => isAnchored_of_settle hstart hknown
  unfold realPath
  rw [← hsettled]
  cases hcase : t.settled cwd p with
  | error fault => rfl
  | ok there =>
      rw [ok_bind, ok_bind, (hanchored there hcase).fileTree_absolute_eq cwd other]

end FileTree

/-! ### Settings -/

namespace Settings

variable {w : World} {file : Path}

/-- A settings file that is found has an absolute path. -/
theorem isAnchored_of_find {start : Path} (h : find w start = .ok (some file)) : file.IsAnchored := by
  obtain ⟨⟨here, before, rest, -, hsplit, -⟩, -⟩ := find_eq_some_iff.mp h
  have hmem : file ∈ candidates here := hsplit ▸ List.mem_append_right _ List.mem_cons_self
  obtain ⟨l, -, hname⟩ := List.mem_flatMap.mp hmem
  obtain ⟨name, -, rfl⟩ := List.mem_map.mp hname
  simp [Path.IsAnchored, Path.ofLocation]

theorem load_movedTo (cwd : Location) (h : file.IsAnchored) :
    load (w.movedTo cwd) file = load w file := by
  have hread : readTable (w.movedTo cwd) file = readTable w file := by
    rw [readTable, readTable, World.movedTo_tree, h.contents_eq w.tree _ w.cwd]
  unfold load
  rw [hread, World.movedTo_tree, FileTree.realPath_eq h (w.movedTo cwd).cwd w.cwd]

/-- The entries of a search path that was loaded start at the root. -/
theorem isAnchored_of_load {s : Settings} {entries : List String} (h : load w file = .ok s)
    (hentries : s.searchPath = some entries) :
    ∀ entry ∈ entries, (Path.ofString entry).IsAnchored := by
  obtain ⟨reading, -, h⟩ := bind_eq_ok_iff.mp h
  cases reading with
  | unreadable detail => cases h
  | table t =>
      obtain ⟨sub, -, h⟩ := bind_eq_ok_iff.mp h
      split at h
      · cases h
      · cases h
      · split at h
        · next hnone =>
            obtain rfl := Except.ok.inj h
            rw [hnone] at hentries
            cases hentries
        · next written _ =>
            obtain ⟨here, -, h⟩ := bind_eq_ok_iff.mp h
            obtain rfl := Except.ok.inj h
            obtain rfl : resolveEntries here.dropLast written = entries := Option.some.inj hentries
            intro entry hentry
            obtain ⟨text, -, rfl⟩ := List.mem_map.mp hentry
            have hbase : (Path.ofLocation here.dropLast).IsAnchored := by
              simp [Path.IsAnchored, Path.ofLocation]
            exact (hbase.join _).ofString_toString

end Settings

/-! ### Search paths of a settings file -/

/-- The options have these entries for a search path, and all of them start at the root. -/
structure Options.HasAnchoredPath (o : Options) (entries : List String) : Prop where
  searchPath : o.searchPath = some (entries.map some)
  anchored : ∀ entry ∈ entries, (Path.ofString entry).IsAnchored

namespace Options.HasAnchoredPath

variable {w : World} {o : Options} {entries : List String}

theorem lookup_eq (h : o.HasAnchoredPath entries) :
    Program.lookup w o = SearchPath.resolve (entries.map Path.ofString) w := by
  have hvalues : (entries.map some).mapM id = some entries :=
    calc (entries.map some).mapM id = entries.mapM fun entry => pure (id entry) := List.mapM_map
      _ = some (entries.map id) := List.mapM_pure
      _ = some entries := by rw [List.map_id]
  have hpath : Program.searchPath w o = .ok (entries.map Path.ofString) := by
    rw [Program.searchPath, h.searchPath]
    dsimp only
    rw [hvalues]
  funext root
  simp only [Program.lookup, hpath]

theorem lookup_movedTo (h : o.HasAnchoredPath entries) (cwd : Location) :
    Program.lookup (w.movedTo cwd) o = Program.lookup w o := by
  rw [h.lookup_eq, h.lookup_eq]
  refine SearchPath.resolve_movedTo cwd fun path hpath => ?_
  obtain ⟨entry, hentry, rfl⟩ := List.mem_map.mp hpath
  exact h.anchored entry hentry

theorem lookup_yields (h : o.HasAnchoredPath entries) : (Program.lookup w o).Yields Path.IsAnchored := by
  rw [h.lookup_eq]
  refine SearchPath.resolve_yields (fun path hpath => ?_) fun path hpath names _ => ?_
  all_goals
    obtain ⟨entry, hentry, rfl⟩ := List.mem_map.mp hpath
    exact h.anchored entry hentry

theorem lookup_yields_isRooted (h : o.HasAnchoredPath entries)
    (hslashes : ∀ entry ∈ entries, (Path.ofString entry).anchor ≠ .doubleRoot) :
    (Program.lookup w o).Yields Path.IsRooted := by
  have hroot : ∀ entry ∈ entries, (Path.ofString entry).anchor = .root := by
    intro entry hentry
    cases hanchor : (Path.ofString entry).anchor with
    | relative => exact absurd hanchor (h.anchored entry hentry)
    | root => rfl
    | doubleRoot => exact absurd hanchor (hslashes entry hentry)
  rw [h.lookup_eq]
  refine SearchPath.resolve_yields (fun path hpath => ?_) fun path hpath names hnames => ?_
  all_goals obtain ⟨entry, hentry, rfl⟩ := List.mem_map.mp hpath
  · exact ⟨hroot entry hentry, Path.proper_ofString _⟩
  · exact ⟨hroot entry hentry, List.forall_mem_append.mpr ⟨Path.proper_ofString _, hnames⟩⟩

end Options.HasAnchoredPath

namespace Program

open CommandLine

variable {w : World} {o : Options} {entries : List String}

/-- Listings find the places that the lookup finds. -/
theorem yields_listingLookup {P : Path → Prop} (h : (lookup w o).Yields P) : (listingLookup w o).Yields P := by
  intro root places hplaces
  rw [listingLookup, Trace.outcome_bind] at hplaces
  obtain ⟨found, hfound, hplaces⟩ := bind_eq_ok_iff.mp hplaces
  split at hplaces
  · cases hplaces
  · obtain rfl := Except.ok.inj hplaces
    exact h root _ hfound

theorem listingSetup_movedTo (h : o.HasAnchoredPath entries) (cwd : Location) :
    listingSetup (w.movedTo cwd) o = listingSetup w o := by
  have hlookup : listingLookup (w.movedTo cwd) o = listingLookup w o := by
    funext root
    rw [listingLookup, listingLookup, h.lookup_movedTo]
  rw [listingSetup, listingSetup, hlookup]

/-! ### Runs -/

theorem carryOut_movedTo {cwd : Location} (hproduce : produce (w.movedTo cwd) o = produce w o)
    (houtput : o.output = some "-") : carryOut (w.movedTo cwd) o = carryOut w o := by
  have hdeliver : ∀ text, deliver (w.movedTo cwd) o text = deliver w o text := by
    intro text
    simp [deliver, houtput]
  simp only [carryOut, hproduce, hdeliver, World.movedTo_tree]

/-- What is read for a text is the same if the locators are. -/
theorem render_movedTo (h : o.HasAnchoredPath entries) (cwd : Location) {ls : List Locator}
    (hls : o.cat = true → ∀ l ∈ ls, l.IsAnchored) : render (w.movedTo cwd) o ls = render w o ls := by
  unfold render
  split
  · next hcat =>
      have hsetup : readSetup (w.movedTo cwd) o = readSetup w o := by
        rw [readSetup, readSetup, h.lookup_movedTo]
      have hread : ls.mapM (Locator.read (w.movedTo cwd) (readSetup w o)) =
          ls.mapM (Locator.read w (readSetup w o)) :=
        mapM_congr fun l hl =>
          Locator.read_movedTo cwd h.lookup_yields (hls hcat l hl)
      rw [hsetup, hread]
  · rfl

/-- **The text for some expressions** that list no files of their own. -/
theorem produce_movedTo (h : o.HasAnchoredPath entries) (cwd : Location)
    (horigin : ∀ text ∈ o.expressions, ∀ e, Expression.parse text = some e →
      e.origin ≠ some Source.fileOrigin)
    (hslashes : o.cat = true → ∀ entry ∈ entries, (Path.ofString entry).anchor ≠ .doubleRoot) :
    produce (w.movedTo cwd) o = produce w o := by
  have hexpand : expand (w.movedTo cwd) (listingSetup w o) o.expressions =
      expand w (listingSetup w o) o.expressions :=
    expand_movedTo cwd (yields_listingLookup h.lookup_yields) horigin
  rw [produce, produce, listingSetup_movedTo h, hexpand]
  refine Trace.bind_congr fun ls hls => render_movedTo h cwd fun hcat => ?_
  exact isAnchored_of_mem_expand
    (yields_listingLookup (h.lookup_yields_isRooted (hslashes hcat))) horigin hls

/-- The settings of a run are those of a file. -/
def UsesSettings (w : World) (file : Path) : Prop :=
  ∃ here, w.workingPath = .ok here ∧ Settings.find w here = .ok (some file)

/-- What runs on all folders have in common that find the same settings file: the file gives the search
path, no expression lists files of its own, and the text goes to the standard output. -/
structure StaysInProject (w : World) (file : Path) (o : Options) (given : List SettingName) : Prop where
  searchPath : o.searchPath = none
  output : o.output = some "-"
  settings : ∀ s, Settings.load w file = .ok s → s.searchPath ≠ none
  origins : ∀ s, Settings.load w file = .ok s → ∀ text ∈ (o.merge s given).expressions, ∀ e,
    Expression.parse text = some e → e.origin ≠ some Source.fileOrigin

section Runs

variable {file : Path} {args : List String} {given : List SettingName}

theorem UsesSettings.isAnchored (h : UsesSettings w file) : file.IsAnchored := by
  obtain ⟨here, -, hfind⟩ := h
  exact Settings.isAnchored_of_find hfind

theorem UsesSettings.configure_eq (h : UsesSettings w file) :
    configure w o given = (o.merge · given) <$> Settings.load w file := by
  obtain ⟨here, hhere, hfind⟩ := h
  rw [configure, hhere]
  show ((Settings.find w here).mapError SettingsFailure.fault >>= _) = _
  rw [hfind]
  rfl

/-- A command line without a search path leaves it to the settings file. -/
theorem searchPath_not_mem_given (h : parse args = .run o given) (hnone : o.searchPath = none) :
    .searchPath ∉ given := by
  obtain ⟨s, hscan, ⟨-, herror, -, rfl⟩, rfl⟩ := parse_eq_run_iff.mp h
  rw [mem_givenSettings_iff hscan herror rfl]
  rintro ⟨u, hu, hsetting⟩
  have hname : u.name = .searchPath := by
    cases hcase : u.name <;> rw [hcase] at hsetting <;> cases hsetting
  have hvalue : u.value ∈ Options.valuesOf .searchPath s.uses :=
    List.mem_map_of_mem (List.mem_filter.mpr ⟨hu, by simp [hname]⟩)
  have hpath : Options.valuesOf .searchPath s.uses = [] := by
    by_contra hne
    simp [Options.ofUses, Options.taking, hne] at hnone
  rw [hpath] at hvalue
  cases hvalue

theorem hasAnchoredPath_merge {s : Settings} (hparse : parse args = .run o given)
    (hnone : o.searchPath = none) (hload : Settings.load w file = .ok s)
    (hentries : s.searchPath = some entries) : (o.merge s given).HasAnchoredPath entries where
  searchPath := by
    have hgiven := searchPath_not_mem_given hparse hnone
    simp [Options.merge, inForce, hgiven, hentries]
  anchored := Settings.isAnchored_of_load hload hentries

/-- Options that pass the checks are those with the settings of the file. -/
theorem UsesSettings.exists_of_checked {o' : Options} (h : UsesSettings w file)
    (hchecked : checked w o given = .ok (.ok o')) :
    ∃ s, Settings.load w file = .ok s ∧ o' = o.merge s given := by
  rw [checked, h.configure_eq] at hchecked
  cases hload : Settings.load w file with
  | error failure =>
      rw [hload] at hchecked
      cases failure <;> cases hchecked
  | ok s =>
      rw [hload] at hchecked
      dsimp only [Functor.map, Except.map] at hchecked
      split at hchecked
      · cases hchecked
      · split at hchecked
        · cases hchecked
          exact ⟨s, rfl, rfl⟩
        · cases hchecked

/-- **A project means the same in all its folders.** Two runs with the same command line find the same
settings file, and that gives the search path. If no expression in force lists files of its own, and the
text goes to the standard output, then both runs come to the same, step by step. Only for the contents of
the resources must no entry of the search path start with two slashes. -/
theorem run_movedTo (w : World) (cwd : Location) (file : Path) (args : List String)
    (hsettings : UsesSettings w file) (hmoved : UsesSettings (w.movedTo cwd) file)
    (hproject : ∀ o given, parse args = .run o given → StaysInProject w file o given)
    (hslashes : ∀ o given s entries, parse args = .run o given → o.cat = true →
      Settings.load w file = .ok s → s.searchPath = some entries →
      ∀ entry ∈ entries, (Path.ofString entry).anchor ≠ .doubleRoot) :
    run (w.movedTo cwd) args = run w args := by
  have hstill : ∀ ending, Outcome.still (w.movedTo cwd) ending = Outcome.still w ending := fun _ => rfl
  unfold run
  cases hparse : parse args with
  | wrong error => exact hstill _
  | help => exact hstill _
  | run o given =>
      have hstays := hproject o given hparse
      have hchecked : checked (w.movedTo cwd) o given = checked w o given := by
        rw [checked, checked, hmoved.configure_eq, hsettings.configure_eq,
          Settings.load_movedTo cwd hsettings.isAnchored]
      dsimp only
      rw [hchecked]
      split
      · exact hstill _
      · cases hcase : checked w o given with
        | error fault => exact hstill _
        | ok result =>
            cases result with
            | error complaint => exact hstill _
            | ok o' =>
                obtain ⟨s, hload, rfl⟩ := hsettings.exists_of_checked hcase
                obtain ⟨entries, hentries⟩ := Option.ne_none_iff_exists'.mp (hstays.settings s hload)
                have hpath := hasAnchoredPath_merge hparse hstays.searchPath hload hentries
                have hproduce : produce (w.movedTo cwd) (o.merge s given) = produce w (o.merge s given) :=
                  produce_movedTo hpath cwd (hstays.origins s hload) fun hcat =>
                    hslashes o given s entries hparse hcat hload hentries
                exact carryOut_movedTo hproduce hstays.output

end Runs

/-! ### A project with two folders -/

/-- The settings of the project. -/
def scriptsSettings : String := "search-path = 'd'\nexpressions = 'classpath:*.js'\n"

/-- A world with a settings file at the root, and the folder `d` on its search path. -/
def scriptsProject : World where
  tree := ⟨[([".resglob.toml"], .file scriptsSettings.toUTF8), (["d"], .folder),
    (["d", "x.js"], .file ⟨#[49]⟩), (["p"], .folder)], []⟩
  cwd := []
  defaultPath := []
  web := []

theorem lookUp_scriptsProject (cwd : Location) :
    scriptsProject.tree.lookUp cwd ⟨.root, [".resglob.toml"]⟩ = .ok (.file scriptsSettings.toUTF8) := by
  have hchild : scriptsProject.tree.child? [] ".resglob.toml" = some (.file scriptsSettings.toUTF8) := rfl
  rw [FileTree.lookUp, FileTree.find_of_child rfl rfl (by decide) (by decide) (by decide) hchild (by simp)]
  rfl

theorem counts_scriptsProject (cwd : Location) :
    Settings.Counts (scriptsProject.movedTo cwd) ⟨.root, [".resglob.toml"]⟩ := by
  refine .own ?_ (by decide)
  rw [FileTree.isFile, FileTree.test, World.movedTo_tree, lookUp_scriptsProject]

theorem usesSettings_scriptsProject : UsesSettings scriptsProject ⟨.root, [".resglob.toml"]⟩ := by
  refine ⟨⟨.root, []⟩, rfl, Settings.find_eq_some_iff.mpr ⟨⟨[], [], _, ?_, rfl, by simp⟩, ?_⟩⟩
  · exact FileTree.realPath_of_isThere (.nil _)
  · exact counts_scriptsProject []

/-- The folder `p` has no settings of its own. -/
theorem usesSettings_scriptsProject_movedTo :
    UsesSettings (scriptsProject.movedTo ["p"]) ⟨.root, [".resglob.toml"]⟩ := by
  have hthere : scriptsProject.tree.IsThere ["p"] := (FileTree.IsThere.nil _).child rfl (by decide)
  have hpassed : ∀ name ∈ Settings.fileNames,
      Settings.IsPassedOver (scriptsProject.movedTo ["p"]) (Path.ofLocation ["p", name]) := by
    intro name hname
    have hlacks : ∀ name ∈ Settings.fileNames, (scriptsProject.tree.child? ["p"] name).isNone := by
      decide
    have hbytes : ∀ name ∈ Settings.fileNames,
        (Path.ofLocation (["p"] ++ [name])).byteLength < FileTree.maxPathBytes := by
      decide
    exact Settings.isPassedOver_of_lacks (l := ["p"]) hthere hname (hbytes name hname)
      (Option.isNone_iff_eq_none.mp (hlacks name hname))
  refine ⟨⟨.root, ["p"]⟩, rfl, Settings.find_eq_some_iff.mpr
    ⟨⟨["p"], Settings.fileNames.map fun name => Path.ofLocation ["p", name], _, ?_, rfl, ?_⟩, ?_⟩⟩
  · exact FileTree.realPath_of_isThere hthere
  · simpa using hpassed
  · exact counts_scriptsProject ["p"]

theorem load_scriptsProject : Settings.load scriptsProject ⟨.root, [".resglob.toml"]⟩ =
    .ok ⟨some ["classpath:*.js"], some ["/d"], none, none, none⟩ := by
  have htext : Settings.HasText scriptsProject ⟨.root, [".resglob.toml"]⟩ scriptsSettings := by
    refine ⟨scriptsSettings.toUTF8, ?_, by decide +kernel⟩
    rw [FileTree.contents, lookUp_scriptsProject]
  have hread : ((Toml.parse scriptsSettings).toOption.bind fun table => (Settings.ofTable table).toOption) =
      some ⟨some ["classpath:*.js"], some ["d"], none, none, none⟩ := by
    decide +kernel
  obtain ⟨table, hparse, hfields⟩ := Option.bind_eq_some_iff.mp hread
  have htable : Settings.HoldsTable scriptsProject ⟨.root, [".resglob.toml"]⟩ table :=
    .table htext (toOption_eq_some_iff.mp hparse)
  have hplace : scriptsProject.tree.realPath scriptsProject.cwd ⟨.root, [".resglob.toml"]⟩ =
      .ok [".resglob.toml"] := by
    have hend : scriptsProject.tree.descend FileTree.maxLinks [] [".resglob.toml"] =
        .ok ⟨[".resglob.toml"], FileTree.maxLinks⟩ := by
      have hchild : scriptsProject.tree.child? [] ".resglob.toml" = some (.file scriptsSettings.toUTF8) := rfl
      rw [FileTree.descend_of_child_eq_some _ _ rfl (by decide) hchild (by simp), FileTree.descend]
      rfl
    exact FileTree.realPath_of_descend (p := ⟨.root, [".resglob.toml"]⟩) (.nil _) hend (.inl rfl)
  rw [Settings.load_of_settingsTable htable rfl, toOption_eq_some_iff.mp hfields]
  dsimp only
  rw [hplace]
  rfl

/-- The contents of the scripts are printed at the root and in a folder alike. -/
theorem run_scriptsProject_movedTo :
    UsesSettings scriptsProject ⟨.root, [".resglob.toml"]⟩ ∧
      UsesSettings (scriptsProject.movedTo ["p"]) ⟨.root, [".resglob.toml"]⟩ ∧
      run (scriptsProject.movedTo ["p"]) ["--cat"] = run scriptsProject ["--cat"] := by
  have hparse : parse ["--cat"] = .run { Options.standard with cat := true } [] := by decide +kernel
  refine ⟨usesSettings_scriptsProject, usesSettings_scriptsProject_movedTo,
    run_movedTo scriptsProject ["p"] _ ["--cat"] usesSettings_scriptsProject
      usesSettings_scriptsProject_movedTo ?_ ?_⟩
  · intro o given h
    obtain ⟨rfl, rfl⟩ := Request.run.inj (hparse.symm.trans h)
    refine ⟨rfl, rfl, fun s hload => ?_, fun s hload text htext e he => ?_⟩
    · obtain rfl := Except.ok.inj (load_scriptsProject.symm.trans hload)
      simp
    · obtain rfl := Except.ok.inj (load_scriptsProject.symm.trans hload)
      obtain rfl := List.mem_singleton.mp htext
      obtain rfl := Option.some.inj ((by rfl : Expression.parse "classpath:*.js" =
        some ⟨"classpath:*.js", false, some "classpath", [], ["*.js"], false⟩).symm.trans he)
      decide
  · intro o given s entries h _ hload hentries entry hentry
    obtain rfl := Except.ok.inj (load_scriptsProject.symm.trans hload)
    obtain rfl := Option.some.inj hentries
    obtain rfl := List.mem_singleton.mp hentry
    decide

end Program

end AntResources
