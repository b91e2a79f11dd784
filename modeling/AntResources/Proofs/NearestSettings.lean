import AntResources.Proofs.SettingsLoading

/-!
# AntResources.Proofs.NearestSettings

**The nearest settings file is found.** The search goes from the folder that it starts from up to the root, and
in each folder by the order of the names. The first candidate with settings is found, whatever comes after it,
and nothing is found if there is none (`Settings.find_nearest`).

The search needs only what a look-up of the candidates up to the one that it finds comes to. So a change of
anything else does not matter, unless one of them is a link to what is changed
(`Settings.find_changes_behind_link`).
-/

namespace AntResources

open Toml (Table Value)

namespace Settings

variable {w w' : World} {start p : Path} {here l place : Location} {name other : String}

/-! ### The candidates in order -/

theorem mem_upwards : l ∈ upwards here ↔ l <+: here := by
  rw [upwards, List.mem_map]
  constructor
  · rintro ⟨i, -, rfl⟩
    exact List.take_prefix _ _
  · intro h
    have hlength := h.length_le
    refine ⟨here.length - l.length, List.mem_range.mpr (by omega), ?_⟩
    rw [Nat.sub_sub_self hlength]
    exact (List.prefix_iff_eq_take.mp h).symm

/-- Each folder lies above all that come before it. -/
theorem pairwise_upwards (here : Location) :
    (upwards here).Pairwise fun near far => far <+: near ∧ far ≠ near := by
  rw [upwards, List.pairwise_map]
  refine List.pairwise_lt_range.imp_of_mem fun {i j} _ hj hlt => ⟨?_, fun hsame => ?_⟩
  · exact List.take_prefix_take_left (by omega)
  · have hlength := congrArg List.length hsame
    rw [List.length_take, List.length_take] at hlength
    have hj := List.mem_range.mp hj
    omega

/-- Before a folder come those between it and the start. -/
theorem mem_near_iff {near far : List Location} (h : upwards here = near ++ l :: far) :
    place ∈ near ↔ place <+: here ∧ l <+: place ∧ l ≠ place := by
  have hpairwise := pairwise_upwards here
  rw [h, List.pairwise_append, List.pairwise_cons] at hpairwise
  obtain ⟨-, ⟨hfar, -⟩, hnear⟩ := hpairwise
  constructor
  · intro hplace
    have hhere : place ∈ upwards here := h ▸ List.mem_append_left _ hplace
    exact ⟨mem_upwards.mp hhere, hnear place hplace l List.mem_cons_self⟩
  · rintro ⟨hhere, hupper, hne⟩
    rcases List.mem_append.mp (h ▸ mem_upwards.mpr hhere) with hplace | hplace
    · exact hplace
    · -- From the folder on they lie above it.
      rcases List.mem_cons.mp hplace with rfl | hplace
      · exact absurd rfl hne
      · exact absurd (hupper.eq_of_length_le (hfar place hplace).1.length_le) hne

theorem mem_candidates_iff : p ∈ candidates here ↔
    ∃ l name, l <+: here ∧ name ∈ fileNames ∧ p = candidate l name := by
  rw [candidates, List.mem_flatMap]
  constructor
  · intro h
    obtain ⟨l, hl, hp⟩ := h
    obtain ⟨name, hname, rfl⟩ := List.mem_map.mp hp
    exact ⟨l, name, mem_upwards.mp hl, hname, rfl⟩
  · intro h
    obtain ⟨l, name, hl, hname, rfl⟩ := h
    exact ⟨l, mem_upwards.mpr hl, List.mem_map_of_mem hname⟩

/-- One candidate comes before another one: it is nearer, or before it in the same folder. -/
inductive Precedes (here : Location) : Location → String → Location → String → Prop where
  | nearer {place l : Location} {other name : String} : place <+: here → l <+: place → l ≠ place →
      other ∈ fileNames → Precedes here place other l name
  | earlier {l : Location} {other name : String} {before after : List String} :
      fileNames = before ++ name :: after → other ∈ before → Precedes here l other l name

theorem Precedes.prefix_and_mem (h : Precedes here place other l name) (hl : l <+: here) :
    place <+: here ∧ other ∈ fileNames := by
  cases h with
  | nearer hplace _ _ hother => exact ⟨hplace, hother⟩
  | earlier hnames hother => exact ⟨hl, hnames ▸ List.mem_append_left _ hother⟩

/-- No name comes twice, so there is one way to cut the names at one of them. -/
theorem not_mem_of_fileNames_eq {before after : List String} (h : fileNames = before ++ name :: after) :
    name ∉ before ∧ name ∉ after := by
  have hnodup : fileNames.Nodup := by decide
  rw [h, List.nodup_append, List.nodup_cons] at hnodup
  exact ⟨fun hin => hnodup.2.2 name hin name List.mem_cons_self rfl, hnodup.2.1.1⟩

theorem Precedes.ne (h : Precedes here place other l name) : ¬ (place = l ∧ other = name) := by
  rintro ⟨rfl, rfl⟩
  cases h with
  | nearer _ _ hne => exact hne rfl
  | earlier hnames hother => exact (not_mem_of_fileNames_eq hnames).1 hother

/-- **The order of the candidates.** -/
theorem exists_candidates_split (hl : l <+: here) (hname : name ∈ fileNames) :
    ∃ before after, candidates here = before ++ candidate l name :: after ∧
      ∀ q ∈ before, ∃ place other, Precedes here place other l name ∧ q = candidate place other := by
  obtain ⟨near, far, hfolders⟩ := List.append_of_mem (mem_upwards.mpr hl)
  obtain ⟨earlier, later, hnames⟩ := List.append_of_mem hname
  refine ⟨near.flatMap (fun place => fileNames.map (candidate place)) ++ earlier.map (candidate l),
    later.map (candidate l) ++ far.flatMap fun place => fileNames.map (candidate place), ?_, fun q hq => ?_⟩
  · have hfiles : fileNames.map (candidate l) =
        earlier.map (candidate l) ++ candidate l name :: later.map (candidate l) := by
      rw [hnames, List.map_append, List.map_cons]
    calc candidates here
      _ = (near ++ l :: far).flatMap fun place => fileNames.map (candidate place) := by
          rw [← hfolders]
          rfl
      _ = _ := by
          rw [List.flatMap_append, List.flatMap_cons, hfiles]
          simp
  · rcases List.mem_append.mp hq with hq | hq
    · obtain ⟨place, hplace, hq⟩ := List.mem_flatMap.mp hq
      obtain ⟨other, hother, rfl⟩ := List.mem_map.mp hq
      obtain ⟨hhere, hupper, hne⟩ := (mem_near_iff hfolders).mp hplace
      exact ⟨place, other, .nearer hhere hupper hne hother, rfl⟩
    · obtain ⟨other, hother, rfl⟩ := List.mem_map.mp hq
      exact ⟨l, other, .earlier hnames hother, rfl⟩

/-- A candidate is found if it counts and all before it are passed over. -/
theorem find_of_precedes (hstart : w.tree.realPath w.cwd start = .ok here) (hl : l <+: here)
    (hname : name ∈ fileNames) (hcounts : Counts w (candidate l name))
    (hpassed : ∀ place other, Precedes here place other l name → IsPassedOver w (candidate place other)) :
    find w start = .ok (some (candidate l name)) := by
  obtain ⟨before, after, hsplit, hbefore⟩ := exists_candidates_split hl hname
  refine find_eq_some_iff.mpr ⟨⟨here, before, after, hstart, hsplit, fun q hq => ?_⟩, hcounts⟩
  obtain ⟨place, other, hprecedes, rfl⟩ := hbefore q hq
  exact hpassed place other hprecedes

/-! ### Settings files -/

/-- The path leads to a settings file: to one for settings alone, or to a project file with an entry for them
under `tool`. -/
inductive HasSettings (w : World) (p : Path) : Prop where
  | own : w.tree.isFile w.cwd p = .ok true → p.name ≠ projectFile → HasSettings w p
  | project {t tool : Table} {v : Value} : w.tree.isFile w.cwd p = .ok true → p.name = projectFile →
      HoldsTable w p t → t.get? "tool" = some (.table tool) → tool.get? sectionName = some v →
      HasSettings w p

/-- The project file is text: either no document at all, or one with a table under `tool`, if there is anything
under it. -/
def IsProper (w : World) (p : Path) : Prop :=
  ∃ text, HasText w p text ∧ (Toml.parse text = .error .malformed ∨
    ∃ t, Toml.parse text = .ok t ∧ (t.get? "tool" = none ∨ ∃ tool : Table, t.get? "tool" = some (.table tool)))

/-- Nothing keeps the search from going on: the candidates can be looked up, and the project files among them
are proper. -/
structure AllowsSearch (w : World) (here : Location) : Prop where
  answers : ∀ l name fault, l <+: here → name ∈ fileNames → ¬ w.Refuses (candidate l name) fault
  proper : ∀ l, l <+: here → w.tree.isFile w.cwd (candidate l projectFile) = .ok true →
    IsProper w (candidate l projectFile)

/-- A document whose project file is proper has a table under `tool`, if anything. -/
theorem IsProper.isTable {t : Table} {v : Value} (h : IsProper w p) (htable : HoldsTable w p t)
    (htool : t.get? "tool" = some v) : IsTable v := by
  obtain ⟨text, htext, hparse | ⟨t', hparse, hnone | ⟨tool, hvalue⟩⟩⟩ := h
  · cases (Reading.notToml htext hparse).eq.symm.trans htable.eq
  · cases (Reading.table htext hparse).eq.symm.trans htable.eq
    cases hnone.symm.trans htool
  · cases (Reading.table htext hparse).eq.symm.trans htable.eq
    cases hvalue.symm.trans htool
    exact ⟨tool, rfl⟩

theorem IsProper.not_documentFault {fault : Fault} (h : IsProper w p) : ¬ DocumentFault w p fault := by
  intro hfault
  obtain ⟨text, htext, hparse | ⟨t, hparse, -⟩⟩ := h
  · cases (Reading.notToml htext hparse).eq.symm.trans hfault.eq
  · cases (Reading.table htext hparse).eq.symm.trans hfault.eq

section Allowed

variable (h : AllowsSearch w here)

include h

/-- What counts are the settings files. -/
theorem AllowsSearch.counts_iff (hl : l <+: here) :
    Counts w (candidate l name) ↔ HasSettings w (candidate l name) := by
  constructor
  · intro hcounts
    cases hcounts with
    | own hfile hname => exact .own hfile hname
    | project hfile hname htable htool hmentions =>
        obtain rfl : name = projectFile := by simpa using hname
        obtain ⟨tool, rfl⟩ := (h.proper l hl hfile).isTable htable htool
        cases hmentions with
        | key hv => exact .project hfile hname htable htool hv
  · intro hsettings
    cases hsettings with
    | own hfile hname => exact .own hfile hname
    | project hfile hname htable htool hv => exact .project hfile hname htable htool (.key hv)

theorem AllowsSearch.not_candidateFault {fault : Fault} (hl : l <+: here) (hname : name ∈ fileNames) :
    ¬ CandidateFault w (candidate l name) fault := by
  intro hfault
  cases hfault with
  | refused hrefused => exact h.answers l name fault hl hname hrefused
  | document hfile hproject hfault =>
      obtain rfl : name = projectFile := by simpa using hproject
      exact (h.proper l hl hfile).not_documentFault hfault
  | notAContainer hfile hproject htable htool hnone =>
      obtain rfl : name = projectFile := by simpa using hproject
      obtain ⟨tool, rfl⟩ := (h.proper l hl hfile).isTable htable htool
      cases hnone

/-- All else is passed over. -/
theorem AllowsSearch.isPassedOver_iff (hl : l <+: here) (hname : name ∈ fileNames) :
    IsPassedOver w (candidate l name) ↔ ¬ HasSettings w (candidate l name) := by
  rw [IsPassedOver, h.counts_iff hl]
  exact and_iff_left fun fault => h.not_candidateFault hl hname

end Allowed

/-! ### The nearest settings file -/

/-- The file holds settings, and no candidate before it does. -/
structure IsNearest (w : World) (here l : Location) (name : String) : Prop where
  upward : l <+: here
  named : name ∈ fileNames
  found : HasSettings w (candidate l name)
  first : ∀ place other, Precedes here place other l name → ¬ HasSettings w (candidate place other)

/-- Of some settings files one is the nearest. -/
theorem exists_isNearest (hl : l <+: here) (hname : name ∈ fileNames)
    (hsettings : HasSettings w (candidate l name)) : ∃ l name, IsNearest w here l name := by
  obtain ⟨near, place, far, hfolders, hnear, hplace⟩ :=
    exists_first (P := fun l => ∃ name ∈ fileNames, HasSettings w (candidate l name))
      ⟨l, mem_upwards.mpr hl, name, hname, hsettings⟩
  obtain ⟨earlier, other, later, hnames, hearlier, hother⟩ := exists_first hplace
  refine ⟨place, other, mem_upwards.mp (by simp [hfolders]), by simp [hnames], hother,
    fun nearer third hbefore hthird => ?_⟩
  cases hbefore with
  | nearer hhere hupper hne hmem =>
      exact hnear nearer ((mem_near_iff hfolders).mpr ⟨hhere, hupper, hne⟩) ⟨third, hmem, hthird⟩
  | earlier hsplit hmem =>
      obtain ⟨hbefore, hafter⟩ := not_mem_of_fileNames_eq hnames
      obtain ⟨rfl, -⟩ := (List.append_cons_inj_of_notMem hbefore hafter).mp (hnames.symm.trans hsplit)
      exact hearlier third hmem hthird

section Found

variable (h : AllowsSearch w here) (hstart : w.tree.realPath w.cwd start = .ok here)

include h hstart

theorem AllowsSearch.find_ne_error {fault : Fault} : find w start ≠ .error fault := by
  intro hfault
  rcases find_eq_error_iff.mp hfault with hplace | ⟨p, ⟨there, before, rest, hthere, hsplit, -⟩, hcandidate⟩
  · cases hstart.symm.trans hplace
  · obtain rfl := Except.ok.inj (hstart.symm.trans hthere)
    obtain ⟨l, name, hl, hname, rfl⟩ := mem_candidates_iff.mp (hsplit ▸ by simp : p ∈ candidates here)
    exact h.not_candidateFault hl hname hcandidate

/-- **The nearest settings file is found.** -/
theorem AllowsSearch.find_of_isNearest (hnearest : IsNearest w here l name) :
    find w start = .ok (some (candidate l name)) := by
  refine find_of_precedes hstart hnearest.upward hnearest.named
    ((h.counts_iff hnearest.upward).mpr hnearest.found) fun place other hprecedes => ?_
  obtain ⟨hplace, hother⟩ := hprecedes.prefix_and_mem hnearest.upward
  exact (h.isPassedOver_iff hplace hother).mpr (hnearest.first place other hprecedes)

theorem AllowsSearch.find_eq_none_iff : find w start = .ok none ↔
    ∀ l name, l <+: here → name ∈ fileNames → ¬ HasSettings w (candidate l name) := by
  constructor
  · intro hnone l name hl hname hsettings
    obtain ⟨l, name, hnearest⟩ := exists_isNearest hl hname hsettings
    cases hnone.symm.trans (h.find_of_isNearest hstart hnearest)
  · intro hnone
    have hpassed : ∀ q ∈ candidates here, IsPassedOver w q := by
      intro q hq
      obtain ⟨l, name, hl, hname, rfl⟩ := mem_candidates_iff.mp hq
      exact (h.isPassedOver_iff hl hname).mpr (hnone l name hl hname)
    have hend := @firstFile_append w (candidates here) [] hpassed
    rwa [List.append_nil, ← find_of_realPath hstart] at hend

theorem AllowsSearch.find_eq_some_iff_isNearest : find w start = .ok (some p) ↔
    ∃ l name, p = candidate l name ∧ IsNearest w here l name := by
  constructor
  · intro hp
    have hsome : ∃ l name, l <+: here ∧ name ∈ fileNames ∧ HasSettings w (candidate l name) := by
      by_contra hnone
      have hnone := (h.find_eq_none_iff hstart).mpr fun l name hl hname hsettings =>
        hnone ⟨l, name, hl, hname, hsettings⟩
      cases hnone.symm.trans hp
    obtain ⟨l, name, hl, hname, hsettings⟩ := hsome
    obtain ⟨l, name, hnearest⟩ := exists_isNearest hl hname hsettings
    have hfound := h.find_of_isNearest hstart hnearest
    exact ⟨l, name, Option.some.inj (Except.ok.inj (hp.symm.trans hfound)), hnearest⟩
  · rintro ⟨l, name, rfl, hnearest⟩
    exact h.find_of_isNearest hstart hnearest

end Found

/-! ### Changes beyond the nearest settings file -/

/-- The trees agree on all candidates up to one of them, and none of these is a link. -/
structure KeepsUpTo (t t' : FileTree) (here l : Location) (name : String) : Prop where
  there : t.IsThere here
  there' : t'.IsThere here
  same : ∀ place other, Precedes here place other l name ∨ place = l ∧ other = name →
    t'.child? place other = t.child? place other ∧ ∀ target, t.child? place other ≠ some (.link target)

/-- Whether a path leads to a settings file depends on what it leads to. -/
theorem isSettingsFile_congr (h : w'.tree.lookUp w'.cwd p = w.tree.lookUp w.cwd p) :
    isSettingsFile w' p = isSettingsFile w p := by
  have hfile : w'.tree.isFile w'.cwd p = w.tree.isFile w.cwd p := by
    rw [FileTree.isFile, FileTree.isFile, FileTree.test, FileTree.test, h]
  have hcontents : w'.tree.contents w'.cwd p = w.tree.contents w.cwd p := by
    rw [FileTree.contents, FileTree.contents, h]
  rw [isSettingsFile, isSettingsFile, hasSection, hasSection, readTable, readTable, hfile, hcontents]

theorem KeepsUpTo.isSettingsFile_eq (h : KeepsUpTo w.tree w'.tree here l name) (hplace : place <+: here)
    (hother : other ∈ fileNames) (hupTo : Precedes here place other l name ∨ place = l ∧ other = name) :
    isSettingsFile w' (candidate place other) = isSettingsFile w (candidate place other) := by
  obtain ⟨hsame, hlink⟩ := h.same place other hupTo
  obtain ⟨below, rfl⟩ := hplace
  refine isSettingsFile_congr ?_
  rw [lookUp_candidate h.there'.upper hother (hsame ▸ hlink), lookUp_candidate h.there.upper hother hlink,
    hsame]

/-- **Changes beyond the nearest settings file** do not matter. -/
theorem AllowsSearch.find_of_keepsUpTo (h : AllowsSearch w here) (hnearest : IsNearest w here l name)
    (hstart : w'.tree.realPath w'.cwd start = .ok here) (hkeeps : KeepsUpTo w.tree w'.tree here l name) :
    find w' start = .ok (some (candidate l name)) := by
  refine find_of_precedes hstart hnearest.upward hnearest.named ?_ fun place other hprecedes => ?_
  · rw [← isSettingsFile_eq_true_iff,
      hkeeps.isSettingsFile_eq hnearest.upward hnearest.named (.inr ⟨rfl, rfl⟩), isSettingsFile_eq_true_iff]
    exact (h.counts_iff hnearest.upward).mpr hnearest.found
  · obtain ⟨hplace, hother⟩ := hprecedes.prefix_and_mem hnearest.upward
    rw [← isSettingsFile_eq_false_iff, hkeeps.isSettingsFile_eq hplace hother (.inl hprecedes),
      isSettingsFile_eq_false_iff]
    exact (h.isPassedOver_iff hplace hother).mpr (hnearest.first place other hprecedes)

/-- **The search for a settings file.** It fails only where the folder to start from has no real place. That of a
path that leads somewhere is there, if the path meets no link, or it starts at the root and every link is at a path
that can be looked up. From the real place on the nearest settings file is found, or none if there is none up to
the root. Whatever changes beyond the nearest settings file, it is found again, if the start stays where it is and
no candidate up to that file is a link. -/
theorem find_nearest (w : World) (start : Path)
    (hallows : ∀ here, w.tree.realPath w.cwd start = .ok here → AllowsSearch w here) :
    (∀ fault, find w start = .error fault ↔ w.tree.realPath w.cwd start = .error fault) ∧
    (∀ spot, w.tree.IsThere (FileTree.start w.cwd start) →
      w.tree.descend FileTree.maxLinks (FileTree.start w.cwd start) start.parts = .ok spot →
      spot.links = FileTree.maxLinks ∨ start.anchor ≠ .relative ∧ w.tree.HasShortLinks →
      w.tree.realPath w.cwd start = .ok spot.location) ∧
    ∀ here, w.tree.realPath w.cwd start = .ok here →
      (∀ c, find w start = .ok (some c) ↔ ∃ l name, c = candidate l name ∧ IsNearest w here l name) ∧
      (find w start = .ok none ↔
        ∀ l name, l <+: here → name ∈ fileNames → ¬ HasSettings w (candidate l name)) ∧
      ∀ l name, IsNearest w here l name → ∀ w' : World, w'.tree.realPath w'.cwd start = .ok here →
        KeepsUpTo w.tree w'.tree here l name → find w' start = .ok (some (candidate l name)) := by
  refine ⟨fun fault => ⟨fun hfault => ?_, fun hfault => find_eq_error_iff.mpr (.inl hfault)⟩,
    fun spot => FileTree.realPath_of_descend, ?_⟩
  · cases hstart : w.tree.realPath w.cwd start with
    | error other =>
        rw [find, hstart, error_bind] at hfault
        cases hfault
        rfl
    | ok here => exact absurd hfault ((hallows here hstart).find_ne_error hstart)
  · intro here hstart
    have h := hallows here hstart
    exact ⟨fun c => h.find_eq_some_iff_isNearest hstart, h.find_eq_none_iff hstart,
      fun l name hnearest w' => h.find_of_keepsUpTo hnearest⟩

/-! ### Settings files at several levels -/

/-- A document with a section of settings. -/
def sharedSettings : String := "[tool.resglob]\n"

theorem decodeFile_sharedSettings :
    Text.utf8FileText? sharedSettings.toUTF8 = some sharedSettings := by
  decide +kernel

theorem parse_sharedSettings :
    Toml.parse sharedSettings = .ok [("tool", .table [("resglob", .table [])])] := rfl

/-- A document without one. -/
def otherProject : String := "[project]\n"

theorem hasText_of_lookUp {text : String} (h : w.tree.lookUp w.cwd p = .ok (.file text.toUTF8))
    (htext : Text.utf8FileText? text.toUTF8 = some text) : HasText w p text :=
  ⟨text.toUTF8, by rw [FileTree.contents, h], htext⟩

/-- A folder `d/e` whose project file has no section of settings, below a folder with two settings files, below
a third one. -/
def nestedSettings (above beside : String) : World where
  tree := ⟨[([".resglob.toml"], .file above.toUTF8), (["d"], .folder),
    (["d", "resglob.toml"], .file ByteArray.empty), (["d", "pyproject.toml"], .file beside.toUTF8),
    (["d", "e"], .folder), (["d", "e", "pyproject.toml"], .file otherProject.toUTF8)], []⟩
  cwd := []
  defaultPath := []
  web := []

section Nested

variable (above beside : String)

theorem isThere_nestedSettings : (nestedSettings above beside).tree.IsThere ["d", "e"] :=
  ((FileTree.IsThere.nil _).child (l := []) rfl (by decide)).child (l := ["d"]) rfl (by decide)

theorem realPath_nestedSettings :
    (nestedSettings above beside).tree.realPath [] ⟨.root, ["d", "e"]⟩ = .ok ["d", "e"] :=
  FileTree.realPath_of_isThere (isThere_nestedSettings above beside)

theorem child?_ne_link_nestedSettings (target : String) :
    (nestedSettings above beside).tree.child? l name ≠ some (.link target) := by
  intro hchild
  simpa [nestedSettings] using FileTree.mem_nodes_of_child? hchild

theorem lookUp_nestedSettings (hl : l <+: ["d", "e"]) (hname : name ∈ fileNames) :
    (nestedSettings above beside).tree.lookUp [] (candidate l name) =
      ((nestedSettings above beside).tree.child? l name).elim (.error .absent) .ok := by
  have hthere : (nestedSettings above beside).tree.IsThere l := by
    obtain ⟨below, hbelow⟩ := hl
    exact FileTree.IsThere.upper (hbelow ▸ isThere_nestedSettings above beside)
  have hshort : ∀ l ∈ upwards ["d", "e"], ∀ name ∈ fileNames,
      ¬ FileTree.maxPathBytes ≤ (candidate l name).byteLength := by
    decide
  rw [lookUp_candidate hthere hname (child?_ne_link_nestedSettings above beside),
    if_neg (hshort l (mem_upwards.mpr hl) name hname)]

variable {above beside}

theorem isFile_nestedSettings_of_lacks (hl : l <+: ["d", "e"]) (hname : name ∈ fileNames)
    (hlacks : (nestedSettings above beside).tree.child? l name = none) :
    (nestedSettings above beside).tree.isFile [] (candidate l name) = .ok false := by
  have hlookUp : (nestedSettings above beside).tree.lookUp [] (candidate l name) = .error .absent := by
    rw [lookUp_nestedSettings above beside hl hname, hlacks]
    rfl
  rw [FileTree.isFile, FileTree.test_of_error rfl hlookUp]

theorem not_hasSettings_nestedSettings (hl : l <+: ["d", "e"]) (hname : name ∈ fileNames)
    (hlacks : (nestedSettings above beside).tree.child? l name = none) :
    ¬ HasSettings (nestedSettings above beside) (candidate l name) := by
  have hnone := isFile_nestedSettings_of_lacks hl hname hlacks
  intro hsettings
  cases hsettings with
  | own hfile | project hfile => cases hnone.symm.trans hfile

/-- The project file in `d/e` has no section. -/
theorem not_hasSettings_otherProject :
    ¬ HasSettings (nestedSettings above beside) (candidate ["d", "e"] projectFile) := by
  have htext : HasText (nestedSettings above beside) (candidate ["d", "e"] projectFile) otherProject :=
    hasText_of_lookUp (lookUp_nestedSettings above beside List.prefix_rfl (by decide)) (by decide +kernel)
  have htable : HoldsTable (nestedSettings above beside) (candidate ["d", "e"] projectFile)
      [("project", .table [])] := .table htext rfl
  intro hsettings
  cases hsettings with
  | own _ hname => exact hname rfl
  | project _ _ htable' htool =>
      cases htable.eq.symm.trans htable'.eq
      cases htool

theorem allowsSearch_nestedSettings : AllowsSearch (nestedSettings above sharedSettings) ["d", "e"] := by
  constructor
  case answers =>
    intro l name fault hl hname hrefuses
    obtain ⟨obstacle, hlookUp, hrefusal⟩ := hrefuses.exists_lookUp
    have hfound := (lookUp_nestedSettings above sharedSettings hl hname).symm.trans hlookUp
    cases hchild : (nestedSettings above sharedSettings).tree.child? l name with
    | none =>
        rw [hchild] at hfound
        cases hfound
        cases hrefusal
    | some node =>
        rw [hchild] at hfound
        cases hfound
  case proper =>
    intro l hl hfile
    have hnamed : projectFile ∈ fileNames := by decide
    have hlookUp := lookUp_nestedSettings above sharedSettings hl hnamed
    have hplace : l ∈ [["d", "e"], ["d"], []] := mem_upwards.mpr hl
    simp only [List.mem_cons, List.not_mem_nil, or_false] at hplace
    rcases hplace with rfl | rfl | rfl
    · exact ⟨otherProject, hasText_of_lookUp hlookUp (by decide +kernel), .inr ⟨_, rfl, .inl rfl⟩⟩
    · exact ⟨sharedSettings, hasText_of_lookUp hlookUp decodeFile_sharedSettings,
        .inr ⟨_, parse_sharedSettings, .inr ⟨_, rfl⟩⟩⟩
    · cases hfile.symm.trans (isFile_nestedSettings_of_lacks hl hnamed rfl)

/-- What comes before the first settings file in `d`. -/
theorem precedes_nestedSettings (h : Precedes ["d", "e"] place other ["d"] "resglob.toml") :
    place = ["d", "e"] ∨ place = ["d"] ∧ other = ".resglob.toml" := by
  cases h with
  | nearer hplace hupper hne _ =>
      have hplace : place ∈ [["d", "e"], ["d"], []] := mem_upwards.mpr hplace
      simp only [List.mem_cons, List.not_mem_nil, or_false] at hplace
      rcases hplace with rfl | rfl | rfl
      · exact .inl rfl
      · exact absurd rfl hne
      · exact absurd hupper (by decide)
  | earlier hnames hother =>
      have hsplit : fileNames = [".resglob.toml"] ++ "resglob.toml" :: [projectFile] := rfl
      obtain ⟨hbefore, hafter⟩ := not_mem_of_fileNames_eq hsplit
      obtain ⟨rfl, -⟩ := (List.append_cons_inj_of_notMem hbefore hafter).mp (hsplit.symm.trans hnames)
      exact .inr ⟨rfl, List.mem_singleton.mp hother⟩

theorem isNearest_nestedSettings :
    IsNearest (nestedSettings above beside) ["d", "e"] ["d"] "resglob.toml" := by
  have hupward : ["d"] <+: ["d", "e"] := by decide
  have hfile : (nestedSettings above beside).tree.isFile [] (candidate ["d"] "resglob.toml") = .ok true := by
    rw [FileTree.isFile, FileTree.test, lookUp_nestedSettings above beside hupward (by decide)]
    rfl
  refine ⟨hupward, by decide, .own hfile (by simp [projectFile]), fun place other hprecedes => ?_⟩
  obtain ⟨-, hother⟩ := hprecedes.prefix_and_mem hupward
  rcases precedes_nestedSettings hprecedes with rfl | ⟨rfl, rfl⟩
  · simp only [fileNames, List.mem_cons, List.not_mem_nil, or_false] at hother
    rcases hother with rfl | rfl | rfl
    · exact not_hasSettings_nestedSettings List.prefix_rfl (by decide) rfl
    · exact not_hasSettings_nestedSettings List.prefix_rfl (by decide) rfl
    · exact not_hasSettings_otherProject
  · exact not_hasSettings_nestedSettings hupward (by decide) rfl

/-- Another text further up, or in the file beside it, keeps all up to the first settings file in `d`. -/
theorem keepsUpTo_nestedSettings (above' beside' : String) : KeepsUpTo (nestedSettings above beside).tree
    (nestedSettings above' beside').tree ["d", "e"] ["d"] "resglob.toml" := by
  refine ⟨isThere_nestedSettings _ _, isThere_nestedSettings _ _, fun place other hupTo =>
    ⟨?_, child?_ne_link_nestedSettings _ _⟩⟩
  rcases hupTo with hprecedes | ⟨rfl, rfl⟩
  · obtain ⟨-, hother⟩ := hprecedes.prefix_and_mem (show ["d"] <+: ["d", "e"] by decide)
    rcases precedes_nestedSettings hprecedes with rfl | ⟨rfl, rfl⟩
    · simp only [fileNames, List.mem_cons, List.not_mem_nil, or_false] at hother
      rcases hother with rfl | rfl | rfl <;> rfl
    · rfl
  · rfl

end Nested

/-- From `d/e` the first settings file in `d` is found: the project file that is nearer has no section, and the
other two come later. So it is when both of those are changed. -/
theorem find_nearest_nestedSettings :
    AllowsSearch (nestedSettings "" sharedSettings) ["d", "e"] ∧
    IsNearest (nestedSettings "" sharedSettings) ["d", "e"] ["d"] "resglob.toml" ∧
    find (nestedSettings "" sharedSettings) ⟨.root, ["d", "e"]⟩ =
      .ok (some (candidate ["d"] "resglob.toml")) ∧
    find (nestedSettings "[" otherProject) ⟨.root, ["d", "e"]⟩ =
      .ok (some (candidate ["d"] "resglob.toml")) := by
  have hplace := realPath_nestedSettings "" sharedSettings
  obtain ⟨-, -, hfound⟩ := find_nearest (nestedSettings "" sharedSettings) ⟨.root, ["d", "e"]⟩
    fun here hhere => Except.ok.inj (hplace.symm.trans hhere) ▸ allowsSearch_nestedSettings
  obtain ⟨hsome, -, hkept⟩ := hfound ["d", "e"] hplace
  exact ⟨allowsSearch_nestedSettings, isNearest_nestedSettings,
    (hsome _).mpr ⟨["d"], "resglob.toml", rfl, isNearest_nestedSettings⟩,
    hkept _ _ isNearest_nestedSettings _ (realPath_nestedSettings "[" otherProject)
      (keepsUpTo_nestedSettings "[" otherProject)⟩

/-! ### A project file that is a link -/

/-- A folder whose project file is a link to a file above it. -/
def sharedProject (text : String) : World where
  tree := ⟨[(["shared.toml"], .file text.toUTF8), (["d"], .folder),
    (["d", "pyproject.toml"], .link "../shared.toml")], []⟩
  cwd := []
  defaultPath := []
  web := []

theorem isThere_sharedProject (text : String) : (sharedProject text).tree.IsThere ["d"] :=
  (FileTree.IsThere.nil _).child (l := []) rfl (by decide)

theorem realPath_sharedProject (text : String) :
    (sharedProject text).tree.realPath [] ⟨.root, ["d"]⟩ = .ok ["d"] :=
  FileTree.realPath_of_isThere (isThere_sharedProject text)

/-- The link leads to the file above. -/
theorem lookUp_sharedProject (text : String) :
    (sharedProject text).tree.lookUp [] (candidate ["d"] projectFile) = .ok (.file text.toUTF8) := by
  have hway : (sharedProject text).tree.IsThere ([] ++ ["d"]) := isThere_sharedProject text
  have hchild : (sharedProject text).tree.child? ["d"] "pyproject.toml" = some (.link "../shared.toml") := rfl
  have hfile : (sharedProject text).tree.child? [] "shared.toml" = some (.file text.toUTF8) := rfl
  -- Down to the link, up again for its target, and down to the file.
  have hfind : (sharedProject text).tree.find [] (candidate ["d"] projectFile) = .ok ⟨["shared.toml"], 39⟩ := by
    rw [FileTree.find, if_neg (by decide), if_neg (by decide)]
    show (sharedProject text).tree.descend _ [] (["d"] ++ ["pyproject.toml"]) = _
    rw [FileTree.descend_append, hway.descend, ok_bind]
    show (sharedProject text).tree.descend (39 + 1) ["d"] ["pyproject.toml"] = _
    rw [FileTree.descend_of_child_eq_link 39 _ rfl (by decide) hchild]
    show (sharedProject text).tree.descend 39 ["d"] ["..", "shared.toml"] = _
    have hfolder : (sharedProject text).tree.isOpenAt ["d"] = true := rfl
    rw [FileTree.descend_up hfolder]
    show (sharedProject text).tree.descend 39 [] ["shared.toml"] = _
    rw [FileTree.descend_of_child_eq_some _ _ rfl (by decide) hfile (by simp), FileTree.descend]
    rfl
  rw [FileTree.lookUp, hfind]
  rfl

/-- There is no other candidate. -/
theorem lookUp_other_sharedProject (text : String) (hl : l <+: ["d"]) (hname : name ∈ fileNames)
    (hother : ¬ (l = ["d"] ∧ name = projectFile)) :
    (sharedProject text).tree.lookUp [] (candidate l name) = .error .absent := by
  have hthere : (sharedProject text).tree.IsThere l := by
    obtain ⟨below, hbelow⟩ := hl
    exact FileTree.IsThere.upper (hbelow ▸ isThere_sharedProject text)
  have hplace : l ∈ [[], ["d"]] := by
    rcases List.prefix_concat_iff.mp (show l <+: [] ++ ["d"] from hl) with rfl | hl
    · exact List.mem_cons_of_mem _ (List.mem_singleton_self _)
    · exact List.prefix_nil.mp hl ▸ List.mem_cons_self
  have hlacks : (sharedProject text).tree.child? l name = none := by
    simp only [fileNames, List.mem_cons, List.not_mem_nil, or_false] at hplace hname
    rcases hplace with rfl | rfl
    · rcases hname with rfl | rfl | rfl <;> rfl
    · rcases hname with rfl | rfl | rfl
      · rfl
      · rfl
      · exact absurd ⟨rfl, rfl⟩ hother
  have hshort : ∀ l ∈ [[], ["d"]], ∀ name ∈ fileNames,
      ¬ FileTree.maxPathBytes ≤ (candidate l name).byteLength := by
    decide
  rw [lookUp_candidate hthere hname (by simp [hlacks]), hlacks, if_neg (hshort l hplace name hname)]
  rfl

theorem isFile_other_sharedProject (text : String) (hl : l <+: ["d"]) (hname : name ∈ fileNames)
    (hother : ¬ (l = ["d"] ∧ name = projectFile)) :
    (sharedProject text).tree.isFile [] (candidate l name) = .ok false := by
  rw [FileTree.isFile, FileTree.test_of_error rfl (lookUp_other_sharedProject text hl hname hother)]

theorem hasText_sharedProject {text : String} (h : Text.utf8FileText? text.toUTF8 = some text) :
    HasText (sharedProject text) (candidate ["d"] projectFile) text :=
  hasText_of_lookUp (lookUp_sharedProject text) h

theorem allowsSearch_sharedProject {text : String} {t : Table}
    (htext : Text.utf8FileText? text.toUTF8 = some text) (hparse : Toml.parse text = .ok t)
    (htool : t.get? "tool" = none ∨ ∃ tool : Table, t.get? "tool" = some (.table tool)) :
    AllowsSearch (sharedProject text) ["d"] := by
  refine ⟨fun l name fault hl hname hrefuses => ?_, fun l hl hfile => ?_⟩
  · obtain ⟨obstacle, hlookUp, hrefusal⟩ := hrefuses.exists_lookUp
    by_cases hother : l = ["d"] ∧ name = projectFile
    · obtain ⟨rfl, rfl⟩ := hother
      cases hlookUp.symm.trans (lookUp_sharedProject text)
    · cases hlookUp.symm.trans (lookUp_other_sharedProject text hl hname hother)
      cases hrefusal
  · by_cases hother : l = ["d"] ∧ projectFile = projectFile
    · obtain ⟨rfl, -⟩ := hother
      exact ⟨text, hasText_sharedProject htext, .inr ⟨t, hparse, htool⟩⟩
    · cases hfile.symm.trans (isFile_other_sharedProject text hl (by decide) hother)

theorem allowsSearch_sharedSettings : AllowsSearch (sharedProject sharedSettings) ["d"] :=
  allowsSearch_sharedProject decodeFile_sharedSettings parse_sharedSettings (.inr ⟨_, rfl⟩)

theorem isNearest_sharedSettings : IsNearest (sharedProject sharedSettings) ["d"] ["d"] projectFile := by
  have hfile : (sharedProject sharedSettings).tree.isFile [] (candidate ["d"] projectFile) = .ok true := by
    rw [FileTree.isFile, FileTree.test, lookUp_sharedProject]
  have htable : HoldsTable (sharedProject sharedSettings) (candidate ["d"] projectFile)
      [("tool", .table [("resglob", .table [])])] :=
    .table (hasText_sharedProject decodeFile_sharedSettings) parse_sharedSettings
  refine ⟨List.prefix_rfl, by decide, .project hfile rfl htable rfl rfl,
    fun place other hprecedes hother => ?_⟩
  obtain ⟨hplace, hname⟩ := hprecedes.prefix_and_mem List.prefix_rfl
  have hnone := isFile_other_sharedProject sharedSettings hplace hname hprecedes.ne
  cases hother with
  | own hfile | project hfile => cases hfile.symm.trans hnone

/-- **A change behind a link** matters: the nearest settings file is a link to a file above it, and is found no
more when that file is emptied, though nothing else changes. -/
theorem find_changes_behind_link :
    AllowsSearch (sharedProject sharedSettings) ["d"] ∧ AllowsSearch (sharedProject "") ["d"] ∧
      find (sharedProject sharedSettings) ⟨.root, ["d"]⟩ = .ok (some (candidate ["d"] projectFile)) ∧
      find (sharedProject "") ⟨.root, ["d"]⟩ = .ok none := by
  have htext : Text.utf8FileText? "".toUTF8 = some "" := by decide +kernel
  have hempty : AllowsSearch (sharedProject "") ["d"] := allowsSearch_sharedProject htext rfl (.inl rfl)
  have htable : HoldsTable (sharedProject "") (candidate ["d"] projectFile) [] :=
    .table (hasText_sharedProject htext) rfl
  refine ⟨allowsSearch_sharedSettings, hempty,
    allowsSearch_sharedSettings.find_of_isNearest (realPath_sharedProject _) isNearest_sharedSettings,
    (hempty.find_eq_none_iff (realPath_sharedProject "")).mpr fun l name hl hname hsettings => ?_⟩
  by_cases hother : l = ["d"] ∧ name = projectFile
  · obtain ⟨rfl, rfl⟩ := hother
    cases hsettings with
    | own _ hname => exact hname rfl
    | project _ _ htable' htool =>
        cases htable.eq.symm.trans htable'.eq
        cases htool
  · have hnone := isFile_other_sharedProject "" hl hname hother
    cases hsettings with
    | own hfile | project hfile => cases hfile.symm.trans hnone

end Settings

end AntResources
