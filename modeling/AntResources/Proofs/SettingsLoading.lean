import AntResources.Proofs.RealPlaces
import AntResources.Proofs.SettingsSearch

/-!
# AntResources.Proofs.SettingsLoading

**What loading a settings file fails with.** The file may be no document, the section may not be a table, a
value may not be of the type of its setting, and entries of the search path may have no folder to be seen
from. Some of these end in an error with the name of the file, and the others in a fault
(`Settings.load_eq_error_iff`). A project file that the search finds need not hold what is loaded from it:
the search takes any `tool` that mentions the section (`Settings.load_eq_notATable_iff_of_find`).
-/

namespace AntResources

open Toml (Table Value)

/-! ### Values -/

/-- What the value of a setting has to be. -/
def SettingName.type : SettingName → SettingType
  | .expressions | .searchPath => .texts
  | .maxWorkers => .positiveInteger
  | .format => .text
  | .remoteTimeout => .positiveNumber

namespace Setting

variable {key : String} {name : SettingName} {v : Value} {failure : SettingFailure}

/-- The value is of the type of the setting. -/
inductive Fits : SettingName → Value → Prop where
  | expressions {v : Value} {texts : List String} : textsOf? v = some texts → Fits .expressions v
  | searchPath {v : Value} {texts : List String} : textsOf? v = some texts → Fits .searchPath v
  | maxWorkers {i : Int} : 1 ≤ i → Fits .maxWorkers (.integer i)
  | format (s : String) : Fits .format (.string s)
  | wholeSeconds {i : Int} : 1 ≤ i → Fits .remoteTimeout (.integer i)
  | seconds {x : Binary64} : x.isAtMostZero = false → Fits .remoteTimeout (.float x)

/-- How the check of a value fails. -/
inductive ValueFailure (key : String) (name : SettingName) (v : Value) : SettingFailure → Prop where
  | wrongType {shown : String} : ¬ Fits name v → v.depth < maxNesting → v.text? = some shown →
      ValueFailure key name v (.wrongType ⟨key, name.type, shown⟩)
  /-- The value cannot be shown: it lies too deep. -/
  | tooDeep : ¬ Fits name v → maxNesting ≤ v.depth → ValueFailure key name v (.fault .nestedTooDeep)
  /-- The value cannot be shown: it has a number with too many digits. -/
  | tooLong : ¬ Fits name v → v.depth < maxNesting → v.text? = none →
      ValueFailure key name v (.fault .numberTooLong)
  /-- The number of seconds is none of the floating-point numbers. -/
  | tooLarge {i : Int} : name = .remoteTimeout → v = .integer i → 1 ≤ i → Binary64.ofInt? i = none →
      ValueFailure key name v (.fault .numberTooLarge)

theorem valueFailure_of_not_fits (h : ¬ Fits name v) :
    ValueFailure key name v failure ↔ refuse key name.type v = failure := by
  unfold refuse
  constructor
  · intro hfailure
    cases hfailure with
    | wrongType _ hdepth hshown => rw [if_neg (by omega), hshown]
    | tooDeep _ hdepth => rw [if_pos hdepth]
    | tooLong _ hdepth hnone => rw [if_neg (by omega), hnone]
    | tooLarge hname hv hi hlarge =>
        subst hname hv
        exact absurd (.wholeSeconds hi) h
  · intro hrefuse
    split at hrefuse
    · cases hrefuse
      exact .tooDeep h ‹_›
    · cases hshown : v.text? with
      | some shown =>
          rw [hshown] at hrefuse
          cases hrefuse
          exact .wrongType h (by omega) hshown
      | none =>
          rw [hshown] at hrefuse
          cases hrefuse
          exact .tooLong h (by omega) hshown

theorem ofValue_of_not_fits (h : ¬ Fits name v) :
    ofValue key name v = .error (refuse key name.type v) := by
  cases name with
  | expressions =>
      cases htexts : textsOf? v with
      | none => simp [ofValue, htexts, SettingName.type]
      | some texts => exact absurd (.expressions htexts) h
  | searchPath =>
      cases htexts : textsOf? v with
      | none => simp [ofValue, htexts, SettingName.type]
      | some texts => exact absurd (.searchPath htexts) h
  | maxWorkers =>
      cases v with
      | integer i => exact if_neg fun hi => h (.maxWorkers hi)
      | _ => rfl
  | format =>
      cases v with
      | string s => exact absurd (.format s) h
      | _ => rfl
  | remoteTimeout =>
      cases v with
      | integer i => exact if_neg fun hi => h (.wholeSeconds hi)
      | float x => exact if_pos (by simpa using fun hx => h (.seconds hx))
      | _ => rfl

/-- A value of the right type fails only as a number of seconds that is too large. -/
theorem valueFailure_of_fits (h : Fits name v) : ValueFailure key name v failure ↔
    name = .remoteTimeout ∧ ∃ i, v = .integer i ∧ Binary64.ofInt? i = none ∧
      failure = .fault .numberTooLarge := by
  constructor
  · intro hfailure
    cases hfailure with
    | tooLarge hname hv _ hlarge => exact ⟨hname, _, hv, hlarge, rfl⟩
    | wrongType hnot | tooDeep hnot | tooLong hnot => exact absurd h hnot
  · intro hlarge
    obtain ⟨rfl, i, rfl, hlarge, rfl⟩ := hlarge
    cases h with
    | wholeSeconds hi => exact .tooLarge rfl rfl hi hlarge

/-- **When the check of a value fails.** -/
theorem ofValue_eq_error_iff :
    ofValue key name v = .error failure ↔ ValueFailure key name v failure := by
  by_cases hfits : Fits name v
  · rw [valueFailure_of_fits hfits]
    cases hfits with
    | expressions htexts | searchPath htexts => simp [ofValue, htexts]
    | maxWorkers hi => simp [ofValue, hi]
    | format s => simp [ofValue]
    | seconds hx => simp [ofValue, hx]
    | @wholeSeconds i hi => cases hlarge : Binary64.ofInt? i <;> simp [ofValue, hi, hlarge, eq_comm]
  · rw [ofValue_of_not_fits hfits, Except.error.injEq, valueFailure_of_not_fits hfits]

end Setting

namespace Settings

variable {w : World} {p start : Path} {t sub : Table} {s : Settings} {fault : Fault}

/-! ### Tables -/

/-- The field gives a setting, or none at all. -/
def IsTaken (field : String × Value) : Prop := ∀ name, SettingName.ofKey? field.1 = some name →
  ∀ failure, ¬ Setting.ValueFailure field.1 name field.2 failure

/-- How some fields fail to give settings: the first value to be refused is refused so. -/
def FieldFailure (fields : Table) (failure : SettingFailure) : Prop :=
  ∃ before key v after name, fields = before ++ (key, v) :: after ∧
    (∀ field ∈ before, IsTaken field) ∧ SettingName.ofKey? key = some name ∧
    Setting.ValueFailure key name v failure

theorem fieldFailure_cons_iff {key : String} {v : Value} {rest : Table} {failure : SettingFailure} :
    FieldFailure ((key, v) :: rest) failure ↔
      (∃ name, SettingName.ofKey? key = some name ∧ Setting.ValueFailure key name v failure) ∨
        IsTaken (key, v) ∧ FieldFailure rest failure := by
  constructor
  · intro h
    obtain ⟨before, key', v', after, name, hsplit, hbefore, hname, hfailure⟩ := h
    cases before with
    | nil =>
        cases hsplit
        exact .inl ⟨name, hname, hfailure⟩
    | cons field before =>
        cases hsplit
        obtain ⟨hfield, hbefore⟩ := List.forall_mem_cons.mp hbefore
        exact .inr ⟨hfield, before, key', v', after, name, rfl, hbefore, hname, hfailure⟩
  · intro h
    rcases h with ⟨name, hname, hfailure⟩ |
      ⟨hfield, before, key', v', after, name, rfl, hbefore, hname, hfailure⟩
    · exact ⟨[], key, v, rest, name, rfl, by simp, hname, hfailure⟩
    · exact ⟨(key, v) :: before, key', v', after, name, rfl, List.forall_mem_cons.mpr ⟨hfield, hbefore⟩,
        hname, hfailure⟩

/-- **When some fields fail to give settings.** -/
theorem addFields_eq_error_iff {fields : Table} {failure : SettingFailure} :
    addFields s fields = .error failure ↔ FieldFailure fields failure := by
  -- The settings taken so far have no say in it, so the induction is for any of them.
  induction fields generalizing s with
  | nil => simp [addFields, FieldFailure]
  | cons field rest ih =>
      obtain ⟨key, v⟩ := field
      rw [addFields, fieldFailure_cons_iff]
      cases hname : SettingName.ofKey? key with
      | none => simp [IsTaken, hname, ih]
      | some name =>
          cases hvalue : Setting.ofValue key name v with
          | error other => simp [IsTaken, hname, ← Setting.ofValue_eq_error_iff, hvalue]
          | ok setting => simp [IsTaken, hname, ← Setting.ofValue_eq_error_iff, hvalue, ih]

theorem ofTable_eq_error_iff {failure : SettingFailure} :
    ofTable t = .error failure ↔ FieldFailure (flatten t) failure :=
  addFields_eq_error_iff

/-! ### The section of a project file -/

/-- The value is a table. -/
def IsTable (v : Value) : Prop := ∃ t, v = .table t

theorem subtable_eq_error_iff {key : String} : subtable t key = .error fault ↔
    (∃ v, t.get? key = some v ∧ ¬ IsTable v) ∧ fault = .notATable := by
  unfold subtable IsTable
  cases t.get? key with
  | none => simp
  | some v => cases v <;> simp [eq_comm]

theorem subtable_of_table {key : String} (h : t.get? key = some (.table sub)) :
    subtable t key = .ok sub := by
  rw [subtable, h]

/-- What a project file has in the place of `tool`, or in that of the section, is no table. -/
inductive IsMisshapen (t : Table) : Prop where
  | tool {v : Value} : t.get? "tool" = some v → ¬ IsTable v → IsMisshapen t
  | inner {tool : Table} {v : Value} : t.get? "tool" = some (.table tool) →
      tool.get? sectionName = some v → ¬ IsTable v → IsMisshapen t

theorem isMisshapen_of_table {tool : Table} (htool : t.get? "tool" = some (.table tool)) :
    IsMisshapen t ↔ ∃ v, tool.get? sectionName = some v ∧ ¬ IsTable v := by
  constructor
  · intro h
    cases h with
    | tool hv hnot =>
        cases htool.symm.trans hv
        exact absurd ⟨tool, rfl⟩ hnot
    | inner hother hv hnot =>
        cases htool.symm.trans hother
        exact ⟨_, hv, hnot⟩
  · intro h
    obtain ⟨v, hv, hnot⟩ := h
    exact .inner htool hv hnot

theorem not_isMisshapen_of_none (htool : t.get? "tool" = none) : ¬ IsMisshapen t := by
  intro h
  cases h with
  | tool hv _ | inner hv _ _ => cases htool.symm.trans hv

theorem settingsTable_eq_error_iff : settingsTable p t = .error fault ↔
    p.name = projectFile ∧ IsMisshapen t ∧ fault = .notATable := by
  by_cases hname : p.name = projectFile
  · rw [settingsTable, if_pos hname, and_iff_right hname]
    cases htool : t.get? "tool" with
    | none =>
        have hempty : subtable t "tool" = .ok [] := by rw [subtable, htool]
        rw [hempty, ok_bind]
        exact iff_of_false (fun h => by cases h) fun h => not_isMisshapen_of_none htool h.1
    | some v =>
        by_cases hv : IsTable v
        · obtain ⟨tool, rfl⟩ := hv
          rw [subtable_of_table htool, ok_bind, subtable_eq_error_iff, isMisshapen_of_table htool]
        · have hbad : IsMisshapen t := .tool htool hv
          have herror : subtable t "tool" = .error .notATable :=
            subtable_eq_error_iff.mpr ⟨⟨v, htool, hv⟩, rfl⟩
          rw [herror, error_bind, and_iff_right hbad, Except.error.injEq, eq_comm]
  · rw [settingsTable, if_neg hname]
    exact iff_of_false (by simp [pure, Except.pure]) fun h => hname h.1

/-! ### Loading -/

/-- How loading a settings file fails. -/
inductive LoadFailure (w : World) (p : Path) : SettingsFailure → Prop where
  /-- There is no document to be read. -/
  | unreadable {detail : ReadDetail} : Reading w p (.ok (.unreadable detail)) →
      LoadFailure w p (.settings (.unreadable p detail))
  /-- The reading of the document ends with a fault. -/
  | document {fault : Fault} : DocumentFault w p fault → LoadFailure w p (.fault fault)
  /-- A project file has no table where one should be. -/
  | misshapen {t : Table} : HoldsTable w p t → p.name = projectFile → IsMisshapen t →
      LoadFailure w p (.fault .notATable)
  /-- A value is not of the type of its setting. -/
  | wrongType {t sub : Table} {error : SettingError} : HoldsTable w p t →
      settingsTable p t = .ok sub → FieldFailure (flatten sub) (.wrongType error) →
      LoadFailure w p (.settings (.wrongType p error))
  /-- A value is at fault. -/
  | value {t sub : Table} {fault : Fault} : HoldsTable w p t → settingsTable p t = .ok sub →
      FieldFailure (flatten sub) (.fault fault) → LoadFailure w p (.fault fault)
  /-- The folder from which the search path is to be seen is out of reach. -/
  | place {t sub : Table} {s : Settings} {entries : List String} {fault : Fault} : HoldsTable w p t →
      settingsTable p t = .ok sub → ofTable sub = .ok s → s.searchPath = some entries →
      w.tree.realPath w.cwd p = .error fault → LoadFailure w p (.fault fault)

theorem load_of_settingsTable_error (htable : HoldsTable w p t)
    (hsub : settingsTable p t = .error fault) : load w p = .error (.fault fault) := by
  rw [load, htable.eq]
  show ((settingsTable p t).mapError SettingsFailure.fault >>= _) = _
  rw [hsub]
  rfl

theorem load_of_settingsTable (htable : HoldsTable w p t) (hsub : settingsTable p t = .ok sub) :
    load w p =
      match ofTable sub with
      | .error (.fault fault) => .error (.fault fault)
      | .error (.wrongType error) => .error (.settings (.wrongType p error))
      | .ok s =>
        match s.searchPath with
        | none => .ok s
        | some entries =>
          (fun here => { s with searchPath := some (resolveEntries here.dropLast entries) }) <$>
            (w.tree.realPath w.cwd p).mapError .fault := by
  rw [load, htable.eq]
  show ((settingsTable p t).mapError SettingsFailure.fault >>= _) = _
  rw [hsub]
  rfl

/-- What fails after the table has been found are its fields, or the place of the file. -/
theorem loadFailure_of_settingsTable {failure : SettingsFailure} (htable : HoldsTable w p t)
    (hsub : settingsTable p t = .ok sub) (h : load w p = .error failure) : LoadFailure w p failure := by
  rw [load_of_settingsTable htable hsub] at h
  cases hs : ofTable sub with
  | error other =>
      have hfields := ofTable_eq_error_iff.mp hs
      rw [hs] at h
      cases other with
      | fault fault =>
          cases h
          exact .value htable hsub hfields
      | wrongType error =>
          cases h
          exact .wrongType htable hsub hfields
  | ok s =>
      rw [hs] at h
      dsimp only at h
      cases hentries : s.searchPath with
      | none =>
          rw [hentries] at h
          cases h
      | some entries =>
          rw [hentries] at h
          obtain ⟨fault, hfault, rfl⟩ := mapError_eq_error_iff.mp (map_eq_error_iff.mp h)
          exact .place htable hsub hs hentries hfault

/-- **When loading a settings file fails.** -/
theorem load_eq_error_iff {failure : SettingsFailure} :
    load w p = .error failure ↔ LoadFailure w p failure := by
  constructor
  · intro h
    cases hread : readTable w p with
    | error fault =>
        rw [load, hread] at h
        cases h
        exact .document (readTable_eq_iff.mp hread)
    | ok reading =>
        cases reading with
        | unreadable detail =>
            rw [load, hread] at h
            cases h
            exact .unreadable (readTable_eq_iff.mp hread)
        | table t =>
            have htable : HoldsTable w p t := readTable_eq_iff.mp hread
            cases hsub : settingsTable p t with
            | error fault =>
                rw [load_of_settingsTable_error htable hsub] at h
                cases h
                obtain ⟨hname, hbad, rfl⟩ := settingsTable_eq_error_iff.mp hsub
                exact .misshapen htable hname hbad
            | ok sub => exact loadFailure_of_settingsTable htable hsub h
  · intro h
    cases h with
    | unreadable hread =>
        rw [load, hread.eq]
        rfl
    | document hfault =>
        rw [load, Reading.eq hfault]
        rfl
    | misshapen htable hname hbad =>
        exact load_of_settingsTable_error htable
          (settingsTable_eq_error_iff.mpr ⟨hname, hbad, rfl⟩)
    | wrongType htable hsub hfailure | value htable hsub hfailure =>
        rw [load_of_settingsTable htable hsub, ofTable_eq_error_iff.mpr hfailure]
    | place htable hsub hs hentries hfault =>
        rw [load_of_settingsTable htable hsub, hs]
        dsimp only
        rw [hentries]
        exact map_eq_error_iff.mpr (mapError_eq_error_iff.mpr ⟨_, hfault, rfl⟩)

/-! ### Project files that the search finds -/

/-- The path leads to a document with a table under `tool` that has a table as the section. -/
def HoldsSection (w : World) (p : Path) : Prop :=
  ∃ t tool sub : Table, HoldsTable w p t ∧ t.get? "tool" = some (.table tool) ∧
    tool.get? sectionName = some (.table sub)

theorem HoldsTable.holdsSection_iff (htable : HoldsTable w p t) : HoldsSection w p ↔
    ∃ tool sub : Table, t.get? "tool" = some (.table tool) ∧
      tool.get? sectionName = some (.table sub) := by
  constructor
  · intro h
    obtain ⟨t', tool, sub, htable', htool, hsub⟩ := h
    cases htable.eq.symm.trans htable'.eq
    exact ⟨tool, sub, htool, hsub⟩
  · intro h
    obtain ⟨tool, sub, htool, hsub⟩ := h
    exact ⟨t, tool, sub, htable, htool, hsub⟩

theorem IsMisshapen.not_holdsSection (h : IsMisshapen t) (htable : HoldsTable w p t) :
    ¬ HoldsSection w p := by
  rw [htable.holdsSection_iff]
  intro hsection
  obtain ⟨tool, sub, htool, hsub⟩ := hsection
  obtain ⟨v, hv, hnot⟩ := (isMisshapen_of_table htool).mp h
  cases hsub.symm.trans hv
  exact hnot ⟨sub, rfl⟩

/-- Where something is mentioned that is no section, the document is misshapen. -/
theorem isMisshapen_of_mentions {tool : Value} (htool : t.get? "tool" = some tool)
    (hmentions : Mentions tool) (htable : HoldsTable w p t) (hnone : ¬ HoldsSection w p) :
    IsMisshapen t := by
  cases hmentions with
  | @key tool v hv =>
      refine .inner htool hv fun hsub => ?_
      obtain ⟨sub, rfl⟩ := hsub
      exact hnone (htable.holdsSection_iff.mpr ⟨tool, sub, htool, hv⟩)
  | item _ | part _ =>
      refine .tool htool fun hsub => ?_
      obtain ⟨sub, hsub⟩ := hsub
      cases hsub

/-- **A project file that the search finds** has no table to load exactly if what the search took for the
section is none. -/
theorem load_eq_notATable_iff_of_find (h : find w start = .ok (some p)) (hname : p.name = projectFile) :
    load w p = .error (.fault .notATable) ↔ ¬ HoldsSection w p := by
  rw [load_eq_error_iff]
  constructor
  · intro hfailure
    -- Nothing else in loading gives this fault.
    cases hfailure with
    | document hfault => cases hfault
    | misshapen htable _ hbad => exact hbad.not_holdsSection htable
    | value _ _ hfault =>
        obtain ⟨_, _, _, _, _, _, _, _, hfault⟩ := hfault
        cases hfault
    | place _ _ _ _ hfault =>
        exact absurd (FileTree.mem_placeFaults_of_realPath hfault) (by decide)
  · intro hnone
    obtain ⟨-, hcounts⟩ := find_eq_some_iff.mp h
    cases hcounts with
    | own _ hother => exact absurd hname hother
    | project _ _ htable htool hmentions =>
        exact .misshapen htable hname (isMisshapen_of_mentions htool hmentions htable hnone)

/-- **The search for a settings file, and loading it.** The search finds the first candidate that counts, if
it passes over all before it, and fails at a candidate with a fault, or where the folder to start from has no
real place. Loading fails in the listed ways, and in no other. -/
theorem find_and_load_failures (w : World) (start : Path) :
    (∀ p, find w start = .ok (some p) ↔ ComesTo w start p ∧ Counts w p) ∧
    (∀ fault, find w start = .error fault ↔
      w.tree.realPath w.cwd start = .error fault ∨
        ∃ p, ComesTo w start p ∧ CandidateFault w p fault) ∧
    (∀ p failure, load w p = .error failure ↔ LoadFailure w p failure) ∧
    (∀ p, find w start = .ok (some p) → p.name = projectFile →
      (load w p = .error (.fault .notATable) ↔ ¬ HoldsSection w p)) :=
  ⟨fun _ => find_eq_some_iff, fun _ => find_eq_error_iff, fun _ _ => load_eq_error_iff,
    fun _ => load_eq_notATable_iff_of_find⟩

/-- A world with a project file that is not text. -/
def garbledProject : World where
  tree := ⟨[(["pyproject.toml"], .file ⟨#[255]⟩)], []⟩
  cwd := []
  defaultPath := []
  web := []

theorem realPath_garbledProject :
    garbledProject.tree.realPath garbledProject.cwd (Path.ofString ".") = .ok [] := by
  have hend : garbledProject.tree.descend FileTree.maxLinks [] [] = .ok ⟨[], FileTree.maxLinks⟩ := by
    rw [FileTree.descend]
  exact FileTree.realPath_of_descend (p := Path.ofString ".") (.nil _) hend (.inl rfl)

/-- The root has no other settings files, so the search comes to the project file. -/
theorem comesTo_garbledProject :
    ComesTo garbledProject (Path.ofString ".") (Path.ofLocation ["pyproject.toml"]) := by
  have hhidden : IsPassedOver garbledProject (Path.ofLocation [".resglob.toml"]) :=
    isPassedOver_of_lacks (l := []) (.nil _) (by decide) (by decide) rfl
  have hplain : IsPassedOver garbledProject (Path.ofLocation ["resglob.toml"]) :=
    isPassedOver_of_lacks (l := []) (.nil _) (by decide) (by decide) rfl
  exact ⟨[], [_, _], [], realPath_garbledProject, rfl, by simpa using ⟨hhidden, hplain⟩⟩

theorem find_garbledProject : find garbledProject (Path.ofString ".") = .error .notText := by
  have hfind : garbledProject.tree.find [] (Path.ofLocation ["pyproject.toml"]) =
      .ok ⟨["pyproject.toml"], FileTree.maxLinks⟩ :=
    FileTree.find_of_child rfl rfl (by decide) (by decide) (by decide)
      (show garbledProject.tree.child? [] "pyproject.toml" = some (.file ⟨#[255]⟩) from rfl) (by simp)
  have hcontents : garbledProject.tree.contents [] (Path.ofLocation ["pyproject.toml"]) =
      .ok (some ⟨#[255]⟩) := by
    rw [FileTree.contents, FileTree.lookUp, hfind]
    rfl
  have hfile : garbledProject.tree.isFile [] (Path.ofLocation ["pyproject.toml"]) = .ok true := by
    rw [FileTree.isFile, FileTree.test, FileTree.lookUp, hfind]
    rfl
  obtain ⟨-, hfails, -⟩ := find_and_load_failures garbledProject (Path.ofString ".")
  exact (hfails _).mpr (.inr ⟨_, comesTo_garbledProject,
    .document hfile rfl (.notText hcontents (by decide +kernel))⟩)

end Settings

end AntResources
