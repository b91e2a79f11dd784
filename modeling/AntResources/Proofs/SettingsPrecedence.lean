import AntResources.Proofs.OptionWords

/-!
# AntResources.Proofs.SettingsPrecedence

**Whose settings count.** A setting that the command line gives itself counts before the one of the
settings file, and that before the standard one. Which settings the command line gives is found by a
second reading of it, for these options alone, in which the words of all other options say nothing. This
second reading never fails, and uses exactly those options of the first that give settings
(`exists_scan_settingsGrammar`).
-/

namespace AntResources

open CommandLine

namespace CommandLine

/-! ### The options in one word -/

/-- The options that a word has to do with. -/
def Unfolded.names (unfolded : Unfolded) : List OptionName :=
  unfolded.uses.map (·.name) ++ unfolded.awaiting.toList

theorem Unfolded.mem_names_of_mem_uses {unfolded : Unfolded} {u : Use} (h : u ∈ unfolded.uses) :
    u.name ∈ unfolded.names :=
  List.mem_append_left _ (List.mem_map_of_mem h)

/-- Settings have values. -/
theorem takesValue_of_isSetting {name : OptionName} (h : name.isSetting = true) :
    name.takesValue = true := by
  cases name <;> first | rfl | cases h

theorem not_isSetting_of_option?_short {c : Char} {name : OptionName}
    (h : fullGrammar.option? ['-', c] = some name) : name.isSetting = false := by
  by_contra hsetting
  have hlong := (long_of_isSetting _ (option?_eq_some_iff.mp h) (by simpa using hsetting)).2
  simp at hlong

/-- None of some short options in one word gives a setting. -/
theorem not_isSetting_of_unfoldShort {name : OptionName} {text : List Char} {unfolded : Unfolded}
    (hname : name.isSetting = false) (h : unfoldShort fullGrammar name text = .ok unfolded) :
    ∀ n ∈ unfolded.names, n.isSetting = false := by
  induction text generalizing name unfolded with
  | nil =>
      obtain rfl := Except.ok.inj h
      simpa [Unfolded.names] using hname
  | cons c rest ih =>
      rw [unfoldShort] at h
      split at h
      · cases h
      · rename_i next hnext
        have hnext := not_isSetting_of_option?_short hnext
        split at h
        · split at h
          · obtain rfl := Except.ok.inj h
            simp [Unfolded.names, hname, hnext]
          · obtain rfl := Except.ok.inj h
            simp [Unfolded.names, hname, hnext]
        · obtain ⟨more, hmore, h⟩ := bind_eq_ok_iff.mp h
          obtain rfl := Except.ok.inj h
          intro n hn
          rcases List.mem_cons.mp hn with rfl | hn
          · exact hname
          · exact ih hnext hmore n hn

theorem unfold_of_takesValue (g : Grammar) {word : OptionWord} (h : word.name.takesValue = true) :
    unfold g word =
      match word.attached with
      | none => .ok ⟨[], some word.name⟩
      | some text => .ok ⟨[⟨word.name, writtenValue text⟩], none⟩ := by
  unfold unfold
  cases word.attached <;> simp [h]

/-- Settings are read alike with more and with fewer options. -/
theorem unfold_congr_of_isSetting (g g' : Grammar) {word : OptionWord} (h : word.name.isSetting = true) :
    unfold g word = unfold g' word := by
  have hvalue := takesValue_of_isSetting h
  rw [unfold_of_takesValue g hvalue, unfold_of_takesValue g' hvalue]

/-- Either all options in a word give settings, or none does. -/
theorem isSetting_of_unfold {word : OptionWord} {unfolded : Unfolded}
    (h : unfold fullGrammar word = .ok unfolded) :
    ∀ name ∈ unfolded.names, name.isSetting = word.name.isSetting := by
  cases hvalue : word.name.takesValue with
  | true =>
      rw [unfold_of_takesValue fullGrammar hvalue] at h
      cases hattached : word.attached with
      | none =>
          rw [hattached] at h
          obtain rfl := Except.ok.inj h
          simp [Unfolded.names]
      | some text =>
          rw [hattached] at h
          obtain rfl := Except.ok.inj h
          simp [Unfolded.names]
  | false =>
      have hname : word.name.isSetting = false := by
        by_contra hsetting
        rw [takesValue_of_isSetting (by simpa using hsetting)] at hvalue
        cases hvalue
      rw [unfold] at h
      cases hattached : word.attached with
      | none =>
          simp only [hattached, hvalue, Bool.false_eq_true, if_false] at h
          obtain rfl := Except.ok.inj h
          simp [Unfolded.names]
      | some text =>
          simp only [hattached, hvalue, Bool.false_eq_true, if_false] at h
          split at h
          · cases h
          · rw [hname]
            exact not_isSetting_of_unfoldShort hname h

/-! ### All words -/

/-- The uses of options that give settings. -/
def settingUses (uses : List Use) : List Use := uses.filter fun u => u.name.isSetting

theorem settingUses_append (uses more : List Use) :
    settingUses (uses ++ more) = settingUses uses ++ settingUses more :=
  List.filter_append ..

/-- All uses in a word give settings, or none does. -/
theorem settingUses_of_unfold {word : OptionWord} {unfolded : Unfolded}
    (h : unfold fullGrammar word = .ok unfolded) {uses : List Use}
    (hnames : ∀ u ∈ uses, u.name ∈ unfolded.names) :
    settingUses uses = if word.name.isSetting then uses else [] := by
  have hsame : ∀ u ∈ uses, u.name.isSetting = word.name.isSetting := fun u hu =>
    isSetting_of_unfold h u.name (hnames u hu)
  split
  · rename_i hsetting
    exact List.filter_eq_self.mpr fun u hu => by rw [hsame u hu, hsetting]
  · rename_i hother
    exact List.filter_eq_nil_iff.mpr fun u hu => by rw [hsame u hu]; exact hother

@[simp] theorem Scan.withArgument_uses (s : Scan) (phase : Phase) (text : String) :
    (s.withArgument phase text).uses = s.uses := by cases phase <;> rfl

@[simp] theorem Scan.withArgument_error (s : Scan) (phase : Phase) (text : String) :
    (s.withArgument phase text).error = s.error := by cases phase <;> rfl

@[simp] theorem Scan.withLeftover_uses (s : Scan) (text : String) :
    (s.withLeftover text).uses = s.uses := rfl

@[simp] theorem Scan.withLeftover_error (s : Scan) (text : String) :
    (s.withLeftover text).error = s.error := rfl

@[simp] theorem Scan.withUses_uses (s : Scan) (uses : List Use) :
    (s.withUses uses).uses = uses ++ s.uses := rfl

@[simp] theorem Scan.withUses_error (s : Scan) (uses : List Use) :
    (s.withUses uses).error = s.error := rfl

/-- A word that is no option is passed over: neither the uses nor the errors change. -/
theorem scanWords_cons_of_not_option (g : Grammar) (phase : Phase) (word : Word) (rest : List Word)
    (h : ∀ option, word ≠ .option option) :
    ∃ next, (scanWords g phase (word :: rest)).uses = (scanWords g next rest).uses ∧
      (scanWords g phase (word :: rest)).error = (scanWords g next rest).error := by
  cases word with
  | argument text => exact ⟨Scan.nextPhase phase, by simp [scanWords], by simp [scanWords]⟩
  | unknown text => exact ⟨phase.close, by simp [scanWords], by simp [scanWords]⟩
  | option option => exact absurd rfl (h option)

/-- A word whose options are complete. -/
theorem scanWords_option {g : Grammar} {word : OptionWord} {unfolded : Unfolded}
    (h : unfold g word = .ok unfolded) (hcomplete : unfolded.awaiting = none) (phase : Phase)
    (rest : List Word) :
    scanWords g phase (.option word :: rest) =
      (scanWords g phase.close rest).withUses unfolded.uses := by
  simp [scanWords, h, hcomplete]

/-- A word whose last option has its value in the next word. -/
theorem scanWords_option_value {g : Grammar} {word : OptionWord} {unfolded : Unfolded}
    {name : OptionName} {value : String} (h : unfold g word = .ok unfolded)
    (hawaiting : unfolded.awaiting = some name) (hvalue : value ≠ "--") (phase : Phase)
    (rest : List Word) :
    scanWords g phase (.option word :: .argument value :: rest) =
      (scanWords g phase.close rest).withUses (unfolded.uses ++ [⟨name, some value⟩]) := by
  simp [scanWords, h, hawaiting, hvalue]

/-- **The words, scanned for the settings only.** As long as the scan for all options finds no error,
the one for the options of settings finds none, and uses the same of these options. The phases of the
two need not be the same, as they say nothing about options. -/
theorem scanWords_settingsGrammar {words seen : List Word} (hseen : List.Forall₂ Word.SeenAs words seen)
    (phase phase' : Phase) (h : (scanWords fullGrammar phase words).error = none) :
    (scanWords settingsGrammar phase' seen).error = none ∧
      (scanWords settingsGrammar phase' seen).uses =
        settingUses (scanWords fullGrammar phase words).uses := by
  fun_induction scanWords fullGrammar phase words generalizing seen phase' with
  | case1 =>
      cases hseen
      exact ⟨rfl, rfl⟩
  | case2 phase text rest ih =>
      obtain _ | ⟨hword, hrest⟩ := hseen
      cases hword
      simpa [scanWords] using ih hrest (Scan.nextPhase phase') (by simpa using h)
  | case3 phase text rest ih =>
      obtain _ | ⟨hword, hrest⟩ := hseen
      cases hword
      simpa [scanWords] using ih hrest phase'.close (by simpa using h)
  | case4 => cases h
  | case5 phase word unfolded hunfold rest hcomplete ih =>
      obtain _ | ⟨hword, hrest⟩ := hseen
      rw [Scan.withUses_error] at h
      rw [Scan.withUses_uses, settingUses_append,
        settingUses_of_unfold hunfold fun u hu => Unfolded.mem_names_of_mem_uses hu]
      cases hword with
      | setting hsetting =>
          rw [unfold_congr_of_isSetting fullGrammar settingsGrammar hsetting] at hunfold
          obtain ⟨herror, huses⟩ := ih hrest phase'.close h
          rw [scanWords_option hunfold hcomplete, Scan.withUses_error, Scan.withUses_uses,
            if_pos hsetting, huses]
          exact ⟨herror, rfl⟩
      | other hother hnone =>
          obtain ⟨next, huses, herror⟩ := scanWords_cons_of_not_option settingsGrammar phase' _ _ hnone
          rw [huses, herror, if_neg (by simp [hother])]
          exact ih hrest next h
  | case6 => cases h
  | case7 phase word unfolded hunfold name value rest hawaiting hvalue ih =>
      obtain _ | ⟨hword, hrest⟩ := hseen
      obtain _ | ⟨hargument, hrest⟩ := hrest
      cases hargument
      rw [Scan.withUses_error] at h
      have hnames : ∀ u ∈ unfolded.uses ++ [⟨name, some value⟩], u.name ∈ unfolded.names := by
        intro u hu
        rcases List.mem_append.mp hu with hu | hu
        · exact Unfolded.mem_names_of_mem_uses hu
        · rw [List.mem_singleton.mp hu]
          exact List.mem_append_right _ (by simp [hawaiting])
      rw [Scan.withUses_uses, settingUses_append, settingUses_of_unfold hunfold hnames]
      cases hword with
      | setting hsetting =>
          rw [unfold_congr_of_isSetting fullGrammar settingsGrammar hsetting] at hunfold
          obtain ⟨herror, huses⟩ := ih hrest phase'.close h
          rw [scanWords_option_value hunfold hawaiting hvalue, Scan.withUses_error, Scan.withUses_uses,
            if_pos hsetting, huses]
          exact ⟨herror, rfl⟩
      | other hother hnone =>
          -- The value is one more argument.
          obtain ⟨next, huses, herror⟩ := scanWords_cons_of_not_option settingsGrammar phase' _ _ hnone
          obtain ⟨next', huses', herror'⟩ :=
            scanWords_cons_of_not_option settingsGrammar next (.argument value) _ (by simp)
          rw [huses, herror, huses', herror', if_neg (by simp [hother])]
          exact ih hrest next' h
  | case8 => cases h

/-- **The second reading of a command line.** -/
theorem exists_scan_settingsGrammar {args : List String} {s : Scan}
    (h : scan fullGrammar args = .ok s) (herror : s.error = none) :
    ∃ seen, scan settingsGrammar args = .ok seen ∧ seen.error = none ∧
      seen.uses = settingUses s.uses := by
  obtain ⟨words, hwords, h⟩ := bind_eq_ok_iff.mp h
  obtain rfl := Except.ok.inj h
  obtain ⟨seenWords, hseenWords, hseen⟩ := exists_classifyAll_settingsGrammar hwords
  obtain ⟨hnone, huses⟩ := scanWords_settingsGrammar hseen .before .before herror
  let seen := scanWords settingsGrammar .before seenWords
  refine ⟨{ seen with arguments := seen.arguments.erase "--" }, ?_, hnone, huses⟩
  rw [scan, hseenWords]
  rfl

/-! ### Settings given on the command line -/

/-- A command line gives a setting by an argument, or by the option of the setting. -/
def Scan.Gives (s : Scan) : SettingName → Prop
  | .expressions => s.arguments ≠ []
  | name => ∃ u ∈ s.uses, u.name.setting? = some name

theorem mem_givenByOptions_iff {args : List String} {s : Scan} (h : scan fullGrammar args = .ok s)
    (herror : s.error = none) (name : SettingName) :
    name ∈ givenByOptions args ↔ ∃ u ∈ s.uses, u.name.setting? = some name := by
  obtain ⟨seen, hseen, -, huses⟩ := exists_scan_settingsGrammar h herror
  rw [givenByOptions, hseen]
  dsimp only
  rw [List.mem_eraseDups, List.mem_filterMap, huses]
  constructor
  · rintro ⟨u, hu, hname⟩
    exact ⟨u, (List.mem_filter.mp hu).1, hname⟩
  · rintro ⟨u, hu, hname⟩
    exact ⟨u, List.mem_filter.mpr ⟨hu, by simp [OptionName.isSetting, hname]⟩, hname⟩

/-- The settings found by the second reading are those that the first takes from the command line. -/
theorem mem_givenSettings_iff {args : List String} {s : Scan} (h : scan fullGrammar args = .ok s)
    (herror : s.error = none) {o : Options} (harguments : o.expressions = s.arguments)
    (name : SettingName) : name ∈ givenSettings args o ↔ s.Gives name := by
  rw [givenSettings, List.mem_append, mem_givenByOptions_iff h herror, harguments]
  cases name with
  | expressions =>
      have hnone : ∀ u : Use, u.name.setting? ≠ some .expressions := by
        intro u
        cases u.name <;> simp [OptionName.setting?]
      simp [Scan.Gives, hnone]
  | searchPath | maxWorkers | format | remoteTimeout =>
      have hnot : ∀ name ≠ SettingName.expressions,
          name ∉ (if s.arguments = [] then [] else [SettingName.expressions]) := by
        intro name hne
        split <;> simp [hne]
      simp [Scan.Gives, hnot]

end CommandLine

/-! ### What the options come to -/

/-- A use that can be made: it has a value of its kind, and does not ask for help. -/
def CommandLine.Use.IsUsable (u : Use) : Prop :=
  match u.name, u.value with
  | .help, _ => False
  | .maxWorkers, some text => (Number.readInteger text).isSome
  | .format, some text => text ∈ Options.formats
  | .remoteTimeout, some text => (Binary64.ofText? text).isSome
  | _, _ => True

namespace Options

/-- The values of an option, in the order in which they stand on the command line. -/
def valuesOf (name : OptionName) (uses : List Use) : List (Option String) :=
  (uses.filter fun u => u.name = name).map (·.value)

/-- Some options with the values on the command line in the place of theirs. The last value of an
option counts; all entries of the search path do. -/
def taking (o : Options) (uses : List Use) : Options where
  expressions := o.expressions
  searchPath :=
    if valuesOf .searchPath uses = [] then o.searchPath
    else some (o.searchPath.getD [] ++ valuesOf .searchPath uses)
  maxWorkers :=
    ((valuesOf .maxWorkers uses).getLast?.map fun v => v.bind Number.readInteger).getD o.maxWorkers
  format := (valuesOf .format uses).getLast?.getD o.format
  output := (valuesOf .output uses).getLast?.getD o.output
  cat := o.cat || valuesOf .cat uses ≠ []
  remoteTimeout :=
    ((valuesOf .remoteTimeout uses).getLast?.map fun v => v.bind Binary64.ofText?).getD o.remoteTimeout
  verbose := o.verbose || valuesOf .verbose uses ≠ []
  version := o.version || valuesOf .version uses ≠ []

theorem valuesOf_cons (name : OptionName) (u : Use) (uses : List Use) :
    valuesOf name (u :: uses) =
      if u.name = name then u.value :: valuesOf name uses else valuesOf name uses := by
  unfold valuesOf
  rw [List.filter_cons]
  split <;> simp_all

@[simp] theorem valuesOf_nil (name : OptionName) : valuesOf name [] = [] := rfl

theorem taking_nil (o : Options) : o.taking [] = o := by
  simp [taking]

theorem taking_cons (o : Options) (u : Use) (uses : List Use) :
    o.taking (u :: uses) = (o.taking [u]).taking uses := by
  obtain ⟨name, value⟩ := u
  simp only [taking, valuesOf_cons, valuesOf_nil]
  cases name <;> simp [List.getLast?_cons, Option.getD_map]

/-- **One option.** -/
theorem use_eq_options_iff {o o' : Options} {u : Use} :
    o.use u = .options o' ↔ u.IsUsable ∧ o.taking [u] = o' := by
  obtain ⟨name, value⟩ := u
  simp only [taking, valuesOf_cons, valuesOf_nil]
  unfold use Use.IsUsable
  cases name with
  | help | searchPath | output | cat | verbose | version => simp
  | maxWorkers =>
      cases value with
      | none => simp
      | some text => cases h : Number.readInteger text <;> simp [h]
  | format =>
      cases value with
      | none => simp
      | some text => by_cases h : text ∈ formats <;> simp [h]
  | remoteTimeout =>
      cases value with
      | none => simp
      | some text => cases h : Binary64.ofText? text <;> simp [h]

/-- **All options.** -/
theorem useAll_eq_options_iff {o o' : Options} {uses : List Use} :
    o.useAll uses = .options o' ↔ (∀ u ∈ uses, u.IsUsable) ∧ o.taking uses = o' := by
  induction uses generalizing o with
  | nil => simp [useAll, taking_nil]
  | cons u rest ih =>
      rw [useAll, List.forall_mem_cons, taking_cons]
      cases huse : o.use u with
      | options next =>
          obtain ⟨husable, rfl⟩ := use_eq_options_iff.mp huse
          simp [ih, husable]
      | help | wrong =>
          have hnot : ¬ u.IsUsable := fun husable => by
            rw [use_eq_options_iff.mpr ⟨husable, rfl⟩] at huse
            cases huse
          simp [hnot]

/-- The options that a scanned command line comes to. -/
def ofUses (s : Scan) : Options := { standard.taking s.uses with expressions := s.arguments }

theorem ofScan_eq_options_iff {s : Scan} {o : Options} :
    ofScan s = .options o ↔
      (∀ u ∈ s.uses, u.IsUsable) ∧ s.error = none ∧ s.leftover = [] ∧ ofUses s = o := by
  unfold ofScan
  cases huse : standard.useAll s.uses with
  | options next =>
      obtain ⟨husable, rfl⟩ := useAll_eq_options_iff.mp huse
      rw [and_iff_right husable]
      cases herror : s.error with
      | some e => simp
      | none => by_cases hleftover : s.leftover = [] <;> simp [hleftover, ofUses]
  | help | wrong =>
      have hnot : ¬ ∀ u ∈ s.uses, u.IsUsable := fun husable => by
        rw [useAll_eq_options_iff.mpr ⟨husable, rfl⟩] at huse
        cases huse
      simp [hnot]

end Options

namespace CommandLine

/-- **When a command line asks for a run**, and for which one. -/
theorem parse_eq_run_iff {args : List String} {options : Options} {given : List SettingName} :
    parse args = .run options given ↔
      ∃ s, scan fullGrammar args = .ok s ∧ ((∀ u ∈ s.uses, u.IsUsable) ∧ s.error = none ∧
        s.leftover = [] ∧ Options.ofUses s = options) ∧ givenSettings args options = given := by
  simp only [← Options.ofScan_eq_options_iff]
  unfold parse
  cases scan fullGrammar args with
  | error e => simp
  | ok s =>
      cases hof : Options.ofScan s with
      | options o =>
          simp only [Request.run.injEq, Except.ok.injEq, exists_eq_left', hof, Progress.options.injEq]
          constructor
          · rintro ⟨rfl, rfl⟩
            exact ⟨rfl, rfl⟩
          · rintro ⟨rfl, rfl⟩
            exact ⟨rfl, rfl⟩
      | help | wrong => simp [hof]

end CommandLine

/-! ### Precedence -/

/-- The value of a setting that is in force: the one of the command line if that gives it, else the one
of the settings file if that has one, else the standard one. -/
structure IsInForce {α : Type} (given : Prop) (own : α) (setting : Option α) (standard value : α) :
    Prop where
  of_given : given → value = own
  of_setting : ¬ given → ∀ v, setting = some v → value = v
  of_neither : ¬ given → setting = none → value = standard

/-- A value of the command line that is the standard one where the command line does not give it. -/
theorem isInForce_inForce {α : Type} {names : List SettingName} {name : SettingName} {given : Prop}
    {own standard : α} (hnames : name ∈ names ↔ given) (hstandard : ¬ given → own = standard)
    (setting : Option α) :
    IsInForce given own setting standard (inForce (names.contains name) setting own) := by
  by_cases hgiven : given
  · have hmem : names.contains name = true := by simpa using hnames.mpr hgiven
    refine ⟨fun _ => by rw [inForce, if_pos hmem], fun hnot => absurd hgiven hnot,
      fun hnot => absurd hgiven hnot⟩
  · have hmem : ¬ names.contains name = true := by simpa using mt hnames.mp hgiven
    refine ⟨fun h => absurd h hgiven, fun _ v hv => ?_, fun _ hnone => ?_⟩
    · rw [inForce, if_neg hmem, hv, Option.getD_some]
    · rw [inForce, if_neg hmem, hnone, Option.getD_none, hstandard hgiven]

/-- An option that is not used has no values. -/
theorem Options.valuesOf_eq_nil {s : Scan} (name : OptionName) {setting : SettingName}
    (hsetting : name.setting? = some setting) (h : ¬ ∃ u ∈ s.uses, u.name.setting? = some setting) :
    valuesOf name s.uses = [] := by
  rw [valuesOf, List.map_eq_nil_iff, List.filter_eq_nil_iff]
  intro u hu hname
  obtain rfl : u.name = name := by simpa using hname
  exact h ⟨u, hu, hsetting⟩

/-- **Whose settings count.** A command line that asks for a run gives the settings that it has an
argument or an option for, whatever their values are; the reading for the settings alone finds the same
options. Of each setting the value on the command line is in force if there is one, else the one in the
settings file, else the standard one; and what no settings file has a say in stays as it is on the
command line. -/
theorem parse_merge_precedence {args : List String} {options : Options} {given : List SettingName}
    (file : Settings) (h : parse args = .run options given) :
    ∃ s, scan fullGrammar args = .ok s ∧ options = Options.ofUses s ∧ (∀ u ∈ s.uses, u.IsUsable) ∧
      (∃ seen, scan settingsGrammar args = .ok seen ∧ seen.error = none ∧
        seen.uses = settingUses s.uses) ∧
      (∀ name, name ∈ given ↔ s.Gives name) ∧
      IsInForce (s.Gives .expressions) options.expressions file.expressions
        Options.standard.expressions (options.merge file given).expressions ∧
      IsInForce (s.Gives .searchPath) options.searchPath
        (file.searchPath.map fun entries => some (entries.map some))
        Options.standard.searchPath (options.merge file given).searchPath ∧
      IsInForce (s.Gives .maxWorkers) options.maxWorkers (file.maxWorkers.map some)
        Options.standard.maxWorkers (options.merge file given).maxWorkers ∧
      IsInForce (s.Gives .format) options.format (file.format.map some)
        Options.standard.format (options.merge file given).format ∧
      IsInForce (s.Gives .remoteTimeout) options.remoteTimeout (file.remoteTimeout.map some)
        Options.standard.remoteTimeout (options.merge file given).remoteTimeout ∧
      (options.merge file given).output = options.output ∧
      (options.merge file given).cat = options.cat ∧
      (options.merge file given).verbose = options.verbose ∧
      (options.merge file given).version = options.version := by
  obtain ⟨s, hscan, ⟨husable, herror, -, rfl⟩, rfl⟩ := parse_eq_run_iff.mp h
  have hgiven := mem_givenSettings_iff hscan herror (o := Options.ofUses s) rfl
  refine ⟨s, hscan, rfl, husable, exists_scan_settingsGrammar hscan herror, hgiven, ?_, ?_, ?_, ?_, ?_,
    rfl, rfl, rfl, rfl⟩
  · exact isInForce_inForce (hgiven _) not_not.mp _
  · refine isInForce_inForce (hgiven _) (fun hnot => ?_) _
    simp [Options.ofUses, Options.taking, Options.valuesOf_eq_nil .searchPath rfl hnot]
  · refine isInForce_inForce (hgiven _) (fun hnot => ?_) _
    simp [Options.ofUses, Options.taking, Options.valuesOf_eq_nil .maxWorkers rfl hnot]
  · refine isInForce_inForce (hgiven _) (fun hnot => ?_) _
    simp [Options.ofUses, Options.taking, Options.valuesOf_eq_nil .format rfl hnot]
  · refine isInForce_inForce (hgiven _) (fun hnot => ?_) _
    simp [Options.ofUses, Options.taking, Options.valuesOf_eq_nil .remoteTimeout rfl hnot]

/-- A shortened option with its standard value, and a settings file that has other ideas. -/
theorem merge_shortened_option_and_file :
    let file : Settings := ⟨some ["y"], some ["lib"], some 2, none, none⟩
    let options : Options := { Options.standard with expressions := ["x"], verbose := true }
    let given : List SettingName := [.expressions, .maxWorkers, .format]
    parse ["--max-work", "4", "-v", "x", "--format=list"] = .run options given ∧
      (options.merge file given).expressions = ["x"] ∧
      (options.merge file given).searchPath = some [some "lib"] ∧
      (options.merge file given).maxWorkers = some 4 ∧
      (options.merge file given).remoteTimeout = Options.standard.remoteTimeout ∧
      (options.merge file given).verbose = true := by
  intro file options given
  have hparse : parse ["--max-work", "4", "-v", "x", "--format=list"] = .run options given := by
    decide +kernel
  obtain ⟨s, -, -, -, -, hgiven, hexpressions, hpath, hworkers, -, htimeout, -, -, hverbose, -⟩ :=
    parse_merge_precedence file hparse
  have hnot : ∀ name, name ∉ given → ¬ s.Gives name := fun name => mt (hgiven name).mpr
  exact ⟨hparse, hexpressions.of_given ((hgiven _).mp (by decide)),
    hpath.of_setting (hnot _ (by decide)) _ rfl, hworkers.of_given ((hgiven _).mp (by decide)),
    htimeout.of_neither (hnot _ (by decide)) rfl, hverbose⟩

end AntResources
