import AntResources.Proofs.SegmentText
import AntResources.Proofs.SettingsPrecedence

/-!
# AntResources.Proofs.WrittenCommands

**A command line that is written in full says what it was written for.** An option that is spelled in full, with
its value behind an `=`, is one word and is understood as this option with this value, whatever the value looks
like, as long as it is not the mark that ends the options (`classify_word`, `unfold_word`). Behind this mark all
is argument. So any row of options and any arguments are found again (`scan_words`), and a whole command is read
back from the line that is written for it (`Command.parse_words`).
-/

namespace AntResources

/-! ### Whole numbers -/

namespace Number

open Text

theorem toNat_of_isDigit {c : Char} (h : c.isDigit = true) : 0x30 ≤ c.toNat ∧ c.toNat ≤ 0x39 := by
  simp only [Char.isDigit, Bool.and_eq_true, decide_eq_true_eq] at h
  exact h

theorem digitValue?_of_isDigit {c : Char} (h : c.isDigit = true) :
    digitValue? c = some (c.toNat - '0'.toNat) := by
  obtain ⟨hlow, hhigh⟩ := toNat_of_isDigit h
  have hrange : (0x30 ≤ c.toNat && c.toNat < 0x30 + 10) = true := by
    simp only [Bool.and_eq_true, decide_eq_true_eq]
    omega
  have hzeros : zeros = 0x30 :: zeros.tail := rfl
  rw [digitValue?, hzeros, List.find?_cons, hrange]
  rfl

theorem not_isNumberBlank_of_isDigit {c : Char} (h : c.isDigit = true) : isNumberBlank c = false := by
  obtain ⟨hlow, hhigh⟩ := toNat_of_isDigit h
  have hranges : ∀ range ∈ blankRanges, range.2 < 0x30 ∨ 0x39 < range.1 := by decide
  have hblank : isBlank c = false := by
    rw [isBlank, List.any_eq_false]
    intro range hrange
    have := hranges range hrange
    simp only [Bool.and_eq_true, decide_eq_true_eq]
    omega
  rw [isNumberBlank, hblank, Bool.false_and]

/-- A text of digits is one run. -/
theorem digitsFrom_of_isDigit {cs : List Char} (h : ∀ c ∈ cs, c.isDigit = true) (afterDigit : Bool) :
    digitsFrom afterDigit cs = (cs.map fun c => c.toNat - '0'.toNat, []) := by
  induction cs generalizing afterDigit with
  | nil => rfl
  | cons c cs ih =>
      obtain ⟨hc, hcs⟩ := List.forall_mem_cons.mp h
      have hline : c ≠ '_' := fun heq => by simp [heq] at hc
      simp [digitsFrom, hline, digitValue?_of_isDigit hc, ih hcs]

theorem trimNumber_of_not_blank {cs : List Char} (h : ∀ c ∈ cs, isNumberBlank c = false) :
    trimNumber cs = cs := by
  have hkeep : ∀ cs : List Char, (∀ c ∈ cs, isNumberBlank c = false) →
      cs.dropWhile isNumberBlank = cs := by
    intro cs hcs
    rw [List.dropWhile_eq_self_iff]
    intro hlength
    simp [hcs]
  rw [trimNumber, hkeep cs h, hkeep cs.reverse (by simpa using h), List.reverse_reverse]

theorem ofDigits_toDigits (n : Nat) :
    ofDigits ((Nat.toDigits 10 n).map fun c => c.toNat - '0'.toNat) = n := by
  rw [ofDigits, List.foldl_map]
  exact Nat.ofDigitChars_ten_toDigits

theorem isDigit_of_mem_toDigits {m : Nat} : ∀ c ∈ Nat.toDigits 10 m, c.isDigit = true := fun _ =>
  Nat.isDigit_of_mem_toDigits (by decide) (by decide)

theorem splitSign_of_isDigit {cs : List Char} (h : ∀ c ∈ cs, c.isDigit = true) :
    splitSign cs = (false, cs) := by
  fun_cases splitSign cs with
  | case1 | case2 => exact absurd (h _ List.mem_cons_self) (by decide)
  | case3 => rfl

/-- A text that is decimal digits behind its sign. -/
theorem readInteger_of_splitSign {text : String} {negative : Bool} {m : Nat}
    (htext : splitSign (trimNumber text.toList) = (negative, Nat.toDigits 10 m))
    (h : (Nat.toDigits 10 m).length ≤ maxDigits) :
    readInteger text = some (if negative then -(m : Int) else m) := by
  have hrun : digitRun (Nat.toDigits 10 m) =
      ((Nat.toDigits 10 m).map fun c => c.toNat - '0'.toNat, []) :=
    digitsFrom_of_isDigit isDigit_of_mem_toDigits false
  have hnumber : ¬ ((Nat.toDigits 10 m).map (fun c => c.toNat - '0'.toNat) = [] ∨
      maxDigits < ((Nat.toDigits 10 m).map fun c => c.toNat - '0'.toNat).length) := by
    rw [List.map_eq_nil_iff, List.length_map]
    rintro (hnil | hlong)
    · exact Nat.toDigits_ne_nil hnil
    · omega
  simp only [readInteger, htext, hrun, if_neg hnumber, ofDigits_toDigits]
  cases negative <;> rfl

/-- **A whole number is read from its decimal digits.** -/
theorem readInteger_repr {n : Int} (h : n.natAbs.repr.length ≤ maxDigits) :
    readInteger n.repr = some n := by
  rw [← String.length_toList, Nat.toList_repr] at h
  have hblank : ∀ m, ∀ c ∈ Nat.toDigits 10 m, isNumberBlank c = false := fun m c hc =>
    not_isNumberBlank_of_isDigit (isDigit_of_mem_toDigits c hc)
  cases n with
  | ofNat m =>
      have htext : (Int.ofNat m).repr.toList = Nat.toDigits 10 m := Nat.toList_repr
      have hsplit : splitSign (trimNumber (Int.ofNat m).repr.toList) = (false, Nat.toDigits 10 m) := by
        rw [htext, trimNumber_of_not_blank (hblank m), splitSign_of_isDigit isDigit_of_mem_toDigits]
      exact readInteger_of_splitSign hsplit h
  | negSucc m =>
      have htext : (Int.negSucc m).repr.toList = '-' :: Nat.toDigits 10 (m + 1) := by
        rw [← Nat.toList_repr]
        exact String.toList_append
      have hdash : isNumberBlank '-' = false := by decide
      have hsplit : splitSign (trimNumber (Int.negSucc m).repr.toList) =
          (true, Nat.toDigits 10 (m + 1)) := by
        rw [htext, trimNumber_of_not_blank (List.forall_mem_cons.mpr ⟨hdash, hblank (m + 1)⟩)]
        rfl
      exact readInteger_of_splitSign hsplit h

end Number

namespace CommandLine

/-! ### One option, as one word -/

/-- The long spelling of an option. -/
def OptionName.fullSpelling (name : OptionName) : String := name.spellings.getLastD ""

namespace OptionName

variable (name : OptionName)

theorem option?_fullSpelling : fullGrammar.option? name.fullSpelling.toList = some name := by
  cases name <;> decide

theorem isShortSpelling_fullSpelling : isShortSpelling name.fullSpelling.toList = false := by
  cases name <;> decide

theorem noEquals_fullSpelling : '=' ∉ name.fullSpelling.toList :=
  noEquals_of_mem_spellings _ (option?_eq_some_iff.mp name.option?_fullSpelling)

theorem exists_fullSpelling : ∃ c rest, name.fullSpelling.toList = '-' :: '-' :: c :: rest := by
  cases name <;> exact ⟨_, _, rfl⟩

end OptionName

namespace Use

/-- An option with its value, written as one word. -/
def word (u : Use) : String :=
  match u.value with
  | some value => u.name.fullSpelling ++ "=" ++ value
  | none => u.name.fullSpelling

/-- The option in the word for a use. -/
def optionWord (u : Use) : OptionWord := ⟨u.name, false, u.value.map String.toList⟩

/-- A use that has a word: the option comes with a value if it takes one, and the value is not the mark that ends
the options. -/
def IsWritable (u : Use) : Prop :=
  match u.value with
  | some value => u.name.takesValue = true ∧ value ≠ "--"
  | none => u.name.takesValue = false

variable (u : Use)

theorem splitEquals_append {spelling : List Char} (h : '=' ∉ spelling) (value : List Char) :
    splitEquals (spelling ++ '=' :: value) = (spelling, some value) := by
  obtain ⟨htake, hdrop⟩ := Text.cut_append h value
  simp only [splitEquals, htake, hdrop]

theorem toList_word : u.word.toList =
    u.name.fullSpelling.toList ++ (u.value.map fun value => '=' :: value.toList).getD [] := by
  unfold word
  cases u.value <;> simp

theorem exists_word : ∃ c rest, u.word.toList = '-' :: '-' :: c :: rest := by
  obtain ⟨c, rest, hname⟩ := u.name.exists_fullSpelling
  exact ⟨c, _, by rw [toList_word, hname]; rfl⟩

theorem word_ne_mark : u.word ≠ "--" := by
  obtain ⟨c, rest, hword⟩ := u.exists_word
  intro hmark
  simp [hmark] at hword

/-- **The word for an option** spells this option, with all that stands behind the `=` as its value. -/
theorem spelled?_word : spelled? fullGrammar u.word.toList = some u.optionWord := by
  rw [toList_word, spelled?, optionWord]
  cases u.value with
  | none => simp [u.name.option?_fullSpelling, u.name.isShortSpelling_fullSpelling]
  | some value =>
      -- No spelling has an `=` in it.
      have hwhole : fullGrammar.option? (u.name.fullSpelling.toList ++ '=' :: value.toList) = none := by
        refine Option.eq_none_iff_forall_ne_some.mpr fun name hname => ?_
        exact noEquals_of_mem_spellings _ (option?_eq_some_iff.mp hname) (by simp)
      simp [hwhole, splitEquals_append u.name.noEquals_fullSpelling, u.name.option?_fullSpelling,
        u.name.isShortSpelling_fullSpelling]

theorem classify_word : classify fullGrammar u.word = .ok (.option u.optionWord) := by
  obtain ⟨c, rest, hword⟩ := u.exists_word
  rw [classify_eq (by simp [hword]) (by simp [hword]), spelled?_word]

variable {u}

theorem unfold_word (h : u.IsWritable) : unfold fullGrammar u.optionWord = .ok ⟨[u], none⟩ := by
  obtain ⟨name, value⟩ := u
  cases value with
  | none =>
      have hvalue : name.takesValue = false := h
      simp [unfold, optionWord, hvalue]
  | some value =>
      obtain ⟨hvalue, hmark⟩ : name.takesValue = true ∧ value ≠ "--" := h
      have hwritten : writtenValue value.toList = some value := by
        have hchars : value.toList ≠ ['-', '-'] := fun heq => hmark (String.toList_inj.mp heq)
        rw [writtenValue, if_neg hchars, String.ofList_toList]
      rw [unfold_of_takesValue fullGrammar hvalue]
      simp [optionWord, hwritten]

end Use

/-! ### All options, and the arguments -/

variable {uses : List Use} (arguments : List String)

/-- The words for some options, and for arguments behind the mark that ends the options. -/
def wordsFor (uses : List Use) (arguments : List String) : List String :=
  uses.map Use.word ++ "--" :: arguments

theorem classifyAll_words (uses : List Use) :
    classifyAll fullGrammar (wordsFor uses arguments) =
      .ok (uses.map (fun u => .option u.optionWord) ++ ("--" :: arguments).map .argument) := by
  induction uses with
  | nil => rfl
  | cons u uses ih =>
      have hwords : wordsFor (u :: uses) arguments = u.word :: wordsFor uses arguments := rfl
      rw [hwords, classifyAll, if_neg u.word_ne_mark, u.classify_word, ih]
      rfl

/-- Behind the options there is one run of arguments. -/
theorem scanWords_arguments (g : Grammar) (phase : Phase) (h : phase ≠ .behind) :
    scanWords g phase (arguments.map .argument) = ⟨[], arguments, [], none⟩ := by
  induction arguments generalizing phase with
  | nil => rfl
  | cons text rest ih =>
      cases phase with
      | before | inside =>
          rw [List.map_cons, scanWords, Scan.nextPhase, ih .inside (by simp)]
          rfl
      | behind => exact absurd rfl h

/-- **Some options and arguments, written one after the other,** are found again. -/
theorem scan_words (h : ∀ u ∈ uses, u.IsWritable) :
    scan fullGrammar (wordsFor uses arguments) = .ok ⟨uses, arguments, [], none⟩ := by
  have hscan : scanWords fullGrammar .before
      (uses.map (fun u => .option u.optionWord) ++ ("--" :: arguments).map .argument) =
        ⟨uses, "--" :: arguments, [], none⟩ := by
    induction uses with
    | nil => exact scanWords_arguments ("--" :: arguments) fullGrammar .before (by simp)
    | cons u uses ih =>
        obtain ⟨hu, huses⟩ := List.forall_mem_cons.mp h
        rw [List.map_cons, List.cons_append, scanWords_option (Use.unfold_word hu) rfl, Phase.close,
          ih huses]
        rfl
  rw [scan, classifyAll_words, ok_bind, hscan]
  simp [pure, Except.pure]

/-- What a command line gives that is written for some options and arguments. -/
theorem parse_wordsFor (hwritable : ∀ u ∈ uses, u.IsWritable) (husable : ∀ u ∈ uses, u.IsUsable) :
    ∃ given, parse (wordsFor uses arguments) =
        .run { Options.standard.taking uses with expressions := arguments } given ∧
      ∀ name, name ∈ given ↔ Scan.Gives ⟨uses, arguments, [], none⟩ name := by
  have hscan := scan_words arguments hwritable
  exact ⟨_, parse_eq_run_iff.mpr ⟨_, hscan, ⟨husable, rfl, rfl, rfl⟩, rfl⟩,
    mem_givenSettings_iff hscan rfl rfl⟩

end CommandLine

/-! ### Commands -/

/-- What a command line can be written for. -/
structure Command where
  searchPath : List String
  maxWorkers : Int
  format : String
  output : String
  cat : Bool
  verbose : Bool
  expressions : List String
  /-- The mark that ends the options is not a value of one. -/
  entry_ne_mark : ∀ entry ∈ searchPath, entry ≠ "--"
  output_ne_mark : output ≠ "--"
  length_maxWorkers_le : (toString maxWorkers.natAbs).length ≤ Number.maxDigits
  format_mem_formats : format ∈ Options.formats

namespace Command

open CommandLine

variable (c : Command)

/-- The command line for a command. -/
def words : List String :=
  c.searchPath.map ("--search-path=" ++ ·) ++
    ["--max-workers=" ++ toString c.maxWorkers, "--format=" ++ c.format, "--output=" ++ c.output] ++
    (if c.cat then ["--cat"] else []) ++ (if c.verbose then ["--verbose"] else []) ++
    "--" :: c.expressions

/-- The options of a command. -/
def options : Options where
  expressions := c.expressions
  searchPath := if c.searchPath = [] then none else some (c.searchPath.map some)
  maxWorkers := some c.maxWorkers
  format := some c.format
  output := some c.output
  cat := c.cat
  remoteTimeout := Options.standard.remoteTimeout
  verbose := c.verbose
  version := false

/-- The settings that a command gives. -/
def Gives : SettingName → Prop
  | .expressions => c.expressions ≠ []
  | .searchPath => c.searchPath ≠ []
  | .maxWorkers | .format => True
  | .remoteTimeout => False

/-- The uses of options in a command. -/
def uses : List Use :=
  c.searchPath.map (fun entry => ⟨.searchPath, some entry⟩) ++
    [⟨.maxWorkers, some (toString c.maxWorkers)⟩, ⟨.format, some c.format⟩, ⟨.output, some c.output⟩] ++
    (if c.cat then [⟨.cat, none⟩] else []) ++ (if c.verbose then [⟨.verbose, none⟩] else [])

theorem words_eq : c.words = wordsFor c.uses c.expressions := by
  have hentries : (c.searchPath.map fun entry => (⟨.searchPath, some entry⟩ : Use)).map Use.word =
      c.searchPath.map ("--search-path=" ++ ·) := by
    rw [List.map_map]
    rfl
  simp only [words, wordsFor, uses, List.map_append, hentries, apply_ite (List.map Use.word)]
  rfl

theorem forall_mem_uses {p : Use → Prop}
    (hentries : ∀ entry ∈ c.searchPath, p ⟨.searchPath, some entry⟩)
    (hworkers : p ⟨.maxWorkers, some (toString c.maxWorkers)⟩) (hformat : p ⟨.format, some c.format⟩)
    (houtput : p ⟨.output, some c.output⟩) (hcat : p ⟨.cat, none⟩) (hverbose : p ⟨.verbose, none⟩) :
    ∀ u ∈ c.uses, p u := by
  have hflag : ∀ (flag : Bool) (u : Use), p u → ∀ v ∈ (if flag then [u] else []), p v := by
    intro flag u hu
    cases flag <;> simp [hu]
  simp only [uses, List.forall_mem_append, List.forall_mem_map, List.forall_mem_cons]
  exact ⟨⟨⟨hentries, hworkers, hformat, houtput, List.forall_mem_nil _⟩, hflag _ _ hcat⟩, hflag _ _ hverbose⟩

theorem readInteger_maxWorkers : Number.readInteger (toString c.maxWorkers) = some c.maxWorkers :=
  Number.readInteger_repr c.length_maxWorkers_le

theorem isWritable_of_mem_uses : ∀ u ∈ c.uses, u.IsWritable := by
  have hworkers : toString c.maxWorkers ≠ "--" := fun hmark => by
    have hread := c.readInteger_maxWorkers
    rw [hmark, show Number.readInteger "--" = none from by decide] at hread
    cases hread
  have hformats : ∀ format ∈ Options.formats, format ≠ "--" := by decide
  exact c.forall_mem_uses (fun entry hentry => ⟨rfl, c.entry_ne_mark entry hentry⟩) ⟨rfl, hworkers⟩
    ⟨rfl, hformats _ c.format_mem_formats⟩ ⟨rfl, c.output_ne_mark⟩ rfl rfl

theorem isUsable_of_mem_uses : ∀ u ∈ c.uses, u.IsUsable := by
  refine c.forall_mem_uses (fun _ _ => trivial) ?_ c.format_mem_formats trivial trivial trivial
  simp only [Use.IsUsable, c.readInteger_maxWorkers, Option.isSome_some]

theorem valuesOf_uses (name : OptionName) : Options.valuesOf name c.uses =
    match name with
    | .searchPath => c.searchPath.map some
    | .maxWorkers => [some (toString c.maxWorkers)]
    | .format => [some c.format]
    | .output => [some c.output]
    | .cat => if c.cat then [none] else []
    | .verbose => if c.verbose then [none] else []
    | .help | .remoteTimeout | .version => [] := by
  have hentries : ((c.searchPath.map fun entry => (⟨.searchPath, some entry⟩ : Use)).filter
      fun u => u.name = name).map Use.value = if .searchPath = name then c.searchPath.map some else [] := by
    rw [List.filter_map, List.map_map]
    split <;> simp_all [Function.comp_def]
  simp only [Options.valuesOf, uses, List.filter_append, List.map_append, hentries]
  cases name <;> cases c.cat <;> cases c.verbose <;> simp

theorem taking_uses : { Options.standard.taking c.uses with expressions := c.expressions } = c.options := by
  have hworkers : Number.readInteger c.maxWorkers.repr = some c.maxWorkers := c.readInteger_maxWorkers
  simp only [Options.taking, valuesOf_uses, options, List.map_eq_nil_iff]
  cases c.cat <;> cases c.verbose <;> simp [Options.standard, hworkers]

theorem settings_uses : c.uses.filterMap (fun u => u.name.setting?) =
    c.searchPath.map (fun _ => .searchPath) ++ [.maxWorkers, .format] := by
  have hentries : (c.searchPath.map fun entry => (⟨.searchPath, some entry⟩ : Use)).filterMap
      (fun u => u.name.setting?) = c.searchPath.map fun _ => .searchPath := by
    rw [List.filterMap_map, ← List.filterMap_eq_map]
    rfl
  simp only [uses, List.filterMap_append, hentries, List.append_assoc]
  cases c.cat <;> cases c.verbose <;> rfl

theorem gives_iff (name : SettingName) :
    Scan.Gives ⟨c.uses, c.expressions, [], none⟩ name ↔ c.Gives name := by
  cases name with
  | expressions => exact Iff.rfl
  | searchPath | maxWorkers | format | remoteTimeout =>
      rw [Scan.Gives, ← List.mem_filterMap, settings_uses]
      · simp [Gives, List.eq_nil_iff_forall_not_mem]
      · simp

/-- **A command is read back from its command line**, with all its options as they are, the standard values for the
others, and those settings as given that it has a say in. -/
theorem parse_words :
    ∃ given, parse c.words = .run c.options given ∧ ∀ name, name ∈ given ↔ c.Gives name := by
  obtain ⟨given, hparse, hgiven⟩ :=
    parse_wordsFor c.expressions c.isWritable_of_mem_uses c.isUsable_of_mem_uses
  rw [← c.words_eq, c.taking_uses] at hparse
  exact ⟨given, hparse, fun name => (hgiven name).trans (c.gives_iff name)⟩

/-- An empty entry, a value and arguments that look like options, and the mark once more behind itself. -/
theorem parse_words_lookalikes :
    ∃ given, parse ["--search-path=", "--search-path=--cat", "--max-workers=-12", "--format=script-tags",
        "--output=-o=x", "--verbose", "--", "-v", "--", "--max-workers=x", ""] =
      .run ⟨["-v", "--", "--max-workers=x", ""], some [some "", some "--cat"], some (-12), some "script-tags",
        some "-o=x", false, Options.standard.remoteTimeout, true, false⟩ given ∧
      ∀ name, name ∈ given ↔ name ≠ .remoteTimeout := by
  let command : Command := {
    searchPath := ["", "--cat"]
    maxWorkers := -12
    format := "script-tags"
    output := "-o=x"
    cat := false
    verbose := true
    expressions := ["-v", "--", "--max-workers=x", ""]
    entry_ne_mark := by decide
    output_ne_mark := by decide
    length_maxWorkers_le := by decide
    format_mem_formats := by decide }
  obtain ⟨given, hparse, hgiven⟩ := parse_words command
  have hwords : command.words = ["--search-path=", "--search-path=--cat", "--max-workers=-12",
      "--format=script-tags", "--output=-o=x", "--verbose", "--", "-v", "--", "--max-workers=x", ""] := by
    decide
  refine ⟨given, hwords ▸ hparse, fun name => (hgiven name).trans ?_⟩
  cases name <;> simp [Gives, command]

end Command

end AntResources
