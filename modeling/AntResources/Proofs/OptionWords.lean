import Mathlib.Data.List.Nodup
import Mathlib.Data.List.TakeWhile
import AntResources.CommandLine.Options
import AntResources.Proofs.Sequencing

/-!
# AntResources.Proofs.OptionWords

**Reading a command line with fewer options in mind.** The settings that a command line gives are found
by reading it a second time, with the options of settings only. A word that is one of these options is
the same option for both readings, and a word that is any other option is none for the second
(`exists_classifyAll_settingsGrammar`). This rests on the spellings alone: no two are the same, and none
of the other options is spelled as the start of a setting's (`notSetting_of_start`), so that a word
which is cut short is never taken for another option only because the right one is missing.
-/

namespace AntResources.CommandLine

/-! ### Fewer options -/

theorem spellings_filter (g : Grammar) (p : OptionName → Bool) :
    Grammar.spellings (g.filter p) = g.spellings.filter fun s => p s.2 := by
  induction g with
  | nil => rfl
  | cons name g ih =>
      unfold Grammar.spellings at ih ⊢
      rw [List.flatMap_cons, List.filter_append, ← ih]
      cases h : p name with
      | true =>
          have hall : (name.spellings.map fun s => (s.toList, name)).filter (fun s => p s.2) =
              name.spellings.map fun s => (s.toList, name) := by
            rw [List.filter_eq_self]
            simp [h]
          rw [List.filter_cons_of_pos h, List.flatMap_cons, hall]
      | false =>
          have hnone : (name.spellings.map fun s => (s.toList, name)).filter (fun s => p s.2) = [] := by
            rw [List.filter_eq_nil_iff]
            simp [h]
          rw [List.filter_cons_of_neg (by simp [h]), hnone, List.nil_append]

/-- The option with a given spelling, if a word may be short for it. -/
def shortFor? (cs : List Char) (s : List Char × OptionName) : Option (List Char × OptionWord) :=
  if isShortSpelling cs then
    if s.1 = cs.take 2 then some (s.1, ⟨s.2, isShortSpelling s.1, some (cs.drop 2)⟩)
    else if cs.isPrefixOf s.1 then some (s.1, ⟨s.2, isShortSpelling s.1, none⟩)
    else none
  else if (splitEquals cs).1.isPrefixOf s.1 then
    some (s.1, ⟨s.2, isShortSpelling s.1, (splitEquals cs).2⟩)
  else none

theorem candidates_eq (g : Grammar) (cs : List Char) :
    candidates g cs = g.spellings.filterMap (shortFor? cs) := by
  unfold candidates shortFor?
  split <;> rfl

/-- When a word may be short for an option. -/
theorem of_shortFor?_eq_some {cs : List Char} {s : List Char × OptionName}
    {c : List Char × OptionWord} (h : shortFor? cs s = some c) :
    c.2.name = s.2 ∧
      (isShortSpelling cs = true ∧ (s.1 = cs.take 2 ∨ cs.isPrefixOf s.1 = true) ∨
        isShortSpelling cs = false ∧ (splitEquals cs).1.isPrefixOf s.1 = true) := by
  unfold shortFor? at h
  split at h
  · rename_i hshort
    split at h
    · rename_i hsame
      rw [← Option.some.inj h]
      exact ⟨rfl, Or.inl ⟨hshort, Or.inl hsame⟩⟩
    · obtain ⟨hstart, h⟩ := Option.ite_none_right_eq_some.mp h
      rw [← Option.some.inj h]
      exact ⟨rfl, Or.inl ⟨hshort, Or.inr hstart⟩⟩
  · rename_i hlong
    obtain ⟨hstart, h⟩ := Option.ite_none_right_eq_some.mp h
    rw [← Option.some.inj h]
    exact ⟨rfl, Or.inr ⟨by simpa using hlong, hstart⟩⟩

/-- With fewer options a word may be short for fewer of them, and for the others as before. -/
theorem candidates_filter (g : Grammar) (p : OptionName → Bool) (cs : List Char) :
    candidates (g.filter p) cs = (candidates g cs).filter fun c => p c.2.name := by
  rw [candidates_eq, candidates_eq, spellings_filter, List.filterMap_filter, List.filter_filterMap]
  refine List.filterMap_congr fun s _ => ?_
  cases h : shortFor? cs s with
  | none => simp
  | some c => rw [Option.filter_some, (of_shortFor?_eq_some h).1]

/-- A text is looked up under what stands with it, if no text stands there twice. -/
theorem lookup_eq_some_iff_mem {α β : Type} [BEq α] [LawfulBEq α] {entries : List (α × β)}
    (h : (entries.map (·.1)).Nodup) {a : α} {b : β} :
    entries.lookup a = some b ↔ (a, b) ∈ entries := by
  induction entries with
  | nil => simp
  | cons entry entries ih =>
      obtain ⟨key, value⟩ := entry
      obtain ⟨hkey, hentries⟩ := List.nodup_cons.mp h
      rw [List.lookup_cons, List.mem_cons, Prod.mk.injEq]
      by_cases hsame : a = key
      · subst hsame
        have hnot : (a, b) ∉ entries := fun hmem => hkey (List.mem_map.mpr ⟨_, hmem, rfl⟩)
        simp [hnot, eq_comm]
      · have hbeq : (a == key) = false := by simpa using hsame
        rw [hbeq, ih hentries]
        simp [hsame]

/-! ### The spellings -/

/-- Whether an option gives a setting. -/
def OptionName.isSetting (name : OptionName) : Bool := name.setting?.isSome

theorem settingsGrammar_eq : settingsGrammar = fullGrammar.filter OptionName.isSetting := rfl

theorem nodup_spellings : (fullGrammar.spellings.map (·.1)).Nodup := by decide

theorem noEquals_of_mem_spellings : ∀ s ∈ fullGrammar.spellings, '=' ∉ s.1 := by decide

/-- Settings have no short spelling. -/
theorem long_of_isSetting : ∀ s ∈ fullGrammar.spellings, s.2.isSetting = true →
    isShortSpelling s.1 = false ∧ 2 < s.1.length := by decide

/-- What another option is spelled as is not the start of a setting's spelling. -/
theorem notSetting_of_start : ∀ s ∈ fullGrammar.spellings, s.2.isSetting = false →
    ∀ other ∈ fullGrammar.spellings, s.1.isPrefixOf other.1 = true → other.2.isSetting = false := by
  decide

theorem option?_eq_some_iff {cs : List Char} {name : OptionName} :
    fullGrammar.option? cs = some name ↔ (cs, name) ∈ fullGrammar.spellings :=
  lookup_eq_some_iff_mem nodup_spellings

theorem option?_settingsGrammar (cs : List Char) :
    settingsGrammar.option? cs = (fullGrammar.option? cs).filter OptionName.isSetting := by
  have hnodup : ((fullGrammar.spellings.filter fun s => s.2.isSetting).map (·.1)).Nodup :=
    nodup_spellings.sublist (List.filter_sublist.map _)
  refine Option.ext fun name => ?_
  rw [Option.filter_eq_some_iff, option?_eq_some_iff, Grammar.option?, settingsGrammar_eq,
    spellings_filter, lookup_eq_some_iff_mem hnodup, List.mem_filter]

/-! ### One word -/

/-- The option that a word spells in full, perhaps with a value behind it. -/
def spelled? (g : Grammar) (cs : List Char) : Option OptionWord :=
  match g.option? cs with
  | some name => some ⟨name, isShortSpelling cs, none⟩
  | none =>
    match (splitEquals cs).2, g.option? (splitEquals cs).1 with
    | some value, some name => some ⟨name, isShortSpelling (splitEquals cs).1, some value⟩
    | _, _ => none

/-- What a word is that starts with a dash and spells no option in full. -/
def guess (g : Grammar) (text : String) : Except UsageError Word :=
  match candidates g text.toList with
  | [(_, word)] => .ok (.option word)
  | [] =>
    if isNegativeNumber text.toList || text.toList.contains ' ' then .ok (.argument text)
    else .ok (.unknown text)
  | several => .error (.ambiguous text (several.map fun (spelling, _) => String.ofList spelling))

theorem splitEquals_of_not_mem {cs : List Char} (h : '=' ∉ cs) : splitEquals cs = (cs, none) := by
  have hdrop : cs.dropWhile (· ≠ '=') = [] := by
    rw [List.dropWhile_eq_nil_iff]
    intro c hc
    have hne : c ≠ '=' := fun heq => h (heq ▸ hc)
    simpa using hne
  rw [splitEquals, hdrop]

theorem classify_eq {text : String} (hdash : text.toList.head? = some '-')
    (hlength : text.toList.length ≠ 1) :
    classify g text =
      match spelled? g text.toList with
      | some word => .ok (.option word)
      | none => guess g text := by
  unfold classify spelled?
  simp only [hdash, hlength, ne_eq, not_true_eq_false, if_false]
  cases hexact : g.option? text.toList with
  | some name => rfl
  | none =>
      obtain ⟨spelling, attached⟩ := splitEquals text.toList
      dsimp only
      cases attached with
      | none => rfl
      | some value => cases g.option? spelling <;> rfl

/-- A spelling stands behind an option that a word spells in full: the whole word, or what comes
before the `=`. -/
theorem option?_of_spelled?_eq_some {cs : List Char} {word : OptionWord}
    (h : spelled? fullGrammar cs = some word) :
    fullGrammar.option? (splitEquals cs).1 = some word.name := by
  unfold spelled? at h
  cases hexact : fullGrammar.option? cs with
  | some name =>
      rw [hexact] at h
      rw [splitEquals_of_not_mem (noEquals_of_mem_spellings _ (option?_eq_some_iff.mp hexact)), hexact,
        ← Option.some.inj h]
  | none =>
      rw [hexact] at h
      dsimp only at h
      split at h
      · rename_i hname
        rw [hname, ← Option.some.inj h]
      · cases h

/-- With the options of settings only, a word spells the same option if that gives a setting. -/
theorem spelled?_settingsGrammar (cs : List Char) :
    spelled? settingsGrammar cs = (spelled? fullGrammar cs).filter fun word => word.name.isSetting := by
  unfold spelled?
  rw [option?_settingsGrammar, option?_settingsGrammar]
  cases hexact : fullGrammar.option? cs with
  | some name =>
      cases hname : name.isSetting with
      | true => simp [Option.filter, hname]
      | false =>
          rw [splitEquals_of_not_mem (noEquals_of_mem_spellings _ (option?_eq_some_iff.mp hexact))]
          simp [Option.filter, hname]
  | none =>
      rw [Option.filter_none]
      cases (splitEquals cs).2 with
      | none => rfl
      | some value =>
          cases fullGrammar.option? (splitEquals cs).1 with
          | none => rfl
          | some name => cases hname : name.isSetting <;> simp [Option.filter, hname]

theorem candidates_settingsGrammar (cs : List Char) :
    candidates settingsGrammar cs =
      (candidates fullGrammar cs).filter fun c => c.2.name.isSetting :=
  candidates_filter fullGrammar OptionName.isSetting cs

/-- A word that spells another option in full is not short for a setting. -/
theorem candidates_settingsGrammar_eq_nil {cs : List Char} {word : OptionWord}
    (hlength : 2 ≤ cs.length) (h : spelled? fullGrammar cs = some word)
    (hother : word.name.isSetting = false) : candidates settingsGrammar cs = [] := by
  rw [candidates_settingsGrammar, List.filter_eq_nil_iff]
  intro c hc
  rw [candidates_eq] at hc
  obtain ⟨s, hs, hshort⟩ := List.mem_filterMap.mp hc
  obtain ⟨hname, hcases⟩ := of_shortFor?_eq_some hshort
  rw [hname, Bool.not_eq_true]
  rcases hcases with ⟨hdash, hsame | hstart⟩ | ⟨-, hstart⟩
  · by_contra hsetting
    have hlong := (long_of_isSetting s hs (by simpa using hsetting)).2
    rw [hsame, List.length_take] at hlong
    omega
  · -- A word of one dash does not start a spelling of two.
    by_contra hsetting
    have hlong := (long_of_isSetting s hs (by simpa using hsetting)).1
    obtain ⟨rest, hrest⟩ := List.isPrefixOf_iff_prefix.mp hstart
    match cs, hlength with
    | first :: second :: others, _ =>
        rw [← hrest] at hlong
        simp [isShortSpelling] at hlong hdash
        exact hdash hlong
  · exact notSetting_of_start (_, word.name) (option?_eq_some_iff.mp (option?_of_spelled?_eq_some h))
      hother s hs hstart

/-- What a word of a command line is when it is read for the settings only. -/
inductive Word.SeenAs : Word → Word → Prop where
  | argument (text : String) : SeenAs (.argument text) (.argument text)
  | unknown (text : String) : SeenAs (.unknown text) (.unknown text)
  /-- The option of a setting stays what it is. -/
  | setting {word : OptionWord} : word.name.isSetting = true → SeenAs (.option word) (.option word)
  /-- Any other option is none. -/
  | other {word : OptionWord} {seen : Word} : word.name.isSetting = false →
    (∀ option, seen ≠ .option option) → SeenAs (.option word) seen

/-- A word that is short for no option is none. -/
theorem exists_guess_of_candidates_eq_nil {g : Grammar} {text : String}
    (h : candidates g text.toList = []) :
    ∃ seen, guess g text = .ok seen ∧ ∀ option, seen ≠ .option option := by
  unfold guess
  rw [h]
  dsimp only
  split
  · exact ⟨_, rfl, by simp⟩
  · exact ⟨_, rfl, by simp⟩

theorem exists_guess_settingsGrammar {text : String} {word : Word}
    (h : guess fullGrammar text = .ok word) :
    ∃ seen, guess settingsGrammar text = .ok seen ∧ word.SeenAs seen := by
  have hfilter := candidates_settingsGrammar text.toList
  unfold guess at h
  split at h
  · rename_i spelling option hone
    obtain rfl := Except.ok.inj h
    rw [hone] at hfilter
    cases hsetting : option.name.isSetting with
    | true =>
        simp only [List.filter_cons, hsetting, if_true, List.filter_nil] at hfilter
        exact ⟨.option option, by rw [guess, hfilter], .setting hsetting⟩
    | false =>
        simp only [List.filter_cons, hsetting, Bool.false_eq_true, if_false, List.filter_nil] at hfilter
        obtain ⟨seen, hseen, hnone⟩ := exists_guess_of_candidates_eq_nil hfilter
        exact ⟨seen, hseen, .other hsetting hnone⟩
  · rename_i hnone
    rw [hnone, List.filter_nil] at hfilter
    unfold guess
    rw [hfilter]
    split at h
    · rename_i hargument
      obtain rfl := Except.ok.inj h
      exact ⟨_, if_pos hargument, .argument text⟩
    · rename_i hunknown
      obtain rfl := Except.ok.inj h
      exact ⟨_, if_neg hunknown, .unknown text⟩
  · cases h

/-- **One word, read for the settings only.** -/
theorem exists_classify_settingsGrammar {text : String} {word : Word}
    (h : classify fullGrammar text = .ok word) :
    ∃ seen, classify settingsGrammar text = .ok seen ∧ word.SeenAs seen := by
  by_cases hdash : text.toList.head? = some '-'
  · by_cases hlength : text.toList.length = 1
    · obtain ⟨c, hc⟩ := List.length_eq_one_iff.mp hlength
      obtain rfl : c = '-' := by simpa [hc] using hdash
      have hargument : ∀ g : Grammar, g.option? ['-'] = none →
          classify g text = .ok (.argument text) := by
        intro g hg
        unfold classify
        simp [hc, hg]
      rw [hargument fullGrammar (by decide)] at h
      obtain rfl := Except.ok.inj h
      exact ⟨_, hargument settingsGrammar (by decide), .argument text⟩
    · rw [classify_eq hdash hlength] at h ⊢
      rw [spelled?_settingsGrammar]
      cases hspelled : spelled? fullGrammar text.toList with
      | none =>
          rw [hspelled] at h
          exact exists_guess_settingsGrammar h
      | some option =>
          rw [hspelled] at h
          obtain rfl := Except.ok.inj h
          cases hsetting : option.name.isSetting with
          | true => exact ⟨.option option, by simp [Option.filter, hsetting], .setting hsetting⟩
          | false =>
              have hlong : 2 ≤ text.toList.length := by
                have hpos : text.toList ≠ [] := fun hnil => by simp [hnil] at hdash
                have hpos := List.length_pos_iff.mpr hpos
                omega
              obtain ⟨seen, hseen, hnone⟩ := exists_guess_of_candidates_eq_nil
                (candidates_settingsGrammar_eq_nil hlong hspelled hsetting)
              exact ⟨seen, by simpa [Option.filter, hsetting] using hseen, .other hsetting hnone⟩
  · have hargument : ∀ g : Grammar, classify g text = .ok (.argument text) := by
      intro g
      unfold classify
      simp [hdash]
    rw [hargument fullGrammar] at h
    obtain rfl := Except.ok.inj h
    exact ⟨_, hargument settingsGrammar, .argument text⟩

/-! ### All words -/

/-- **All words, read for the settings only.** Whoever understands a command line finds every option of
a setting in it, and only these, by looking for them alone. -/
theorem exists_classifyAll_settingsGrammar {args : List String} {words : List Word}
    (h : classifyAll fullGrammar args = .ok words) :
    ∃ seen, classifyAll settingsGrammar args = .ok seen ∧ List.Forall₂ Word.SeenAs words seen := by
  induction args generalizing words with
  | nil =>
      obtain rfl : [] = words := Except.ok.inj h
      exact ⟨[], rfl, .nil⟩
  | cons text rest ih =>
      rw [classifyAll] at h ⊢
      by_cases hmark : text = "--"
      · rw [if_pos hmark] at h ⊢
        obtain rfl := Except.ok.inj h
        refine ⟨_, rfl, ?_⟩
        rw [List.forall₂_same]
        intro word hword
        obtain ⟨argument, -, rfl⟩ := List.mem_map.mp hword
        exact .argument argument
      · rw [if_neg hmark] at h ⊢
        obtain ⟨word, hword, h⟩ := bind_eq_ok_iff.mp h
        obtain ⟨others, hothers, h⟩ := bind_eq_ok_iff.mp h
        obtain rfl : word :: others = words := Except.ok.inj h
        obtain ⟨seen, hseen, hsame⟩ := exists_classify_settingsGrammar hword
        obtain ⟨more, hmore, hall⟩ := ih hothers
        exact ⟨seen :: more, by rw [hseen, hmore]; rfl, .cons hsame hall⟩

end AntResources.CommandLine
