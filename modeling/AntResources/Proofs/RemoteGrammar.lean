import AntResources.Proofs.CanonicalText
import AntResources.Proofs.RemoteSchemes

/-!
# AntResources.Proofs.RemoteGrammar

**What a remote location looks like.** A location is a scheme, a colon and a text that names something: behind
the two slashes before an authority, if they are there, neither nothing nor a query nor a fragment comes first
(`Remote.IsLocation`). Of texts in printing characters without brackets, in which there is nothing to be cleaned
and no authority to be refused, exactly these are accepted, as they stand (`listRemote_iff_isLocation`).
-/

namespace AntResources

open Text

namespace Remote

/-! ### The grammar -/

/-- The printing characters of ASCII that are no brackets. -/
def IsPlainChar (c : Char) : Prop := '!' ≤ c ∧ c ≤ '~' ∧ c ≠ '[' ∧ c ≠ ']'

instance : DecidablePred IsPlainChar := fun _ => inferInstanceAs (Decidable (_ ∧ _))

/-- A text without the two slashes that stand before an authority. -/
def withoutSlashes : List Char → List Char
  | '/' :: '/' :: rest => rest
  | rest => rest

/-- There is something before the query and the fragment of a text. -/
def NamesSomething (text : List Char) : Prop :=
  text ≠ [] ∧ text.head? ≠ some '?' ∧ text.head? ≠ some '#'

instance : DecidablePred NamesSomething := fun _ => inferInstanceAs (Decidable (_ ∧ _))

/-- The grammar of locations. -/
inductive IsLocation : List Char → Prop where
  | intro {scheme rest : List Char} : IsScheme scheme → NamesSomething (withoutSlashes rest) →
      IsLocation (scheme ++ ':' :: rest)

/-! ### The parts of a location -/

/-- The path of a location, which ends where a query or a fragment starts. -/
def pathOf (rest : List Char) : List Char := (rest.takeWhile (· ≠ '#')).takeWhile (· ≠ '?')

theorem pathOf_ne_nil_iff {rest : List Char} : pathOf rest ≠ [] ↔ NamesSomething rest := by
  cases rest with
  | nil => simp [pathOf, NamesSomething]
  | cons c rest =>
      by_cases hhash : c = '#'
      · simp [pathOf, NamesSomething, hhash]
      · by_cases hquery : c = '?' <;> simp [pathOf, NamesSomething, hhash, hquery]

theorem withoutSlashes_of_ne {text : List Char} (h : ∀ rest, text = '/' :: '/' :: rest → False) :
    withoutSlashes text = text := by
  unfold withoutSlashes
  split
  · exact absurd rfl (h _)
  · rfl

/-- **There is an authority or a path** exactly if something is named behind the two slashes. -/
theorem authority_or_path_iff (rest : List Char) :
    ((splitAuthority rest).1 ≠ [] ∨ pathOf (splitAuthority rest).2 ≠ []) ↔
      NamesSomething (withoutSlashes rest) := by
  fun_cases splitAuthority rest with
  | case1 rest =>
      rw [pathOf_ne_nil_iff]
      show _ ↔ NamesSomething rest
      cases rest with
      | nil => simp [NamesSomething]
      | cons c rest =>
          by_cases hend : c ≠ '/' ∧ c ≠ '?' ∧ c ≠ '#'
          · simp [NamesSomething, hend]
          · simp [NamesSomething, hend]
  | case2 =>
      rename_i hother
      rw [pathOf_ne_nil_iff, withoutSlashes_of_ne hother]
      simp

theorem splitScheme_append_colon {scheme rest : List Char} (h : IsScheme scheme) :
    splitScheme (scheme ++ ':' :: rest) = (scheme.map Char.toLower, rest) := by
  have hcolon : ':' ∉ scheme := fun hmem => absurd (h.2 _ hmem) (by decide)
  obtain ⟨htake, hdrop⟩ := Text.cut_append hcolon rest
  obtain ⟨⟨c, tail, rfl, hletter⟩, hall⟩ := h
  have hform : c.isAlpha && (c :: tail).all isSchemeChar := by simpa [hletter] using hall
  unfold splitScheme
  simp only [htake, hdrop, hform, if_true]

/-- Which part of a location is its scheme is determined. -/
theorem isLocation_append_colon {scheme rest : List Char} (h : IsScheme scheme) :
    IsLocation (scheme ++ ':' :: rest) ↔ NamesSomething (withoutSlashes rest) := by
  refine ⟨fun hlocation => ?_, .intro h⟩
  generalize htext : scheme ++ ':' :: rest = text at hlocation
  cases hlocation with
  | intro hscheme hrest =>
      have hcut := congrArg splitScheme htext
      rw [splitScheme_append_colon h, splitScheme_append_colon hscheme] at hcut
      rwa [(Prod.mk.inj hcut).2]

/-! ### Texts in which nothing is cleaned or refused -/

section Plain

variable {text : List Char} {c : Char}

theorem IsPlainChar.space_lt (h : IsPlainChar c) : ' ' < c :=
  show ' '.toNat < c.toNat from lt_of_lt_of_le (show 32 < 33 by decide) h.1

theorem IsPlainChar.not_hidesMark (h : IsPlainChar c) : hidesMark c = false := by
  have hsmall : c.toNat ≤ 126 := h.2.1
  have hlarge : ∀ n ∈ markHidingChars, 126 < n := by decide
  rw [hidesMark, Bool.eq_false_iff, ne_eq, List.contains_iff_mem]
  intro hmem
  have := hlarge _ hmem
  omega

theorem clean_of_plain (h : ∀ c ∈ text, IsPlainChar c) : clean text = text := by
  have hstart : text.dropWhile (· ≤ ' ') = text := by
    cases text with
    | nil => rfl
    | cons c rest =>
        have hc := (h c List.mem_cons_self).space_lt
        exact List.dropWhile_cons_of_neg (by simpa using hc)
  rw [clean, hstart, List.filter_eq_self]
  intro c hc
  simpa using kept_of_space_lt (h c hc).space_lt

theorem mem_of_mem_splitAuthority (h : c ∈ (splitAuthority text).1) : c ∈ text := by
  unfold splitAuthority at h
  split at h
  · have hrest := (List.takeWhile_prefix _).subset h
    exact List.mem_cons_of_mem _ (List.mem_cons_of_mem _ hrest)
  · exact absurd h List.not_mem_nil

theorem splitScheme_suffix (text : List Char) : (splitScheme text).2 <:+ text := by
  unfold splitScheme
  dsimp only
  split
  · next _ _ _ rest _ hdrop =>
      split
      · exact (List.suffix_cons _ _).trans (hdrop ▸ List.dropWhile_suffix _)
      · exact List.suffix_refl text
  · exact List.suffix_refl text

theorem authority_of_plain (h : ∀ c ∈ text, IsPlainChar c) :
    bracketsAreSound text = true ∧ text.any hidesMark = false := by
  have hopen : '[' ∉ text := fun hmem => (h _ hmem).2.2.1 rfl
  have hclose : ']' ∉ text := fun hmem => (h _ hmem).2.2.2 rfl
  refine ⟨by simp [bracketsAreSound, hopen, hclose], List.any_eq_false.mpr fun c hc => ?_⟩
  simp [(h c hc).not_hidesMark]

/-- **The verdict on a plain text** goes by the grammar. -/
theorem judge_of_plain {text : String} (h : ∀ c ∈ text.toList, IsPlainChar c) :
    judge text ≠ .malformed ∧ (judge text = .location ↔ IsLocation text.toList) := by
  have hread : read text.toList = ⟨(splitScheme text.toList).1,
      (splitAuthority (splitScheme text.toList).2).1,
      pathOf (splitAuthority (splitScheme text.toList).2).2⟩ := by
    rw [read, clean_of_plain h]
    rfl
  have hplain : ∀ c ∈ (splitAuthority (splitScheme text.toList).2).1, IsPlainChar c := fun c hc =>
    h c ((splitScheme_suffix _).subset (mem_of_mem_splitAuthority hc))
  obtain ⟨hbrackets, hmarks⟩ := authority_of_plain hplain
  have hjudge : judge text = .location ↔ (splitScheme text.toList).1 ≠ [] ∧
      NamesSomething (withoutSlashes (splitScheme text.toList).2) := by
    rw [judge, hread, ← authority_or_path_iff]
    simp only [hbrackets, hmarks, Bool.not_true, Bool.or_false, Bool.false_eq_true, if_false]
    split
    · next hnone =>
        simp only [Bool.or_eq_true, Bool.and_eq_true, decide_eq_true_eq] at hnone
        exact iff_of_false (by simp) (by tauto)
    · next hsome =>
        simp only [Bool.or_eq_true, Bool.and_eq_true, decide_eq_true_eq] at hsome
        exact iff_of_true rfl (by tauto)
  refine ⟨?_, hjudge.trans ⟨fun haccepted => ?_, fun hlocation => ?_⟩⟩
  · rw [judge, hread]
    simp only [hbrackets, hmarks, Bool.not_true, Bool.or_false, Bool.false_eq_true, if_false]
    split <;> simp
  · obtain ⟨hscheme, hrest⟩ := haccepted
    obtain ⟨scheme, rest, htext, -, hform, -⟩ := (splitScheme_fst_eq_iff hscheme).mp rfl
    rw [htext, splitScheme_append_colon hform] at hrest
    exact htext ▸ .intro hform hrest
  · generalize text.toList = cs at hlocation ⊢
    cases hlocation with
    | intro hform hrest =>
        rw [splitScheme_append_colon hform]
        exact ⟨by simpa using hform.ne_nil, hrest⟩

end Plain

end Remote

/-- What is located is the trimmed text without its mark. -/
theorem Expression.location_of_parse {text : String} {e : Expression} (h : parse text = some e) :
    e.location.toList = unmarked (trim text.toList) := by
  rw [parse_of_trim rfl] at h
  split at h
  all_goals
    next hmark =>
      rw [Option.ite_none_left_eq_some, Option.some.injEq] at h
      obtain ⟨-, rfl⟩ := h
      simp [location, assemble, unmarked, hmark]

/-- **The grammar of remote locations.** An expression whose text, trimmed and without its mark, has only
printing characters of ASCII and no brackets, is listed as that text if this is a location, and otherwise it is
invalid. -/
theorem listRemote_iff_isLocation {text : String} {e : Expression} (hparse : Expression.parse text = some e)
    (hplain : ∀ c ∈ Expression.unmarked (trim text.toList), Remote.IsPlainChar c) :
    let location := Expression.unmarked (trim text.toList)
    ((Source.listRemote e).outcome = .ok [⟨String.ofList location⟩] ↔ Remote.IsLocation location) ∧
    (¬ Remote.IsLocation location →
      (Source.listRemote e).outcome = .error (.resource (.notALocation (String.ofList location)))) ∧
    (ResourceError.notALocation (String.ofList location)).category = .invalidExpression := by
  intro location
  have hlocation : e.location = String.ofList location := by
    rw [← String.toList_inj, String.toList_ofList, Expression.location_of_parse hparse]
  obtain ⟨hsound, hjudge⟩ := @Remote.judge_of_plain e.location (by rwa [hlocation, String.toList_ofList])
  rw [hlocation] at hsound hjudge
  rw [String.toList_ofList] at hjudge
  rw [Source.outcome_listRemote, hlocation, ← hjudge]
  refine ⟨?_, fun hnot => ?_, rfl⟩
  · cases Remote.judge (String.ofList location) <;> simp
  · cases hcase : Remote.judge (String.ofList location) with
    | malformed => exact absurd hcase hsound
    | notALocation => rfl
    | location => exact absurd hcase hnot

/-- A scheme and three slashes name the root, and a query behind two slashes names nothing. -/
theorem listRemote_of_slashes :
    (Source.listRemote ⟨"~x+1:///", true, some "x+1", [], [], true⟩).outcome = .ok [⟨"x+1:///"⟩] ∧
      (Source.listRemote ⟨"x+1://?q", false, some "x+1", [], ["?q"], true⟩).outcome =
        .error (.resource (.notALocation "x+1://?q")) := by
  have hscheme : Remote.IsScheme "x+1".toList :=
    ⟨⟨'x', _, rfl, rfl⟩, List.all_eq_true.mp (by decide)⟩
  have hplain : ∀ cs : List Char, cs.all (fun c => decide (Remote.IsPlainChar c)) = true →
      ∀ c ∈ cs, Remote.IsPlainChar c := fun cs h => by simpa using h
  obtain ⟨haccepted, -⟩ := @listRemote_iff_isLocation " ~x+1:/// "
    ⟨"~x+1:///", true, some "x+1", [], [], true⟩ (by decide) (hplain _ (by decide))
  obtain ⟨-, hrefused, -⟩ := @listRemote_iff_isLocation "x+1://?q"
    ⟨"x+1://?q", false, some "x+1", [], ["?q"], true⟩ (by decide) (hplain _ (by decide))
  have hrest : ∀ rest, Remote.IsLocation ("x+1".toList ++ ':' :: rest) ↔
      Remote.NamesSomething (Remote.withoutSlashes rest) := fun rest =>
    Remote.isLocation_append_colon hscheme
  exact ⟨haccepted.mpr ((hrest "///".toList).mpr (by decide)),
    hrefused (mt (hrest "//?q".toList).mp (by decide))⟩

end AntResources
