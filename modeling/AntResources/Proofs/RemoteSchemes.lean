import AntResources.Proofs.LookupLocality
import AntResources.Proofs.ParsedForm

/-!
# AntResources.Proofs.RemoteSchemes

**Three readers of the text before the first colon.** The parser takes an origin from there, the check of
remote locations a scheme, and reading a resource looks it up among the schemes that it knows. What the
second one cleans away never is the colon or a slash, so the scheme is what stands before the same colon,
cleaned and in lower case (`Remote.scheme_read_eq_iff`). Hence a location with a scheme has an origin, and
an expression without an origin is no location (`expand_without_origin`). Reading cleans nothing: it knows
a scheme only as it is spelled (`isFetched_iff_spelled`).
-/

namespace AntResources

open Contribution (Setup)
open Text

/-! ### The scheme of a location -/

namespace Remote

/-- The form of a scheme: a letter, and behind it characters that a scheme may have. -/
def IsScheme (cs : List Char) : Prop :=
  (∃ c rest, cs = c :: rest ∧ c.isAlpha = true) ∧ ∀ c ∈ cs, isSchemeChar c = true

theorem IsScheme.ne_nil {cs : List Char} (h : IsScheme cs) : cs ≠ [] := by
  obtain ⟨⟨c, rest, rfl, -⟩, -⟩ := h
  exact List.cons_ne_nil c rest

theorem IsScheme.no_slash {cs : List Char} (h : IsScheme cs) : '/' ∉ cs := fun hmem =>
  absurd (h.2 _ hmem) (by decide)

/-- A scheme stands before the first colon, and is then written in lower case. -/
theorem splitScheme_fst_eq_iff {text scheme : List Char} (hne : scheme ≠ []) :
    (splitScheme text).1 = scheme ↔ ∃ before after, text = before ++ ':' :: after ∧ ':' ∉ before ∧
      IsScheme before ∧ scheme = before.map Char.toLower := by
  by_cases hcolon : ':' ∈ text
  · obtain ⟨before, after, rfl, hfirst⟩ := List.eq_append_cons_of_mem hcolon
    obtain ⟨htake, hdrop⟩ := Text.cut_append hfirst after
    have hscheme : (splitScheme (before ++ ':' :: after)).1 = scheme ↔
        IsScheme before ∧ scheme = before.map Char.toLower := by
      unfold splitScheme
      simp only [htake, hdrop]
      cases before with
      | nil => simp [IsScheme, hne.symm]
      | cons c rest =>
          by_cases hform : c.isAlpha && (c :: rest).all isSchemeChar
          · have hboth : IsScheme (c :: rest) := by simpa [IsScheme] using hform
            simp only [hform, if_true, hboth, true_and]
            exact eq_comm
          · have hnot : ¬ IsScheme (c :: rest) := fun hboth => hform (by simpa [IsScheme] using hboth)
            simp only [hform, hnot, false_and]
            simpa using hne.symm
    rw [hscheme]
    constructor
    · exact fun h => ⟨before, after, rfl, hfirst, h⟩
    · rintro ⟨other, rest, htext, hother, h⟩
      have hcut := (Text.cut_append hother rest).1
      rw [← htext, htake] at hcut
      rwa [hcut]
  · have hdrop := Locator.dropWhile_of_no_colon hcolon
    have hnone : (splitScheme text).1 = [] := by
      unfold splitScheme
      simp only [hdrop]
      cases text.takeWhile (· ≠ ':') with
      | nil => rfl
      | cons c rest => rfl
    rw [hnone]
    refine iff_of_false hne.symm ?_
    rintro ⟨before, after, rfl, -⟩
    exact hcolon (by simp)

/-! ### Cleaning -/

/-- Cleaning goes on up to the first colon, and never takes that away. -/
theorem clean_append_colon (before after : List Char) :
    clean (before ++ ':' :: after) =
      clean before ++ ':' :: after.filter fun c => c ≠ '\t' ∧ c ≠ '\r' ∧ c ≠ '\n' := by
  have hcolon : (':' :: after).dropWhile (· ≤ ' ') = ':' :: after :=
    List.dropWhile_cons_of_neg (by decide)
  unfold clean
  rw [List.dropWhile_append]
  split
  · next hempty =>
      rw [hcolon, List.isEmpty_iff.mp hempty]
      rfl
  · rw [List.filter_append]
    rfl

theorem mem_of_mem_clean {c : Char} {text : List Char} (h : c ∈ clean text) : c ∈ text :=
  (List.dropWhile_suffix _).subset (List.mem_filter.mp h).1

/-- What is no control character and no space is none of the characters that are left out. -/
theorem kept_of_space_lt {c : Char} (hc : ' ' < c) : c ≠ '\t' ∧ c ≠ '\r' ∧ c ≠ '\n' := by
  have hne : ∀ d : Char, d ≤ ' ' → c ≠ d := by
    rintro d hd rfl
    exact absurd hc (by simpa using hd)
  exact ⟨hne '\t' (by decide), hne '\r' (by decide), hne '\n' (by decide)⟩

/-- What is no control character and no space is kept. -/
theorem mem_clean {c : Char} {text : List Char} (h : c ∈ text) (hc : ' ' < c) : c ∈ clean text := by
  have hkept : c ∈ text.dropWhile (· ≤ ' ') := by
    rw [← List.takeWhile_append_dropWhile (p := fun c : Char => decide (c ≤ ' ')) (l := text)] at h
    refine (List.mem_append.mp h).resolve_left fun hskipped => ?_
    have hle := List.mem_takeWhile_imp hskipped
    exact absurd hc (by simpa using hle)
  exact List.mem_filter.mpr ⟨hkept, by simpa using kept_of_space_lt hc⟩

/-- **The scheme of a location** is what stands before its first colon, cleaned and in lower case, if that
has the form of a scheme. -/
theorem scheme_read_eq_iff {text scheme : List Char} (hne : scheme ≠ []) :
    (read text).scheme = scheme ↔ ∃ before after, text = before ++ ':' :: after ∧ ':' ∉ before ∧
      IsScheme (clean before) ∧ scheme = (clean before).map Char.toLower := by
  show (splitScheme (clean text)).1 = scheme ↔ _
  rw [splitScheme_fst_eq_iff hne]
  constructor
  · rintro ⟨cleaned, rest, htext, hcleaned, h⟩
    have hcolon : ':' ∈ text := mem_of_mem_clean (by rw [htext]; simp)
    obtain ⟨before, after, rfl, hfirst⟩ := List.eq_append_cons_of_mem hcolon
    refine ⟨before, after, rfl, hfirst, ?_⟩
    rw [clean_append_colon] at htext
    have hcut := (Text.cut_append hcleaned rest).1
    rw [← htext, (Text.cut_append (fun hmem => hfirst (mem_of_mem_clean hmem)) _).1] at hcut
    rwa [hcut]
  · rintro ⟨before, after, rfl, hfirst, h⟩
    exact ⟨_, _, clean_append_colon before after, fun hmem => hfirst (mem_of_mem_clean hmem), h⟩

theorem scheme_ne_nil_of_judge {text : String} (h : judge text = .location) :
    (read text.toList).scheme ≠ [] := by
  intro hnone
  unfold judge at h
  simp only [hnone, decide_true, Bool.true_or, if_true] at h
  split at h <;> cases h

end Remote

/-! ### The origin of an expression -/

namespace Expression

variable {text : String} {e : Expression}

/-- The origin is cut off the text of the expression without its mark. -/
theorem exists_cutsOrigin_of_parse (h : parse text = some e) :
    ∃ origin path, CutsOrigin e.location.toList origin path ∧ e.origin = origin.map String.ofList :=
  ⟨_, _, cutsOrigin_iff.mpr rfl, origin_of_parse h⟩

/-- There is no origin if there is no colon, or the first one comes first of all or behind a slash. -/
theorem origin_eq_none_iff (h : parse text = some e) : e.origin = none ↔
    ∀ before after, e.location.toList = before ++ ':' :: after → ':' ∉ before →
      before = [] ∨ '/' ∈ before := by
  obtain ⟨origin, path, hcut, horigin⟩ := exists_cutsOrigin_of_parse h
  rw [horigin, Option.map_eq_none_iff]
  cases hcut with
  | bare hbare => exact iff_of_true rfl hbare
  | named hbody hfirst hne hslash =>
      refine iff_of_false (by simp) fun hnone => ?_
      rcases hnone _ _ hbody hfirst with hnil | hmem
      · exact hne hnil
      · exact hslash hmem

/-- **A location with a scheme has an origin.** -/
theorem scheme_eq_nil_of_origin (h : parse text = some e) (horigin : e.origin = none) :
    (Remote.read e.location.toList).scheme = [] := by
  by_contra hne
  obtain ⟨before, after, hlocation, hfirst, hform, -⟩ := (Remote.scheme_read_eq_iff hne).mp rfl
  rcases (origin_eq_none_iff h).mp horigin before after hlocation hfirst with rfl | hslash
  · exact hform.ne_nil rfl
  · exact hform.no_slash (Remote.mem_clean hslash (by decide))

end Expression

/-! ### Expressions without an origin -/

/-- What is said of an expression that means nothing. -/
def IsInvalid {α : Type} (outcome : Except Failure α) : Prop :=
  ∃ error, outcome = .error (.resource error) ∧ error.category = .invalidExpression

theorem IsInvalid.map {α β : Type} {outcome : Except Failure α} (h : IsInvalid outcome) (f : α → β) :
    IsInvalid (f <$> outcome) := by
  obtain ⟨error, rfl, hcategory⟩ := h
  exact ⟨error, rfl, hcategory⟩

namespace Source

theorem isInvalid_listRemote {e : Expression} (h : Remote.judge e.location ≠ .location) :
    IsInvalid (listRemote e).outcome := by
  rw [outcome_listRemote]
  cases hjudge : Remote.judge e.location with
  | malformed => exact ⟨_, rfl, rfl⟩
  | notALocation => exact ⟨_, rfl, rfl⟩
  | location => exact absurd hjudge h

theorem judge_of_listRemote {e : Expression} {ls : List Locator} (h : (listRemote e).outcome = .ok ls) :
    Remote.judge e.location = .location := by
  by_contra hnot
  obtain ⟨error, hfails, -⟩ := isInvalid_listRemote hnot
  rw [h] at hfails
  cases hfails

end Source

/-- **An expression without an origin never resolves**: it has none if there is no colon, or the first
one comes first of all or behind a slash, and then it is no remote location either. -/
theorem expand_without_origin (w : World) (setup : Setup) {text : String} {e : Expression}
    (hparse : Expression.parse text = some e) :
    (e.origin = none ↔ ∀ before after, e.location.toList = before ++ ':' :: after → ':' ∉ before →
      before = [] ∨ '/' ∈ before) ∧
    (e.origin = none → IsInvalid (expand w setup [text]).outcome) ∧
    (∀ ls, (Source.listRemote e).outcome = .ok ls → ∃ origin, e.origin = some origin) := by
  have hnone : e.origin = none → Remote.judge e.location ≠ .location := fun horigin hjudge =>
    Remote.scheme_ne_nil_of_judge hjudge (Expression.scheme_eq_nil_of_origin hparse horigin)
  refine ⟨Expression.origin_eq_none_iff hparse, fun horigin => ?_, fun ls hls => ?_⟩
  · rw [outcome_expand_of_parse setup hparse,
      listing_of_remote hparse (by simp [horigin]) (by simp [horigin])]
    exact (Source.isInvalid_listRemote (hnone horigin)).map _
  · exact Option.ne_none_iff_exists'.mp fun horigin => hnone horigin (Source.judge_of_listRemote hls)

/-- An empty world whose web knows one location in two spellings. -/
def spelledTwice : World where
  tree := ⟨[], []⟩
  cwd := []
  defaultPath := []
  web := [("http://h/x", .response 200 "OK" "lower"), ("HTTP://h/x", .response 200 "OK" "upper")]

/-- The settings for an empty search path. -/
def nowhere : Setup := ⟨SearchPath.resolve [] spelledTwice, 1⟩

/-- Behind a slash, `http:` is no origin, and the expression is invalid. -/
theorem expand_without_origin_slashed : IsInvalid (expand spelledTwice nowhere ["./http://h/x"]).outcome :=
  (expand_without_origin spelledTwice nowhere
    (e := ⟨"./http://h/x", false, none, ["http:", "h"], ["x"], false⟩) (by decide)).2.1 rfl

/-! ### Requests -/

namespace Locator

/-- Whether a location is one of the web: its scheme is among those that are requested there. -/
def IsOnWeb (l : Locator) : Prop := String.ofList (Remote.read l.text.toList).scheme ∈ remoteSchemes

instance (l : Locator) : Decidable l.IsOnWeb := inferInstanceAs (Decidable (_ ∈ _))

/-- How the scheme of a location is spelled, which is not always how it reads. -/
theorem IsOnWeb.exists_spelling {l : Locator} (h : l.IsOnWeb) :
    ∃ spelling rest : String, l = ⟨spelling ++ ":" ++ rest⟩ ∧ ':' ∉ spelling.toList ∧
      String.ofList ((Remote.clean spelling.toList).map Char.toLower) ∈ remoteSchemes := by
  obtain ⟨text⟩ := l
  have hne : (Remote.read text.toList).scheme ≠ [] := by
    intro hnone
    rw [IsOnWeb, hnone] at h
    exact absurd h (by decide)
  obtain ⟨before, after, htext, hfirst, -, hscheme⟩ := (Remote.scheme_read_eq_iff hne).mp rfl
  refine ⟨String.ofList before, String.ofList after, ?_, by rwa [String.toList_ofList], ?_⟩
  · exact (mk.injEq _ _).mpr (String.toList_inj.mp (htext.trans (by simp)))
  · rwa [String.toList_ofList, ← hscheme]

/-- What stands before the first colon is determined. -/
theorem spelling_unique {spelling spelling' rest rest' : String} (h : ':' ∉ spelling.toList)
    (h' : ':' ∉ spelling'.toList)
    (heq : Locator.mk (spelling ++ ":" ++ rest) = ⟨spelling' ++ ":" ++ rest'⟩) :
    spelling = spelling' := by
  have hcut := (cut_at_colon spelling h rest).1
  rw [(mk.injEq _ _).mp heq, (cut_at_colon spelling' h' rest').1] at hcut
  exact (String.toList_inj.mp hcut).symm

/-- A locator with a scheme of this library is no location of the web. -/
theorem IsOnWeb.ne_of_mem {l : Locator} (h : l.IsOnWeb) {scheme : String}
    (hscheme : scheme ∈ [Source.classpathOrigin, Source.fileOrigin]) (rest : String) :
    l ≠ ⟨scheme ++ ":" ++ rest⟩ := by
  rintro rfl
  obtain ⟨spelling, other, heq, hcolon, hmem⟩ := h.exists_spelling
  have hplain : ∀ s ∈ [Source.classpathOrigin, Source.fileOrigin], ':' ∉ s.toList ∧
      String.ofList ((Remote.clean s.toList).map Char.toLower) ∉ remoteSchemes := by decide
  rw [← spelling_unique (hplain scheme hscheme).1 hcolon heq] at hmem
  exact (hplain scheme hscheme).2 hmem

variable (w : World) (reading : ReadSetup)

/-- What reading should make of a remote location: one request and nothing else, of the location as it
stands and with the given timeout, which decides on the result. -/
structure IsFetched (l : Locator) : Prop where
  request : (read w reading l).events = [.fetching l.text reading.timeout]
  answer : ∀ text, w.web.fetch l.text = .ok text → (read w reading l).outcome = .ok text
  failure : ∀ reason, w.web.fetch l.text = .error reason →
    (read w reading l).outcome = .error (.resource (.fetchFailed l.text reason))

/-- **Reading by the spelling of the scheme.** -/
theorem read_spelled {spelling : String} (hcolon : ':' ∉ spelling.toList)
    (hother : spelling ∉ [Source.classpathOrigin, Source.fileOrigin]) (rest : String) :
    read w reading ⟨spelling ++ ":" ++ rest⟩ =
      if spelling ∈ remoteSchemes then readRemote w reading (spelling ++ ":" ++ rest)
      else Trace.fail (.unsupportedScheme spelling (spelling ++ ":" ++ rest)) := by
  obtain ⟨hclass, hfile⟩ : spelling ≠ Source.classpathOrigin ∧ spelling ≠ Source.fileOrigin := by
    simpa using hother
  obtain ⟨htake, hdrop⟩ := cut_at_colon spelling hcolon rest
  unfold read
  simp only [htake, hdrop, String.ofList_toList, if_neg hclass, if_neg hfile, List.contains_iff_mem]

/-- A location with a known scheme is fetched, and no other is requested. -/
theorem isFetched_iff_of_spelled {spelling : String} (hcolon : ':' ∉ spelling.toList)
    (hother : spelling ∉ [Source.classpathOrigin, Source.fileOrigin]) (rest : String) :
    IsFetched w reading ⟨spelling ++ ":" ++ rest⟩ ↔ spelling ∈ remoteSchemes := by
  have hread := read_spelled w reading hcolon hother rest
  by_cases hmem : spelling ∈ remoteSchemes
  · rw [if_pos hmem] at hread
    refine iff_of_true ⟨?_, fun text htext => ?_, fun reason hreason => ?_⟩ hmem
    · rw [hread, readRemote]
      cases w.web.fetch (spelling ++ ":" ++ rest) <;> rfl
    · rw [hread, readRemote, Trace.outcome_bind, Trace.outcome_tell, ok_bind, htext]
      rfl
    · rw [hread, readRemote, Trace.outcome_bind, Trace.outcome_tell, ok_bind, hreason]
      rfl
  · rw [if_neg hmem] at hread
    refine iff_of_false (fun h => ?_) hmem
    have hrequest := h.request
    rw [hread] at hrequest
    cases hrequest

end Locator

/-- Archives are only scanned for an expression with the origin `classpath`. -/
theorem Source.origin_of_choose_archives {lookup : Lookup} {e : Expression} {roots : List ArchiveRoot}
    (h : (choose lookup e).outcome = .ok (.archives roots)) : e.origin = some classpathOrigin := by
  rw [outcome_choose] at h
  by_contra hclass
  rw [if_neg hclass] at h
  split at h <;> cases h

/-- Only as a remote location does an expression stand for one of the web. -/
theorem exists_remote_of_mem_expand {w : World} {setup : Setup} {texts : List String}
    {ls : List Locator} {l : Locator} (hexpand : (expand w setup texts).outcome = .ok ls)
    (hl : l ∈ ls) (hweb : l.IsOnWeb) :
    ∃ text ∈ texts, ∃ e, Expression.parse text = some e ∧
      (Source.choose setup.lookup e).outcome = .ok .remote ∧ l = ⟨e.location⟩ := by
  obtain ⟨text, htext, e, source, found, hparse, -, hsource, hlist, hl⟩ :=
    exists_source_of_mem_expand hexpand hl
  refine ⟨text, htext, e, hparse, ?_⟩
  cases source with
  | remote => exact ⟨hsource, Source.eq_location_of_mem_listRemote hlist hl⟩
  | tree base =>
      obtain ⟨root, -, names, -, -, -, rfl⟩ := Source.exists_file_of_mem_listTree hlist hl
      exact absurd rfl (hweb.ne_of_mem (show Source.fileOrigin ∈ _ by simp) _)
  | archives roots =>
      obtain ⟨-, -, -, -, m, -, -, -, rfl⟩ := Source.exists_member_of_mem_listArchives hlist hl
      have horigin := Source.origin_of_choose_archives hsource
      rw [horigin] at hweb
      exact absurd rfl (hweb.ne_of_mem (show Source.classpathOrigin ∈ _ by simp) _)

theorem expand_spelledTwice : (expand spelledTwice nowhere ["http://h/x", "HTTP://h/x"]).outcome =
    .ok [⟨"http://h/x"⟩, ⟨"HTTP://h/x"⟩] := by
  decide

end AntResources
