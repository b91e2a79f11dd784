import AntResources.Proofs.ParsedForm

/-!
# AntResources.Proofs.CanonicalText

**Printing a parsed expression and parsing that again** changes nothing but the text that is kept with
it. The canonical text of an expression has its mark, its origin and its path in normal form
(`Expression.canonicalText`). An origin has no colon and no slash in it, so it is cut off where it was put
(`Expression.parse_of_cut`), and a path in normal form has itself as its normal form
(`Expression.pathSegments_path`). Only at its end the text may have to be a shorter one: parsing takes
blanks off there, and a path can end with one where something that says nothing stood behind it.
-/

namespace AntResources

open Text

/-! ### Blanks at the ends -/

namespace Text

/-- Where no blank stands at an end, none is taken off. -/
theorem trim_eq_self {cs : List Char} (hfirst : ∀ c, cs.head? = some c → isBlank c = false)
    (hlast : ∀ c, cs.getLast? = some c → isBlank c = false) : trim cs = cs := by
  have hkeep : ∀ {ds : List Char}, (∀ c, ds.head? = some c → isBlank c = false) →
      ds.dropWhile isBlank = ds := by
    intro ds hds
    cases ds with
    | nil => rfl
    | cons c ds => exact List.dropWhile_cons_of_neg (by simp [hds c rfl])
  rw [trim, trimStart, hkeep hfirst, trimEnd, hkeep (by rwa [List.head?_reverse]),
    List.reverse_reverse]

/-- A colon is no blank, so that a text with one is not trimmed behind it if nothing is to be trimmed
there. -/
theorem trim_of_colon {cs above below : List Char} (hcs : cs = above ++ ':' :: below)
    (hfirst : ∀ c, (above ++ [':']).head? = some c → isBlank c = false)
    (hlast : ∀ c, below.getLast? = some c → isBlank c = false) : trim cs = cs := by
  subst hcs
  refine trim_eq_self (fun c hc => hfirst c ?_) fun c hc => ?_
  · cases above <;> exact hc
  · rw [List.getLast?_append_cons, List.getLast?_cons] at hc
    cases hbelow : below.getLast? with
    | none =>
        rw [hbelow] at hc
        obtain rfl := Option.some.inj hc
        decide
    | some last =>
        rw [hbelow] at hc
        obtain rfl := Option.some.inj hc
        exact hlast last hbelow

/-- What is known of the character at an end. -/
theorem isBlank_of_eq_some {ending : Option Char} {c : Char} (h : ending = some c)
    (hc : isBlank c = false) : ∀ other, ending = some other → isBlank other = false := by
  intro other hother
  rwa [← Option.some.inj (h.symm.trans hother)]

/-- A text that was trimmed starts with no blank. -/
theorem isBlank_head?_trim {cs : List Char} {c : Char} (h : (trim cs).head? = some c) :
    isBlank c = false := by
  have hstart : trim cs <+: trimStart cs := by
    rw [trim, trimEnd, ← List.reverse_suffix, List.reverse_reverse]
    exact List.dropWhile_suffix isBlank
  obtain ⟨rest, hrest⟩ := hstart
  have hfirst : (cs.dropWhile isBlank).head? = some c := by
    rw [← trimStart, ← hrest, List.head?_append, h]
    rfl
  have hblank := List.head?_dropWhile_not isBlank cs
  rw [hfirst] at hblank
  simpa using hblank

/-- A normal form has itself as its normal form. -/
theorem normalize_normalize (rooted : Bool) (segments : List String) :
    normalize rooted (normalize rooted segments) = normalize rooted segments := by
  obtain ⟨-, hend⟩ := isNormalForm_iff.mpr (Eq.refl (normalize rooted segments))
  have hfixed : normalizeOnto rooted [] _ = [].reverse ++ _ := normalizeOnto_of_not_simplifies hend
  exact hfixed

end Text

namespace Expression

/-! ### The canonical text -/

/-- How a text starts that is an exclusion or is none. -/
def mark (exclusion : Bool) : List Char := if exclusion then ['~'] else []

@[simp] theorem mark_true : mark true = ['~'] := rfl

@[simp] theorem mark_false : mark false = [] := rfl

/-- The text of an expression with its path in normal form. -/
def canonicalText (e : Expression) : String :=
  String.ofList (mark e.exclusion) ++ e.origin.elim "" (· ++ ":") ++ e.path

/-- Parsing takes the mark off and reads what is behind it. -/
theorem exists_assemble_of_parse {text : String} {e : Expression} (h : parse text = some e) :
    ∃ body, body ≠ [] ∧ trim text.toList = mark e.exclusion ++ body ∧
      (e.exclusion = false → body.head? ≠ some '~') ∧
      e = assemble (trim text.toList) e.exclusion body := by
  rw [parse_of_trim rfl] at h
  split at h
  · next hmark =>
      rw [Option.ite_none_left_eq_some, Option.some.injEq] at h
      obtain ⟨hne, rfl⟩ := h
      exact ⟨_, hne, (List.cons_head?_tail hmark).symm,
        fun hfalse => absurd (show true = false from hfalse) (by decide), rfl⟩
  · next hmark =>
      rw [Option.ite_none_left_eq_some, Option.some.injEq] at h
      obtain ⟨hne, rfl⟩ := h
      exact ⟨_, hne, rfl, fun _ => hmark, rfl⟩

/-- **A text of a mark, an origin and a path** is parsed to just these, if no blank stands at its ends
and the origin does not begin with what is taken for a mark. -/
theorem parse_of_cut {text : String} {exclusion : Bool} {origin path : List Char}
    (htext : text.toList = mark exclusion ++ (origin ++ ':' :: path)) (hne : origin ≠ [])
    (hcolon : ':' ∉ origin) (hslash : '/' ∉ origin)
    (hmark : exclusion = false → origin.head? ≠ some '~')
    (hfirst : ∀ c, (mark exclusion ++ origin).head? = some c → isBlank c = false)
    (hlast : ∀ c, path.getLast? = some c → isBlank c = false) :
    parse text = some {
      raw := text
      exclusion := exclusion
      origin := some (String.ofList origin)
      root := (splitGlob (pathSegments path)).1
      glob := (splitGlob (pathSegments path)).2
      absolute := path.head? = some '/' } := by
  have hbody : splitOrigin (origin ++ ':' :: path) = (some origin, path) :=
    cutsOrigin_iff.mp (.named rfl hcolon hne hslash)
  have hhead : (origin ++ ':' :: path).head? = origin.head? := by
    rw [List.head?_append]
    cases horigin : origin with
    | nil => exact absurd horigin hne
    | cons c cs => rfl
  have htrim : trim text.toList = text.toList := by
    refine trim_of_colon (by rw [htext, List.append_assoc]) (fun c hc => hfirst c ?_) hlast
    rwa [List.head?_append_of_ne_nil _ (by simp [hne])] at hc
  have hassemble : parse text = some (assemble text.toList exclusion (origin ++ ':' :: path)) := by
    rw [parse_of_trim htrim, htext]
    cases exclusion with
    | true => simp
    | false =>
        rw [mark_false, List.nil_append, hhead, if_neg (hmark rfl)]
        simp
  rw [hassemble, assemble, hbody, String.ofList_toList]
  rfl

/-! ### The path of a parsed expression -/

section Parsed

variable {text : String} {e : Expression} (h : parse text = some e)

include h

theorem head?_path : decide (e.path.toList.head? = some '/') = e.absolute := by
  rw [path]
  cases e.absolute with
  | true => simp
  | false => simpa using head?_joinSlash (proper_of_parse h)

/-- The path of an expression is in normal form. -/
theorem pathSegments_path : pathSegments e.path.toList = e.root ++ e.glob := by
  obtain ⟨path, hsegments, habsolute⟩ := exists_of_parse h
  have hskip : ∀ names : List String,
      normalize e.absolute ((if e.absolute then [""] else []) ++ names) =
        normalize e.absolute names := by
    intro names
    cases e.absolute with
    | true => exact normalizeOnto_cons_skip (Or.inl rfl) names
    | false => rfl
  have hfixed : normalize e.absolute (e.root ++ e.glob) = e.root ++ e.glob := by
    rw [hsegments, pathSegments, ← habsolute, normalize_normalize]
  have hcut := splitSlash_path (proper_of_parse h)
  rw [splitSlash] at hcut
  rw [pathSegments, head?_path h, hcut, hskip]
  split
  · next hnil =>
      rw [hnil]
      exact normalizeOnto_cons_skip (Or.inl rfl) []
  · exact hfixed

theorem splitGlob_parts : splitGlob (e.root ++ e.glob) = (e.root, e.glob) := by
  obtain ⟨segments, hsplit⟩ := exists_splitGlob_of_parse h
  have hsegments := splitGlob_append segments
  rw [hsplit] at hsegments
  rw [hsegments, hsplit]

end Parsed

/-! ### Printing and parsing -/

variable {text : String} {e : Expression}

theorem parse_canonicalText_eq (h : parse text = some e) (horigin : e.origin ≠ none)
    (hlast : ∀ c, e.path.toList.getLast? = some c → isBlank c = false) :
    parse e.canonicalText = some { e with raw := e.canonicalText } := by
  obtain ⟨body, -, hraw, hmark, hassemble⟩ := exists_assemble_of_parse h
  obtain ⟨origin, path, hsplit⟩ : ∃ origin path, splitOrigin body = (origin, path) := ⟨_, _, rfl⟩
  have heq : e.origin = origin.map String.ofList := by
    rw [hassemble, assemble, hsplit]
  have hcut := cutsOrigin_iff.mpr hsplit
  cases hcut with
  | bare => exact absurd heq horigin
  | @named before _ hbody hcolon hne hslash =>
      have hhead : ∀ start, (start ++ before).head? = (start ++ body).head? := by
        intro start
        obtain ⟨c, cs, rfl⟩ := List.exists_cons_of_ne_nil hne
        rw [hbody, List.head?_append, List.head?_append]
        rfl
      have htext : e.canonicalText.toList =
          mark e.exclusion ++ (before ++ ':' :: e.path.toList) := by
        rw [canonicalText, heq]
        simp
      rw [parse_of_cut htext hne hcolon hslash
        (fun hnone => by rw [← List.nil_append before, hhead]; exact hmark hnone)
        (fun c hc => by rw [hhead, ← hraw] at hc; exact isBlank_head?_trim hc) hlast,
        pathSegments_path h, splitGlob_parts h, head?_path h]
      cases e
      cases heq
      rfl

/-- **Printing and parsing again** gives the same expression, with the printed text in place of the one
that it was parsed from: no other part of it has changed. -/
theorem exists_parse_canonicalText (h : parse text = some e) (horigin : e.origin ≠ none)
    (hlast : ∀ c, e.path.toList.getLast? = some c → isBlank c = false) :
    ∃ f, parse e.canonicalText = some f ∧ f.raw = e.canonicalText ∧ f.exclusion = e.exclusion ∧
      f.origin = e.origin ∧ f.absolute = e.absolute ∧ f.rootDir = e.rootDir ∧
      f.globText = e.globText ∧ f.baseDir = e.baseDir ∧ f.path = e.path :=
  ⟨_, parse_canonicalText_eq h horigin hlast, rfl, rfl, rfl, rfl, rfl, rfl, rfl, rfl⟩

/-- An origin that could be taken for a mark, behind one, and blanks inside the path. -/
theorem exists_parse_canonicalText_of_two_marks :
    ∃ e f, parse " ~~ o:/..//a/./ b /../*c \n" = some e ∧ e.canonicalText = "~~ o:/a/*c" ∧
      parse "~~ o:/a/*c" = some f ∧ f.origin = some "~ o" ∧ f.rootDir = "a" ∧ f.baseDir = "/a" ∧
      f.globText = "*c" ∧ f.path = e.path := by
  have hparse : parse " ~~ o:/..//a/./ b /../*c \n" =
      some ⟨"~~ o:/..//a/./ b /../*c", true, some "~ o", ["a"], ["*c"], true⟩ := by decide +kernel
  have hlast : (path ⟨"~~ o:/..//a/./ b /../*c", true, some "~ o", ["a"], ["*c"], true⟩).toList.getLast? =
      some 'c' := by decide +kernel
  obtain ⟨f, hf, -, -, horigin, -, hroot, hglob, hbase, hpath⟩ :=
    exists_parse_canonicalText hparse (by decide) (isBlank_of_eq_some hlast rfl)
  exact ⟨_, f, hparse, by decide +kernel, hf, horigin, hroot, hbase, hglob, hpath⟩

end Expression

end AntResources
