import Mathlib.Logic.Relation
import AntResources.Proofs.Climbs
import AntResources.Proofs.ReadingOutcomes
import AntResources.Proofs.RootAndGlob

/-!
# AntResources.Proofs.ParsedForm

**What an expression is parsed to**, said without the algorithms. The segments of a path simplify step
by step: an empty one or a `.` goes away, an ordinary one goes away with the `..` behind it, and at the
root a `..` does (`Text.Simplifies`). Every step keeps what normalizing gives and makes the list shorter,
so whichever steps are taken they end in the same list (`Text.isNormalForm_iff`). The root of an
expression is the longest literal start of that list that leaves the last segment out
(`Expression.isLongest_splitGlob`), and the two parts are joined to the path again
(`Expression.exists_parse_of_trim`).
-/

namespace AntResources

open Text

/-! ### Simplifying the segments of a path -/

namespace Text

/-- One simplification of the segments of a path that starts at the root or does not. -/
inductive Simplifies (rooted : Bool) : List String → List String → Prop where
  /-- An empty segment and a `.` say nothing. -/
  | skip (above below : List String) {s : String} (h : s = "" ∨ s = ".") :
    Simplifies rooted (above ++ s :: below) (above ++ below)
  /-- A `..` takes the ordinary segment before it away. -/
  | cancel (above below : List String) {s : String} (h : s ≠ "" ∧ s ≠ "." ∧ s ≠ "..") :
    Simplifies rooted (above ++ s :: ".." :: below) (above ++ below)
  /-- Nothing lies above the root. -/
  | top (below : List String) (h : rooted = true) : Simplifies rooted (".." :: below) below

/-- What the segments of a path come to if they are simplified for as long as they can be. -/
def IsNormalForm (rooted : Bool) (segments form : List String) : Prop :=
  Relation.ReflTransGen (Simplifies rooted) segments form ∧ ∀ next, ¬ Simplifies rooted form next

variable {rooted : Bool} {segments next form kept rest : List String}

/-- One step keeps what normalizing gives behind other segments, if these are none where the step relies
on the root. -/
theorem normalizeOnto_eq_of_simplifies {top : Bool} (h : Simplifies top segments next)
    (htop : top = true → rooted = true ∧ kept = []) :
    normalizeOnto rooted kept segments = normalizeOnto rooted kept next := by
  cases h with
  | skip above below h =>
      rw [normalizeOnto_append, normalizeOnto_cons_skip h, ← normalizeOnto_append]
  | cancel above below h =>
      obtain ⟨hempty, hdot, hup⟩ := h
      rw [normalizeOnto_append, normalizeOnto_cons_name (by simp [hempty, hdot]) hup,
        normalizeOnto_cons_up, Text.cancel, if_neg hup, ← normalizeOnto_append]
  | top below h =>
      obtain ⟨hrooted, rfl⟩ := htop h
      rw [normalizeOnto_cons_up, Text.cancel, if_pos hrooted]

/-- **One step keeps what normalizing gives.** -/
theorem normalize_eq_of_simplifies (h : Simplifies rooted segments next) :
    normalize rooted segments = normalize rooted next :=
  normalizeOnto_eq_of_simplifies h fun htop => ⟨htop, rfl⟩

theorem length_lt_of_simplifies (h : Simplifies rooted segments next) :
    next.length < segments.length := by
  cases h with
  | skip above below => simp
  | cancel above below =>
      simp only [List.length_append, List.length_cons]
      omega
  | top below => exact Nat.lt_succ_self _

/-- Steps come to an end. -/
theorem exists_isNormalForm (rooted : Bool) (segments : List String) :
    ∃ form, IsNormalForm rooted segments form := by
  by_cases h : ∃ next, Simplifies rooted segments next
  · obtain ⟨next, hstep⟩ := h
    have hshorter := length_lt_of_simplifies hstep
    obtain ⟨form, hsteps, hend⟩ := exists_isNormalForm rooted next
    exact ⟨form, hsteps.head hstep, hend⟩
  · exact ⟨segments, .refl, not_exists.mp h⟩
termination_by segments.length

/-- What cannot be simplified is normalized already. -/
theorem normalizeOnto_of_not_simplifies (h : ∀ next, ¬ Simplifies rooted (kept.reverse ++ rest) next) :
    normalizeOnto rooted kept rest = kept.reverse ++ rest := by
  induction rest generalizing kept with
  | nil => simp [normalizeOnto]
  | cons s rest ih =>
      have hmove : kept.reverse ++ s :: rest = (s :: kept).reverse ++ rest := by simp
      by_cases hskip : s = "" ∨ s = "."
      · exact absurd (.skip _ _ hskip) (h _)
      by_cases hup : s = ".."
      · subst hup
        have hstay : Text.cancel rooted kept = ".." :: kept := by
          cases kept with
          | nil =>
              have hrooted : rooted = false := by
                by_contra htop
                exact h _ (.top _ (by simpa using htop))
              rw [Text.cancel, hrooted]
              rfl
          | cons last before =>
              rw [Text.cancel]
              refine if_pos ?_
              by_contra hlast
              rw [List.reverse_cons, List.append_assoc] at h
              by_cases hplain : last = "" ∨ last = "."
              · exact h _ (.skip _ _ hplain)
              · obtain ⟨hempty, hdot⟩ := not_or.mp hplain
                exact h _ (.cancel _ _ ⟨hempty, hdot, hlast⟩)
        rw [hmove] at h ⊢
        rw [normalizeOnto_cons_up, hstay, ih h]
      · rw [hmove] at h ⊢
        rw [normalizeOnto_cons_name hskip hup, ih h]

/-- **The normal form is unique**: whichever steps are taken, they end in what normalizing gives. -/
theorem isNormalForm_iff : IsNormalForm rooted segments form ↔ form = normalize rooted segments := by
  have hunique : ∀ {form}, IsNormalForm rooted segments form → form = normalize rooted segments := by
    intro form h
    obtain ⟨hsteps, hend⟩ := h
    have hsame : normalize rooted segments = normalize rooted form := by
      induction hsteps using Relation.ReflTransGen.head_induction_on with
      | refl => rfl
      | head hstep _ ih => exact (normalize_eq_of_simplifies hstep).trans ih
    have hfixed : normalizeOnto rooted [] form = [].reverse ++ form :=
      normalizeOnto_of_not_simplifies hend
    rw [hsame]
    exact hfixed.symm
  constructor
  · exact hunique
  · rintro rfl
    obtain ⟨form, hform⟩ := exists_isNormalForm rooted segments
    rwa [← hunique hform]

/-! ### Texts without idle slashes -/

/-- A text that neither starts nor ends with a slash, has no two of them in a row, and has no segment
that is a `.`. -/
def Tidy (s : String) : Prop :=
  s.toList.head? ≠ some '/' ∧ s.toList.getLast? ≠ some '/' ∧ ¬ ['/', '/'] <:+: s.toList ∧
    "." ∉ splitSlash s

/-- Cutting at separators goes on behind each of them. -/
theorem split_append_sep (sep : Char) (above below : List Char) :
    split sep (above ++ sep :: below) = split sep above ++ split sep below := by
  induction above with
  | nil => simp [split]
  | cons c above ih =>
      by_cases hc : c = sep
      · rw [List.cons_append, split, if_pos hc, ih, split, if_pos hc, List.cons_append]
      · rw [List.cons_append, split, if_neg hc, ih, split, if_neg hc]
        cases hsplit : split sep above with
        | nil => exact absurd hsplit (split_ne_nil sep above)
        | cons piece pieces => rfl

theorem tidy_joinSlash (h : Proper segments) : Tidy (joinSlash segments) := by
  by_cases hne : segments = []
  · subst hne
    simp [Tidy, splitSlash, split]
  have hcut := splitSlash_joinSlash hne fun s hs => (h s hs).2.2
  refine ⟨head?_joinSlash h, ?_, ?_, ?_⟩
  · rw [toList_joinSlash]
    exact getLast?_pathText (by simpa using h.isSegment)
  · rintro ⟨above, below, htext⟩
    have hpiece : "" ∈ splitSlash (joinSlash segments) := by
      have hbelow : above ++ ['/', '/'] ++ below = above ++ '/' :: ([] ++ '/' :: below) := by simp
      rw [splitSlash, ← htext, hbelow, split_append_sep, split_append_sep]
      simp [split]
    rw [hcut] at hpiece
    exact (h "" hpiece).1 rfl
  · rw [hcut]
    exact fun hdot => (h "." hdot).2.1 rfl

theorem not_mem_joinSlash {c : Char} (hc : c ≠ '/') (h : ∀ s ∈ segments, c ∉ s.toList) :
    c ∉ (joinSlash segments).toList := by
  induction segments with
  | nil => simp
  | cons s segments ih =>
      obtain ⟨hs, hsegments⟩ := List.forall_mem_cons.mp h
      cases segments with
      | nil => exact hs
      | cons t rest => simpa [hs, hc] using ih hsegments

end Text

/-! ### The origin -/

namespace Expression

/-- How an origin is cut off. It ends at the first colon, and there is none if that colon comes first or
behind a slash. -/
inductive CutsOrigin (body : List Char) : Option (List Char) → List Char → Prop where
  | named {before path : List Char} (hbody : body = before ++ ':' :: path) (hfirst : ':' ∉ before)
    (hne : before ≠ []) (hslash : '/' ∉ before) : CutsOrigin body (some before) path
  | bare (h : ∀ before after, body = before ++ ':' :: after → ':' ∉ before →
    before = [] ∨ '/' ∈ before) : CutsOrigin body none body

theorem splitOrigin_of_cutsOrigin {body path : List Char} {origin : Option (List Char)}
    (h : CutsOrigin body origin path) : splitOrigin body = (origin, path) := by
  cases h with
  | @named before path hbody hfirst hne hslash =>
      subst hbody
      obtain ⟨htake, hdrop⟩ := Text.cut_append hfirst path
      simp only [splitOrigin, htake, hdrop]
      rw [if_neg (by simp [hne, hslash])]
  | bare h =>
      unfold splitOrigin
      by_cases hcolon : ':' ∈ body
      · obtain ⟨before, after, hbody, hfirst⟩ := List.eq_append_cons_of_mem hcolon
        obtain ⟨htake, -⟩ := Text.cut_append hfirst after
        simp only [List.contains_eq_mem, decide_eq_true_eq]
        rw [hbody, htake, if_pos (h _ _ hbody hfirst)]
      · simp only [Locator.dropWhile_of_no_colon hcolon]
        split <;> rfl

/-- The origin is cut off in just one way. -/
theorem cutsOrigin_iff {body path : List Char} {origin : Option (List Char)} :
    CutsOrigin body origin path ↔ splitOrigin body = (origin, path) := by
  refine ⟨splitOrigin_of_cutsOrigin, fun h => ?_⟩
  by_cases hnamed : ∃ before after, body = before ++ ':' :: after ∧ ':' ∉ before ∧
      before ≠ [] ∧ '/' ∉ before
  · obtain ⟨before, after, hbody, hfirst, hne, hslash⟩ := hnamed
    have hcut := CutsOrigin.named hbody hfirst hne hslash
    obtain ⟨rfl, rfl⟩ := Prod.mk.inj ((splitOrigin_of_cutsOrigin hcut).symm.trans h)
    exact hcut
  · have hcut : CutsOrigin body none body := by
      refine .bare fun before after hbody hfirst => ?_
      by_contra hneither
      obtain ⟨hne, hslash⟩ := not_or.mp hneither
      exact hnamed ⟨before, after, hbody, hfirst, hne, hslash⟩
    obtain ⟨rfl, rfl⟩ := Prod.mk.inj ((splitOrigin_of_cutsOrigin hcut).symm.trans h)
    exact hcut

/-! ### The root and the glob -/

/-- Some segments at the start of a path that are no globs and leave at least the last segment out. -/
def IsLiteralStart (segments root : List String) : Prop :=
  root <+: segments ∧ root.length ≤ segments.length - 1 ∧ ∀ s ∈ root, '*' ∉ s.toList ∧ '?' ∉ s.toList

theorem isGlob_eq_false_iff {s : String} : isGlob s = false ↔ '*' ∉ s.toList ∧ '?' ∉ s.toList := by
  simp only [isGlob, List.any_eq_false, decide_eq_true_eq, not_or]
  constructor
  · intro h
    exact ⟨fun hstar => (h _ hstar).1 rfl, fun hmark => (h _ hmark).2 rfl⟩
  · rintro ⟨hstar, hmark⟩ c hc
    exact ⟨fun heq => hstar (heq ▸ hc), fun heq => hmark (heq ▸ hc)⟩

theorem isLiteralStart_splitGlob (segments : List String) :
    IsLiteralStart segments (splitGlob segments).1 := by
  have hcut := splitGlob_append segments
  refine ⟨⟨_, hcut⟩, ?_, fun s hs => isGlob_eq_false_iff.mp (isGlob_of_mem_splitGlob hs)⟩
  by_cases hne : segments = []
  · subst hne
    exact le_rfl
  · have hlast := List.length_pos_iff.mpr (splitGlob_snd_ne_nil hne)
    have hlength := congrArg List.length hcut
    rw [List.length_append] at hlength
    omega

/-- **The root is the longest literal start.** -/
theorem prefix_splitGlob {segments other : List String} (h : IsLiteralStart segments other) :
    other <+: (splitGlob segments).1 := by
  obtain ⟨hstart, hlength, hliteral⟩ := h
  fun_induction splitGlob segments generalizing other with
  | case1 => simpa using hstart
  | case2 last => simpa using hlength
  | case3 segment next rest hglob =>
      cases other with
      | nil => exact List.nil_prefix
      | cons s other =>
          obtain ⟨rfl, -⟩ := List.cons_prefix_cons.mp hstart
          have hplain := isGlob_eq_false_iff.mpr (hliteral s List.mem_cons_self)
          exact absurd (hglob.symm.trans hplain) (by decide)
  | case4 segment next rest hglob root glob hsplit ih =>
      cases other with
      | nil => exact List.nil_prefix
      | cons s other =>
          obtain ⟨rfl, hrest⟩ := List.cons_prefix_cons.mp hstart
          rw [hsplit] at ih
          refine List.cons_prefix_cons.mpr ⟨rfl, ih hrest ?_ fun t ht => ?_⟩
          · simpa using hlength
          · exact hliteral t (List.mem_cons_of_mem _ ht)

/-! ### The parts of a parsed expression -/

/-- What the parts of an expression say when its path is `path`, behind this origin, and comes to these
segments. -/
structure HasForm (e : Expression) (origin : Option (List Char)) (path : List Char)
    (segments : List String) : Prop where
  origin_eq : e.origin = origin.map String.ofList
  absolute_iff : e.absolute = true ↔ path.head? = some '/'
  path_eq : e.path = (if e.absolute then "/" else "") ++ joinSlash segments
  /-- The path is cut behind its longest literal start. -/
  cut : ∃ root glob, segments = root ++ glob ∧ IsLiteralStart segments root ∧
    (∀ other, IsLiteralStart segments other → other <+: root) ∧
      e.rootDir = joinSlash root ∧ e.globText = joinSlash glob

/-- What holds of the texts of an expression whatever it was parsed from. -/
structure IsTidy (e : Expression) : Prop where
  rootDir : Tidy e.rootDir
  globText : Tidy e.globText
  literal : '*' ∉ e.rootDir.toList ∧ '?' ∉ e.rootDir.toList
  /-- A `..` stands only at the start of a relative path, or behind another one there. -/
  climbsFirst : ClimbsFirst (splitSlash e.path)
  rooted : e.absolute = true → ".." ∉ splitSlash e.path
  /-- The root and the glob are the two parts of the path. -/
  path_eq : e.path = (if e.absolute then "/" else "") ++
    if e.rootDir = "" then e.globText else e.rootDir ++ "/" ++ e.globText

/-- A text without the mark of an exclusion. -/
def unmarked (raw : List Char) : List Char := if raw.head? = some '~' then raw.tail else raw

/-- A text with something in it besides a mark is parsed. -/
theorem exists_parse_eq_assemble {text : String} (hempty : trim text.toList ≠ [])
    (hmark : trim text.toList ≠ ['~']) : ∃ exclusion, parse text =
      some (assemble (trim text.toList) exclusion (unmarked (trim text.toList))) := by
  rw [parse_of_trim rfl]
  unfold unmarked
  cases hraw : trim text.toList with
  | nil => exact absurd hraw hempty
  | cons c body =>
      by_cases hc : c = '~'
      · subst hc
        have hbody : body ≠ [] := by
          rintro rfl
          exact hmark hraw
        exact ⟨true, by simp [hbody]⟩
      · exact ⟨false, by simp [hc]⟩

/-- Parsing finds the cuts and the normal form. -/
theorem hasForm_assemble (raw : List Char) (exclusion : Bool) {body path : List Char}
    {origin : Option (List Char)} {segments : List String} (hcut : CutsOrigin body origin path)
    (hform : IsNormalForm (path.head? = some '/') ((split '/' path).map String.ofList) segments) :
    (assemble raw exclusion body).HasForm origin path segments := by
  have hbody := cutsOrigin_iff.mp hcut
  have hsegments : pathSegments (splitOrigin body).2 = segments := by
    rw [hbody]
    exact (isNormalForm_iff.mp hform).symm
  constructor
  case origin_eq => rw [assemble, hbody]
  case absolute_iff => simp [assemble, hbody]
  case path_eq => rw [Expression.path, segments_assemble, hsegments]
  case cut =>
    refine ⟨_, _, (splitGlob_append segments).symm, isLiteralStart_splitGlob segments,
      fun other hother => prefix_splitGlob hother, ?_, ?_⟩
    · rw [Expression.rootDir, assemble, hsegments]
    · rw [Expression.globText, assemble, hsegments]

/-- The segments of the text of a path. -/
theorem splitSlash_path {e : Expression} (h : Proper (e.root ++ e.glob)) : splitSlash e.path =
    (if e.absolute then [""] else []) ++
      if e.root ++ e.glob = [] then [""] else e.root ++ e.glob := by
  have hjoined : splitSlash (joinSlash (e.root ++ e.glob)) =
      if e.root ++ e.glob = [] then [""] else e.root ++ e.glob := by
    split
    · next hnil => rw [hnil]; rfl
    · next hne => exact splitSlash_joinSlash hne fun s hs => (h s hs).2.2
  rw [← hjoined, Expression.path]
  split
  · simp [splitSlash, split]
  · simp

theorem isTidy_of_parse {text : String} {e : Expression} (h : parse text = some e) : e.IsTidy := by
  have hproper := proper_of_parse h
  obtain ⟨path, hsegments, habsolute⟩ := exists_of_parse h
  obtain ⟨segments, hsplit⟩ := exists_splitGlob_of_parse h
  have hliteral : ∀ s ∈ e.root, '*' ∉ s.toList ∧ '?' ∉ s.toList := fun s hs =>
    isGlob_eq_false_iff.mp (isGlob_of_mem_splitGlob (by rwa [hsplit]))
  have hrooted : e.absolute = true → ".." ∉ splitSlash e.path := by
    intro htrue
    have hup : ".." ∉ e.root ++ e.glob := by
      rw [hsegments, pathSegments, ← habsolute, htrue]
      exact not_mem_normalizeOnto_rooted List.not_mem_nil _
    rw [splitSlash_path hproper, if_pos htrue]
    by_cases hnil : e.root ++ e.glob = []
    · rw [if_pos hnil]
      decide
    · rw [if_neg hnil, List.mem_append, not_or]
      exact ⟨by decide, hup⟩
  constructor
  case rootDir => exact tidy_joinSlash (proper_root_of_parse h)
  case globText => exact tidy_joinSlash fun s hs => hproper s (List.mem_append_right _ hs)
  case literal =>
    exact ⟨not_mem_joinSlash (by decide) fun s hs => (hliteral s hs).1,
      not_mem_joinSlash (by decide) fun s hs => (hliteral s hs).2⟩
  case climbsFirst =>
    cases habs : e.absolute with
    | true => exact fun hmem => hrooted habs ((List.dropWhile_suffix _).mem hmem)
    | false =>
        rw [splitSlash_path hproper, habs, if_neg (by decide), List.nil_append]
        by_cases hnil : e.root ++ e.glob = []
        · rw [if_pos hnil]
          simp [ClimbsFirst, descent]
        · rw [if_neg hnil, hsegments]
          exact climbsFirst_normalize _ _
  case rooted => exact hrooted
  case path_eq => rw [Expression.path, ← fullPattern_of_parse h, fullPattern]

/-- **Parsing finds the one normal form.** A text with something in it besides a mark is parsed. There is
one way to cut its origin off, and one list that the segments of the path behind it simplify to; the
parts of the expression are read off these. -/
theorem exists_parse_of_trim (text : String) (hempty : trim text.toList ≠ [])
    (hmark : trim text.toList ≠ ['~']) :
    ∃ e origin path segments, parse text = some e ∧ e.HasForm origin path segments ∧ e.IsTidy ∧
      ∀ o p s, (CutsOrigin (unmarked (trim text.toList)) o p ∧
          IsNormalForm (p.head? = some '/') ((split '/' p).map String.ofList) s) ↔
        o = origin ∧ p = path ∧ s = segments := by
  obtain ⟨exclusion, hparse⟩ := exists_parse_eq_assemble hempty hmark
  obtain ⟨origin, path, hbody⟩ :
      ∃ origin path, splitOrigin (unmarked (trim text.toList)) = (origin, path) := ⟨_, _, rfl⟩
  have hcut := cutsOrigin_iff.mpr hbody
  have hform := isNormalForm_iff.mpr (Eq.refl (pathSegments path))
  refine ⟨_, origin, path, _, hparse, hasForm_assemble _ _ hcut hform, isTidy_of_parse hparse, ?_⟩
  intro o p s
  rw [cutsOrigin_iff, isNormalForm_iff, hbody, Prod.mk.injEq]
  constructor
  · rintro ⟨⟨rfl, rfl⟩, rfl⟩
    exact ⟨rfl, rfl, rfl⟩
  · rintro ⟨rfl, rfl, rfl⟩
    exact ⟨⟨rfl, rfl⟩, rfl⟩

/-- Behind a blank, a mark and an origin, a path that climbs out of a folder into which it never went. -/
theorem exists_parse_of_climbing_path :
    ∃ e, parse " ~o:..//a/./../../b*/c\n" = some e ∧
      e.HasForm (some ['o']) "..//a/./../../b*/c".toList ["..", "..", "b*", "c"] ∧ e.IsTidy := by
  obtain ⟨e, origin, path, segments, hparse, hform, htidy, hunique⟩ :=
    exists_parse_of_trim " ~o:..//a/./../../b*/c\n" (by decide +kernel) (by decide +kernel)
  have hcut : CutsOrigin (unmarked (trim " ~o:..//a/./../../b*/c\n".toList)) (some ['o'])
      "..//a/./../../b*/c".toList := cutsOrigin_iff.mpr (by decide +kernel)
  obtain ⟨rfl, rfl, rfl⟩ := (hunique _ _ ["..", "..", "b*", "c"]).mp
    ⟨hcut, isNormalForm_iff.mpr (by decide +kernel)⟩
  exact ⟨e, hparse, hform, htidy⟩

end Expression

end AntResources
