import AntResources.Expression
import AntResources.Path
import AntResources.Proofs.SegmentText

/-!
# AntResources.Proofs.NormalForm

**Segments in normal form.** Normalizing goes through a path from left to right and keeps what is
settled, so it can be cut anywhere (`normalizeOnto_append`), and segments that mean just themselves
pass it unchanged (`normalizeOnto_of_plain`). So the absolute path of a path with such segments
behind it is that of the path, with the segments behind it (`Path.absolute_below`). The segments of
an expression have come out of it, and none of them is empty or `.` (`Expression.proper_of_parse`).
-/

namespace AntResources

open Text

namespace Text

variable {rooted : Bool} {kept : List String}

/-! ### Normalizing -/

theorem normalizeOnto_cons_skip {s : String} (h : s = "" ∨ s = ".") (rest : List String) :
    normalizeOnto rooted kept (s :: rest) = normalizeOnto rooted kept rest := by
  simp only [normalizeOnto, h, if_true]

theorem normalizeOnto_cons_name {s : String} (h : ¬ (s = "" ∨ s = ".")) (hup : s ≠ "..")
    (rest : List String) :
    normalizeOnto rooted kept (s :: rest) = normalizeOnto rooted (s :: kept) rest := by
  simp only [normalizeOnto, h, hup, if_false]

/-- What is kept once a `..` has been read. -/
def cancel (rooted : Bool) : List String → List String
  | [] => if rooted then [] else [".."]
  | last :: before => if last = ".." then ".." :: last :: before else before

theorem normalizeOnto_cons_up (rest : List String) :
    normalizeOnto rooted kept (".." :: rest) = normalizeOnto rooted (cancel rooted kept) rest := by
  unfold cancel
  cases kept with
  | nil => rfl
  | cons last before =>
      by_cases h : last = ".."
      · subst h
        rfl
      · simp [normalizeOnto, h]

/-- Cancelling keeps nothing new but the `..` itself. -/
theorem mem_cancel {s : String} (h : s ∈ cancel rooted kept) : s ∈ kept ∨ s = ".." := by
  cases kept with
  | nil =>
      cases rooted with
      | true => cases h
      | false => exact Or.inr (List.mem_singleton.mp h)
  | cons last before =>
      rw [cancel] at h
      split at h
      · exact (List.mem_cons.mp h).symm
      · exact Or.inl (List.mem_cons_of_mem _ h)

/-- Normalizing only drops segments, the empty ones and every `.` among them. -/
theorem mem_normalizeOnto {segments : List String} {s : String}
    (h : s ∈ normalizeOnto rooted kept segments) :
    s ∈ kept ∨ (s ∈ segments ∧ s ≠ "" ∧ s ≠ ".") := by
  induction segments generalizing kept with
  | nil => exact Or.inl (List.mem_reverse.mp h)
  | cons first rest ih =>
      have hlater : (s ∈ rest ∧ s ≠ "" ∧ s ≠ ".") → s ∈ first :: rest ∧ s ≠ "" ∧ s ≠ "." :=
        fun hs => ⟨List.mem_cons_of_mem _ hs.1, hs.2⟩
      by_cases hskip : first = "" ∨ first = "."
      · rw [normalizeOnto_cons_skip hskip] at h
        exact (ih h).imp_right hlater
      by_cases hup : first = ".."
      · subst hup
        rw [normalizeOnto_cons_up] at h
        cases ih h with
        | inl hcancel =>
            refine (mem_cancel hcancel).imp_right fun heq => ?_
            exact ⟨heq ▸ List.mem_cons_self, by simp [heq]⟩
        | inr hrest => exact Or.inr (hlater hrest)
      · rw [normalizeOnto_cons_name hskip hup] at h
        cases ih h with
        | inl hkept =>
            cases List.mem_cons.mp hkept with
            | inl heq => exact Or.inr ⟨heq ▸ List.mem_cons_self, not_or.mp (heq ▸ hskip)⟩
            | inr hkept => exact Or.inl hkept
        | inr hrest => exact Or.inr (hlater hrest)

theorem normalizeOnto_append (above below : List String) :
    normalizeOnto rooted kept (above ++ below) =
      normalizeOnto rooted (normalizeOnto rooted kept above).reverse below := by
  induction above generalizing kept with
  | nil => rw [List.nil_append, normalizeOnto, List.reverse_reverse]
  | cons first rest ih =>
      rw [List.cons_append]
      by_cases hskip : first = "" ∨ first = "."
      · rw [normalizeOnto_cons_skip hskip, normalizeOnto_cons_skip hskip, ih]
      by_cases hup : first = ".."
      · subst hup
        rw [normalizeOnto_cons_up, normalizeOnto_cons_up, ih]
      · rw [normalizeOnto_cons_name hskip hup, normalizeOnto_cons_name hskip hup, ih]

/-- Segments that mean just themselves are kept as they are. -/
theorem normalizeOnto_of_plain {segments : List String}
    (h : ∀ s ∈ segments, s ≠ "" ∧ s ≠ "." ∧ s ≠ "..") :
    normalizeOnto rooted kept segments = kept.reverse ++ segments := by
  induction segments generalizing kept with
  | nil => rw [normalizeOnto, List.append_nil]
  | cons s segments ih =>
      obtain ⟨⟨hempty, hdot, hup⟩, hrest⟩ := List.forall_mem_cons.mp h
      rw [normalizeOnto_cons_name (by simp [hempty, hdot]) hup, ih hrest]
      simp

/-! ### Proper segments -/

/-- Segments that can stand in a normal form: none is empty or `.`, or has a slash in it. -/
def Proper (segments : List String) : Prop := ∀ s ∈ segments, s ≠ "" ∧ s ≠ "." ∧ '/' ∉ s.toList

/-- What a text was cut into at its slashes is brought to proper segments. -/
theorem proper_normalize {segments : List String} (h : ∀ s ∈ segments, '/' ∉ s.toList) :
    Proper (normalize rooted segments) := by
  intro s hs
  cases mem_normalizeOnto hs with
  | inl hkept => cases hkept
  | inr hsegment => exact ⟨hsegment.2.1, hsegment.2.2, h s hsegment.1⟩

namespace Proper

variable {segments names : List String}

theorem isSegment (h : Proper segments) : ∀ s ∈ segments, IsSegment s.toList :=
  fun s hs => ⟨by simpa using (h s hs).1, (h s hs).2.2⟩

theorem noSlash (h : Proper segments) : ∀ s ∈ segments.map String.toList, '/' ∉ s := by
  simpa using fun s hs => (h s hs).2.2

theorem joinSlash_inj (h : Proper segments) (hnames : Proper names) (hne : segments ≠ [])
    (hnenames : names ≠ []) (heq : joinSlash segments = joinSlash names) : segments = names := by
  rw [← splitSlash_joinSlash hne fun s hs => (h s hs).2.2, heq,
    splitSlash_joinSlash hnenames fun s hs => (hnames s hs).2.2]

/-- What a joined text starts with before a slash is what the segments start with. -/
theorem joinSlash_eq_append_iff (h : Proper segments) (hnames : Proper names) (hne : names ≠ [])
    {rest : String} : joinSlash segments = joinSlash names ++ "/" ++ rest ↔
      ∃ below, below ≠ [] ∧ segments = names ++ below ∧ rest = joinSlash below := by
  constructor
  · intro heq
    have hchars := congrArg String.toList heq
    rw [String.toList_append, String.toList_append, toList_joinSlash, toList_joinSlash] at hchars
    have hsegments : segments.map String.toList ≠ [] := by
      intro hnil
      rw [hnil] at hchars
      simp at hchars
    have hbelow : belowText (segments.map String.toList) =
        belowText (names.map String.toList) ++ '/' :: rest.toList := by
      rw [belowText_eq_cons_pathText hsegments, hchars,
        belowText_eq_cons_pathText (by simpa using hne)]
      simp
    obtain ⟨below, hbelowne, hsplit, hrest⟩ :=
      exists_append_of_belowText_eq h.noSlash hnames.noSlash hbelow
    obtain ⟨above, later, rfl, habove, rfl⟩ := List.map_eq_append_iff.mp hsplit
    have hsame : above = names := (List.map_inj_right fun _ _ => String.toList_inj.mp).mp habove
    refine ⟨later, by simpa using hbelowne, by rw [hsame], ?_⟩
    rw [← String.toList_inj, hrest, toList_joinSlash]
  · intro hsplit
    obtain ⟨below, hbelow, rfl, rfl⟩ := hsplit
    exact joinSlash_append hne hbelow

/-- The same where the joined text has a slash at its end. -/
theorem exists_append_of_folder_eq (h : Proper segments) (hnames : Proper names)
    (hsegments : segments ≠ []) (hne : names ≠ []) {rest : String}
    (heq : joinSlash segments ++ "/" = joinSlash names ++ "/" ++ rest) :
    ∃ below, segments = names ++ below := by
  have hchars : (joinSlash segments).toList ++ ['/'] =
      (joinSlash names).toList ++ ('/' :: rest.toList) := by
    have hlists := congrArg String.toList heq
    simpa using hlists
  rcases List.eq_nil_or_concat rest.toList with hrest | ⟨start, last, hrest⟩
  · rw [hrest] at hchars
    have hsame := List.append_cancel_right hchars
    exact ⟨[], by
      rw [List.append_nil]
      exact h.joinSlash_inj hnames hsegments hne (String.toList_inj.mp hsame)⟩
  · rw [hrest, List.concat_eq_append, ← List.cons_append, ← List.append_assoc] at hchars
    obtain ⟨hstart, -⟩ := List.append_singleton_inj.mp hchars
    have hsplit : joinSlash segments = joinSlash names ++ "/" ++ String.ofList start := by
      rw [← String.toList_inj, hstart]
      simp
    obtain ⟨below, -, hbelow, -⟩ := (h.joinSlash_eq_append_iff hnames hne).mp hsplit
    exact ⟨below, hbelow⟩

end Proper

end Text

/-! ### The segments of an expression -/

namespace Expression

theorem splitGlob_append (segments : List String) :
    (splitGlob segments).1 ++ (splitGlob segments).2 = segments := by
  fun_induction splitGlob segments with
  | case1 => rfl
  | case2 last => rfl
  | case3 segment next rest hglob => rfl
  | case4 segment next rest hglob root glob hsplit ih =>
      rw [hsplit] at ih
      exact congrArg (segment :: ·) ih

/-- The expression with the given text and mark and what follows them. -/
def assemble (raw : List Char) (exclusion : Bool) (body : List Char) : Expression where
  raw := String.ofList raw
  exclusion := exclusion
  origin := (splitOrigin body).1.map String.ofList
  root := (splitGlob (pathSegments (splitOrigin body).2)).1
  glob := (splitGlob (pathSegments (splitOrigin body).2)).2
  absolute := (splitOrigin body).2.head? = some '/'

theorem segments_assemble (raw : List Char) (exclusion : Bool) (body : List Char) :
    (assemble raw exclusion body).root ++ (assemble raw exclusion body).glob =
      pathSegments (splitOrigin body).2 :=
  splitGlob_append _

/-- Parsing takes the blanks and the mark off, and needs something to be left. -/
theorem parse_of_trim {text : String} {raw : List Char} (h : trim text.toList = raw) :
    parse text =
      if raw.head? = some '~' then
        if raw.tail = [] then none else some (assemble raw true raw.tail)
      else if raw = [] then none else some (assemble raw false raw) := by
  unfold parse
  rw [h]
  by_cases hmark : raw.head? = some '~'
  · rw [if_pos hmark]
    simp only [hmark, decide_true, if_true]
    rfl
  · rw [if_neg hmark]
    simp only [hmark, decide_false, Bool.false_eq_true, if_false]
    rfl

theorem ne_empty_of_parse {text : String} {e : Expression} (h : parse text = some e) : text ≠ "" := by
  rintro rfl
  cases h

/-- What is parsed is the location of an expression. -/
theorem eq_assemble_of_parse {text : String} {e : Expression} (h : parse text = some e) :
    e = assemble (trim text.toList) e.exclusion e.location.toList := by
  rw [parse_of_trim rfl] at h
  split at h
  all_goals
    rw [Option.ite_none_left_eq_some, Option.some.injEq] at h
    obtain ⟨-, rfl⟩ := h
    simp [location, assemble]

theorem origin_of_parse {text : String} {e : Expression} (h : parse text = some e) :
    e.origin = (splitOrigin e.location.toList).1.map String.ofList :=
  congrArg origin (eq_assemble_of_parse h)

/-- The segments of an expression are those of a path in normal form. -/
theorem exists_of_parse {text : String} {e : Expression} (h : parse text = some e) :
    ∃ path, e.root ++ e.glob = pathSegments path ∧ e.absolute = decide (path.head? = some '/') := by
  rw [eq_assemble_of_parse h]
  exact ⟨_, segments_assemble _ _ _, rfl⟩

theorem proper_pathSegments (path : List Char) : Proper (pathSegments path) := by
  refine proper_normalize fun s hs => ?_
  obtain ⟨piece, hpiece, rfl⟩ := List.mem_map.mp hs
  rw [String.toList_ofList]
  exact not_mem_of_mem_split hpiece

theorem proper_of_parse {text : String} {e : Expression} (h : parse text = some e) :
    Proper (e.root ++ e.glob) := by
  obtain ⟨path, hpath, -⟩ := exists_of_parse h
  rw [hpath]
  exact proper_pathSegments path

theorem proper_root_of_parse {text : String} {e : Expression} (h : parse text = some e) :
    Proper e.root :=
  fun s hs => proper_of_parse h s (List.mem_append_left _ hs)

end Expression

/-! ### Written paths -/

namespace Path

/-- The path with some names after it. -/
def below (p : Path) (names : List String) : Path := ⟨p.anchor, p.parts ++ names⟩

@[simp] theorem below_nil (p : Path) : p.below [] = p := by
  simp [below]

@[simp] theorem below_child (p : Path) (name : String) (names : List String) :
    (p.child name).below names = p.below (name :: names) := by
  simp [below, child]

theorem below_append (p : Path) (above names : List String) :
    p.below (above ++ names) = (p.below above).below names := by
  simp [below]

/-- Reading segments that were joined gives them back. -/
theorem ofString_joinSlash {segments : List String} (h : Proper segments) :
    ofString (joinSlash segments) = ⟨.relative, segments⟩ := by
  by_cases hne : segments = []
  · subst hne
    rfl
  have hsegments : ∀ s ∈ segments.map String.toList, IsSegment s := by simpa using h.isSegment
  have hstart : (joinSlash segments).toList.takeWhile (· = '/') = [] := by
    have hhead := head?_pathText hsegments
    rw [toList_joinSlash]
    cases htext : pathText (segments.map String.toList) with
    | nil => rfl
    | cons c cs =>
        rw [htext] at hhead
        exact List.takeWhile_cons_of_neg (by simpa using hhead)
  have hparts : (segments.filter fun part => part ≠ "" ∧ part ≠ ".") = segments :=
    List.filter_eq_self.mpr fun s hs => by simp [h s hs]
  rw [ofString, hstart, splitSlash_joinSlash hne fun s hs => (h s hs).2.2, hparts]
  rfl

/-- The absolute path of a path with some names after it has these names at its end. -/
theorem absolute_below {names : List String} (h : ∀ s ∈ names, s ≠ "" ∧ s ≠ "." ∧ s ≠ "..")
    (cwd : Location) (p : Path) : (p.below names).absolute cwd = (p.absolute cwd).below names := by
  obtain ⟨anchor, parts⟩ := p
  have hend : ∀ kept, normalizeOnto true kept (parts ++ names) =
      normalizeOnto true kept parts ++ names := by
    intro kept
    rw [normalizeOnto_append, normalizeOnto_of_plain h, List.reverse_reverse]
  cases anchor with
  | relative => simp only [absolute, below, hend]
  | root => simp only [absolute, below, Text.normalize, hend]
  | doubleRoot => simp only [absolute, below, Text.normalize, hend]

/-- A path is not shorter than what it starts with. -/
theorem byteLength_le (anchor : Anchor) {above below : List String} (h : Proper (above ++ below)) :
    (Path.mk anchor above).byteLength ≤ (Path.mk anchor (above ++ below)).byteLength := by
  by_cases hbelow : below = []
  · exact Nat.le_of_eq (by rw [hbelow, List.append_nil])
  have hne : above ++ below ≠ [] := by simp [hbelow]
  have hlong : (Path.mk anchor (above ++ below)).toString = anchor.text ++ joinSlash (above ++ below) :=
    if_neg fun h => hne h.2
  rw [byteLength, byteLength, hlong, String.utf8ByteSize_append]
  by_cases habove : above = []
  · obtain rfl := habove
    -- The working folder alone is written with a dot.
    have hdot : 1 ≤ (joinSlash below).utf8ByteSize := by
      rw [Nat.one_le_iff_ne_zero, Ne, String.utf8ByteSize_eq_zero_iff]
      exact joinSlash_ne_empty hne h.isSegment
    cases anchor with
    | relative => exact Nat.le_trans hdot (Nat.le_add_left _ _)
    | root | doubleRoot => exact Nat.le_add_right _ _
  · have hshort : (Path.mk anchor above).toString = anchor.text ++ joinSlash above :=
      if_neg fun h => habove h.2
    rw [hshort, joinSlash_append habove hbelow, String.utf8ByteSize_append, String.utf8ByteSize_append,
      String.utf8ByteSize_append]
    omega

end Path

end AntResources
