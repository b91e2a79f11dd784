import AntResources.Text.Segments

/-!
# AntResources.Proofs.SegmentText

**Segments and the texts they are written as.** A path is written as its first segment and then every
other one with a slash before it (`pathText`), and what comes below a folder is written with a slash
before every segment (`belowText`). Since a segment has no slash in it, such a text can be cut in
only one way: `append_inj_of_atSlash` is that fact for one segment, and everything else here is a
list induction over it.
-/

namespace AntResources.Text

/-! ### Beginnings -/

theorem isPrefixOf_toList_iff {start text : String} :
    start.toList.isPrefixOf text.toList = true ↔ ∃ rest, text = start ++ rest := by
  rw [List.isPrefixOf_iff_prefix]
  constructor
  · intro h
    obtain ⟨rest, hrest⟩ := h
    exact ⟨String.ofList rest, by rw [← String.toList_inj, ← hrest]; simp⟩
  · intro h
    obtain ⟨rest, rfl⟩ := h
    rw [String.toList_append]
    exact List.prefix_append _ _

/-- What stands before the first of some character, and what from there on. -/
theorem cut_append {stop : Char} {before : List Char} (h : stop ∉ before) (after : List Char) :
    (before ++ stop :: after).takeWhile (· ≠ stop) = before ∧
      (before ++ stop :: after).dropWhile (· ≠ stop) = stop :: after := by
  have hall : ∀ c ∈ before, decide (c ≠ stop) = true := fun c hc => by
    simpa using fun heq : c = stop => h (heq ▸ hc)
  rw [List.takeWhile_append_of_pos hall, List.dropWhile_append_of_pos hall]
  simp

/-! ### Segments as text -/

/-- A name that a path segment can have: not empty, and without a slash. -/
def IsSegment (name : List Char) : Prop := name ≠ [] ∧ '/' ∉ name

/-- Names, each with a slash before it. -/
def belowText (names : List (List Char)) : List Char := names.flatMap ('/' :: ·)

@[simp] theorem belowText_nil : belowText [] = [] := rfl

@[simp] theorem belowText_cons (name : List Char) (names : List (List Char)) :
    belowText (name :: names) = '/' :: (name ++ belowText names) := rfl

theorem belowText_append (above below : List (List Char)) :
    belowText (above ++ below) = belowText above ++ belowText below :=
  List.flatMap_append

/-- Names with a slash between each two. -/
def pathText : List (List Char) → List Char
  | [] => []
  | name :: names => name ++ belowText names

@[simp] theorem pathText_nil : pathText [] = [] := rfl

@[simp] theorem pathText_cons (name : List Char) (names : List (List Char)) :
    pathText (name :: names) = name ++ belowText names := rfl

theorem belowText_eq_cons_pathText {names : List (List Char)} (h : names ≠ []) :
    belowText names = '/' :: pathText names := by
  cases names with
  | nil => exact absurd rfl h
  | cons name names => rfl

/-- Joining strings is joining their characters. -/
theorem toList_joinSlash (segments : List String) :
    (joinSlash segments).toList = pathText (segments.map String.toList) := by
  induction segments with
  | nil => rfl
  | cons s segments ih =>
      cases segments with
      | nil => simp
      | cons t rest =>
          rw [joinSlash_cons_cons, String.toList_append, String.toList_append, ih]
          simp

theorem pathText_append {above below : List (List Char)} (habove : above ≠ []) (hbelow : below ≠ []) :
    pathText (above ++ below) = pathText above ++ '/' :: pathText below := by
  cases above with
  | nil => exact absurd rfl habove
  | cons name above =>
      rw [List.cons_append, pathText_cons, pathText_cons, belowText_append,
        belowText_eq_cons_pathText hbelow, List.append_assoc]

theorem joinSlash_append {above below : List String} (habove : above ≠ []) (hbelow : below ≠ []) :
    joinSlash (above ++ below) = joinSlash above ++ "/" ++ joinSlash below := by
  rw [← String.toList_inj, toList_joinSlash, List.map_append,
    pathText_append (by simpa using habove) (by simpa using hbelow)]
  simp [toList_joinSlash]

/-! ### Cutting in only one way -/

/-- The text is over, or goes on with a slash. -/
def AtSlash (text : List Char) : Prop := text = [] ∨ text.head? = some '/'

theorem atSlash_nil : AtSlash [] := Or.inl rfl

theorem atSlash_cons (text : List Char) : AtSlash ('/' :: text) := Or.inr rfl

theorem atSlash_belowText (names : List (List Char)) : AtSlash (belowText names) := by
  cases names with
  | nil => exact atSlash_nil
  | cons name names => exact atSlash_cons _

/-- A name without a slash ends where the text is over or goes on with a slash. -/
theorem append_inj_of_atSlash {name other rest more : List Char} (h : name ++ rest = other ++ more)
    (hname : '/' ∉ name) (hother : '/' ∉ other) (hrest : AtSlash rest) (hmore : AtSlash more) :
    name = other ∧ rest = more := by
  induction name generalizing other with
  | nil =>
      cases other with
      | nil => exact ⟨rfl, h⟩
      | cons d other =>
          -- `rest` would have to start inside of `other`, with a slash.
          rw [List.nil_append] at h
          subst h
          simp [AtSlash] at hrest
          simp [hrest] at hother
  | cons c name ih =>
      cases other with
      | nil =>
          rw [List.nil_append] at h
          subst h
          simp [AtSlash] at hmore
          simp [hmore] at hname
      | cons d other =>
          rw [List.mem_cons, not_or] at hname hother
          obtain ⟨rfl, htail⟩ := List.cons.inj h
          obtain ⟨rfl, rfl⟩ := ih htail hname.2 hother.2
          exact ⟨rfl, rfl⟩

/-- If the text of some segments starts with that of others and then a slash, so do the segments. -/
theorem exists_append_of_belowText_eq {segments names : List (List Char)} {rest : List Char}
    (hsegments : ∀ s ∈ segments, '/' ∉ s) (hnames : ∀ s ∈ names, '/' ∉ s)
    (h : belowText segments = belowText names ++ '/' :: rest) :
    ∃ below, below ≠ [] ∧ segments = names ++ below ∧ rest = pathText below := by
  induction names generalizing segments with
  | nil =>
      cases segments with
      | nil => simp at h
      | cons s segments =>
          obtain ⟨-, rfl⟩ := List.cons.inj h
          exact ⟨s :: segments, by simp, rfl, rfl⟩
  | cons name names ih =>
      cases segments with
      | nil => simp at h
      | cons s segments =>
          rw [List.forall_mem_cons] at hsegments hnames
          have htail : s ++ belowText segments = name ++ (belowText names ++ '/' :: rest) := by
            simpa using h
          have hslash : AtSlash (belowText names ++ '/' :: rest) := by
            cases names with
            | nil => exact atSlash_cons _
            | cons n names => exact atSlash_cons _
          obtain ⟨rfl, hrest⟩ := append_inj_of_atSlash htail hsegments.1 hnames.1
            (atSlash_belowText segments) hslash
          obtain ⟨below, hne, rfl, rfl⟩ := ih hsegments.2 hnames.2 hrest
          exact ⟨below, hne, rfl, rfl⟩

/-! ### The ends of a text -/

theorem pathText_ne_nil {segments : List (List Char)} (hne : segments ≠ [])
    (h : ∀ s ∈ segments, IsSegment s) : pathText segments ≠ [] := by
  cases segments with
  | nil => exact absurd rfl hne
  | cons s segments =>
      rw [pathText_cons]
      exact List.append_ne_nil_of_left_ne_nil (h s List.mem_cons_self).1 _

theorem head?_pathText {segments : List (List Char)} (h : ∀ s ∈ segments, IsSegment s) :
    (pathText segments).head? ≠ some '/' := by
  cases segments with
  | nil => simp
  | cons s segments =>
      obtain ⟨hne, hslash⟩ := h s List.mem_cons_self
      obtain ⟨c, cs, rfl⟩ := List.exists_cons_of_ne_nil hne
      intro hhead
      exact hslash (Option.some.inj hhead ▸ List.mem_cons_self)

theorem getLast?_pathText {segments : List (List Char)} (h : ∀ s ∈ segments, IsSegment s) :
    (pathText segments).getLast? ≠ some '/' := by
  induction segments with
  | nil => simp
  | cons s segments ih =>
      obtain ⟨hs, hrest⟩ := List.forall_mem_cons.mp h
      cases segments with
      | nil =>
          rw [pathText_cons, belowText_nil, List.append_nil]
          exact fun hlast => hs.2 (List.mem_of_getLast? hlast)
      | cons t rest =>
          have hne := pathText_ne_nil (List.cons_ne_nil t rest) hrest
          rw [pathText_cons, belowText_eq_cons_pathText (List.cons_ne_nil t rest),
            List.getLast?_append, List.getLast?_cons_of_ne_nil hne,
            Option.or_of_isSome (List.getLast?_isSome.mpr hne)]
          exact ih hrest

theorem dropWhile_slash {cs : List Char} (h : cs.head? ≠ some '/') :
    cs.dropWhile (· = '/') = cs := by
  cases cs with
  | nil => rfl
  | cons c cs => exact List.dropWhile_cons_of_neg (by simpa using h)

/-- Without slashes at its ends, a text stays as it is. -/
theorem stripSlashes_joinSlash {segments : List String}
    (h : ∀ s ∈ segments, IsSegment s.toList) : stripSlashes (joinSlash segments) =
      joinSlash segments := by
  have hsegments : ∀ s ∈ segments.map String.toList, IsSegment s := by simpa using h
  have hlast : (pathText (segments.map String.toList)).reverse.head? ≠ some '/' := by
    rw [List.head?_reverse]
    exact getLast?_pathText hsegments
  unfold stripSlashes
  rw [toList_joinSlash, dropWhile_slash (head?_pathText hsegments), dropWhile_slash hlast,
    List.reverse_reverse, ← toList_joinSlash, String.ofList_toList]

theorem joinSlash_ne_empty {segments : List String} (hne : segments ≠ [])
    (h : ∀ s ∈ segments, IsSegment s.toList) : joinSlash segments ≠ "" := by
  have hsegments : ∀ s ∈ segments.map String.toList, IsSegment s := by simpa using h
  intro hempty
  apply pathText_ne_nil (by simpa using hne) hsegments
  rw [← toList_joinSlash, hempty]
  rfl

/-! ### Cutting at separators -/

/-- A piece has no separator in it. -/
theorem not_mem_of_mem_split {sep : Char} {cs piece : List Char} (h : piece ∈ split sep cs) :
    sep ∉ piece := by
  induction cs generalizing piece with
  | nil =>
      rw [split, List.mem_singleton] at h
      simp [h]
  | cons c cs ih =>
      by_cases hc : c = sep
      · simp only [split, hc, if_true, List.mem_cons] at h
        rcases h with rfl | h
        · exact List.not_mem_nil
        · exact ih h
      · rw [split, if_neg hc] at h
        cases hcs : split sep cs with
        | nil => exact absurd hcs (split_ne_nil sep cs)
        | cons first pieces =>
            rw [hcs] at h ih
            rcases List.mem_cons.mp h with rfl | h
            · rw [List.mem_cons, not_or]
              exact ⟨fun heq => hc heq.symm, ih List.mem_cons_self⟩
            · exact ih (List.mem_cons_of_mem _ h)

theorem split_of_not_mem {sep : Char} {cs : List Char} (h : sep ∉ cs) : split sep cs = [cs] := by
  induction cs with
  | nil => rfl
  | cons c cs ih =>
      rw [List.mem_cons, not_or] at h
      rw [split, if_neg fun heq => h.1 heq.symm, ih h.2]

theorem split_append_cons {sep : Char} {piece : List Char} (h : sep ∉ piece) (rest : List Char) :
    split sep (piece ++ sep :: rest) = piece :: split sep rest := by
  induction piece with
  | nil => rw [List.nil_append, split, if_pos rfl]
  | cons c piece ih =>
      rw [List.mem_cons, not_or] at h
      rw [List.cons_append, split, if_neg fun heq => h.1 heq.symm, ih h.2]

/-- The text of some segments is cut into these segments again. -/
theorem split_pathText {segments : List (List Char)} (hne : segments ≠ [])
    (h : ∀ s ∈ segments, '/' ∉ s) : split '/' (pathText segments) = segments := by
  induction segments with
  | nil => exact absurd rfl hne
  | cons s segments ih =>
      rw [List.forall_mem_cons] at h
      cases segments with
      | nil => rw [pathText_cons, belowText_nil, List.append_nil, split_of_not_mem h.1]
      | cons t rest =>
          rw [pathText_cons, belowText_eq_cons_pathText (List.cons_ne_nil t rest),
            split_append_cons h.1, ih (List.cons_ne_nil t rest) h.2]

theorem splitSlash_joinSlash {segments : List String} (hne : segments ≠ [])
    (h : ∀ s ∈ segments, '/' ∉ s.toList) : splitSlash (joinSlash segments) = segments := by
  unfold splitSlash
  rw [toList_joinSlash, split_pathText (by simpa using hne) (by simpa using h), List.map_map]
  simp [Function.comp_def]

end AntResources.Text
