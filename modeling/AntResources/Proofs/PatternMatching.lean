import AntResources.Proofs.PieceRows

/-!
# AntResources.Proofs.PatternMatching

**Matching is the meaning of a pattern.** `Pattern.matchesPath` runs a regular expression over the
text of a path; `Pattern.Accepts` goes through the segments of pattern and path side by side. The two
agree on every path of proper segments.

The regular expression is put together from fragments that depend on where a segment stands, and the
proof follows the same positions. `denotes_piecesFrom_below` is the induction: it speaks of the
fragments behind some segment, against the text below that segment, where each remaining segment has
its slash in front. A `**` there takes its own segments with their slashes, and one slash more, so
that the segment after it starts bare (`denotes_foldersBetween_below`); the start of a path is this
case again with a slash put in front of the text.
-/

namespace AntResources

open Text Piece

/-! ### Segments of a pattern as fragments -/

/-- The literal characters of a pattern are those of a segment: no slash is among them. -/
def Segment.NoSlash : Segment → Prop
  | .anyDepth => True
  | .name glyphs => .char '/' ∉ glyphs

theorem Segment.noSlash_ofChars {cs : List Char} (h : '/' ∉ cs) : (Segment.ofChars cs).NoSlash := by
  unfold Segment.ofChars
  split
  · trivial
  · intro hmem
    obtain ⟨c, hc, heq⟩ := List.mem_map.mp hmem
    unfold Glyph.ofChar at heq
    split at heq
    · cases heq
    · cases heq
    · cases heq
      exact h hc

theorem Pattern.noSlash_ofString (s : String) : ∀ segment ∈ Pattern.ofString s, segment.NoSlash := by
  intro segment h
  obtain ⟨cs, hcs, rfl⟩ := List.mem_map.mp h
  exact Segment.noSlash_ofChars (not_mem_of_mem_split (List.mem_filter.mp hcs).1)

/-- The pieces of some glyphs take a name that the glyphs match. -/
theorem denotes_glyphs_append {glyphs : List Glyph} {row : List Piece} {text : List Char}
    (hglyphs : .char '/' ∉ glyphs) :
    Denotes (glyphs.map Glyph.piece ++ row) text ↔
      ∃ name rest, text = name ++ rest ∧ '/' ∉ name ∧ Glyph.Accepts glyphs name ∧
        Denotes row rest := by
  induction glyphs generalizing text with
  | nil =>
      constructor
      · intro h
        exact ⟨[], text, rfl, List.not_mem_nil, rfl, h⟩
      · intro hsplit
        obtain ⟨_, rest, rfl, -, rfl, h⟩ := hsplit
        exact h
  | cons glyph glyphs ih =>
      rw [List.mem_cons, not_or] at hglyphs
      cases glyph with
      | char c =>
          have hc : c ≠ '/' := fun h => hglyphs.1 (h ▸ rfl)
          simp only [List.map_cons, Glyph.piece, List.cons_append, Denotes, ih hglyphs.2,
            Glyph.Accepts]
          constructor
          · intro hsplit
            obtain ⟨_, rfl, name, rest, rfl, hname, hacc, hrest⟩ := hsplit
            exact ⟨c :: name, rest, rfl, by simp [hname, hc.symm], ⟨name, rfl, hacc⟩, hrest⟩
          · intro hsplit
            obtain ⟨_, rest, rfl, hname, ⟨name, rfl, hacc⟩, hrest⟩ := hsplit
            rw [List.mem_cons, not_or] at hname
            exact ⟨name ++ rest, rfl, name, rest, rfl, hname.2, hacc, hrest⟩
      | one =>
          simp only [List.map_cons, Glyph.piece, List.cons_append, Denotes, ih hglyphs.2,
            Glyph.Accepts]
          constructor
          · intro hsplit
            obtain ⟨c, _, rfl, hc, name, rest, rfl, hname, hacc, hrest⟩ := hsplit
            exact ⟨c :: name, rest, rfl, by simp [hname, hc.symm], ⟨c, name, rfl, hacc⟩, hrest⟩
          · intro hsplit
            obtain ⟨_, rest, rfl, hname, ⟨c, name, rfl, hacc⟩, hrest⟩ := hsplit
            rw [List.mem_cons, not_or] at hname
            exact ⟨c, name ++ rest, rfl, fun h => hname.1 h.symm, name, rest, rfl, hname.2, hacc,
              hrest⟩
      | run =>
          simp only [List.map_cons, Glyph.piece, List.cons_append, Denotes, ih hglyphs.2,
            Glyph.Accepts]
          constructor
          · intro hsplit
            obtain ⟨before, _, rfl, hbefore, name, rest, rfl, hname, hacc, hrest⟩ := hsplit
            exact ⟨before ++ name, rest, by simp, by simp [hbefore, hname],
              ⟨before, name, rfl, hacc⟩, hrest⟩
          · intro hsplit
            obtain ⟨_, rest, rfl, hname, ⟨before, name, rfl, hacc⟩, hrest⟩ := hsplit
            rw [List.mem_append, not_or] at hname
            exact ⟨before, name ++ rest, by simp, hname.1, name, rest, rfl, hname.2, hacc, hrest⟩

/-- Behind a segment the fragments take nothing, or text that starts with a slash. -/
theorem atSlash_of_denotes_piecesFrom {pattern : Pattern} {text : List Char}
    (h : Denotes (Pattern.piecesFrom false false pattern) text) : AtSlash text := by
  match pattern with
  | [] => exact Or.inl h
  | [.anyDepth] =>
      obtain rfl | ⟨line, rest, rfl, -⟩ := h
      · exact atSlash_nil
      · exact atSlash_cons _
  | .anyDepth :: next :: pattern =>
      obtain ⟨_, rfl, -⟩ := denotes_foldersBetween_iff.mp h
      exact atSlash_cons _
  | .name glyphs :: pattern =>
      obtain ⟨rest, rfl, -⟩ := h
      exact atSlash_cons _

/-- The fragment of a plain segment takes exactly the first segment of a path. -/
theorem denotes_name {glyphs : List Glyph} {pattern : Pattern} {name rest : List Char}
    (hglyphs : .char '/' ∉ glyphs) (hname : '/' ∉ name) (hrest : AtSlash rest) :
    Denotes (glyphs.map Glyph.piece ++ Pattern.piecesFrom false false pattern) (name ++ rest) ↔
      Glyph.Accepts glyphs name ∧ Denotes (Pattern.piecesFrom false false pattern) rest := by
  rw [denotes_glyphs_append hglyphs]
  constructor
  · intro hsplit
    obtain ⟨other, more, h, hother, hacc, hmore⟩ := hsplit
    obtain ⟨rfl, rfl⟩ := append_inj_of_atSlash h hname hother hrest
      (atSlash_of_denotes_piecesFrom hmore)
    exact ⟨hacc, hmore⟩
  · intro hsplit
    obtain ⟨hacc, hmore⟩ := hsplit
    exact ⟨name, rest, rfl, hname, hacc, hmore⟩

/-- Folders in the middle take some of the segments, and leave a path of at least one. -/
theorem denotes_foldersBetween_below {row : List Piece} {path : List (List Char)}
    (hpath : ∀ s ∈ path, IsSegment s) :
    Denotes (.foldersBetween :: row) (belowText path) ↔
      ∃ above below, below ≠ [] ∧ path = above ++ below ∧ Denotes row (pathText below) := by
  constructor
  · intro hsplit
    obtain ⟨above, rest, h, habove, hrest⟩ := hsplit
    obtain ⟨below, hne, rfl, rfl⟩ := exists_append_of_belowText_eq (fun s hs => (hpath s hs).2)
      (fun s hs => (habove s hs).2) h
    exact ⟨above, below, hne, rfl, hrest⟩
  · intro hsplit
    obtain ⟨above, below, hne, rfl, hrest⟩ := hsplit
    refine ⟨above, pathText below, ?_, fun s hs => hpath s (List.mem_append_left _ hs), hrest⟩
    rw [belowText_append, belowText_eq_cons_pathText hne]

/-! ### Whole patterns -/

/-- No `**` follows another one. -/
def Pattern.Collapsed : Pattern → Prop
  | .anyDepth :: .anyDepth :: _ => False
  | _ :: rest => Pattern.Collapsed rest
  | [] => True

theorem Pattern.collapsed_collapse (pattern : Pattern) : pattern.collapse.Collapsed := by
  fun_induction Pattern.collapse pattern with
  | case1 => trivial
  | case2 rest more heq ih => rwa [heq] at ih
  | case3 rest hother ih =>
      cases hrest : Pattern.collapse rest with
      | nil => trivial
      | cons segment other =>
          cases segment with
          | anyDepth => exact absurd hrest (hother other)
          | name glyphs => rwa [hrest] at ih
  | case4 segment rest hsegment ih =>
      cases segment with
      | anyDepth => exact absurd rfl hsegment
      | name glyphs => exact ih

theorem Pattern.mem_of_mem_collapse {pattern : Pattern} {segment : Segment}
    (h : segment ∈ pattern.collapse) : segment ∈ pattern := by
  fun_induction Pattern.collapse pattern with
  | case1 => exact h
  | case2 rest more heq ih =>
      rw [heq] at ih
      exact List.mem_cons_of_mem _ (ih h)
  | case3 rest hother ih =>
      rcases List.mem_cons.mp h with rfl | h
      · exact List.mem_cons_self
      · exact List.mem_cons_of_mem _ (ih h)
  | case4 first rest hfirst ih =>
      rcases List.mem_cons.mp h with rfl | h
      · exact List.mem_cons_self
      · exact List.mem_cons_of_mem _ (ih h)

/-- A second `**` changes nothing. -/
theorem Pattern.accepts_anyDepth_anyDepth (pattern : Pattern) (path : List (List Char)) :
    Pattern.Accepts (.anyDepth :: .anyDepth :: pattern) path ↔
      Pattern.Accepts (.anyDepth :: pattern) path := by
  constructor
  · intro hsplit
    obtain ⟨above, _, rfl, between, rest, rfl, h⟩ := hsplit
    exact ⟨above ++ between, rest, by simp, h⟩
  · intro hsplit
    obtain ⟨above, rest, rfl, h⟩ := hsplit
    exact ⟨above, rest, rfl, [], rest, rfl, h⟩

/-- Reducing runs of `**` keeps the meaning. -/
theorem Pattern.accepts_collapse (pattern : Pattern) (path : List (List Char)) :
    pattern.collapse.Accepts path ↔ pattern.Accepts path := by
  fun_induction Pattern.collapse pattern generalizing path with
  | case1 => rfl
  | case2 rest more heq ih =>
      rw [← Pattern.accepts_anyDepth_anyDepth, ← heq]
      exact exists_congr fun _ => exists_congr fun below => and_congr_right fun _ => ih below
  | case3 rest hother ih =>
      exact exists_congr fun _ => exists_congr fun below => and_congr_right fun _ => ih below
  | case4 segment rest hsegment ih =>
      cases segment with
      | anyDepth => exact absurd rfl hsegment
      | name glyphs =>
          exact exists_congr fun _ => exists_congr fun below => and_congr_right fun _ =>
            and_congr_right fun _ => ih below

/-- A segment of a path that is written on one line. -/
def IsLineSegment (name : List Char) : Prop := IsSegment name ∧ '\n' ∉ name

theorem newline_not_mem_belowText {path : List (List Char)} (h : ∀ s ∈ path, IsLineSegment s) :
    '\n' ∉ belowText path := by
  intro hmem
  obtain ⟨s, hs, hc⟩ := List.mem_flatMap.mp hmem
  rcases List.mem_cons.mp hc with hc | hc
  · exact absurd hc (by decide)
  · exact (h s hs).2 hc

section FirstName

/-! The steps of the induction, for a pattern that goes on with a plain segment and then with one
whose fragments are known to be right. -/

variable {glyphs : List Glyph} {pattern : Pattern}
  (hglyphs : .char '/' ∉ glyphs)
  (hpattern : ∀ {path : List (List Char)}, (∀ s ∈ path, IsLineSegment s) →
    (Denotes (Pattern.piecesFrom false false pattern) (belowText path) ↔ pattern.Accepts path))

include hglyphs hpattern

theorem denotes_name_path {path : List (List Char)} (hne : path ≠ [])
    (hpath : ∀ s ∈ path, IsLineSegment s) :
    Denotes (glyphs.map Glyph.piece ++ Pattern.piecesFrom false false pattern) (pathText path) ↔
      Pattern.Accepts (.name glyphs :: pattern) path := by
  cases path with
  | nil => exact absurd rfl hne
  | cons s path =>
      obtain ⟨hs, hpath⟩ := List.forall_mem_cons.mp hpath
      rw [pathText_cons, denotes_name hglyphs hs.1.2 (atSlash_belowText path), hpattern hpath]
      simp [Pattern.Accepts, and_assoc]

theorem denotes_anyDepth_name {path : List (List Char)} (hpath : ∀ s ∈ path, IsLineSegment s) :
    Denotes (.foldersBetween :: (glyphs.map Glyph.piece ++ Pattern.piecesFrom false false pattern))
        (belowText path) ↔
      Pattern.Accepts (.anyDepth :: .name glyphs :: pattern) path := by
  rw [denotes_foldersBetween_below fun s hs => (hpath s hs).1]
  have hname : ∀ {above below : List (List Char)}, path = above ++ below → below ≠ [] →
      (Denotes (glyphs.map Glyph.piece ++ Pattern.piecesFrom false false pattern) (pathText below) ↔
        Pattern.Accepts (.name glyphs :: pattern) below) := by
    intro above below hsplit hne
    subst hsplit
    exact denotes_name_path hglyphs hpattern hne fun s hs => hpath s (List.mem_append_right _ hs)
  constructor
  · intro hsplit
    obtain ⟨above, below, hne, h, hbelow⟩ := hsplit
    exact ⟨above, below, h, (hname h hne).mp hbelow⟩
  · intro hsplit
    obtain ⟨above, below, h, hbelow⟩ := hsplit
    -- A plain segment needs one segment of the path.
    have hne : below ≠ [] := by
      obtain ⟨s, rest, rfl, -⟩ := hbelow
      exact List.cons_ne_nil s rest
    exact ⟨above, below, hne, h, (hname h hne).mpr hbelow⟩

end FirstName

/-- The fragments of a pattern behind some segment take exactly the paths that the pattern accepts,
written with the slash that comes first. -/
theorem denotes_piecesFrom_below : ∀ {pattern : Pattern}, pattern.Collapsed →
    (∀ segment ∈ pattern, segment.NoSlash) → ∀ {path : List (List Char)},
      (∀ s ∈ path, IsLineSegment s) →
        (Denotes (Pattern.piecesFrom false false pattern) (belowText path) ↔ pattern.Accepts path)
  | [], _, _, path, _ => by
      cases path with
      | nil => simp [Pattern.piecesFrom, Denotes, Pattern.Accepts]
      | cons s path => simp [Pattern.piecesFrom, Denotes, Pattern.Accepts]
  | [.anyDepth], _, _, path, hpath => by
      have hacc : Pattern.Accepts [.anyDepth] path := ⟨path, [], by simp, rfl⟩
      refine iff_of_true ?_ hacc
      cases path with
      | nil => exact Or.inl rfl
      | cons s path =>
          have hline : '\n' ∉ s ++ belowText path := fun h =>
            newline_not_mem_belowText hpath (List.mem_cons_of_mem _ h)
          exact Or.inr ⟨s ++ belowText path, [], by simp, hline, rfl⟩
  | .anyDepth :: .name glyphs :: pattern, hcol, hslash, path, hpath => by
      have hcol : Pattern.Collapsed pattern := hcol
      exact denotes_anyDepth_name (hslash (.name glyphs) (by simp))
        (denotes_piecesFrom_below hcol fun t ht => hslash t (by simp [ht])) hpath
  | .name glyphs :: pattern, hcol, hslash, path, hpath => by
      have hcol : Pattern.Collapsed pattern := hcol
      have ih : ∀ {path : List (List Char)}, (∀ s ∈ path, IsLineSegment s) → _ :=
        denotes_piecesFrom_below hcol fun t ht => hslash t (by simp [ht])
      show Denotes (.exactly '/' :: (glyphs.map Glyph.piece ++
        Pattern.piecesFrom false false pattern)) (belowText path) ↔ _
      cases path with
      | nil => simp [Denotes, Pattern.Accepts]
      | cons s path =>
          rw [belowText_eq_cons_pathText (by simp), denotes_exactly_cons,
            denotes_name_path (hslash (.name glyphs) (by simp)) ih (by simp) hpath]
          simp

/-- The fragments of a whole pattern take exactly the paths that the pattern accepts. -/
theorem denotes_pieces_path {pattern : Pattern} (hslash : ∀ segment ∈ pattern, segment.NoSlash)
    {path : List (List Char)} (hne : path ≠ []) (hpath : ∀ s ∈ path, IsLineSegment s) :
    Denotes pattern.pieces (pathText path) ↔ pattern.Accepts path := by
  rw [← Pattern.accepts_collapse]
  have hcol := pattern.collapsed_collapse
  have hslash : ∀ segment ∈ pattern.collapse, segment.NoSlash := fun segment h =>
    hslash segment (Pattern.mem_of_mem_collapse h)
  unfold Pattern.pieces
  match pattern.collapse, hcol, hslash with
  | [], _, _ =>
      cases path with
      | nil => exact absurd rfl hne
      | cons s path =>
          have hs : s ≠ [] := (hpath s List.mem_cons_self).1.1
          simp [Pattern.piecesFrom, Denotes, Pattern.Accepts, hs]
  | [.anyDepth], _, _ =>
      have hacc : Pattern.Accepts [.anyDepth] path := ⟨path, [], by simp, rfl⟩
      refine iff_of_true ?_ hacc
      have hline : '\n' ∉ pathText path := fun h =>
        newline_not_mem_belowText hpath (belowText_eq_cons_pathText hne ▸ List.mem_cons_of_mem _ h)
      exact ⟨pathText path, [], by simp, hline, rfl⟩
  | .anyDepth :: .name glyphs :: rest, hcol, hslash =>
      have hcol : Pattern.Collapsed rest := hcol
      show Denotes (.folders :: (glyphs.map Glyph.piece ++ Pattern.piecesFrom false false rest)) _ ↔ _
      have hbelow := denotes_anyDepth_name (hslash (.name glyphs) (by simp))
        (denotes_piecesFrom_below hcol fun t ht => hslash t (by simp [ht])) hpath
      rwa [denotes_foldersBetween_iff, belowText_eq_cons_pathText hne, denotes_exactly_cons,
        and_iff_right rfl] at hbelow
  | .name glyphs :: rest, hcol, hslash =>
      have hcol : Pattern.Collapsed rest := hcol
      exact denotes_name_path (hslash (.name glyphs) (by simp))
        (denotes_piecesFrom_below hcol fun t ht => hslash t (by simp [ht])) hne hpath

/-! ### Matching a path -/

/-- A path matches a pattern if the pattern's regular expression takes its text, less one mark at the
start, or takes that without one last line feed. -/
theorem Pattern.matchesPath_iff_denotes (pattern path : String) :
    Pattern.matchesPath pattern path = true ↔
      Pattern.ofString pattern ≠ [] ∧
        (Denotes (Pattern.ofString pattern).pieces (dropPathStart path.toList) ∨
          ∃ line, dropPathStart path.toList = line ++ ['\n'] ∧
            Denotes (Pattern.ofString pattern).pieces line) := by
  unfold Pattern.matchesPath
  cases h : Pattern.ofString pattern with
  | nil => simp
  | cons segment segments => simp [matches_iff_denotes]

/-- The text of a path starts with a segment, so nothing is dropped from it. -/
theorem dropPathStart_pathText {path : List (List Char)} (hpath : ∀ s ∈ path, IsSegment s)
    (hfirst : path.head? ≠ some ['.']) : dropPathStart (pathText path) = pathText path := by
  cases path with
  | nil => rfl
  | cons s path =>
      obtain ⟨hne, hslash⟩ := hpath s List.mem_cons_self
      rw [pathText_cons]
      unfold dropPathStart
      split
      · next rest h =>
          cases s with
          | nil => exact absurd rfl hne
          | cons c s => simp [(List.cons.inj h).1] at hslash
      · next rest h =>
          have h : s ++ belowText path = ['.'] ++ '/' :: rest := h
          obtain ⟨rfl, -⟩ := append_inj_of_atSlash h hslash (by decide) (atSlash_belowText path)
            (atSlash_cons rest)
          exact absurd rfl hfirst
      · rfl

/-- **Matching is the meaning of a pattern.** A path of proper segments, none with a line feed and the
first not `.`, matches a pattern exactly if the segments of the pattern accept those of the path. A
pattern without segments matches no text at all. -/
theorem Pattern.matchesPath_iff_accepts (pattern : String) (path : List String) (hne : path ≠ [])
    (hpath : ∀ s ∈ path, s ≠ "" ∧ '/' ∉ s.toList ∧ '\n' ∉ s.toList)
    (hfirst : path.head? ≠ some ".") :
    (Pattern.matchesPath pattern (joinSlash path) = true ↔
        (Pattern.ofString pattern).Accepts (path.map String.toList)) ∧
      (Pattern.ofString pattern = [] → ∀ text, Pattern.matchesPath pattern text = false) := by
  have hsegments : ∀ s ∈ path.map String.toList, IsLineSegment s := by
    intro name hname
    obtain ⟨s, hs, rfl⟩ := List.mem_map.mp hname
    obtain ⟨hempty, hslash, hline⟩ := hpath s hs
    exact ⟨⟨by simpa using hempty, hslash⟩, hline⟩
  have hne : path.map String.toList ≠ [] := by simpa using hne
  have htext : dropPathStart (joinSlash path).toList = pathText (path.map String.toList) := by
    rw [toList_joinSlash]
    refine dropPathStart_pathText (fun s hs => (hsegments s hs).1) ?_
    rw [List.head?_map]
    intro h
    obtain ⟨s, hs, hdot⟩ := Option.map_eq_some_iff.mp h
    exact hfirst (by rw [hs, String.toList_inj.mp (hdot.trans (by decide : ['.'] = ".".toList))])
  constructor
  · rw [Pattern.matchesPath_iff_denotes, htext]
    have hdenotes := denotes_pieces_path (Pattern.noSlash_ofString pattern) hne hsegments
    constructor
    · intro hsplit
      obtain ⟨-, h | ⟨line, hline, -⟩⟩ := hsplit
      · exact hdenotes.mp h
      · have hmem : '\n' ∈ belowText (path.map String.toList) := by
          rw [belowText_eq_cons_pathText hne, hline]
          simp
        exact absurd hmem (newline_not_mem_belowText hsegments)
    · intro h
      refine ⟨?_, Or.inl (hdenotes.mpr h)⟩
      intro hnil
      rw [hnil] at h
      exact hne h
  · intro hnil text
    rw [← Bool.not_eq_true, Pattern.matchesPath_iff_denotes]
    exact fun h => h.1 hnil

/-- A `**` spans two segments here, and each of the wildcards beside it stays within its own. -/
theorem accepts_across_two_segments :
    (Pattern.ofString "a/**/b?*.js").Accepts (["a", "x", "y", "b1.js"].map String.toList) :=
  (Pattern.matchesPath_iff_accepts "a/**/b?*.js" ["a", "x", "y", "b1.js"]
    (by decide) (by decide) (by decide)).1.mp (by decide)

end AntResources
