import AntResources.Proofs.ArchiveListing
import AntResources.Proofs.Packaging
import AntResources.Proofs.PatternMatching

/-!
# AntResources.Proofs.RootAndGlob

**Cutting an expression into a root and a glob loses nothing.** An archive is not matched against the
whole path of an expression: names that do not start with the root are dropped, and what comes behind
it is matched against the glob alone. The segments of a root have no wildcards in them, so as a
pattern each accepts just itself (`Pattern.accepts_literal_append`), and a name matches the whole path
exactly if it starts with the root and its rest matches the glob
(`Expression.matchesPath_fullPattern_iff`). That is said about segments, where it does not matter that
a `**` at the start of a pattern becomes another piece of a regular expression than one behind a root.
-/

namespace AntResources

open Text

/-! ### Names and their segments -/

namespace Text

theorem pathText_split (cs : List Char) : pathText (split '/' cs) = cs := by
  induction cs with
  | nil => rfl
  | cons c cs ih =>
      by_cases hc : c = '/'
      · subst hc
        rw [split, if_pos rfl, pathText_cons, List.nil_append,
          belowText_eq_cons_pathText (split_ne_nil '/' cs), ih]
      · rw [split, if_neg hc]
        cases hsplit : split '/' cs with
        | nil => exact absurd hsplit (split_ne_nil '/' cs)
        | cons piece pieces =>
            rw [hsplit, pathText_cons] at ih
            dsimp only
            rw [pathText_cons, List.cons_append, ih]

/-- A text is its segments with the slashes between them. -/
theorem joinSlash_splitSlash (s : String) : joinSlash (splitSlash s) = s := by
  rw [← String.toList_inj, toList_joinSlash, splitSlash, List.map_map]
  simp [Function.comp_def, pathText_split]

theorem splitSlash_ne_nil (s : String) : splitSlash s ≠ [] := by
  simpa [splitSlash] using split_ne_nil '/' s.toList

theorem noSlash_of_mem_splitSlash {s segment : String} (h : segment ∈ splitSlash s) :
    '/' ∉ segment.toList := by
  obtain ⟨piece, hpiece, rfl⟩ := List.mem_map.mp h
  rw [String.toList_ofList]
  exact not_mem_of_mem_split hpiece

end Text

/-! ### Segments without wildcards -/

/-- Glyphs that are all literal accept the one text that they spell. -/
theorem Glyph.accepts_map_char {cs text : List Char} :
    Glyph.Accepts (cs.map .char) text ↔ text = cs := by
  induction cs generalizing text with
  | nil => rfl
  | cons c cs ih => simp [Glyph.Accepts, ih]

/-- Without wildcards a segment is read as its characters. -/
theorem Segment.ofChars_of_not_isGlob {s : String} (h : Expression.isGlob s = false) :
    Segment.ofChars s.toList = .name (s.toList.map .char) := by
  simp only [Expression.isGlob, List.any_eq_false, decide_eq_true_eq, not_or] at h
  have hstar : s.toList ≠ ['*', '*'] := fun heq => (h '*' (by simp [heq])).1 rfl
  have hglyphs : s.toList.map Glyph.ofChar = s.toList.map .char := by
    refine List.map_congr_left fun c hc => ?_
    obtain ⟨hrun, hone⟩ := h c hc
    unfold Glyph.ofChar
    split
    · exact absurd rfl hrun
    · exact absurd rfl hone
    · rfl
  rw [Segment.ofChars, if_neg hstar, hglyphs]

namespace Pattern

/-- Segments without wildcards take themselves off the start of a path. -/
theorem accepts_literal_append {root : List String} (h : ∀ s ∈ root, Expression.isGlob s = false)
    (pattern : Pattern) (path : List (List Char)) :
    Pattern.Accepts (root.map (fun s => Segment.ofChars s.toList) ++ pattern) path ↔
      ∃ below, path = root.map String.toList ++ below ∧ pattern.Accepts below := by
  induction root generalizing path with
  | nil => simp
  | cons s root ih =>
      obtain ⟨hs, hroot⟩ := List.forall_mem_cons.mp h
      rw [List.map_cons, List.cons_append, Segment.ofChars_of_not_isGlob hs]
      simp only [Pattern.Accepts, Glyph.accepts_map_char, ih hroot]
      constructor
      · intro hsplit
        obtain ⟨_, _, rfl, rfl, below, rfl, hbelow⟩ := hsplit
        exact ⟨below, rfl, hbelow⟩
      · intro hsplit
        obtain ⟨below, rfl, hbelow⟩ := hsplit
        exact ⟨_, _, rfl, rfl, below, rfl, hbelow⟩

/-- Reading the text of some segments gives these segments. -/
theorem ofString_joinSlash {segments : List String} (h : Proper segments) :
    Pattern.ofString (joinSlash segments) = segments.map fun s => Segment.ofChars s.toList := by
  by_cases hne : segments = []
  · subst hne
    rfl
  have hcut : split '/' (joinSlash segments).toList = segments.map String.toList := by
    rw [toList_joinSlash]
    exact split_pathText (by simpa using hne) h.noSlash
  have hkept : (segments.map String.toList).filter (· ≠ []) = segments.map String.toList := by
    rw [List.filter_eq_self]
    intro s hs
    obtain ⟨name, hname, rfl⟩ := List.mem_map.mp hs
    simpa using (h name hname).1
  rw [Pattern.ofString, hcut, hkept, List.map_map]
  rfl

/-- Nothing is dropped from the start of a path of proper segments. -/
theorem dropPathStart_joinSlash {path : List String} (hpath : Proper path) :
    dropPathStart (joinSlash path).toList = (joinSlash path).toList := by
  have hfirst : (path.map String.toList).head? ≠ some ['.'] := by
    rw [List.head?_map]
    intro h
    obtain ⟨s, hs, hdot⟩ := Option.map_eq_some_iff.mp h
    exact (hpath s (List.mem_of_head? hs)).2.1 (String.toList_inj.mp hdot)
  rw [toList_joinSlash]
  exact dropPathStart_pathText (by simpa using hpath.isSegment) hfirst

/-- A path of proper segments on one line matches a pattern whose segments accept its own. -/
theorem matchesPath_joinSlash_iff {pattern : String} {path : List String} (hpath : Proper path)
    (hline : ∀ s ∈ path, '\n' ∉ s.toList) (hne : path ≠ []) :
    Pattern.matchesPath pattern (joinSlash path) = true ↔
      (Pattern.ofString pattern).Accepts (path.map String.toList) := by
  have hsegments : ∀ s ∈ path.map String.toList, IsLineSegment s := by
    simpa [IsLineSegment] using fun s hs => ⟨hpath.isSegment s hs, hline s hs⟩
  have hne : path.map String.toList ≠ [] := by simpa using hne
  have hnoline : '\n' ∉ pathText (path.map String.toList) := fun h =>
    newline_not_mem_belowText hsegments (belowText_eq_cons_pathText hne ▸ List.mem_cons_of_mem _ h)
  rw [Pattern.matchesPath_iff_denotes, dropPathStart_joinSlash hpath, toList_joinSlash,
    denotes_pieces_path (Pattern.noSlash_ofString pattern) hne hsegments]
  constructor
  · intro h
    refine h.2.resolve_right fun hcut => ?_
    obtain ⟨line, hline, -⟩ := hcut
    exact hnoline (by simp [hline])
  · intro h
    refine ⟨fun hnil => ?_, Or.inl h⟩
    rw [hnil] at h
    exact hne h

end Pattern

/-! ### The cut -/

namespace Expression

theorem isGlob_of_mem_splitGlob {segments : List String} {s : String}
    (h : s ∈ (splitGlob segments).1) : isGlob s = false := by
  fun_induction splitGlob segments with
  | case1 => cases h
  | case2 last => cases h
  | case3 segment next rest hglob => cases h
  | case4 segment next rest hglob root glob hsplit ih =>
      rcases List.mem_cons.mp h with rfl | h
      · simpa using hglob
      · rw [hsplit] at ih
        exact ih h

/-- The glob has at least the last segment. -/
theorem splitGlob_snd_ne_nil {segments : List String} (h : segments ≠ []) :
    (splitGlob segments).2 ≠ [] := by
  fun_induction splitGlob segments with
  | case1 => exact absurd rfl h
  | case2 last => exact List.cons_ne_nil _ _
  | case3 segment next rest hglob => exact List.cons_ne_nil _ _
  | case4 segment next rest hglob root glob hsplit ih =>
      rw [hsplit] at ih
      exact ih (List.cons_ne_nil _ _)

/-- The root and the glob of an expression are the two parts of one path. -/
theorem exists_splitGlob_of_parse {text : String} {e : Expression} (h : parse text = some e) :
    ∃ segments, splitGlob segments = (e.root, e.glob) := by
  rw [parse_of_trim rfl] at h
  split at h
  · rw [Option.ite_none_left_eq_some, Option.some.injEq] at h
    exact ⟨_, by rw [← h.2]; rfl⟩
  · rw [Option.ite_none_left_eq_some, Option.some.injEq] at h
    exact ⟨_, by rw [← h.2]; rfl⟩

/-- The pattern of an expression before it was cut: the root, and the glob behind it. -/
def fullPattern (e : Expression) : String :=
  if e.rootDir = "" then e.globText else e.rootDir ++ "/" ++ e.globText

theorem fullPattern_of_parse {text : String} {e : Expression} (h : parse text = some e) :
    e.fullPattern = joinSlash (e.root ++ e.glob) := by
  have hproper := proper_root_of_parse h
  unfold fullPattern rootDir globText
  by_cases hroot : e.root = []
  · simp [hroot]
  · obtain ⟨segments, hsplit⟩ := exists_splitGlob_of_parse h
    have hsegments : segments ≠ [] := by
      rintro rfl
      exact hroot (Prod.mk.inj hsplit).1.symm
    have hglob : e.glob ≠ [] := by
      have hlast := splitGlob_snd_ne_nil hsegments
      rwa [hsplit] at hlast
    rw [if_neg (joinSlash_ne_empty hroot hproper.isSegment), joinSlash_append hroot hglob]

/-- **One match of the whole pattern is a start and a match of the rest.** The root itself, which the
whole pattern may accept as well, is left out. -/
theorem matchesPath_fullPattern_iff {text : String} {e : Expression} (h : parse text = some e)
    {names : List String} (hnames : Proper names) (hline : ∀ s ∈ names, '\n' ∉ s.toList)
    (hne : names ≠ []) :
    (joinSlash names ≠ e.rootDir ∧ Pattern.matchesPath e.fullPattern (joinSlash names) = true) ↔
      ∃ below, below ≠ [] ∧ names = e.root ++ below ∧
        Pattern.matchesPath e.globText (joinSlash below) = true := by
  have hsegments := proper_of_parse h
  have hglob : Proper e.glob := fun s hs => hsegments s (List.mem_append_right _ hs)
  have hliteral : ∀ s ∈ e.root, isGlob s = false := by
    obtain ⟨segments, hsplit⟩ := exists_splitGlob_of_parse h
    intro s hs
    exact isGlob_of_mem_splitGlob (by rwa [hsplit])
  have hbelow : ∀ below, below ≠ [] → names = e.root ++ below →
      (Pattern.matchesPath e.globText (joinSlash below) = true ↔
        (Pattern.ofString e.globText).Accepts (below.map String.toList)) := by
    rintro below hbelowne rfl
    exact Pattern.matchesPath_joinSlash_iff (fun s hs => hnames s (List.mem_append_right _ hs))
      (fun s hs => hline s (List.mem_append_right _ hs)) hbelowne
  rw [fullPattern_of_parse h, Pattern.matchesPath_joinSlash_iff hnames hline hne,
    Pattern.ofString_joinSlash hsegments, List.map_append,
    Pattern.accepts_literal_append hliteral, ← Pattern.ofString_joinSlash hglob]
  constructor
  · intro hsplit
    obtain ⟨hroot, below, hpath, haccepts⟩ := hsplit
    obtain ⟨above, below, rfl, habove, rfl⟩ := List.map_eq_append_iff.mp hpath
    obtain rfl : above = e.root :=
      (List.map_inj_right fun _ _ => String.toList_inj.mp).mp habove
    have hbelowne : below ≠ [] := by
      rintro rfl
      exact hroot (by rw [rootDir, List.append_nil])
    exact ⟨below, hbelowne, rfl, (hbelow below hbelowne rfl).mpr haccepts⟩
  · intro hsplit
    obtain ⟨below, hbelowne, rfl, hmatches⟩ := hsplit
    refine ⟨fun hsame => ?_, below.map String.toList, List.map_append,
      (hbelow below hbelowne rfl).mp hmatches⟩
    by_cases hroot : e.root = []
    · rw [rootDir, hroot, List.nil_append] at hsame
      have hbelowproper : Proper below := fun s hs => hnames s (List.mem_append_right _ hs)
      exact joinSlash_ne_empty hbelowne hbelowproper.isSegment hsame
    · have hroot' : Proper e.root := fun s hs => hnames s (List.mem_append_left _ hs)
      have heq := hnames.joinSlash_inj hroot' hne hroot hsame
      exact hbelowne (List.append_cancel_left (heq.trans (List.append_nil _).symm))

end Expression

/-! ### The members of an archive -/

namespace Source

/-- A member lies below the root and matches the glob there exactly if it is not the root itself and
its whole name matches the whole pattern. -/
theorem memberBelow_iff {text : String} {e : Expression} (h : Expression.parse text = some e)
    (p : Path) {name : String}
    (hname : ∀ s ∈ splitSlash name, s ≠ "" ∧ s ≠ "." ∧ '\n' ∉ s.toList) :
    (∃ rest, name = memberStart ⟨p, e.rootDir⟩ ++ rest ∧
        Pattern.matchesPath e.globText rest = true) ↔
      name ≠ e.rootDir ∧ Pattern.matchesPath e.fullPattern name = true := by
  have hproper : Proper (splitSlash name) := fun s hs =>
    ⟨(hname s hs).1, (hname s hs).2.1, noSlash_of_mem_splitSlash hs⟩
  have hroot := Expression.proper_root_of_parse h
  have hcut := Expression.matchesPath_fullPattern_iff h hproper (fun s hs => (hname s hs).2.2)
    (splitSlash_ne_nil name)
  rw [joinSlash_splitSlash] at hcut
  rw [hcut, Expression.rootDir, memberStart_joinSlash hroot]
  constructor
  · intro hsplit
    obtain ⟨rest, hrest, hmatches⟩ := hsplit
    by_cases hne : e.root = []
    · rw [if_pos hne, String.empty_append] at hrest
      subst hrest
      exact ⟨splitSlash name, splitSlash_ne_nil name, by rw [hne, List.nil_append],
        by rwa [joinSlash_splitSlash]⟩
    · rw [if_neg hne, ← joinSlash_splitSlash name, hproper.joinSlash_eq_append_iff hroot hne] at hrest
      obtain ⟨below, hbelow, hsplit, rfl⟩ := hrest
      exact ⟨below, hbelow, hsplit, hmatches⟩
  · intro hsplit
    obtain ⟨below, hbelow, hsplit, hmatches⟩ := hsplit
    refine ⟨joinSlash below, ?_, hmatches⟩
    by_cases hne : e.root = []
    · rw [hne, List.nil_append] at hsplit
      rw [if_pos hne, String.empty_append, ← hsplit, joinSlash_splitSlash]
    · rw [if_neg hne, ← joinSlash_append hne hbelow, ← hsplit, joinSlash_splitSlash]

/-- What one member adds to the listing, read off its whole name. -/
theorem locatorBelow_eq {text : String} {e : Expression} (h : Expression.parse text = some e)
    (p : Path) (start : String) {name : String}
    (hname : ∀ s ∈ splitSlash name, s ≠ "" ∧ s ≠ "." ∧ '\n' ∉ s.toList) :
    ((below? (memberStart ⟨p, e.rootDir⟩) name).bind fun rest =>
        if Pattern.matchesPath e.globText rest then
          some (⟨start ++ memberStart ⟨p, e.rootDir⟩ ++ rest⟩ : Locator)
        else none) =
      if name ≠ e.rootDir && Pattern.matchesPath e.fullPattern name then some ⟨start ++ name⟩
      else none := by
  have hcut := memberBelow_iff h p hname
  by_cases hfull : name ≠ e.rootDir ∧ Pattern.matchesPath e.fullPattern name = true
  · obtain ⟨rest, hrest, hmatches⟩ := hcut.mpr hfull
    rw [below?_eq_some_iff.mpr hrest, Option.bind_some, if_pos hmatches, if_pos (by simpa using hfull),
      String.append_assoc, ← hrest]
  · rw [if_neg (by simpa using hfull), Option.bind_eq_none_iff]
    intro rest hrest
    exact if_neg fun hmatches => hfull (hcut.mp ⟨rest, below?_eq_some_iff.mp hrest, hmatches⟩)

/-- **Cutting an expression loses nothing.** From an archive whose members have names of proper
segments, each on one line, an expression lists the members, other than its root, whose whole name
matches its whole pattern: each once, in the order of the archive. -/
theorem outcome_listArchives_eq_matches_of_fullPattern (w : World) (workers : Int) (text : String)
    (e : Expression) (zip : Path) (archive : Archive) (hparse : Expression.parse text = some e)
    (horigin : e.origin = some classpathOrigin) (hopen : w.openArchive zip = .ok archive)
    (hnames : ∀ m ∈ archive.members, m.isFolder = false →
      ∀ s ∈ splitSlash m.name, s ≠ "" ∧ s ≠ "." ∧ '\n' ∉ s.toList) :
    (listArchives w workers e [⟨zip, e.rootDir⟩]).outcome =
      .ok (Locator.unique ((archive.members.filter fun m =>
          !m.isFolder && m.name ≠ e.rootDir && Pattern.matchesPath e.fullPattern m.name).map
        fun m => ⟨"classpath:" ++ m.name⟩)) := by
  have hnamed : ∀ m ∈ archive.members, m.name ≠ "" := by
    intro m hm hempty
    cases hfolder : m.isFolder with
    | true => simp [Member.isFolder, hempty] at hfolder
    | false =>
        have hsplit : "" ∈ splitSlash m.name := by rw [hempty]; exact List.mem_singleton_self _
        exact (hnames m hm hfolder "" hsplit).1 rfl
  have hmembers : membersMatching e ⟨zip, e.rootDir⟩ archive =
      (archive.members.filter fun m =>
          !m.isFolder && m.name ≠ e.rootDir && Pattern.matchesPath e.fullPattern m.name).map
        fun m => ⟨"classpath:" ++ m.name⟩ := by
    rw [membersMatching, List.filterMap_filter, ← List.filterMap_eq_map, List.filterMap_filter]
    have hstart : e.origin.getD classpathOrigin ++ ":" = "classpath:" := by rw [horigin]; rfl
    refine List.filterMap_congr fun m hm => ?_
    cases hfolder : m.isFolder with
    | true => simp
    | false =>
        rw [hstart, locatorBelow_eq hparse zip "classpath:" (hnames m hm hfolder)]
        simp
  rw [outcome_listArchives_singleton, scan_of_openArchive hopen hnamed, hmembers, map_ok]

/-- Behind a root, a `**` finds the file that the whole pattern finds. -/
theorem exists_outcome_listArchives_packedTwice :
    ∃ ls, (listArchives packedTwice 4 ⟨"classpath:a/**", false, some "classpath", ["a"], ["**"], false⟩
        [⟨⟨.relative, ["z.zip"]⟩, "a"⟩]).outcome = .ok ls ∧ ⟨"classpath:a/x.js"⟩ ∈ ls := by
  obtain ⟨archive, hopen, hheld⟩ := packedTwice_openArchive
  have hnames : ∀ m ∈ archive.members, m.isFolder = false →
      ∀ s ∈ splitSlash m.name, s ≠ "" ∧ s ≠ "." ∧ '\n' ∉ s.toList := by
    intro m hm hfile
    obtain ⟨file, hmem, hname⟩ := hheld.exists_file hm hfile
    obtain rfl := List.mem_singleton.mp hmem
    rw [hname]
    decide
  refine ⟨_, outcome_listArchives_eq_matches_of_fullPattern packedTwice 4 "classpath:a/**" _
    ⟨.relative, ["z.zip"]⟩ archive rfl rfl hopen hnames, ?_⟩
  obtain ⟨m, hm, hfile, hname⟩ := hheld.exists_member (List.mem_singleton_self _)
  have hname : m.name = "a/x.js" := hname
  have hmatches : Pattern.matchesPath "a/**" "a/x.js" = true := by decide
  rw [Locator.mem_unique, List.mem_map]
  refine ⟨m, List.mem_filter.mpr ⟨hm, ?_⟩, by rw [hname]; rfl⟩
  rw [hname, hfile]
  exact hmatches

end Source

end AntResources
