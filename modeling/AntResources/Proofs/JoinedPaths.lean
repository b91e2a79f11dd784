import AntResources.Proofs.CanonicalText
import AntResources.Proofs.Exclusions
import AntResources.Proofs.LookupLocality

/-!
# AntResources.Proofs.JoinedPaths

**A path behind a folder.** Where a text is a folder, a slash and a path, the path may as well be brought
to normal form on its own before it is put behind the folder (`Text.normalizeOnto_normalize`): what a
`..` cancels, it cancels in both. If nothing is left in it that climbs, the segments of the whole are those
of the folder with its own behind them (`Expression.pathSegments_joined`), and a folder without wildcards
has no part in where they are cut into a root and a glob (`Expression.splitGlob_literal_append`).
-/

namespace AntResources

open Contribution (Setup)
open Text

/-! ### Normal forms behind other segments -/

namespace Text

/-- **Segments may be brought to normal form first**, before they are put behind others. -/
theorem normalizeOnto_normalize (rooted : Bool) (kept segments : List String) :
    normalizeOnto rooted kept (normalize false segments) = normalizeOnto rooted kept segments := by
  have hkeep : ∀ {form}, Relation.ReflTransGen (Simplifies false) segments form →
      normalizeOnto rooted kept segments = normalizeOnto rooted kept form := by
    intro form hsteps
    induction hsteps with
    | refl => rfl
    | tail _ hstep ih => exact ih.trans (normalizeOnto_eq_of_simplifies hstep (by simp))
  exact (hkeep (isNormalForm_iff.mpr rfl).1).symm

theorem mem_pathText {names : List (List Char)} {name : List Char} {c : Char} (hname : name ∈ names)
    (hc : c ∈ name) : c ∈ pathText names := by
  cases names with
  | nil => cases hname
  | cons first rest =>
      rcases List.mem_cons.mp hname with rfl | hrest
      · exact List.mem_append_left _ hc
      · exact List.mem_append_right _ (List.mem_flatMap.mpr ⟨name, hrest, List.mem_cons_of_mem _ hc⟩)

/-- Nothing that a normal form has in it means something else than itself, but for a `..`. -/
theorem normalize_plain (rooted : Bool) (h : ".." ∉ normalize rooted segments) :
    ∀ s ∈ normalize rooted segments, s ≠ "" ∧ s ≠ "." ∧ s ≠ ".." := by
  intro s hs
  rcases mem_normalizeOnto hs with hkept | ⟨-, hempty, hdot⟩
  · cases hkept
  · exact ⟨hempty, hdot, fun heq => h (heq ▸ hs)⟩

end Text

namespace Expression

/-! ### The segments of a joined path -/

/-- A slash at the end says nothing. -/
theorem normalize_split_concat_slash (rooted : Bool) (path : List Char) :
    Text.normalize rooted ((split '/' (path ++ ['/'])).map String.ofList) =
      Text.normalize rooted ((split '/' path).map String.ofList) := by
  rw [split_append_sep, List.map_append, Text.normalize, normalizeOnto_append]
  show normalizeOnto rooted _ [""] = _
  rw [normalizeOnto_cons_skip (Or.inl rfl), normalizeOnto, List.reverse_reverse]
  rfl

theorem pathSegments_concat_slash {path : List Char} (hne : path ≠ []) :
    pathSegments (path ++ ['/']) = pathSegments path := by
  rw [pathSegments, normalize_split_concat_slash, List.head?_append_of_ne_nil _ hne, pathSegments]

/-- The text before a slash counts as far as it goes, and the path behind it from there. -/
theorem pathSegments_append (above below : List Char) :
    pathSegments (above ++ '/' :: below) =
      normalizeOnto ((above ++ '/' :: below).head? = some '/')
        (pathSegments (above ++ ['/'])).reverse ((split '/' below).map String.ofList) := by
  have hhead : (above ++ ['/']).head? = (above ++ '/' :: below).head? := by cases above <;> rfl
  rw [pathSegments, split_append_sep, List.map_append, Text.normalize, normalizeOnto_append, pathSegments,
    normalize_split_concat_slash, hhead]
  rfl

/-- Segments that mean just themselves are those of the absolute path that they are written as. -/
theorem pathSegments_absolute {segments : List String} (hproper : Proper segments)
    (hup : ".." ∉ segments) : pathSegments ('/' :: (joinSlash segments).toList) = segments := by
  by_cases hne : segments = []
  · subst hne
    rfl
  have hcut : (split '/' ('/' :: (joinSlash segments).toList)).map String.ofList = "" :: segments := by
    rw [split, if_pos rfl, List.map_cons]
    exact congrArg (_ :: ·) (splitSlash_joinSlash hne fun s hs => (hproper s hs).2.2)
  have hplain : ∀ s ∈ segments, s ≠ "" ∧ s ≠ "." ∧ s ≠ ".." := fun s hs =>
    ⟨(hproper s hs).1, (hproper s hs).2.1, fun heq => hup (heq ▸ hs)⟩
  rw [pathSegments, hcut, Text.normalize, normalizeOnto_cons_skip (Or.inl rfl)]
  exact normalizeOnto_of_plain hplain

/-- **A path that does not climb** stands behind the folder with all its segments. -/
theorem pathSegments_joined {base path : String} (h : ".." ∉ Text.normalize false (splitSlash path)) :
    pathSegments (base ++ "/" ++ path).toList =
      pathSegments (base ++ "/").toList ++ Text.normalize false (splitSlash path) := by
  have htext : (base ++ "/" ++ path).toList = base.toList ++ '/' :: path.toList := by simp
  have hfolder : (base ++ "/").toList = base.toList ++ ['/'] := by simp
  rw [htext, hfolder, pathSegments_append, ← normalizeOnto_normalize, ← splitSlash,
    normalizeOnto_of_plain (normalize_plain false h), List.reverse_reverse]

/-- The segments of a text have no characters besides its own. -/
theorem isGlob_of_mem_pathSegments {path : List Char} (h : '*' ∉ path ∧ '?' ∉ path) {s : String}
    (hs : s ∈ pathSegments path) : isGlob s = false := by
  rcases mem_normalizeOnto hs with hkept | ⟨hmem, -, -⟩
  · cases hkept
  · obtain ⟨piece, hpiece, rfl⟩ := List.mem_map.mp hmem
    have hchars : ∀ c ∈ piece, c ∈ path := fun c hc => pathText_split path ▸ mem_pathText hpiece hc
    rw [isGlob_eq_false_iff, String.toList_ofList]
    exact ⟨fun hstar => h.1 (hchars _ hstar), fun hmark => h.2 (hchars _ hmark)⟩

/-- Segments without wildcards come before the cut, if others stand behind them. -/
theorem splitGlob_literal_append {above below : List String} (h : ∀ s ∈ above, isGlob s = false)
    (hne : below ≠ []) : splitGlob (above ++ below) =
      (above ++ (splitGlob below).1, (splitGlob below).2) := by
  induction above with
  | nil => rfl
  | cons s above ih =>
      obtain ⟨hs, habove⟩ := List.forall_mem_cons.mp h
      obtain ⟨next, rest, hnext⟩ := List.exists_cons_of_ne_nil (List.append_ne_nil_of_right_ne_nil above hne)
      rw [List.cons_append, hnext, splitGlob, if_neg (by simp [hs]), ← hnext, ih habove]
      rfl

/-! ### Expressions for files -/

/-- The expression for a path in the file system. -/
def atPath (path : String) : Expression where
  raw := Source.fileOrigin ++ ":" ++ path
  exclusion := false
  origin := some Source.fileOrigin
  root := (splitGlob (pathSegments path.toList)).1
  glob := (splitGlob (pathSegments path.toList)).2
  absolute := path.toList.head? = some '/'

theorem parse_atPath {path : String} (hlast : ∀ c, path.toList.getLast? = some c → isBlank c = false) :
    parse (Source.fileOrigin ++ ":" ++ path) = some (atPath path) := by
  have htext : (Source.fileOrigin ++ ":" ++ path).toList =
      mark false ++ (['f', 'i', 'l', 'e'] ++ ':' :: path.toList) := by
    simp [Source.fileOrigin]
  rw [parse_of_cut htext (by decide) (by decide) (by decide) (by decide) (isBlank_of_eq_some rfl rfl) hlast]
  rfl

/-- The folder that a path is behind, as its text says. -/
def folderAt (base : String) : Path :=
  ⟨if (base ++ "/").toList.head? = some '/' then .root else .relative,
    pathSegments (base ++ "/").toList⟩

end Expression

/-- A joined path ends as the path behind the folder does. -/
theorem isBlank_joined {base path : String} (hpath : path ≠ "")
    (hlast : ∀ c, path.toList.getLast? = some c → isBlank c = false) :
    ∀ c, (base ++ "/" ++ path).toList.getLast? = some c → isBlank c = false := by
  rwa [String.toList_append, List.getLast?_append_of_ne_nil _ (by simpa using hpath)]

/-! ### Listing and expanding -/

section Listing

variable (w : World) (setup : Setup) {path : String}
  (hlast : ∀ c, path.toList.getLast? = some c → isBlank c = false)

include hlast

/-- The path of an expression for files is listed in the folder that is its root. -/
theorem listing_atPath : listing w setup (Source.fileOrigin ++ ":" ++ path) =
    (Source.listTree w (Expression.atPath path)
      ⟨if path.toList.head? = some '/' then .root else .relative,
        (Expression.atPath path).root⟩).outcome := by
  have hparse := Expression.parse_atPath hlast
  obtain ⟨lookup, workers⟩ := setup
  rw [listing_of_fileOrigin hparse rfl, Expression.ofString_baseDir hparse]
  simp [Expression.atPath]

/-- Expanded on its own, such an expression comes to what is listed. -/
theorem outcome_expand_atPath : (expand w setup [Source.fileOrigin ++ ":" ++ path]).outcome =
    listing w setup (Source.fileOrigin ++ ":" ++ path) := by
  have hne : Source.fileOrigin ++ ":" ++ path ≠ "" := by simp [Source.fileOrigin]
  have hinclusion : isExclusion (Source.fileOrigin ++ ":" ++ path) = false := by
    rw [isExclusion, Expression.parse_atPath hlast]
    rfl
  rw [outcome_expand_singleton w setup hne, hinclusion, listing_atPath w setup hlast]
  cases hlist : (Source.listTree w (Expression.atPath path)
      ⟨if path.toList.head? = some '/' then .root else .relative,
        (Expression.atPath path).root⟩).outcome with
  | error failure => rfl
  | ok found =>
      have hnodup := Source.nodup_of_listTree hlist
      simp [Locator.unique_of_nodup hnodup]

/-- The exclusion of such an expression lists what the expression does. -/
theorem listing_mark_atPath (ls : List Locator) :
    isExclusion ("~" ++ (Source.fileOrigin ++ ":" ++ path)) = true ∧
      (listing w setup ("~" ++ (Source.fileOrigin ++ ":" ++ path)) = .ok ls ↔
        listing w setup (Source.fileOrigin ++ ":" ++ path) = .ok ls) := by
  have hne : Source.fileOrigin ++ ":" ++ path ≠ "" := by simp [Source.fileOrigin]
  have hmark : (Source.fileOrigin ++ ":" ++ path).toList.head? ≠ some '~' := by
    simp [Source.fileOrigin]
  have htext : (Source.fileOrigin ++ ":" ++ path).toList = ['f', 'i', 'l', 'e'] ++ ':' :: path.toList := by
    simp [Source.fileOrigin]
  have htrim := trim_of_colon htext (isBlank_of_eq_some rfl rfl) hlast
  refine ⟨?_, listing_mark w setup hne htrim hmark⟩
  rw [isExclusion, (Expression.parse_mark hne htrim hmark).1, Expression.parse_atPath hlast]
  rfl

/-- What the exclusion of one expression for files leaves of another. -/
theorem outcome_expand_excluding_atPath {other : String} {found removed : List Locator}
    (hother : ∀ c, other.toList.getLast? = some c → isBlank c = false)
    (hfound : listing w setup (Source.fileOrigin ++ ":" ++ other) = .ok found)
    (hremoved : listing w setup (Source.fileOrigin ++ ":" ++ path) = .ok removed) :
    (expand w setup [Source.fileOrigin ++ ":" ++ other,
        "~" ++ (Source.fileOrigin ++ ":" ++ path)]).outcome =
      .ok (found.filter fun l => !removed.contains l) := by
  obtain ⟨hexclusion, hmarked⟩ := listing_mark_atPath w setup hlast removed
  have hlisted := hmarked.mpr hremoved
  obtain ⟨-, hexpansion⟩ :=
    outcome_expand_eq_ok_iff.mp ((outcome_expand_atPath w setup hother).trans hfound)
  have hinserted : IsExpansion w setup ([Source.fileOrigin ++ ":" ++ other] ++ [_] ++ []) _ :=
    IsExpansion.insert_exclusion hexpansion hexclusion
  rw [listed_of_listing hlisted] at hinserted
  refine outcome_expand_eq_ok_iff.mpr ⟨fun text htext _ => ?_, hinserted⟩
  rcases List.mem_cons.mp htext with rfl | htext
  · exact ⟨found, hfound⟩
  · obtain rfl := List.mem_singleton.mp htext
    exact ⟨removed, hlisted⟩

end Listing

/-- **A path that does not climb** is listed below the folder that it is behind: as far as its own
segments have no wildcards they lead there, and the others are the glob. -/
theorem listing_joined (w : World) (setup : Setup) {base path : String}
    (hbase : '*' ∉ base.toList ∧ '?' ∉ base.toList)
    (hdown : ".." ∉ Text.normalize false (splitSlash path))
    (hne : Text.normalize false (splitSlash path) ≠ [])
    (hlast : ∀ c, path.toList.getLast? = some c → isBlank c = false) :
    (Expression.atPath (base ++ "/" ++ path)).glob =
        (Expression.splitGlob (Text.normalize false (splitSlash path))).2 ∧
      listing w setup (Source.fileOrigin ++ ":" ++ (base ++ "/" ++ path)) =
        (Source.listTree w (Expression.atPath (base ++ "/" ++ path))
          ((Expression.folderAt base).below
            (Expression.splitGlob (Text.normalize false (splitSlash path))).1)).outcome := by
  have hpath : path ≠ "" := fun hempty => hne (by rw [hempty]; rfl)
  have hhead : (base ++ "/" ++ path).toList.head? = (base ++ "/").toList.head? := by
    rw [String.toList_append, List.head?_append_of_ne_nil _ (by simp)]
  have hliteral : ∀ s ∈ Expression.pathSegments (base ++ "/").toList, Expression.isGlob s = false :=
    fun s hs => Expression.isGlob_of_mem_pathSegments (by simpa using hbase) hs
  have hcut := Expression.splitGlob_literal_append hliteral hne
  rw [← Expression.pathSegments_joined hdown] at hcut
  rw [listing_atPath w setup (isBlank_joined hpath hlast), hhead, Expression.atPath, hcut]
  exact ⟨rfl, rfl⟩

end AntResources
