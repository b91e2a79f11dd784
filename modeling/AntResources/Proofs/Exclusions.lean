import AntResources.Proofs.ListingOutcomes
import AntResources.Proofs.NormalForm
import AntResources.Proofs.ResourceSets

/-!
# AntResources.Proofs.Exclusions

**A `~` takes away exactly what the expression behind it adds.** The mark is read off before anything
else, and nothing that decides on the resources looks at it again: `parse_mark` says that the marked
text parses to the same expression but for its text and its flag, and `outcome_choose_excluding` and
`outcome_list_excluding` that neither of these two has a part in where and what is listed. Adding the
marked text to a list of entries then only removes resources from its result.
-/

namespace AntResources

open Contribution (Setup)
open Text

/-! ### Blanks -/

theorem trimStart_eq_of_trim_eq {cs : List Char} (h : trim cs = cs) : trimStart cs = cs := by
  have hlength : cs.length ≤ (trimStart cs).length := by
    have hend := (List.dropWhile_suffix isBlank (l := (trimStart cs).reverse)).length_le
    have hcs := congrArg List.length h
    unfold trim trimEnd at hcs
    rw [List.length_reverse] at hend hcs
    omega
  exact (List.dropWhile_suffix isBlank).eq_of_length_le hlength

/-- A mark before a text without blanks around it is not a blank either. -/
theorem trim_mark {cs : List Char} (hne : cs ≠ []) (h : trim cs = cs) :
    trim ('~' :: cs) = '~' :: cs := by
  have hstart : trimStart ('~' :: cs) = '~' :: cs := by
    unfold trimStart
    rw [List.dropWhile_cons_of_neg (by decide)]
  have hend : cs.reverse.dropWhile isBlank = cs.reverse := by
    have hreverse := congrArg List.reverse h
    unfold trim trimEnd at hreverse
    rwa [trimStart_eq_of_trim_eq h, List.reverse_reverse] at hreverse
  have hempty : cs.reverse.isEmpty = false := by simpa using hne
  unfold trim trimEnd
  rw [hstart, List.reverse_cons, List.dropWhile_append, hend, hempty]
  simp

/-! ### The marked expression -/

namespace Expression

/-- The expression that takes away what `e` adds. -/
def excluding (e : Expression) : Expression := { e with raw := "~" ++ e.raw, exclusion := true }

theorem rootDir_excluding (e : Expression) : e.excluding.rootDir = e.rootDir := rfl

theorem location_excluding {e : Expression} (h : e.exclusion = false) :
    e.excluding.location = e.location := by
  simp [location, excluding, h]

/-- A `~` before the text of an expression changes its text and its flag, and nothing else. -/
theorem parse_mark {text : String} (hne : text ≠ "") (htrim : trim text.toList = text.toList)
    (hmark : text.toList.head? ≠ some '~') :
    parse ("~" ++ text) = (parse text).map excluding ∧
      ∀ e, parse text = some e → e.exclusion = false := by
  have hchars : text.toList ≠ [] := by simpa using hne
  have hmarked : trim ("~" ++ text).toList = '~' :: text.toList := by
    rw [String.toList_append]
    exact trim_mark hchars htrim
  have hraw : String.ofList ('~' :: text.toList) = "~" ++ String.ofList text.toList := by
    rw [← String.toList_inj, String.toList_append]
    simp
  have hassemble : assemble ('~' :: text.toList) true text.toList =
      (assemble text.toList false text.toList).excluding := by
    unfold assemble excluding
    rw [hraw]
  rw [parse_of_trim hmarked, parse_of_trim htrim, if_pos List.head?_cons, if_neg hmark,
    List.tail_cons, if_neg hchars, if_neg hchars, hassemble]
  refine ⟨rfl, fun e he => ?_⟩
  rw [← Option.some.inj he]
  rfl

end Expression

/-! ### Choosing and listing -/

/-- Where the resources are listed does not depend on the mark. (If they cannot be, the failure shows
the text of the expression, and so the mark.) -/
theorem outcome_choose_excluding (lookup : Lookup) (e : Expression) (source : Source) :
    (Source.choose lookup e.excluding).outcome = .ok source ↔
      (Source.choose lookup e).outcome = .ok source := by
  have hlocations : ∀ locations, Source.ofLocations e.excluding locations = .ok source ↔
      Source.ofLocations e locations = .ok source := by
    intro locations
    cases locations with
    | nil => simp [Source.ofLocations]
    | cons first rest => cases first <;> rfl
  rw [Source.outcome_choose, Source.outcome_choose]
  by_cases hclass : e.origin = some Source.classpathOrigin
  · have hclass' : e.excluding.origin = some Source.classpathOrigin := hclass
    rw [if_pos hclass, if_pos hclass', Expression.rootDir_excluding]
    cases (lookup e.rootDir).outcome with
    | error f => rfl
    | ok locations => exact hlocations locations
  · have hclass' : e.excluding.origin ≠ some Source.classpathOrigin := hclass
    rw [if_neg hclass, if_neg hclass']
    rfl

/-- What a source lists does not depend on the mark. -/
theorem outcome_list_excluding (w : World) (workers : Int) {e : Expression}
    (h : e.exclusion = false) (source : Source) :
    (source.list w workers e.excluding).outcome = (source.list w workers e).outcome := by
  cases source with
  | archives roots =>
      simp only [Source.list, Source.outcome_listArchives]
      rfl
  | tree base =>
      simp only [Source.list, Source.outcome_listTree]
      rfl
  | remote =>
      show (Source.listRemote e.excluding).outcome = (Source.listRemote e).outcome
      rw [Source.outcome_listRemote, Source.outcome_listRemote, Expression.location_excluding h]

/-- A `~` before an entry does not change what it lists. -/
theorem listing_mark (w : World) (setup : Setup) {text : String} (hne : text ≠ "")
    (htrim : trim text.toList = text.toList) (hmark : text.toList.head? ≠ some '~')
    {ls : List Locator} :
    listing w setup ("~" ++ text) = .ok ls ↔ listing w setup text = .ok ls := by
  obtain ⟨hparse, hexclusion⟩ := Expression.parse_mark hne htrim hmark
  unfold listing
  rw [hparse]
  cases he : Expression.parse text with
  | none => simp
  | some e =>
      have hlist : ∀ source, (Source.list w setup.maxWorkers e.excluding source).outcome =
          (Source.list w setup.maxWorkers e source).outcome :=
        outcome_list_excluding w setup.maxWorkers (hexclusion e he)
      have hchoose := outcome_choose_excluding setup.lookup e
      simp only [Option.map_some, hlist]
      cases h : (Source.choose setup.lookup e).outcome with
      | ok source => rw [(hchoose source).mpr h]
      | error f =>
          have hnone : ∀ source, (Source.choose setup.lookup e.excluding).outcome ≠ .ok source :=
            fun source hsource => by
              rw [hchoose, h] at hsource
              cases hsource
          cases hmarked : (Source.choose setup.lookup e.excluding).outcome with
          | ok source => exact absurd hmarked (hnone source)
          | error f' => simp

/-! ### Adding an exclusion -/

/-- The exclusion of an expression that can be listed only removes resources from a result. -/
theorem IsExpansion.insert_exclusion {w : World} {setup : Setup} {ys zs : List String}
    {mark : String} {result : List Locator} (h : IsExpansion w setup (ys ++ zs) result)
    (hmark : isExclusion mark = true) :
    IsExpansion w setup (ys ++ [mark] ++ zs)
      (result.filter fun l => !(listed w setup mark).contains l) := by
  have hinclusion : isInclusion mark = false := by simp [isInclusion, hmark]
  have hlisting : inclusionListing w setup (ys ++ [mark] ++ zs) =
      inclusionListing w setup (ys ++ zs) := by
    simp [inclusionListing, hinclusion]
  constructor
  · exact h.nodup.filter _
  · intro l
    rw [List.mem_filter, h.mem_iff l, ← mem_inclusionListing, ← mem_inclusionListing, hlisting,
      and_assoc]
    refine and_congr_right fun _ => ?_
    simp only [Bool.not_eq_true', List.contains_eq_mem, decide_eq_false_iff_not, List.mem_append,
      List.mem_singleton]
    constructor
    · intro hsplit text ht hex
      obtain ⟨hothers, hl⟩ := hsplit
      rcases ht with (ht | rfl) | ht
      · exact hothers text (Or.inl ht) hex
      · exact hl
      · exact hothers text (Or.inr ht) hex
    · intro hall
      exact ⟨fun text ht => hall text (ht.imp_left Or.inl), hall mark (Or.inl (Or.inr rfl)) hmark⟩
  · rw [hlisting]
    exact h.ordered.filter _

/-- **An exclusion takes away what its expression adds.** Let a list of entries be expanded, and an
expression without a mark on its own. Then the list with the marked expression put in anywhere can be
expanded too, and its result is that of the list, in the same order, less exactly the resources of
the expression. So an expression and its exclusion leave nothing. -/
theorem expand_insert_exclusion (w : World) (setup : Setup) (ys zs : List String) (text : String)
    (result removed : List Locator) (hne : text ≠ "") (htrim : trim text.toList = text.toList)
    (hmark : text.toList.head? ≠ some '~')
    (hresult : (expand w setup (ys ++ zs)).outcome = .ok result)
    (hremoved : (expand w setup [text]).outcome = .ok removed) :
    (expand w setup (ys ++ ["~" ++ text] ++ zs)).outcome =
        .ok (result.filter fun l => !removed.contains l) ∧
      (expand w setup [text, "~" ++ text]).outcome = .ok [] := by
  obtain ⟨halone, hexpansion⟩ := outcome_expand_eq_ok_iff.mp hremoved
  obtain ⟨ls, hls⟩ := halone text List.mem_cons_self hne
  have hmarked : listing w setup ("~" ++ text) = .ok ls :=
    (listing_mark w setup hne htrim hmark).mpr hls
  obtain ⟨e, he⟩ : ∃ e, Expression.parse text = some e := by
    unfold listing at hls
    cases he : Expression.parse text with
    | none => rw [he] at hls; cases hls
    | some e => exact ⟨e, rfl⟩
  obtain ⟨hparse, hexclusion⟩ := Expression.parse_mark hne htrim hmark
  have htilde : isExclusion ("~" ++ text) = true := by
    rw [isExclusion, hparse, he]
    rfl
  have hplain : isInclusion text = true := by
    simp [isInclusion, isExclusion, he, hexclusion e he, hne]
  -- The marked text lists what the text alone expands to.
  have hmem : ∀ l, l ∈ listed w setup ("~" ++ text) ↔ l ∈ removed := by
    intro l
    rw [hexpansion.mem_iff l, listed_of_listing hmarked, ← listed_of_listing hls]
    constructor
    · intro hl
      refine ⟨⟨text, List.mem_cons_self, hplain, hl⟩, ?_⟩
      intro t ht hex
      obtain rfl := List.mem_singleton.mp ht
      simp [isInclusion, hex] at hplain
    · intro hsplit
      obtain ⟨⟨t, ht, -, hl⟩, -⟩ := hsplit
      exact List.mem_singleton.mp ht ▸ hl
  have hinsert : ∀ (before after : List String) (all : List Locator),
      (expand w setup (before ++ after)).outcome = .ok all →
        (expand w setup (before ++ ["~" ++ text] ++ after)).outcome =
          .ok (all.filter fun l => !removed.contains l) := by
    intro before after all hall
    obtain ⟨hlisted, hbefore⟩ := outcome_expand_eq_ok_iff.mp hall
    have hfilter : (all.filter fun l => !removed.contains l) =
        all.filter fun l => !(listed w setup ("~" ++ text)).contains l := by
      refine List.filter_congr fun l _ => ?_
      simp only [List.contains_eq_mem, hmem l]
    rw [hfilter]
    refine outcome_expand_eq_ok_iff.mpr ⟨?_, hbefore.insert_exclusion htilde⟩
    intro t ht htne
    simp only [List.mem_append, List.mem_singleton] at ht
    rcases ht with (ht | rfl) | ht
    · exact hlisted t (List.mem_append_left _ ht) htne
    · exact ⟨ls, hmarked⟩
    · exact hlisted t (List.mem_append_right _ ht) htne
  refine ⟨hinsert ys zs result hresult, ?_⟩
  have hboth := hinsert [text] [] removed hremoved
  have hempty : (removed.filter fun l => !removed.contains l) = [] := by
    simp [List.filter_eq_nil_iff]
  rwa [hempty] at hboth

theorem expand_insert_exclusion_remote :
    let setup : Setup := ⟨SearchPath.resolve [] World.empty, 1⟩
    (expand World.empty setup (["https://a.org/x.js", "https://a.org/y.js"] ++
          ["~" ++ "https://a.org/x.js"] ++ ["~https://a.org/z.js"])).outcome =
        .ok [⟨"https://a.org/y.js"⟩] ∧
      (expand World.empty setup ["https://a.org/x.js", "~" ++ "https://a.org/x.js"]).outcome =
        .ok [] := by
  intro setup
  exact expand_insert_exclusion World.empty setup ["https://a.org/x.js", "https://a.org/y.js"]
    ["~https://a.org/z.js"] "https://a.org/x.js" [⟨"https://a.org/x.js"⟩, ⟨"https://a.org/y.js"⟩]
    [⟨"https://a.org/x.js"⟩] (by decide) (by decide) (by decide) rfl rfl

end AntResources
