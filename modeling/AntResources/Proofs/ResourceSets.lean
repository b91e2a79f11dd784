import Mathlib.Data.List.Basic
import AntResources.Expansion
import AntResources.Proofs.Sequencing

/-!
# AntResources.Proofs.ResourceSets

**The set algebra of expressions.** Each entry of a list is listed on its own (`listing`), and the
result of the whole list is determined by these listings alone: `IsExpansion` says by membership and
order, without mention of how the lists are put together, what it has to be.
`outcome_expand_eq_ok_iff` states that the expansion succeeds exactly if every entry can be listed,
and that its result is the one list with that property. What follows about parts of a list, or about
the places of its exclusions, is then a matter of `IsExpansion` alone.
-/

namespace AntResources

open Contribution (Setup)

/-! ### Lists without repeats -/

namespace Locator

@[simp] theorem mem_unique {l : Locator} {ls : List Locator} : l ∈ unique ls ↔ l ∈ ls :=
  List.mem_eraseDups

theorem unique_cons (l : Locator) (ls : List Locator) :
    unique (l :: ls) = l :: unique (ls.filter fun m => !m == l) :=
  List.eraseDups_cons

/-- Leaving other elements out does not change which of two comes first. -/
theorem idxOf_filter_lt_iff {p : Locator → Bool} {l m : Locator} (hl : p l) (hm : p m)
    (ls : List Locator) :
    (ls.filter p).idxOf l < (ls.filter p).idxOf m ↔ ls.idxOf l < ls.idxOf m := by
  induction ls with
  | nil => rfl
  | cons n ls ih =>
      by_cases hn : p n
      · rw [List.filter_cons_of_pos hn]
        by_cases hnm : n = m
        · subst hnm
          simp
        · by_cases hnl : n = l
          · subst hnl
            simp [List.idxOf_cons_ne _ hnm]
          · simp [List.idxOf_cons_ne _ hnl, List.idxOf_cons_ne _ hnm, ih]
      · have hnl : n ≠ l := fun h => hn (h ▸ hl)
        have hnm : n ≠ m := fun h => hn (h ▸ hm)
        rw [List.filter_cons_of_neg hn, ih, List.idxOf_cons_ne _ hnl, List.idxOf_cons_ne _ hnm,
          Nat.succ_lt_succ_iff]

/-- Repeats are left out, each element staying at its first place. -/
theorem pairwise_unique :
    ∀ ls : List Locator, (unique ls).Pairwise fun l m => ls.idxOf l < ls.idxOf m
  | [] => List.Pairwise.nil
  | l :: ls => by
      have hne : ∀ {m}, m ∈ ls.filter (fun m => !m == l) → l ≠ m := fun hm h => by
        simp [← h] at hm
      rw [unique_cons, List.pairwise_cons]
      constructor
      · intro m hm
        rw [List.idxOf_cons_self, List.idxOf_cons_ne _ (hne (mem_unique.mp hm))]
        exact Nat.succ_pos _
      · refine (pairwise_unique (ls.filter fun m => !m == l)).imp_of_mem ?_
        intro m n hm hn h
        rw [mem_unique] at hm hn
        rw [idxOf_filter_lt_iff (List.mem_filter.mp hm).2 (List.mem_filter.mp hn).2] at h
        rw [List.idxOf_cons_ne _ (hne hm), List.idxOf_cons_ne _ (hne hn)]
        exact Nat.succ_lt_succ h
termination_by ls => ls.length
decreasing_by
  have := List.length_filter_le (fun m => !m == l) ls
  simp only [List.length_cons]
  omega

theorem nodup_unique (ls : List Locator) : (unique ls).Nodup :=
  (pairwise_unique ls).imp fun h heq => by
    rw [heq] at h
    exact Nat.lt_irrefl _ h

/-- A list without repeats is known by its members and by the order of their first places. -/
theorem eq_of_pairwise_idxOf {ls first second : List Locator}
    (hfirst : first.Pairwise fun l m => ls.idxOf l < ls.idxOf m)
    (hsecond : second.Pairwise fun l m => ls.idxOf l < ls.idxOf m)
    (hmem : ∀ l, l ∈ first ↔ l ∈ second) : first = second := by
  have hne : ∀ {l m : Locator}, ls.idxOf l < ls.idxOf m → l ≠ m := fun h heq => by
    rw [heq] at h
    exact Nat.lt_irrefl _ h
  have hperm : first.Perm second :=
    (List.perm_ext_iff_of_nodup (hfirst.imp hne) (hsecond.imp hne)).mpr hmem
  exact hperm.eq_of_pairwise (fun l m _ _ hlm hml => absurd hlm (Nat.lt_asymm hml)) hfirst hsecond

theorem unique_of_nodup {ls : List Locator} (h : ls.Nodup) : unique ls = ls := by
  induction ls with
  | nil => rfl
  | cons l ls ih =>
      obtain ⟨hl, hls⟩ := List.nodup_cons.mp h
      have hfilter : (ls.filter fun m => !m == l) = ls := by
        rw [List.filter_eq_self]
        intro m hm
        have hne : m ≠ l := fun heq => hl (heq ▸ hm)
        simpa using hne
      rw [unique_cons, hfilter, ih hls]

theorem unique_filter (p : Locator → Bool) (ls : List Locator) :
    unique (ls.filter p) = (unique ls).filter p := by
  refine eq_of_pairwise_idxOf ?_ ((pairwise_unique ls).filter p) (by simp)
  refine (pairwise_unique (ls.filter p)).imp_of_mem ?_
  intro l m hl hm h
  rw [mem_unique, List.mem_filter] at hl hm
  exact (idxOf_filter_lt_iff hl.2 hm.2 ls).mp h

theorem unique_append (first second : List Locator) :
    unique (first ++ second) = unique first ++ (unique second).filter (!first.contains ·) := by
  rw [← unique_filter]
  exact List.eraseDups_append

/-- Repeats may be left out of two lists before they are put together. -/
theorem unique_unique_append_unique (first second : List Locator) :
    unique (unique first ++ unique second) = unique (first ++ second) := by
  rw [unique_append, unique_append, unique_of_nodup (nodup_unique first),
    unique_of_nodup (nodup_unique second)]
  simp

end Locator

/-! ### Entries on their own -/

/-- What listing the entry `text` comes to: parsing it, choosing where to look, and listing there. -/
def listing (w : World) (setup : Setup) (text : String) : Except Failure (List Locator) :=
  match Expression.parse text with
  | none => .error (.resource (.emptyExpression text))
  | some e => do
    let source ← (Source.choose setup.lookup e).outcome
    (source.list w setup.maxWorkers e).outcome

/-- Whether an entry takes resources away. -/
def isExclusion (text : String) : Bool :=
  match Expression.parse text with
  | none => false
  | some e => e.exclusion

/-- Whether an entry adds resources. An empty text does nothing at all. -/
def isInclusion (text : String) : Bool := text ≠ "" && !isExclusion text

/-- The resources that an entry lists; none where it cannot be listed. -/
def listed (w : World) (setup : Setup) (text : String) : List Locator :=
  match listing w setup text with
  | .ok ls => ls
  | .error _ => []

/-- Every entry can be listed. -/
def AllListed (w : World) (setup : Setup) (texts : List String) : Prop :=
  ∀ text ∈ texts, text ≠ "" → ∃ ls, listing w setup text = .ok ls

/-- The listings of all inclusions, one after the other. -/
def inclusionListing (w : World) (setup : Setup) (texts : List String) : List Locator :=
  (texts.filter isInclusion).flatMap (listed w setup)

/-- What the result of a list of entries has to be: no repeats, what some inclusion lists and no
exclusion does, ordered as the inclusions first list it. -/
structure IsExpansion (w : World) (setup : Setup) (texts : List String) (result : List Locator) :
    Prop where
  nodup : result.Nodup
  mem_iff : ∀ l, l ∈ result ↔
    (∃ text ∈ texts, isInclusion text ∧ l ∈ listed w setup text) ∧
      ∀ text ∈ texts, isExclusion text → l ∉ listed w setup text
  ordered : result.Pairwise fun l m =>
    (inclusionListing w setup texts).idxOf l < (inclusionListing w setup texts).idxOf m

section Entries

variable {w : World} {setup : Setup} {texts : List String}

theorem mem_inclusionListing {l : Locator} : l ∈ inclusionListing w setup texts ↔
    ∃ text ∈ texts, isInclusion text ∧ l ∈ listed w setup text := by
  simp [inclusionListing, and_assoc]

theorem listed_of_listing {text : String} {ls : List Locator} (h : listing w setup text = .ok ls) :
    listed w setup text = ls := by
  rw [listed, h]

/-- Only one list can be the result. -/
theorem IsExpansion.unique {first second : List Locator} (hfirst : IsExpansion w setup texts first)
    (hsecond : IsExpansion w setup texts second) : first = second :=
  Locator.eq_of_pairwise_idxOf hfirst.ordered hsecond.ordered fun l =>
    (hfirst.mem_iff l).trans (hsecond.mem_iff l).symm

/-! ### Contributions -/

/-- What an entry contributes if it can be listed. -/
def contribution (w : World) (setup : Setup) (text : String) : Contribution :=
  ⟨isExclusion text, listed w setup text⟩

theorem outcome_ofText (w : World) (setup : Setup) (text : String) :
    (Contribution.ofText w setup text).outcome =
      (fun ls => ⟨isExclusion text, ls⟩) <$> listing w setup text := by
  unfold Contribution.ofText listing isExclusion
  cases Expression.parse text with
  | none => rfl
  | some e =>
      simp only [Contribution.ofExpression, Trace.outcome_bind, Trace.outcome_tell,
        Trace.outcome_pure]
      cases (Source.choose setup.lookup e).outcome with
      | error f => rfl
      | ok source => cases h : (source.list w setup.maxWorkers e).outcome <;> simp [h]

theorem outcome_contributions (w : World) (setup : Setup) (texts : List String) :
    (contributions w setup texts).outcome =
      (texts.filter (· ≠ "")).mapM fun text => (fun ls => ⟨isExclusion text, ls⟩) <$>
        listing w setup text := by
  simp only [contributions, Trace.outcome_mapM, outcome_ofText]

/-- An entry contributes something exactly if it can be listed. -/
theorem map_listing_eq_ok_iff {text : String} {c : Contribution} :
    (fun ls => ⟨isExclusion text, ls⟩) <$> listing w setup text = .ok c ↔
      (∃ ls, listing w setup text = .ok ls) ∧ c = contribution w setup text := by
  unfold contribution listed
  cases listing w setup text <;> simp [eq_comm]

theorem map_listing_eq_error_iff {text : String} {failure : Failure} :
    (fun ls => (⟨isExclusion text, ls⟩ : Contribution)) <$> listing w setup text = .error failure ↔
      listing w setup text = .error failure := by
  cases listing w setup text <;> simp

/-- Listing all entries fails as the first of them that cannot be listed. -/
theorem outcome_contributions_eq_error_iff {failure : Failure} :
    (contributions w setup texts).outcome = .error failure ↔
      ∃ before text after, texts = before ++ text :: after ∧ text ≠ "" ∧
        AllListed w setup before ∧ listing w setup text = .error failure := by
  rw [outcome_contributions, mapM_eq_error_iff]
  simp only [map_listing_eq_ok_iff, map_listing_eq_error_iff, exists_and_left, exists_eq, and_true]
  constructor
  · intro ⟨kept, text, later, hsplit, hkept, h⟩
    obtain ⟨start, rest, rfl, rfl, hrest⟩ := List.filter_eq_append_iff.mp hsplit
    obtain ⟨empty, after, rfl, hempty, hne, -⟩ := List.filter_eq_cons_iff.mp hrest
    refine ⟨start ++ empty, text, after, by simp, by simpa using hne, ?_, h⟩
    intro t ht hne
    rcases List.mem_append.mp ht with ht | ht
    · exact hkept t (List.mem_filter.mpr ⟨ht, by simpa using hne⟩)
    · exact absurd (by simpa using hne) (hempty t ht)
  · intro ⟨before, text, after, htexts, hne, hbefore, h⟩
    refine ⟨before.filter (· ≠ ""), text, after.filter (· ≠ ""), ?_, ?_, h⟩
    · rw [htexts, List.filter_append, List.filter_cons_of_pos (by simpa using hne)]
    · intro t ht
      obtain ⟨ht, hne⟩ := List.mem_filter.mp ht
      exact hbefore t ht (by simpa using hne)

theorem outcome_contributions_eq_ok_iff {cs : List Contribution} :
    (contributions w setup texts).outcome = .ok cs ↔
      AllListed w setup texts ∧ cs = (texts.filter (· ≠ "")).map (contribution w setup) := by
  have hall : AllListed w setup texts ↔
      ∀ text ∈ texts.filter (· ≠ ""), ∃ ls, listing w setup text = .ok ls := by
    simp [AllListed]
  rw [outcome_contributions, hall]
  generalize texts.filter (· ≠ "") = kept
  have hok : (∀ text ∈ kept, ∃ ls, listing w setup text = .ok ls) →
      (kept.mapM fun text => (fun ls => ⟨isExclusion text, ls⟩) <$> listing w setup text) =
        .ok (kept.map (contribution w setup)) := by
    intro h
    rw [mapM_eq_ok_iff, List.map_map]
    exact List.map_congr_left fun text ht => map_listing_eq_ok_iff.mpr ⟨h text ht, rfl⟩
  constructor
  · intro h
    have hlisted : ∀ text ∈ kept, ∃ ls, listing w setup text = .ok ls := fun text ht => by
      obtain ⟨c, hc⟩ := exists_mapM_eq_ok_iff.mp ⟨cs, h⟩ text ht
      exact (map_listing_eq_ok_iff.mp hc).1
    rw [hok hlisted] at h
    exact ⟨hlisted, (Except.ok.inj h).symm⟩
  · intro ⟨h, hcs⟩
    rw [hok h, hcs]

/-! ### The expansion -/

theorem included_map_contribution :
    Contribution.included ((texts.filter (· ≠ "")).map (contribution w setup)) =
      inclusionListing w setup texts := by
  unfold Contribution.included inclusionListing
  rw [List.filter_map, List.flatMap_map, List.filter_filter]
  congr 2
  funext text
  exact Bool.and_comm _ _

theorem mem_excluded_map_contribution {l : Locator} :
    l ∈ Contribution.excluded ((texts.filter (· ≠ "")).map (contribution w setup)) ↔
      ∃ text ∈ texts, isExclusion text ∧ l ∈ listed w setup text := by
  have hne : ∀ {text}, isExclusion text = true → text ≠ "" := by
    intro text h hempty
    subst hempty
    exact absurd h (by decide)
  simp only [Contribution.excluded, List.mem_flatMap, List.mem_filter, List.mem_map]
  constructor
  · intro hsplit
    obtain ⟨_, ⟨⟨text, ⟨ht, -⟩, rfl⟩, hex⟩, hl⟩ := hsplit
    exact ⟨text, ht, hex, hl⟩
  · intro hsplit
    obtain ⟨text, ht, hex, hl⟩ := hsplit
    exact ⟨_, ⟨⟨text, ⟨ht, by simpa using hne hex⟩, rfl⟩, hex⟩, hl⟩

/-- Putting the contributions together gives what the result has to be. -/
theorem isExpansion_combine : IsExpansion w setup texts
    (Contribution.combine ((texts.filter (· ≠ "")).map (contribution w setup))) := by
  unfold Contribution.combine
  rw [included_map_contribution]
  constructor
  · exact (Locator.nodup_unique _).filter _
  · intro l
    rw [List.mem_filter, Locator.mem_unique, mem_inclusionListing]
    simp only [Bool.not_eq_true', List.contains_eq_mem, decide_eq_false_iff_not,
      mem_excluded_map_contribution, not_exists, not_and]
  · exact (Locator.pairwise_unique _).filter _

/-- **The result of a list of entries.** It is there if every entry can be listed, and it is the one
list that the listings ask for. -/
theorem outcome_expand_eq_ok_iff {result : List Locator} :
    (expand w setup texts).outcome = .ok result ↔
      AllListed w setup texts ∧ IsExpansion w setup texts result := by
  have houtcome : (expand w setup texts).outcome =
      Contribution.combine <$> (contributions w setup texts).outcome := by
    simp only [expand, Trace.outcome_bind, Trace.outcome_pure]
    rfl
  rw [houtcome]
  constructor
  · intro h
    cases hcs : (contributions w setup texts).outcome with
    | error failure => rw [hcs] at h; cases h
    | ok cs =>
        rw [hcs] at h
        obtain ⟨hall, rfl⟩ := outcome_contributions_eq_ok_iff.mp hcs
        exact ⟨hall, Except.ok.inj h ▸ isExpansion_combine⟩
  · intro ⟨hall, hresult⟩
    rw [outcome_contributions_eq_ok_iff.mpr ⟨hall, rfl⟩, hresult.unique isExpansion_combine]
    rfl

theorem outcome_expand_eq_error_iff {failure : Failure} :
    (expand w setup texts).outcome = .error failure ↔
      ∃ before text after, texts = before ++ text :: after ∧ text ≠ "" ∧
        AllListed w setup before ∧ listing w setup text = .error failure := by
  rw [← outcome_contributions_eq_error_iff]
  simp only [expand, Trace.outcome_bind, Trace.outcome_pure]
  cases (contributions w setup texts).outcome with
  | error failure => simp
  | ok cs =>
      rw [ok_bind]
      constructor <;> intro h <;> cases h

/-! ### Parts of a list, and moved exclusions -/

theorem inclusionListing_append (texts more : List String) :
    inclusionListing w setup (texts ++ more) =
      inclusionListing w setup texts ++ inclusionListing w setup more := by
  simp [inclusionListing]

/-- Without exclusions the result is all that is listed, each resource at its first place. -/
theorem isExpansion_unique_inclusionListing (h : ∀ text ∈ texts, isExclusion text = false) :
    IsExpansion w setup texts (Locator.unique (inclusionListing w setup texts)) where
  nodup := Locator.nodup_unique _
  mem_iff := by
    intro l
    rw [Locator.mem_unique, mem_inclusionListing, and_iff_left]
    intro text ht hex
    rw [h text ht] at hex
    cases hex
  ordered := Locator.pairwise_unique _

/-- Without exclusions two lists of entries can be expanded one after the other. -/
theorem outcome_expand_append {more : List String} {result : List Locator}
    (h : ∀ text ∈ texts ++ more, isExclusion text = false)
    (hresult : (expand w setup (texts ++ more)).outcome = .ok result) :
    ∃ first second, (expand w setup texts).outcome = .ok first ∧
      (expand w setup more).outcome = .ok second ∧ result = Locator.unique (first ++ second) := by
  obtain ⟨hall, hexpansion⟩ := outcome_expand_eq_ok_iff.mp hresult
  have htexts : IsExpansion w setup texts _ :=
    isExpansion_unique_inclusionListing fun text ht => h text (List.mem_append_left _ ht)
  have hmore : IsExpansion w setup more _ :=
    isExpansion_unique_inclusionListing fun text ht => h text (List.mem_append_right _ ht)
  refine ⟨_, _, outcome_expand_eq_ok_iff.mpr ⟨fun text ht => hall text (List.mem_append_left _ ht),
    htexts⟩, outcome_expand_eq_ok_iff.mpr ⟨fun text ht => hall text (List.mem_append_right _ ht),
    hmore⟩, ?_⟩
  rw [Locator.unique_unique_append_unique, ← inclusionListing_append]
  exact hexpansion.unique (isExpansion_unique_inclusionListing h)

/-- Where the exclusions stand makes no difference to what the result has to be. -/
theorem IsExpansion.of_moved {other : List String} {result : List Locator}
    (h : IsExpansion w setup texts result) (hperm : texts.Perm other)
    (hkept : texts.filter (!isExclusion ·) = other.filter (!isExclusion ·)) :
    IsExpansion w setup other result := by
  have hfilter : ∀ ts : List String,
      ts.filter isInclusion = (ts.filter (!isExclusion ·)).filter (· ≠ "") := by
    intro ts
    rw [List.filter_filter]
    rfl
  have hlisting : inclusionListing w setup texts = inclusionListing w setup other := by
    unfold inclusionListing
    rw [hfilter texts, hfilter other, hkept]
  constructor
  · exact h.nodup
  · intro l
    rw [h.mem_iff l]
    simp only [hperm.mem_iff]
  · rw [← hlisting]
    exact h.ordered

end Entries

/-- **An expansion is its inclusions without its exclusions.** Expanding a list of entries fails
exactly if one of them cannot be listed, and then as the first of these does. Otherwise the result
has no repeats, holds what some inclusion lists and no exclusion anywhere does, and is ordered as the
inclusions first list it. So without exclusions the parts of a list can be expanded one by one, and
an exclusion may stand anywhere. -/
theorem expand_is_inclusions_without_exclusions (w : World) (setup : Setup) (texts : List String) :
    (∀ failure, (expand w setup texts).outcome = .error failure ↔
      ∃ before text after, texts = before ++ text :: after ∧ text ≠ "" ∧
        AllListed w setup before ∧ listing w setup text = .error failure) ∧
    (∀ result, (expand w setup texts).outcome = .ok result ↔
      AllListed w setup texts ∧ IsExpansion w setup texts result) ∧
    (∀ more result, (∀ text ∈ texts ++ more, isExclusion text = false) →
      (expand w setup (texts ++ more)).outcome = .ok result →
        ∃ first second, (expand w setup texts).outcome = .ok first ∧
          (expand w setup more).outcome = .ok second ∧
          result = Locator.unique (first ++ second)) ∧
    (∀ other result, texts.Perm other →
      texts.filter (!isExclusion ·) = other.filter (!isExclusion ·) →
        (expand w setup texts).outcome = .ok result →
          (expand w setup other).outcome = .ok result) := by
  refine ⟨fun failure => outcome_expand_eq_error_iff, fun result => outcome_expand_eq_ok_iff,
    fun more result => outcome_expand_append, ?_⟩
  intro other result hperm hkept h
  obtain ⟨hall, hexpansion⟩ := outcome_expand_eq_ok_iff.mp h
  exact outcome_expand_eq_ok_iff.mpr
    ⟨fun text ht => hall text (hperm.mem_iff.mpr ht), hexpansion.of_moved hperm hkept⟩

/-- A world with nothing in it. -/
def World.empty : World where
  tree := ⟨[], []⟩
  cwd := []
  defaultPath := []
  web := []

/-- Two lists one after the other, and an exclusion that moves to the front. -/
theorem expand_in_parts_and_moved_remote :
    let setup : Setup := ⟨SearchPath.resolve [] World.empty, 1⟩
    (∃ first second, (expand World.empty setup ["https://a.org/x.js"]).outcome = .ok first ∧
      (expand World.empty setup ["https://a.org/y.js", "https://a.org/x.js"]).outcome = .ok second ∧
      [⟨"https://a.org/x.js"⟩, ⟨"https://a.org/y.js"⟩] = Locator.unique (first ++ second)) ∧
    (expand World.empty setup
        ["~https://a.org/x.js", "https://a.org/x.js", "https://a.org/y.js"]).outcome =
      .ok [⟨"https://a.org/y.js"⟩] := by
  intro setup
  constructor
  · exact (expand_is_inclusions_without_exclusions World.empty setup ["https://a.org/x.js"]).2.2.1
      ["https://a.org/y.js", "https://a.org/x.js"] _ (by decide) rfl
  · exact (expand_is_inclusions_without_exclusions World.empty setup
      ["https://a.org/x.js", "https://a.org/y.js", "~https://a.org/x.js"]).2.2.2
      ["~https://a.org/x.js", "https://a.org/x.js", "https://a.org/y.js"] _ (by decide) (by decide)
      rfl

end AntResources
