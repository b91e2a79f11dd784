import Mathlib.Data.List.TakeWhile
import AntResources.Proofs.TreeListing

/-!
# AntResources.Proofs.Climbs

**Where `..` leads.** In a normal form every `..` stands at the start (`Text.ClimbsFirst`): a path climbs
some levels first, and from there it goes down. Behind another path it does so from the end of that, in
its text (`Path.absolute_below_of_climbsFirst`) as well as in a tree in which it meets no links
(`FileTree.descend_of_linkless`). So it comes out below the other path exactly if it goes down again
where it has climbed (`Path.liesBelow_ascend_iff`).
-/

namespace AntResources

open Text

/-! ### Segments that climb first -/

namespace Text

/-- How many levels the segments climb before anything else. -/
def climbs (segments : List String) : Nat := (segments.takeWhile (· = "..")).length

/-- What the segments go down after that. -/
def descent (segments : List String) : List String := segments.dropWhile (· = "..")

/-- No `..` stands behind another segment. -/
def ClimbsFirst (segments : List String) : Prop := ".." ∉ descent segments

variable {segments names rest kept : List String} {s : String} {k : Nat} {rooted : Bool}

theorem replicate_climbs_append_descent (segments : List String) :
    List.replicate (climbs segments) ".." ++ descent segments = segments := by
  have hups : segments.takeWhile (· = "..") = List.replicate (climbs segments) ".." :=
    List.eq_replicate_iff.mpr ⟨rfl, fun s hs => by simpa using List.mem_takeWhile_imp hs⟩
  rw [← hups]
  exact List.takeWhile_append_dropWhile

theorem climbs_replicate_append (k : Nat) (h : ".." ∉ rest) :
    climbs (List.replicate k ".." ++ rest) = k := by
  have hnone : rest.takeWhile (· = "..") = [] := by
    cases rest with
    | nil => rfl
    | cons first rest =>
        exact List.takeWhile_cons_of_neg (by simpa using fun heq : first = ".." => h (by simp [heq]))
  rw [climbs, List.takeWhile_append_of_pos (by simp), hnone, List.append_nil, List.length_replicate]

theorem descent_replicate_append (k : Nat) (h : ".." ∉ rest) :
    descent (List.replicate k ".." ++ rest) = rest := by
  have hsplit := replicate_climbs_append_descent (List.replicate k ".." ++ rest)
  rw [climbs_replicate_append k h] at hsplit
  exact List.append_cancel_left hsplit

theorem climbsFirst_replicate_append (k : Nat) (h : ".." ∉ rest) :
    ClimbsFirst (List.replicate k ".." ++ rest) := by
  rwa [ClimbsFirst, descent_replicate_append k h]

/-- What climbs first does so up to any of its segments. -/
theorem ClimbsFirst.of_append (h : ClimbsFirst (segments ++ names)) : ClimbsFirst segments := by
  rw [ClimbsFirst, descent, List.dropWhile_append] at h
  split at h
  · next hnil => simp [ClimbsFirst, descent, List.isEmpty_iff.mp hnil]
  · exact fun hmem => h (List.mem_append_left _ hmem)

/-- A `..` behind segments that climb first takes the last of those away that go down. Where none goes
down it climbs another level. -/
theorem cancel_climbing (k : Nat) (h : ".." ∉ rest) :
    cancel false (List.replicate k ".." ++ rest).reverse = (if rest = [] then
      List.replicate (k + 1) ".." else List.replicate k ".." ++ rest.dropLast).reverse := by
  rcases List.eq_nil_or_concat rest with rfl | ⟨before, last, rfl⟩
  · rw [if_pos rfl, List.append_nil, List.reverse_replicate, List.reverse_replicate]
    cases k with
    | zero => rfl
    | succ k => rfl
  · rw [List.concat_eq_append] at h ⊢
    have hlast : last ≠ ".." := fun heq => h (by simp [heq])
    rw [if_neg (by simp), List.dropLast_concat, ← List.append_assoc, List.reverse_concat]
    exact if_neg hlast

/-- Below the root there is nothing to climb. -/
theorem not_mem_normalizeOnto_rooted (h : ".." ∉ kept) (segments : List String) :
    ".." ∉ normalizeOnto true kept segments := by
  induction segments generalizing kept with
  | nil => simpa [normalizeOnto] using h
  | cons first segments ih =>
      by_cases hskip : first = "" ∨ first = "."
      · rw [normalizeOnto_cons_skip hskip]
        exact ih h
      by_cases hup : first = ".."
      · subst hup
        rw [normalizeOnto_cons_up]
        cases kept with
        | nil => exact ih h
        | cons last before =>
            obtain ⟨hlast, hbefore⟩ := List.ne_and_not_mem_of_not_mem_cons h
            rw [cancel, if_neg hlast.symm]
            exact ih hbefore
      · rw [normalizeOnto_cons_name hskip hup]
        exact ih (List.not_mem_cons_of_ne_of_not_mem (Ne.symm hup) h)

/-- **A normal form climbs first**, and never less than what it goes on from. -/
theorem exists_normalizeOnto_climbing (k : Nat) (h : ".." ∉ rest) (segments : List String) :
    ∃ total below, k ≤ total ∧ ".." ∉ below ∧
      normalizeOnto false (List.replicate k ".." ++ rest).reverse segments =
        List.replicate total ".." ++ below := by
  induction segments generalizing k rest with
  | nil => exact ⟨k, rest, le_rfl, h, by rw [normalizeOnto, List.reverse_reverse]⟩
  | cons first segments ih =>
      by_cases hskip : first = "" ∨ first = "."
      · rw [normalizeOnto_cons_skip hskip]
        exact ih k h
      by_cases hup : first = ".."
      · subst hup
        rw [normalizeOnto_cons_up, cancel_climbing k h]
        split
        · obtain ⟨total, below, hle, hbelow, heq⟩ := ih (k + 1) (List.not_mem_nil (a := ".."))
          exact ⟨total, below, by omega, hbelow, by rw [← heq, List.append_nil]⟩
        · exact ih k fun hmem => h (List.dropLast_subset _ hmem)
      · rw [normalizeOnto_cons_name hskip hup]
        have hrest : ".." ∉ rest ++ [first] := by simp [h, Ne.symm hup]
        obtain ⟨total, below, hle, hbelow, heq⟩ := ih k hrest
        exact ⟨total, below, hle, hbelow, by rw [← heq]; simp⟩

theorem climbsFirst_normalize (rooted : Bool) (segments : List String) :
    ClimbsFirst (normalize rooted segments) := by
  cases rooted with
  | true => exact climbsFirst_replicate_append 0 (not_mem_normalizeOnto_rooted List.not_mem_nil segments)
  | false =>
      obtain ⟨total, below, -, hbelow, heq⟩ :=
        exists_normalizeOnto_climbing 0 (List.not_mem_nil (a := "..")) segments
      rw [normalize, show normalizeOnto false [] segments = _ from heq]
      exact climbsFirst_replicate_append total hbelow

/-- At the root no level can be climbed. -/
theorem normalizeOnto_rooted_climbing (h : ".." ∉ kept) (k : Nat) :
    normalizeOnto true kept (List.replicate k "..") = kept.reverse.take (kept.length - k) := by
  induction k generalizing kept with
  | zero => simp [normalizeOnto, List.take_of_length_le]
  | succ k ih =>
      rw [List.replicate_succ, normalizeOnto_cons_up]
      cases kept with
      | nil => simpa [cancel] using ih h
      | cons last before =>
          obtain ⟨hlast, hbefore⟩ := List.ne_and_not_mem_of_not_mem_cons h
          rw [cancel, if_neg hlast.symm, ih hbefore, List.reverse_cons, List.length_cons,
            Nat.add_sub_add_right, List.take_append_of_le_length (by simp)]

/-- One level is climbed by leaving the last segment away. -/
theorem normalizeOnto_rooted_up (h : ".." ∉ names) :
    normalizeOnto true names.reverse [".."] = names.dropLast := by
  have hclimb : normalizeOnto true names.reverse (List.replicate 1 "..") = _ :=
    normalizeOnto_rooted_climbing (by simpa using h) 1
  rwa [List.reverse_reverse, List.length_reverse, ← List.dropLast_eq_take] at hclimb

/-- A list starts a cut of it with something behind exactly if that starts with what was cut off. -/
theorem prefix_take_append_iff {α : Type} (xs ys : List α) (n : Nat) :
    xs <+: xs.take n ++ ys ↔ xs.drop n <+: ys := by
  have hcut : xs.take n ++ xs.drop n <+: xs.take n ++ ys ↔ xs.drop n <+: ys :=
    List.prefix_append_right_inj _
  rwa [List.take_append_drop] at hcut

end Text

/-! ### Behind another path -/

namespace Path

/-- The path some levels further up. -/
def ascend (p : Path) (k : Nat) : Path := ⟨p.anchor, p.parts.take (p.parts.length - k)⟩

/-- The path lies at another or below it, as both are written. -/
def LiesBelow (p top : Path) : Prop := p.anchor = top.anchor ∧ top.parts <+: p.parts

/-- **A path that climbs** comes out below where it started exactly if it goes down again the way that
it has climbed. -/
theorem liesBelow_ascend_iff {p : Path} {k : Nat} {names : List String} :
    ((p.ascend k).below names).LiesBelow p ↔ p.parts.drop (p.parts.length - k) <+: names := by
  rw [← prefix_take_append_iff]
  exact and_iff_right rfl

variable {p : Path} {names : List String} {cwd : Location}

/-- In the text of an absolute path no `..` is left. -/
theorem not_mem_absolute (hcwd : p.anchor = .relative → ".." ∉ cwd) :
    ".." ∉ (p.absolute cwd).parts := by
  obtain ⟨anchor, parts⟩ := p
  cases anchor with
  | relative => exact not_mem_normalizeOnto_rooted (by simpa using hcwd rfl) parts
  | root | doubleRoot => exact not_mem_normalizeOnto_rooted List.not_mem_nil parts

/-- **Behind another path** segments in normal form climb from the end of that. -/
theorem absolute_below_of_climbsFirst (hcwd : p.anchor = .relative → ".." ∉ cwd)
    (hnames : ClimbsFirst names) (hproper : Proper names) :
    (p.below names).absolute cwd =
      ((p.absolute cwd).ascend (climbs names)).below (descent names) := by
  have hdescent : ∀ s ∈ descent names, s ≠ "" ∧ s ≠ "." ∧ s ≠ ".." := fun s hs => by
    obtain ⟨hempty, hdot, -⟩ := hproper s ((List.dropWhile_suffix _).mem hs)
    exact ⟨hempty, hdot, fun heq => hnames (heq ▸ hs)⟩
  have hup := not_mem_absolute hcwd
  rw [← replicate_climbs_append_descent names, below_append, absolute_below hdescent]
  rw [replicate_climbs_append_descent]
  congr 1
  obtain ⟨anchor, parts⟩ := p
  cases anchor with
  | relative =>
      simp only [absolute, below, ascend, mk.injEq, true_and] at hup ⊢
      rw [normalizeOnto_append, normalizeOnto_rooted_climbing (by simpa using hup)]
      simp
  | root | doubleRoot =>
      simp only [absolute, below, ascend, Text.normalize, mk.injEq, true_and] at hup ⊢
      rw [normalizeOnto_append, normalizeOnto_rooted_climbing (by simpa using hup)]
      simp

end Path

/-! ### In a tree without links -/

namespace FileTree

/-- There is no link in the folder at a location, nor below it. -/
def LinklessBelow (t : FileTree) (top : Location) : Prop :=
  ∀ l, top <+: l → ∀ name target, t.child? l name ≠ some (.link target)

variable {t : FileTree} {l : Location} {links : Nat} {spot : Spot}

/-- One step up. -/
theorem descend_up (hfolder : t.isOpenAt l = true) (rest : List String) :
    t.descend links l (".." :: rest) = t.descend links l.dropLast rest := by
  rw [descend, if_neg (by simp), hfolder, if_neg (by decide), if_neg (by decide), if_pos rfl]

/-- One step down, to something that is not a link. -/
theorem descend_name_of_linkless {part : String} {rest : List String} (hname : part ≠ "")
    (hdot : part ≠ ".") (hup : part ≠ "..") (hlink : ∀ target, t.child? l part ≠ some (.link target))
    (h : t.descend links l (part :: rest) = .ok spot) :
    t.descend links (l ++ [part]) rest = .ok spot := by
  obtain ⟨hlong, node, hchild⟩ := child?_of_descend hname hdot hup h
  rwa [descend_of_child_eq_some links rest (isOpenAt_of_descend hname h) hlong hchild
    fun target heq => hlink target (heq ▸ hchild)] at h

/-- The way down so far is below where it will have climbed to in the end. -/
theorem take_prefix_of_climbing {parts rest below : List String} {k total : Nat} (hrest : ".." ∉ rest)
    (hbelow : ".." ∉ below)
    (hform : normalizeOnto false (List.replicate k ".." ++ rest).reverse parts =
      List.replicate total ".." ++ below) (l : Location) :
    l.take (l.length - total) <+: l.take (l.length - k) := by
  obtain ⟨most, down, hle, hdown, heq⟩ := exists_normalizeOnto_climbing k hrest parts
  have hsame : most = total := by
    rw [← climbs_replicate_append most hdown, ← heq, hform, climbs_replicate_append total hbelow]
  exact List.take_prefix_take_left (by omega)

/-- **Where no link is met**, the segments of a path lead where its text says. -/
theorem descend_of_linkless {parts rest below : List String} {k total : Nat} (hparts : Proper parts)
    (hrest : ".." ∉ rest) (hbelow : ".." ∉ below)
    (hform : normalizeOnto false (List.replicate k ".." ++ rest).reverse parts =
      List.replicate total ".." ++ below)
    (hlinks : t.LinklessBelow (l.take (l.length - total)))
    (h : t.descend links (l.take (l.length - k) ++ rest) parts = .ok spot) :
    spot.location = l.take (l.length - total) ++ below := by
  -- The way so far has climbed `k` folders up from `l`, and gone down `rest` from there.
  induction parts generalizing k rest with
  | nil =>
      rw [normalizeOnto, List.reverse_reverse] at hform
      obtain rfl : k = total := by
        rw [← climbs_replicate_append k hrest, hform, climbs_replicate_append total hbelow]
      obtain rfl := List.append_cancel_left hform
      rw [FileTree.descend] at h
      rw [← Except.ok.inj h]
  | cons part parts ih =>
      obtain ⟨⟨hempty, hdot, -⟩, hproper⟩ := List.forall_mem_cons.mp hparts
      have hskip : ¬ (part = "" ∨ part = ".") := by simp [hempty, hdot]
      have hfolder := isOpenAt_of_descend hempty h
      by_cases hup : part = ".."
      · subst hup
        rw [descend_up hfolder] at h
        rw [normalizeOnto_cons_up, cancel_climbing k hrest] at hform
        by_cases hnil : rest = []
        · subst hnil
          rw [if_pos rfl] at hform
          have hnone : ".." ∉ ([] : List String) := List.not_mem_nil
          refine ih (k := k + 1) hproper hnone (by simpa using hform) ?_
          have hdrop : (l.take (l.length - k)).dropLast = l.take (l.length - (k + 1)) := by
            rw [List.dropLast_eq_take, List.length_take, List.take_take]
            congr 1
            omega
          rwa [List.append_nil, hdrop, ← List.append_nil (l.take _)] at h
        · rw [if_neg hnil] at hform
          refine ih hproper (fun hmem => hrest (List.dropLast_subset _ hmem)) hform ?_
          rwa [List.dropLast_append_of_ne_nil hnil] at h
      · rw [normalizeOnto_cons_name hskip hup] at hform
        have hrest' : ".." ∉ rest ++ [part] := by simp [hrest, Ne.symm hup]
        have hform' : normalizeOnto false (List.replicate k ".." ++ (rest ++ [part])).reverse parts =
            List.replicate total ".." ++ below := by
          rw [← hform]
          simp
        have htop : l.take (l.length - total) <+: l.take (l.length - k) ++ rest :=
          (take_prefix_of_climbing hrest' hbelow hform' l).trans (List.prefix_append _ _)
        refine ih hproper hrest' hform' ?_
        rw [← List.append_assoc]
        exact descend_name_of_linkless hempty hdot hup (hlinks _ htop part) h

end FileTree

end AntResources
