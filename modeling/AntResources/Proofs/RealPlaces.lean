import AntResources.FileTree.RealPath
import AntResources.Proofs.FolderMaking

/-!
# AntResources.Proofs.RealPlaces

**The real place of a path is where a look-up of it ends.** Both follow the links on the path, each in its own
way. A look-up goes on from where the target of a link leads, and counts the links. A real path is settled in
the text: it remembers what each link has led to, and gives up on a link only if it meets it again on the way
along its target. They come to the same place wherever a look-up comes to one (`FileTree.realPath_of_descend`).

The settling of a path takes the same steps as the look-up, except where it takes a shortcut that it remembers.
What carries the proof is what a link is known to lead to: whatever goes on from the link goes on from there as
well, with fewer links to spare (`FileTree.Leads`). So a look-up that meets a link on the way along its own
target never ends.
-/

namespace AntResources.FileTree

open Text

variable {t : FileTree} {cwd l place here : Location} {p link : Path} {name s : String} {links : Nat}
  {spot : Spot} {fault : Fault} {steps before : List Step} {parts rest more : List String}

/-! ### What keeps a path from having a real place -/

theorem settle_fault {unmet : Nat} {known : List (Path × Option Path)} {here : Path} {steps : List Step}
    (h : t.settle cwd unmet known here steps = .error fault) :
    fault = .nulInPath ∨ fault = .nestedTooDeep := by
  -- A step goes on, or it ends the way with a path or one of the two faults.
  fun_induction settle t cwd unmet known here steps
  case case1 | case8 | case9 => cases h
  case case2 ih | case3 ih | case4 ih | case6 ih | case7 ih | case11 ih => exact ih h
  case case5 => exact .inl (Except.error.inj h).symm
  case case10 => exact .inr (Except.error.inj h).symm

/-- What keeps a path from having a real place. -/
def placeFaults : List Fault := [.nulInPath, .nestedTooDeep, .linkLoop, .missingFolder]

theorem mem_placeFaults_of_realPath (h : t.realPath cwd p = .error fault) : fault ∈ placeFaults := by
  unfold realPath at h
  cases hsettled : t.settled cwd p with
  | error other =>
      rw [hsettled] at h
      cases h
      rcases settle_fault hsettled with rfl | rfl <;> decide
  | ok there =>
      rw [hsettled, ok_bind] at h
      cases habsolute : absolute cwd there with
      | error other =>
          rw [habsolute] at h
          cases h
          unfold absolute at habsolute
          split at habsolute <;> cases habsolute
          decide
      | ok place =>
          rw [habsolute, ok_bind] at h
          dsimp only at h
          split at h <;> cases h <;> decide

/-! ### Places -/

/-- A location where a look-up can end: what is there is no link, and folders lead down to it. -/
inductive IsPlace (t : FileTree) : Location → Prop where
  | root : IsPlace t []
  | child {l : Location} {name : String} {node : Node} : t.IsThere l → t.child? l name = some node →
      name.utf8ByteSize ≤ maxNameBytes → (∀ target, node ≠ .link target) → IsPlace t (l ++ [name])

theorem IsThere.isPlace (h : t.IsThere l) : t.IsPlace l := by
  rcases List.eq_nil_or_concat l with rfl | ⟨above, name, rfl⟩
  · exact .root
  · rw [List.concat_eq_append] at h ⊢
    obtain ⟨hchild, hlong⟩ := h above name [] rfl
    exact .child h.upper hchild hlong (by simp)

namespace IsPlace

theorem isThere (h : t.IsPlace l) (hfolder : t.isOpenAt l = true) : t.IsThere l := by
  cases h with
  | root => exact .nil t
  | @child above name node habove hchild hlong hlink =>
      have hname := isName_of_child? hchild
      exact habove.child (by rw [child?, if_pos hname, node?_of_isOpenAt hfolder]) hlong

theorem isName_of_mem (h : t.IsPlace l) (hname : name ∈ l) : isName name = true := by
  cases h with
  | root => cases hname
  | child habove hchild _ _ =>
      rcases List.mem_append.mp hname with hname | hname
      · exact habove.isName_of_mem hname
      · exact List.mem_singleton.mp hname ▸ isName_of_child? hchild

theorem isPlain (h : t.IsPlace l) (anchor : Anchor) : (Path.mk anchor l).IsPlain := by
  intro name hname
  obtain ⟨hempty, hdot, hup, -⟩ := isName_iff.mp (h.isName_of_mem hname)
  exact ⟨hempty, hdot, hup⟩

theorem proper (h : t.IsPlace l) : Proper l := by
  intro name hname
  obtain ⟨hempty, hdot, -, hslash, -⟩ := isName_iff.mp (h.isName_of_mem hname)
  exact ⟨hempty, hdot, hslash⟩

theorem hasNul (h : t.IsPlace l) (anchor : Anchor) : (Path.mk anchor l).hasNul = false := by
  rw [Path.hasNul, List.any_eq_false]
  intro name hname
  obtain ⟨-, -, -, -, hnul⟩ := isName_iff.mp (h.isName_of_mem hname)
  simpa using hnul

theorem descend (h : t.IsPlace l) (links : Nat) : t.descend links [] l = .ok ⟨l, links⟩ := by
  cases h with
  | root => rw [FileTree.descend]
  | @child above name node habove hchild hlong hlink =>
      have hway : t.IsThere ([] ++ above) := habove
      rw [descend_append, hway.descend, ok_bind]
      exact (descend_of_child_eq_some links [] habove.isOpenAt_self hlong hchild hlink).trans
        (by rw [FileTree.descend])

theorem exists_child (h : t.IsPlace (l ++ [name])) : t.IsThere l ∧ ∃ node, t.child? l name = some node ∧
    name.utf8ByteSize ≤ maxNameBytes ∧ ∀ target, node ≠ .link target := by
  generalize hl : l ++ [name] = place at h
  cases h with
  | root => simp at hl
  | child habove hchild hlong hlink =>
      obtain ⟨rfl, rfl⟩ := List.append_singleton_inj.mp hl
      exact ⟨habove, _, hchild, hlong, hlink⟩

theorem dropLast (h : t.IsPlace l) (hfolder : t.isOpenAt l = true) : t.IsPlace l.dropLast := by
  have hway : t.IsThere (l.dropLast ++ l.drop (l.length - 1)) := by
    rw [List.dropLast_eq_take, List.take_append_drop]
    exact h.isThere hfolder
  exact hway.upper.isPlace

end IsPlace

/-! ### One step of a look-up -/

/-- A way without a link that ends with a name comes from the folder that has the name. -/
theorem descend_of_descend_concat {here : Location} {last : String} (hname : last ≠ "") (hdot : last ≠ ".")
    (hup : last ≠ "..") (h : t.descend links here (parts ++ [last]) = .ok ⟨l, links⟩) :
    t.descend links here parts = .ok ⟨l.dropLast, links⟩ := by
  rw [descend_append] at h
  obtain ⟨mid, hmid, hlast⟩ := bind_eq_ok_iff.mp h
  have hlinks : mid.links = links := Nat.le_antisymm (links_le_of_descend hmid) (links_le_of_descend hlast)
  have hlink : ∀ target, t.child? mid.location last ≠ some (.link target) := by
    intro target hchild
    -- A link would leave fewer links to spare.
    obtain ⟨less, hless, hnext⟩ := exists_descend_of_link hchild hlast
    have hfewer := links_le_of_descend hnext
    dsimp only at hfewer
    omega
  have hend := descend_name_of_linkless hname hdot hup hlink hlast
  rw [descend, Except.ok.injEq, Spot.mk.injEq] at hend
  rw [hmid, ← hend.1, List.dropLast_concat, ← hlinks]

theorem isPlace_targetStart (h : t.IsPlace l) (target : String) : t.IsPlace (targetStart l target) := by
  unfold targetStart
  split
  · exact .root
  · exact h

/-! ### Where the settling of a path has come to -/

/-- The path that was settled so far means the location, and leads there without a link. -/
structure IsAt (t : FileTree) (cwd : Location) (here : Path) (l : Location) : Prop where
  parts_eq : (here.absolute cwd).parts = l
  proper : Proper here.parts
  place : t.IsPlace l
  way : t.descend maxLinks (start cwd here) here.parts = .ok ⟨l, maxLinks⟩
  notGone : here.anchor = .relative → Location.isGone cwd = false

theorem parts_absolute_child (hempty : s ≠ "") (hdot : s ≠ ".") (hup : s ≠ "..") (cwd : Location)
    (p : Path) : ((p.child s).absolute cwd).parts = (p.absolute cwd).parts ++ [s] :=
  congrArg Path.parts (Path.absolute_below (by simp [hempty, hdot, hup]) cwd p)

theorem parts_absolute_child_up (h : ".." ∉ (p.absolute cwd).parts) :
    ((p.child "..").absolute cwd).parts = (p.absolute cwd).parts.dropLast := by
  rw [Path.parts_absolute] at h
  rw [Path.parts_absolute, Path.parts_absolute, ← normalizeOnto_rooted_up h, ← normalizeOnto_append]
  rfl

theorem up_concat {anchor : Anchor} {above : List String} (hlast : s ≠ "..") :
    Path.up ⟨anchor, above ++ [s]⟩ = ⟨anchor, above⟩ := by
  simp [Path.up, Path.parent, hlast]

theorem IsAt.ofLocation (h : t.IsPlace l) (cwd : Location) : t.IsAt cwd (Path.ofLocation l) l where
  parts_eq := congrArg Path.parts ((h.isPlain .root).absolute cwd)
  proper := h.proper
  place := h
  way := h.descend maxLinks
  notGone := by simp [Path.ofLocation]

namespace IsAt

variable {here : Path}

theorem child (h : t.IsAt cwd here l) (hname : isName name = true) (hplace : t.IsPlace (l ++ [name])) :
    t.IsAt cwd (here.child name) (l ++ [name]) := by
  obtain ⟨hempty, hdot, hup, hslash, -⟩ := isName_iff.mp hname
  obtain ⟨habove, node, hchild, hlong, hlink⟩ := hplace.exists_child
  have hway : t.descend maxLinks (start cwd (here.child name)) (here.child name).parts =
      .ok ⟨l ++ [name], maxLinks⟩ := by
    show t.descend maxLinks (start cwd here) (here.parts ++ [name]) = _
    rw [descend_append, h.way, ok_bind, descend_of_child_eq_some _ _ habove.isOpenAt_self hlong hchild hlink,
      descend]
  exact ⟨by rw [parts_absolute_child hempty hdot hup, h.parts_eq],
    List.forall_mem_append.mpr ⟨h.proper, by simpa using ⟨hempty, hdot, hslash⟩⟩, hplace, hway, h.notGone⟩

theorem up (h : t.IsAt cwd here l) (hfolder : t.isOpenAt l = true) : t.IsAt cwd here.up l.dropLast := by
  have hplace := h.place.dropLast hfolder
  have hup : ".." ∉ (here.absolute cwd).parts := h.parts_eq ▸ (h.place.isThere hfolder).not_mem_up
  have hway : t.descend maxLinks (start cwd (here.child "..")) (here.child "..").parts =
      .ok ⟨l.dropLast, maxLinks⟩ := by
    show t.descend maxLinks (start cwd here) (here.parts ++ [".."]) = _
    rw [descend_append, h.way, ok_bind, descend_up hfolder, descend]
  have hclimbed : t.IsAt cwd (here.child "..") l.dropLast :=
    ⟨by rw [parts_absolute_child_up hup, h.parts_eq],
      List.forall_mem_append.mpr ⟨h.proper, by decide⟩, hplace, hway, h.notGone⟩
  obtain ⟨anchor, parts⟩ := here
  rcases List.eq_nil_or_concat parts with rfl | ⟨before, last, rfl⟩
  · by_cases hrelative : anchor = .relative
    · simpa [Path.up, hrelative] using hclimbed
    · have hroot : l = [] := by
        rw [← h.parts_eq]
        cases anchor with
        | relative => exact absurd rfl hrelative
        | root | doubleRoot => rfl
      subst hroot
      simpa [Path.up, hrelative] using h
  · rw [List.concat_eq_append] at h hclimbed ⊢
    by_cases hlast : last = ".."
    · simpa [Path.up, hlast] using hclimbed
    · -- The last segment is a name, so it is the last one of the location as well.
      obtain ⟨hproper, hone⟩ := List.forall_mem_append.mp h.proper
      obtain ⟨hempty, hdot, -⟩ := hone last (List.mem_singleton_self last)
      have hparts : ((Path.mk anchor before).absolute cwd).parts ++ [last] = l :=
        (parts_absolute_child hempty hdot hlast cwd ⟨anchor, before⟩).symm.trans h.parts_eq
      have hway : t.descend maxLinks (start cwd ⟨anchor, before⟩) before = .ok ⟨l.dropLast, maxLinks⟩ :=
        descend_of_descend_concat hempty hdot hlast h.way
      rw [up_concat hlast]
      exact ⟨by rw [← hparts, List.dropLast_concat], hproper, hplace, hway, h.notGone⟩

theorem linkTarget?_eq_some_iff {target : String} (h : t.IsAt cwd here l) (hfolder : t.isOpenAt l = true) :
    t.linkTarget? cwd (here.child name) = some target ↔
      (here.child name).byteLength < maxPathBytes ∧ t.child? l name = some (.link target) := by
  have hparts : (here.child name).parent.parts = here.parts := by simp [Path.child, Path.parent]
  have hlast : (here.child name).name = name := by simp [Path.child, Path.name]
  have hway : t.descend maxLinks (start cwd (here.child name)) here.parts = .ok ⟨l, maxLinks⟩ := h.way
  unfold linkTarget?
  rw [hparts, hlast, hway]
  by_cases hlong : maxPathBytes ≤ (here.child name).byteLength
  · rw [if_pos hlong]
    exact iff_of_false (by simp) fun hshort => by omega
  · rw [if_neg hlong, and_iff_right (Nat.lt_of_not_le hlong)]
    dsimp only
    rw [hfolder, if_neg (by decide)]
    cases t.child? l name with
    | none => simp
    | some node => cases node <;> simp

theorem linkTarget?_eq_none {node : Node} (h : t.IsAt cwd here l) (hfolder : t.isOpenAt l = true)
    (hchild : t.child? l name = some node) (hlink : ∀ target, node ≠ .link target) :
    t.linkTarget? cwd (here.child name) = none := by
  refine Option.eq_none_iff_forall_ne_some.mpr fun target htarget => ?_
  obtain ⟨-, hother⟩ := (h.linkTarget?_eq_some_iff hfolder).mp htarget
  exact hlink target (Option.some.inj (hchild.symm.trans hother))

end IsAt

/-! ### Ways without links -/

section Settle

variable {here : Path} {unmet : Nat} {known : List (Path × Option Path)}

/-- A step along a name that is not that of a link. -/
theorem settle_segment (hname : isName name = true) (hlink : t.linkTarget? cwd (here.child name) = none)
    (unmet : Nat) (known : List (Path × Option Path)) (steps : List Step) :
    t.settle cwd unmet known here (.segment name :: steps) =
      t.settle cwd unmet known (here.child name) steps := by
  obtain ⟨hempty, hdot, hup, -, hnul⟩ := isName_iff.mp hname
  rw [settle, if_neg (by simp [hempty, hdot]), if_neg hup, if_neg (by simpa using hnul)]
  dsimp only
  rw [hlink]

/-- **Where a look-up meets no link**, the settling of the path goes the same way. -/
theorem settle_of_linkless (hhere : t.IsAt cwd here l) (h : t.descend links l parts = .ok ⟨place, links⟩)
    (unmet : Nat) (known : List (Path × Option Path)) :
    ∃ there, t.IsAt cwd there place ∧ t.settle cwd unmet known here (Step.along parts) = .ok there := by
  induction parts generalizing here l with
  | nil =>
      rw [descend, Except.ok.injEq, Spot.mk.injEq] at h
      exact ⟨here, h.1 ▸ hhere, by rw [Step.along, List.map_nil, settle]⟩
  | cons part parts ih =>
      rw [Step.along, List.map_cons]
      by_cases hempty : part = ""
      · subst hempty
        rw [settle, if_pos (.inl rfl)]
        exact ih hhere (descend_empty_eq_ok_iff.mp h).2
      have hfolder := isOpenAt_of_descend hempty h
      by_cases hdot : part = "."
      · subst hdot
        rw [descend_dot hfolder] at h
        rw [settle, if_pos (.inr rfl)]
        exact ih hhere h
      by_cases hup : part = ".."
      · subst hup
        rw [descend_up hfolder] at h
        rw [settle, if_neg (by decide), if_pos rfl]
        exact ih (hhere.up hfolder) h
      · obtain ⟨hlong, node, hchild⟩ := child?_of_descend hempty hdot hup h
        have hlink : ∀ target, node ≠ .link target := by
          rintro target rfl
          -- A link would leave fewer links to spare.
          obtain ⟨less, rfl, hnext⟩ := exists_descend_of_link hchild h
          have hless := links_le_of_descend hnext
          dsimp only at hless
          omega
        have hplace := IsPlace.child (hhere.place.isThere hfolder) hchild hlong hlink
        rw [settle_segment (isName_of_child? hchild) (hhere.linkTarget?_eq_none hfolder hchild hlink)]
        refine ih (hhere.child (isName_of_child? hchild) hplace) ?_
        exact descend_name_of_linkless hempty hdot hup (by simpa [hchild] using hlink) h

end Settle

/-! ### Look-ups along a way -/

/-- The segments on a way, without those that are skipped. -/
def Step.names : List Step → List String
  | [] => []
  | .segment s :: steps => if s = "" ∨ s = "." then names steps else s :: names steps
  | .arrive _ :: steps => names steps

theorem names_append (steps others : List Step) :
    Step.names (steps ++ others) = Step.names steps ++ Step.names others := by
  induction steps with
  | nil => rfl
  | cons step steps ih =>
      cases step with
      | arrive link => exact ih
      | segment s =>
          rw [List.cons_append, Step.names, Step.names, ih]
          split <;> rfl

theorem names_along (segments : List String) :
    Step.names (Step.along segments) = segments.filter fun s => s ≠ "" ∧ s ≠ "." := by
  induction segments with
  | nil => rfl
  | cons s segments ih =>
      rw [Step.along, List.map_cons, Step.names, ← Step.along, ih, List.filter_cons]
      by_cases hskip : s = "" ∨ s = "."
      · rw [if_pos hskip, if_neg (by simpa [← not_or] using hskip)]
      · rw [if_neg hskip, if_pos (by simpa [not_or] using hskip)]

/-- The target of a link is looked up as it is settled. A slash at its end only asks for a folder. -/
theorem filter_targetParts (target : String) :
    (targetParts target).filter (fun s => s ≠ "" ∧ s ≠ ".") =
      Step.names (Step.along (splitSlash target)) := by
  have hend : (if target.toList.getLast? = some '/' then [""] else []).filter
      (fun s => s ≠ "" ∧ s ≠ ".") = [] := by
    split <;> rfl
  rw [targetParts, List.filter_append, hend, List.append_nil, List.filter_filter, names_along]
  congr 1
  funext s
  simp only [Bool.decide_and, Bool.and_comm, Bool.and_self_left]

/-- A look-up goes along the way, and from its end along some more segments to the spot. -/
def Goes (t : FileTree) (steps : List Step) (links : Nat) (l : Location) (more : List String) (spot : Spot) :
    Prop :=
  ∃ parts, parts.filter (fun s => s ≠ "" ∧ s ≠ ".") = Step.names steps ∧
    t.descend links l (parts ++ more) = .ok spot

/-- What a way skips takes a look-up nowhere else. -/
theorem descend_of_skipped {skipped : List String} (hskipped : ∀ s ∈ skipped, s = "" ∨ s = ".")
    (h : t.descend links l (skipped ++ rest) = .ok spot) : t.descend links l rest = .ok spot := by
  induction skipped with
  | nil => exact h
  | cons s skipped ih =>
      obtain ⟨hs, hskipped⟩ := List.forall_mem_cons.mp hskipped
      refine ih hskipped ?_
      rcases hs with rfl | rfl
      · exact (descend_empty_eq_ok_iff.mp h).2
      · rwa [List.cons_append, descend_dot (isOpenAt_of_descend (by decide) h)] at h

namespace Goes

theorem of_nil (h : t.Goes [] links l more spot) : t.descend links l more = .ok spot := by
  obtain ⟨parts, hparts, hdescend⟩ := h
  have hskipped : ∀ s ∈ parts, s = "" ∨ s = "." := fun s hs => by
    have hnot := List.filter_eq_nil_iff.mp hparts s hs
    rw [decide_eq_true_eq] at hnot
    tauto
  exact descend_of_skipped hskipped hdescend

/-- Skipped segments, and ends of links, are nothing to a look-up. -/
theorem of_names_eq {others : List Step} (h : t.Goes steps links l more spot)
    (hnames : Step.names steps = Step.names others) : t.Goes others links l more spot := by
  obtain ⟨parts, hparts, hdescend⟩ := h
  exact ⟨parts, hparts.trans hnames, hdescend⟩

theorem exists_descend_cons (hskip : ¬ (s = "" ∨ s = "."))
    (h : t.Goes (.segment s :: steps) links l more spot) :
    ∃ parts, parts.filter (fun s => s ≠ "" ∧ s ≠ ".") = Step.names steps ∧
      t.descend links l (s :: (parts ++ more)) = .ok spot := by
  obtain ⟨parts, hparts, hdescend⟩ := h
  rw [Step.names, if_neg hskip] at hparts
  obtain ⟨skipped, after, rfl, hskipped, -, hafter⟩ := List.filter_eq_cons_iff.mp hparts
  have hskipped : ∀ s ∈ skipped, s = "" ∨ s = "." := fun s hs => by
    have hnot := hskipped s hs
    rw [decide_eq_true_eq] at hnot
    tauto
  rw [List.append_assoc] at hdescend
  exact ⟨after, hafter, descend_of_skipped hskipped hdescend⟩

theorem up (h : t.Goes (.segment ".." :: steps) links l more spot) :
    t.isOpenAt l = true ∧ t.Goes steps links l.dropLast more spot := by
  obtain ⟨parts, hparts, hdescend⟩ := h.exists_descend_cons (by decide)
  have hfolder := isOpenAt_of_descend (by decide) hdescend
  exact ⟨hfolder, parts, hparts, by rwa [descend_up hfolder] at hdescend⟩

theorem exists_child? (hskip : ¬ (s = "" ∨ s = ".")) (hup : s ≠ "..")
    (h : t.Goes (.segment s :: steps) links l more spot) :
    t.isOpenAt l = true ∧ s.utf8ByteSize ≤ maxNameBytes ∧ ∃ node, t.child? l s = some node := by
  obtain ⟨parts, -, hdescend⟩ := h.exists_descend_cons hskip
  have hempty : s ≠ "" := fun h => hskip (.inl h)
  have hdot : s ≠ "." := fun h => hskip (.inr h)
  exact ⟨isOpenAt_of_descend hempty hdescend, child?_of_descend hempty hdot hup hdescend⟩

theorem below {node : Node} (hchild : t.child? l s = some node) (hlink : ∀ target, node ≠ .link target)
    (h : t.Goes (.segment s :: steps) links l more spot) : t.Goes steps links (l ++ [s]) more spot := by
  obtain ⟨hempty, hdot, hup, -⟩ := isName_iff.mp (isName_of_child? hchild)
  obtain ⟨parts, hparts, hdescend⟩ := h.exists_descend_cons (by simp [hempty, hdot])
  exact ⟨parts, hparts, descend_name_of_linkless hempty hdot hup (by simpa [hchild] using hlink) hdescend⟩

theorem follow {target : String} (hchild : t.child? l s = some (.link target)) (link : Path)
    (h : t.Goes (.segment s :: steps) links l more spot) : ∃ less, links = less + 1 ∧
      t.Goes (Step.along (splitSlash target) ++ .arrive link :: steps) less (targetStart l target) more
        spot := by
  obtain ⟨hempty, hdot, -⟩ := isName_iff.mp (isName_of_child? hchild)
  obtain ⟨parts, hparts, hdescend⟩ := h.exists_descend_cons (by simp [hempty, hdot])
  obtain ⟨less, hless, hnext⟩ := exists_descend_of_link hchild hdescend
  refine ⟨less, hless, targetParts target ++ parts, ?_, by rwa [List.append_assoc]⟩
  rw [List.filter_append, filter_targetParts, hparts, names_append, Step.names]

end Goes

/-! ### What a link is known to lead to -/

/-- Whatever goes on from the link goes along the way from the other location as well, with fewer links to
spare. -/
def Leads (t : FileTree) (link : Path) (here : Location) (steps : List Step) : Prop :=
  ∀ above name links more spot, link = Path.ofLocation (above ++ [name]) →
    t.descend links above (name :: more) = .ok spot → ∃ less < links, t.Goes steps less here more spot

/-- A link that is met again on the way along its target leads nowhere. -/
theorem Leads.descend_ne_ok (h : t.Leads (Path.ofLocation (l ++ [s])) l (.segment s :: steps))
    (hskip : ¬ (s = "" ∨ s = ".")) : t.descend links l (s :: more) ≠ .ok spot := by
  induction links using Nat.strong_induction_on generalizing more with
  | _ links ih =>
      intro hdescend
      obtain ⟨less, hless, hgoes⟩ := h l s links more spot rfl hdescend
      obtain ⟨parts, -, hagain⟩ := hgoes.exists_descend_cons hskip
      exact ih less hless hagain

/-- Beyond a link. -/
theorem Leads.goes (h : t.Leads (Path.ofLocation (l ++ [s])) here []) (hskip : ¬ (s = "" ∨ s = "."))
    (hgoes : t.Goes (.segment s :: steps) links l more spot) :
    ∃ less < links, t.Goes steps less here more spot := by
  obtain ⟨parts, hparts, hdescend⟩ := hgoes.exists_descend_cons hskip
  obtain ⟨less, hless, hrest⟩ := h l s links (parts ++ more) spot rfl hdescend
  exact ⟨less, hless, parts, hparts, hrest.of_nil⟩

/-- What is remembered of the links is true, and those whose targets are being followed are on the way. -/
structure Sound (t : FileTree) (known : List (Path × Option Path)) (here : Location) (steps : List Step) :
    Prop where
  opened : ∀ before link after, steps = before ++ .arrive link :: after → t.Leads link here before
  pending : ∀ link, known.lookup link = some none → .arrive link ∈ steps
  resolved : ∀ link there, known.lookup link = some (some there) →
    ∃ l, there = Path.ofLocation l ∧ t.IsPlace l ∧ t.Leads link l []

namespace Sound

variable {known : List (Path × Option Path)} {next : Location}

theorem start (here : Location) (segments : List String) : t.Sound [] here (Step.along segments) where
  opened before link after hsplit := by
    have hmem : Step.arrive link ∈ Step.along segments := hsplit ▸ by simp
    simp [Step.along] at hmem
  pending link hlookup := by cases hlookup
  resolved link there hlookup := by cases hlookup

/-- Beyond a segment. -/
theorem segment (h : t.Sound known here (.segment s :: steps))
    (hstep : ∀ before links more spot, t.Goes (.segment s :: before) links here more spot →
      ∃ less ≤ links, t.Goes before less next more spot) : t.Sound known next steps where
  opened before link after hsplit above name links more spot hlink hdescend := by
    obtain ⟨less, hless, hgoes⟩ :=
      h.opened (.segment s :: before) link after (by rw [hsplit]; rfl) above name links more spot hlink hdescend
    obtain ⟨fewer, hfewer, hgoes⟩ := hstep before less more spot hgoes
    exact ⟨fewer, by omega, hgoes⟩
  pending link hlookup := by simpa using h.pending link hlookup
  resolved := h.resolved

/-- At the end of the target of a link. -/
theorem arrive (h : t.Sound known here (.arrive link :: steps)) (hplace : t.IsPlace here) :
    t.Sound ((link, some (Path.ofLocation here)) :: known) here steps where
  opened before other after hsplit above name links more spot hother hdescend := by
    obtain ⟨less, hless, hgoes⟩ :=
      h.opened (.arrive link :: before) other after (by rw [hsplit]; rfl) above name links more spot hother
        hdescend
    exact ⟨less, hless, hgoes.of_names_eq rfl⟩
  pending other hlookup := by
    rw [List.lookup_cons] at hlookup
    split at hlookup
    · cases hlookup
    next hne => simpa [beq_eq_false_iff_ne.mp hne] using h.pending other hlookup
  resolved other there hlookup := by
    rw [List.lookup_cons] at hlookup
    split at hlookup
    next heq =>
      obtain rfl := beq_iff_eq.mp heq
      cases hlookup
      exact ⟨here, rfl, hplace, h.opened [] other steps rfl⟩
    · exact h.resolved other there hlookup

/-- Where the target of a link ends, on a way that follows another target first. -/
theorem split_follow {segments : List String} {after : List Step}
    (h : Step.along segments ++ .arrive p :: steps = before ++ .arrive link :: after) :
    (before = Step.along segments ∧ p = link) ∨
      ∃ mid, before = Step.along segments ++ .arrive p :: mid ∧ steps = mid ++ .arrive link :: after := by
  rcases List.append_eq_append_iff.mp h with ⟨mid, hbefore, hmid⟩ | ⟨mid, hbefore, hmid⟩
  · cases mid with
    | nil => exact .inl ⟨by simpa using hbefore, by simpa using (List.cons_eq_cons.mp hmid).1⟩
    | cons first mid =>
        obtain ⟨rfl, hsteps⟩ := List.cons_eq_cons.mp hmid
        exact .inr ⟨mid, hbefore, hsteps⟩
  · cases mid with
    | nil => exact .inl ⟨by simpa using hbefore.symm, by simpa using (List.cons_eq_cons.mp hmid).1.symm⟩
    | cons first mid =>
        -- On the way along the target itself no other one ends.
        obtain ⟨rfl, -⟩ := List.cons_eq_cons.mp hmid
        have hmem : Step.arrive link ∈ Step.along segments := hbefore ▸ by simp
        simp [Step.along] at hmem

/-- Into the target of a link. -/
theorem follow {target : String} (h : t.Sound known here (.segment s :: steps))
    (hchild : t.child? here s = some (.link target)) :
    t.Sound ((Path.ofLocation (here ++ [s]), none) :: known) (targetStart here target)
      (Step.along (splitSlash target) ++ .arrive (Path.ofLocation (here ++ [s])) :: steps) where
  opened before link after hsplit above name links more spot hlink hdescend := by
    rcases split_follow hsplit with ⟨rfl, rfl⟩ | ⟨mid, rfl, hsteps⟩
    · -- The link itself: a look-up goes on along its target.
      obtain ⟨rfl, rfl⟩ : above = here ∧ name = s := by
        simpa [Path.ofLocation, eq_comm] using hlink
      obtain ⟨less, rfl, hnext⟩ := exists_descend_of_link hchild hdescend
      exact ⟨less, Nat.lt_succ_self less, targetParts target, filter_targetParts target, hnext⟩
    · obtain ⟨less, hless, hgoes⟩ :=
        h.opened (.segment s :: mid) link after (by rw [hsteps]; rfl) above name links more spot hlink hdescend
      obtain ⟨fewer, rfl, hnext⟩ := hgoes.follow hchild (Path.ofLocation (here ++ [s]))
      exact ⟨fewer, by omega, hnext⟩
  pending other hlookup := by
    rw [List.lookup_cons] at hlookup
    split at hlookup
    next heq => simp [beq_iff_eq.mp heq]
    · have hmem := h.pending other hlookup
      simp only [List.mem_cons, reduceCtorEq, false_or] at hmem
      simp [hmem]
  resolved other there hlookup := by
    rw [List.lookup_cons] at hlookup
    split at hlookup
    · cases hlookup
    · exact h.resolved other there hlookup

end Sound

/-! ### Ways with links -/

/-- Every link is at a path that can be looked up. -/
def HasShortLinks (t : FileTree) : Prop := ∀ l name target, t.IsThere l →
  t.child? l name = some (.link target) → (Path.ofLocation (l ++ [name])).byteLength < maxPathBytes

theorem up_ofLocation (h : ".." ∉ l) : (Path.ofLocation l).up = Path.ofLocation l.dropLast := by
  rcases List.eq_nil_or_concat l with rfl | ⟨above, last, rfl⟩
  · rfl
  · rw [List.concat_eq_append] at h ⊢
    have hlast : last ≠ ".." := by
      rintro rfl
      simp at h
    rw [Path.ofLocation, up_concat hlast, List.dropLast_concat, Path.ofLocation]

theorem startOf_ofLocation (l : Location) (target : String) :
    startOf (Path.ofLocation l) (target.toList.head? = some '/') = Path.ofLocation (targetStart l target) := by
  unfold startOf targetStart
  split
  next h => rw [if_pos (of_decide_eq_true h)]; rfl
  next h => rw [if_neg (by simpa using h)]

theorem linkTarget?_ofLocation {target : String} (hshort : t.HasShortLinks) (hplace : t.IsPlace l)
    (hfolder : t.isOpenAt l = true) (cwd : Location) :
    t.linkTarget? cwd ((Path.ofLocation l).child s) = some target ↔ t.child? l s = some (.link target) := by
  rw [(IsAt.ofLocation hplace cwd).linkTarget?_eq_some_iff hfolder]
  exact and_iff_right_of_imp (hshort l s target (hplace.isThere hfolder))

theorem openLinks_along (segments : List String) : openLinks (Step.along segments) = 0 := by
  simp [openLinks, Step.along, List.countP_eq_zero]

theorem openLinks_arrive (link : Path) (steps : List Step) :
    openLinks (.arrive link :: steps) = openLinks steps + 1 :=
  List.countP_cons_of_pos rfl

theorem openLinks_follow (segments : List String) (link : Path) (steps : List Step) :
    openLinks (Step.along segments ++ .arrive link :: steps) = openLinks steps + 1 := by
  rw [openLinks, List.countP_append, ← openLinks, ← openLinks, openLinks_along, openLinks_arrive,
    Nat.zero_add]

/-- The settling of a path goes along with a look-up that has come to the location, with some links to spare,
and will end at the spot. The links to spare bound those that are still met, and how far they are nested. -/
structure Accompanies (t : FileTree) (unmet : Nat) (known : List (Path × Option Path)) (l : Location)
    (links : Nat) (steps : List Step) (spot : Spot) : Prop where
  place : t.IsPlace l
  sound : t.Sound known l steps
  unmet_le : t.nodes = [] ∨ links ≤ unmet
  open_le : openLinks steps + links ≤ maxLinks
  goes : t.Goes steps links l [] spot

namespace Accompanies

variable {unmet : Nat} {known : List (Path × Option Path)} {target : String}

theorem arrive (h : t.Accompanies unmet known l links (.arrive link :: steps) spot) :
    t.Accompanies unmet ((link, some (Path.ofLocation l)) :: known) l links steps spot where
  place := h.place
  sound := h.sound.arrive h.place
  unmet_le := h.unmet_le
  open_le := by
    have hopen := h.open_le
    rw [openLinks_arrive] at hopen
    omega
  goes := h.goes.of_names_eq rfl

theorem skip (hskip : s = "" ∨ s = ".") (h : t.Accompanies unmet known l links (.segment s :: steps) spot) :
    t.Accompanies unmet known l links steps spot := by
  have hnames : ∀ before, Step.names (.segment s :: before) = Step.names before := fun before => by
    rw [Step.names, if_pos hskip]
  have hsound : t.Sound known l steps := h.sound.segment fun before links _ _ hgoes =>
    ⟨links, le_rfl, hgoes.of_names_eq (hnames before)⟩
  exact ⟨h.place, hsound, h.unmet_le, h.open_le, h.goes.of_names_eq (hnames steps)⟩

theorem up (h : t.Accompanies unmet known l links (.segment ".." :: steps) spot) :
    (Path.ofLocation l).up = Path.ofLocation l.dropLast ∧
      t.Accompanies unmet known l.dropLast links steps spot := by
  obtain ⟨hfolder, hgoes⟩ := h.goes.up
  have hsound : t.Sound known l.dropLast steps := h.sound.segment fun before links _ _ hgoes =>
    ⟨links, le_rfl, hgoes.up.2⟩
  exact ⟨up_ofLocation (h.place.isThere hfolder).not_mem_up, h.place.dropLast hfolder, hsound, h.unmet_le,
    h.open_le, hgoes⟩

variable (h : t.Accompanies unmet known l links (.segment s :: steps) spot) (hskip : ¬ (s = "" ∨ s = "."))
  (hup : s ≠ "..")
include h hskip hup

theorem isName : isName s = true := by
  obtain ⟨-, -, node, hchild⟩ := h.goes.exists_child? hskip hup
  exact isName_of_child? hchild

theorem below (hshort : t.HasShortLinks) (hlink : t.linkTarget? cwd ((Path.ofLocation l).child s) = none) :
    t.Accompanies unmet known (l ++ [s]) links steps spot := by
  obtain ⟨hfolder, hlong, node, hchild⟩ := h.goes.exists_child? hskip hup
  have hnode : ∀ target, node ≠ .link target := by
    rintro target rfl
    have hsome := (linkTarget?_ofLocation hshort h.place hfolder cwd).mpr hchild
    cases hlink.symm.trans hsome
  have hsound : t.Sound known (l ++ [s]) steps := h.sound.segment fun before links _ _ hgoes =>
    ⟨links, le_rfl, hgoes.below hchild hnode⟩
  exact ⟨.child (h.place.isThere hfolder) hchild hlong hnode, hsound, h.unmet_le, h.open_le,
    h.goes.below hchild hnode⟩

omit hup in
/-- At a link that was followed before, the settling goes on from where that has led. -/
theorem shortcut {there : Path} (hthere : known.lookup ((Path.ofLocation l).child s) = some (some there)) :
    ∃ place less, there = Path.ofLocation place ∧ t.Accompanies unmet known place less steps spot := by
  obtain ⟨place, rfl, hplace, hleads⟩ := h.sound.resolved _ there hthere
  obtain ⟨less, hless, hgoes⟩ := hleads.goes hskip h.goes
  refine ⟨place, less, rfl, hplace, h.sound.segment fun before links more spot hgoes => ?_,
    h.unmet_le.imp_right fun hle => by omega, ?_, hgoes⟩
  · obtain ⟨less, hless, hgoes⟩ := hleads.goes hskip hgoes
    exact ⟨less, hless.le, hgoes⟩
  · have hopen : openLinks steps + links ≤ maxLinks := h.open_le
    omega

omit hup in
/-- No link is met while its own target is being followed. -/
theorem lookup_ne_pending : known.lookup ((Path.ofLocation l).child s) ≠ some none := by
  intro hpending
  have hmem : Step.arrive ((Path.ofLocation l).child s) ∈ steps := by simpa using h.sound.pending _ hpending
  obtain ⟨before, after, rfl⟩ := List.append_of_mem hmem
  obtain ⟨parts, -, hdescend⟩ := h.goes.exists_descend_cons hskip
  exact (h.sound.opened (.segment s :: before) _ after rfl).descend_ne_ok hskip hdescend

/-- At a link that was not met before, the settling goes on along its target. -/
theorem follow (hshort : t.HasShortLinks)
    (hlink : t.linkTarget? cwd ((Path.ofLocation l).child s) = some target) :
    ∃ fewer less, unmet = fewer + 1 ∧ openLinks steps < maxNesting ∧
      t.Accompanies fewer (((Path.ofLocation l).child s, none) :: known) (targetStart l target) less
        (Step.along (splitSlash target) ++ .arrive ((Path.ofLocation l).child s) :: steps) spot := by
  have hname := h.isName hskip hup
  obtain ⟨hfolder, -⟩ := h.goes.exists_child? hskip hup
  have hchild := (linkTarget?_ofLocation hshort h.place hfolder cwd).mp hlink
  obtain ⟨less, rfl, hgoes⟩ := h.goes.follow hchild ((Path.ofLocation l).child s)
  have hunmet : less + 1 ≤ unmet := by
    refine h.unmet_le.resolve_left fun hnodes => ?_
    rw [child?, if_pos hname, node?, if_neg (by simp), hnodes] at hchild
    cases hchild
  have hopen : openLinks steps + (less + 1) ≤ maxLinks := h.open_le
  have hcount := openLinks_follow (splitSlash target) ((Path.ofLocation l).child s) steps
  have hnesting : maxLinks < maxNesting := by decide
  exact ⟨unmet - 1, less, by omega, by omega, isPlace_targetStart h.place target, h.sound.follow hchild,
    .inr (by omega), by omega, hgoes⟩

end Accompanies

/-- **Where a look-up ends**, settling the path ends as well. -/
theorem settle_of_accompanies {unmet : Nat} {known : List (Path × Option Path)} {here : Path}
    (cwd : Location) (hshort : t.HasShortLinks)
    (h : ∃ l links, here = Path.ofLocation l ∧ t.Accompanies unmet known l links steps spot) :
    t.IsPlace spot.location ∧ t.settle cwd unmet known here steps = .ok (Path.ofLocation spot.location) := by
  fun_induction settle t cwd unmet known here steps with
  | case1 =>
      obtain ⟨l, links, rfl, h⟩ := h
      have hend := h.goes.of_nil
      rw [descend, Except.ok.injEq] at hend
      subst hend
      exact ⟨h.place, rfl⟩
  | case2 unmet known here link steps ih =>
      obtain ⟨l, links, rfl, h⟩ := h
      exact ih ⟨l, links, rfl, h.arrive⟩
  | case3 unmet known here s steps hskip ih =>
      obtain ⟨l, links, rfl, h⟩ := h
      exact ih ⟨l, links, rfl, h.skip hskip⟩
  | case4 unmet known here steps hskip ih =>
      obtain ⟨l, links, rfl, h⟩ := h
      obtain ⟨hplace, hnext⟩ := h.up
      exact ih ⟨l.dropLast, links, hplace, hnext⟩
  | case5 unmet known here s steps hskip hup hnul =>
      obtain ⟨l, links, rfl, h⟩ := h
      obtain ⟨-, -, -, -, hnot⟩ := isName_iff.mp (h.isName hskip hup)
      exact absurd hnul (by simpa using hnot)
  | case6 unmet known here s steps hskip hup hnul next hlink ih =>
      obtain ⟨l, links, rfl, h⟩ := h
      exact ih ⟨l ++ [s], links, rfl, h.below hskip hup hshort hlink⟩
  | case7 unmet known here s steps hskip hup hnul next target hlink there hthere ih =>
      obtain ⟨l, links, rfl, h⟩ := h
      exact ih (h.shortcut hskip hthere)
  | case8 unmet known here s steps hskip hup hnul next target hlink hthere =>
      obtain ⟨l, links, rfl, h⟩ := h
      exact absurd hthere (h.lookup_ne_pending hskip)
  | case9 known here s steps hskip hup hnul next target hlink hthere =>
      obtain ⟨l, links, rfl, h⟩ := h
      obtain ⟨fewer, -, hunmet, -⟩ := h.follow hskip hup hshort hlink
      cases hunmet
  | case10 known here s steps hskip hup hnul next target hlink hthere unmet hdeep =>
      obtain ⟨l, links, rfl, h⟩ := h
      obtain ⟨-, -, -, hopen, -⟩ := h.follow hskip hup hshort hlink
      omega
  | case11 known here s steps hskip hup hnul next target hlink hthere unmet hdeep ih =>
      obtain ⟨l, links, rfl, h⟩ := h
      obtain ⟨fewer, less, hunmet, -, hnext⟩ := h.follow hskip hup hshort hlink
      cases hunmet
      exact ih ⟨targetStart l target, less, startOf_ofLocation l target, hnext⟩

/-! ### Real paths -/

/-- Where the settling of a path starts. -/
theorem isAt_start (hstart : t.IsThere (start cwd p)) :
    t.IsAt cwd (startOf ⟨.relative, []⟩ (p.anchor ≠ .relative)) (start cwd p) := by
  by_cases hrelative : p.anchor = .relative
  · have hcwd : start cwd p = cwd := if_pos hrelative
    rw [hcwd] at hstart ⊢
    have hgone : Location.isGone cwd = false := by
      rw [Location.isGone, List.contains_eq_mem, decide_eq_false_iff_not]
      exact fun hmem => absurd (hstart.isName_of_mem hmem) (by decide)
    have hfirst : startOf ⟨.relative, []⟩ (p.anchor ≠ .relative) = ⟨.relative, []⟩ := by
      simp [startOf, hrelative]
    rw [hfirst]
    have hway : t.descend maxLinks (start cwd ⟨.relative, []⟩) [] = .ok ⟨cwd, maxLinks⟩ := by
      rw [descend]
      rfl
    exact ⟨List.reverse_reverse cwd, by simp [Proper], hstart.isPlace, hway, fun _ => hgone⟩
  · have hroot : start cwd p = [] := if_neg hrelative
    have hfirst : startOf ⟨.relative, []⟩ (p.anchor ≠ .relative) = Path.ofLocation [] := by
      simp [startOf, hrelative, Path.ofLocation]
    rw [hroot, hfirst]
    exact .ofLocation .root cwd

/-- The real place of a path that was settled where something is. -/
theorem realPath_of_isAt {there : Path} (hthere : t.settled cwd p = .ok there) (h : t.IsAt cwd there l) :
    t.realPath cwd p = .ok l := by
  have habsolute : absolute cwd there = .ok (there.absolute cwd) :=
    if_neg (by simpa using h.notGone)
  rw [realPath, hthere, ok_bind, habsolute, ok_bind]
  dsimp only
  rw [h.parts_eq]
  have hnul : (Path.ofLocation l).hasNul = false := h.place.hasNul .root
  by_cases hlong : maxPathBytes ≤ (Path.ofLocation l).byteLength
  · have hfind : t.find [] (Path.ofLocation l) = .error .tooLong := by
      rw [find, hnul, if_neg Bool.false_ne_true, if_pos hlong]
    rw [hfind]
  · have hfind : t.find [] (Path.ofLocation l) = .ok ⟨l, maxLinks⟩ :=
      find_eq_ok_iff.mpr ⟨hnul, by omega, fun _ => rfl, h.place.descend maxLinks⟩
    rw [hfind]

/-- **The real place of a path is where a look-up of it ends**, if that meets no link, or the path starts at the
root and every link is at a path that can be looked up. -/
theorem realPath_of_descend (hstart : t.IsThere (start cwd p))
    (h : t.descend maxLinks (start cwd p) p.parts = .ok spot)
    (hlinks : spot.links = maxLinks ∨ p.anchor ≠ .relative ∧ t.HasShortLinks) :
    t.realPath cwd p = .ok spot.location := by
  rcases hlinks with hlinks | ⟨hrooted, hshort⟩
  · obtain ⟨there, hthere, hsettled⟩ :=
      settle_of_linkless (isAt_start hstart) (h.trans (by rw [← hlinks])) t.maxLinkPaths []
    exact realPath_of_isAt hsettled hthere
  · have hroot : start cwd p = [] := if_neg hrooted
    have hfirst : startOf ⟨.relative, []⟩ (p.anchor ≠ .relative) = Path.ofLocation [] := by
      simp [startOf, hrooted, Path.ofLocation]
    rw [hroot] at h
    have hmeet : t.nodes = [] ∨ maxLinks ≤ t.maxLinkPaths := by
      cases hnodes : t.nodes with
      | nil => exact .inl rfl
      | cons node nodes =>
          rw [maxLinkPaths, hnodes, List.length_cons, Nat.succ_mul]
          exact .inr (Nat.le_add_left_of_le (by decide))
    have halong : t.Accompanies t.maxLinkPaths [] [] maxLinks (Step.along p.parts) spot :=
      ⟨.root, .start [] p.parts, hmeet, by rw [openLinks_along, Nat.zero_add], p.parts, (names_along _).symm,
        by rwa [List.append_nil]⟩
    obtain ⟨hplace, hsettled⟩ := settle_of_accompanies cwd hshort ⟨[], maxLinks, rfl, halong⟩
    rw [← hfirst] at hsettled
    exact realPath_of_isAt hsettled (.ofLocation hplace cwd)

example : (FileTree.mk [(["d"], .folder), (["l"], .link "d/../d")] []).realPath [] ⟨.root, ["l"]⟩ =
    .ok ["d"] := by
  cbv

/-- **A folder that is there** is in its own place. -/
theorem realPath_of_isThere (h : t.IsThere l) : t.realPath cwd ⟨.root, l⟩ = .ok l :=
  realPath_of_descend (p := ⟨.root, l⟩) (.nil t) (h.isPlace.descend maxLinks) (.inl rfl)

end AntResources.FileTree
