import Mathlib.Data.List.Induction
import AntResources.FileTree.Edit
import AntResources.Proofs.Climbs

/-!
# AntResources.Proofs.FolderMaking

**Making the folders on the way to a place.** Going down some segments, each folder that is missing can be
made where its name is free (`FileTree.Opens`). What is reached before a change is still reached after it, as
long as the way does not lead through the place that is changed (`FileTree.descend_put`). So the folders above
a path can be made from the bottom up, as deep as the nesting allows, and nothing but these folders is new
then (`FileTree.makeFolders_of_opens`, `FileTree.Opens.changes`).
-/

namespace AntResources

open Text

namespace FileTree

variable {t u : FileTree} {cwd : Location}

/-! ### A change at one location -/

theorem lookup_filter_ne {nodes : List (Location × Node)} {l other : Location} (h : other ≠ l) :
    (nodes.filter fun entry => entry.1 ≠ l).lookup other = nodes.lookup other := by
  induction nodes with
  | nil => rfl
  | cons entry nodes ih =>
      obtain ⟨place, node⟩ := entry
      by_cases hplace : place = l
      · subst hplace
        rw [List.filter_cons_of_neg (by simp), ih, List.lookup_cons, beq_false_of_ne h]
      · rw [List.filter_cons_of_pos (by simpa using hplace), List.lookup_cons, List.lookup_cons, ih]

section Put

variable {l : Location} {node : Node}

theorem node?_put_self (hl : l ≠ []) : (t.put l node).node? l = some node := by
  rw [node?, if_neg hl, put, List.lookup_cons_self]

theorem node?_put_of_ne {other : Location} (h : other ≠ l) : (t.put l node).node? other = t.node? other := by
  rw [node?, node?, put, List.lookup_cons, beq_false_of_ne h, lookup_filter_ne h]

theorem isOpenAt_put_of_ne {other : Location} (h : other ≠ l) :
    (t.put l node).isOpenAt other = t.isOpenAt other := by
  rw [isOpenAt, isOpenAt, node?_put_of_ne h]

theorem child?_put_of_ne {here : Location} {name : String} (h : here ++ [name] ≠ l) :
    (t.put l node).child? here name = t.child? here name := by
  rw [child?, child?, node?_put_of_ne h]

end Put

/-! ### Links on the way -/

theorem links_le_of_descend {links : Nat} {here : Location} {parts : List String} {spot : Spot}
    (h : t.descend links here parts = .ok spot) : spot.links ≤ links := by
  fun_induction descend t links here parts with
  | case1 => rw [← Except.ok.inj h]
  | case3 | case6 | case7 | case8 => cases h
  | case2 links here part rest _ ih => exact ih h
  | case4 links here rest _ _ ih | case5 links here rest _ _ _ ih => exact ih h
  | case9 here part rest _ _ _ _ _ target _ links ih => exact Nat.le_succ_of_le (ih h)
  | case10 links here part rest _ _ _ _ _ node _ _ ih => exact ih h

/-- With more links to spare a way leads to the same place, unless it had not enough of them. -/
theorem descend_add_links {links : Nat} {here : Location} {parts : List String} (extra : Nat)
    (h : t.descend links here parts ≠ .error .linkLoop) :
    t.descend (links + extra) here parts =
      (fun spot => ⟨spot.location, spot.links + extra⟩) <$> t.descend links here parts := by
  fun_induction descend t links here parts with
  | case1 => rw [descend]; rfl
  | case2 links here part rest hempty ih => rw [descend, if_pos hempty, ih h]
  | case3 links here part rest hempty hfolder => rw [descend, if_neg hempty, if_pos hfolder]; rfl
  | case4 links here rest hfolder hempty ih => rw [descend, if_neg hempty, if_neg hfolder, if_pos rfl, ih h]
  | case5 links here rest hfolder hempty hdot ih =>
      rw [descend, if_neg hempty, if_neg hfolder, if_neg hdot, if_pos rfl, ih h]
  | case6 links here part rest hempty hfolder hdot hup hlong =>
      rw [descend, if_neg hempty, if_neg hfolder, if_neg hdot, if_neg hup, if_pos hlong]
      rfl
  | case7 links here part rest hempty hfolder hdot hup hlong hchild =>
      rw [descend, if_neg hempty, if_neg hfolder, if_neg hdot, if_neg hup, if_neg hlong, hchild]
      rfl
  | case8 => exact absurd rfl h
  | case9 here part rest hempty hfolder hdot hup hlong target hchild links ih =>
      rw [Nat.succ_add, descend, if_neg hempty, if_neg hfolder, if_neg hdot, if_neg hup, if_neg hlong, hchild]
      exact ih h
  | case10 links here part rest hempty hfolder hdot hup hlong node hlink hchild ih =>
      rw [descend, if_neg hempty, if_neg hfolder, if_neg hdot, if_neg hup, if_neg hlong, hchild]
      cases node with
      | link target => exact absurd rfl (hlink target)
      | folder | lockedFolder | file content | nullDevice => exact ih h

/-- **A way past a change.** A way to a folder is not changed by what is put at a location, if that leads to
no folder, with as many links as are left at the end of the way, or more. -/
theorem descend_put {links : Nat} {here above : Location} {name : String} {parts : List String} {spot : Spot}
    (node : Node) (h : t.descend links here parts = .ok spot)
    (hspot : t.isOpenAt spot.location = true)
    (hnot : ∀ more mid, spot.links ≤ more → t.descend more above [name] = .ok mid →
      t.isOpenAt mid.location = false)
    (hfolder : t.isOpenAt (above ++ [name]) = false) :
    (t.put (above ++ [name]) node).descend links here parts = .ok spot := by
  have hkeep : ∀ {other : Location}, t.isOpenAt other = true →
      (t.put (above ++ [name]) node).isOpenAt other = true := by
    intro other hother
    rw [isOpenAt_put_of_ne (fun heq => by rw [heq, hfolder] at hother; cases hother), hother]
  -- A way that comes to the location could only go on, or end, in a folder there.
  have hpast : ∀ {links here part rest}, t.descend links here (part :: rest) = .ok spot →
      here ++ [part] ≠ above ++ [name] := by
    intro links here part rest h heq
    obtain ⟨rfl, rfl⟩ := List.append_singleton_inj.mp heq
    rw [← List.singleton_append, descend_append] at h
    obtain ⟨mid, hmid, hrest⟩ := bind_eq_ok_iff.mp h
    have hmore : spot.links ≤ links := (links_le_of_descend hrest).trans (links_le_of_descend hmid)
    have hopen := isOpenAt_of_descend_of_isOpenAt hrest hspot
    rw [hnot links mid hmore hmid] at hopen
    cases hopen
  fun_induction descend t links here parts with
  | case1 => rw [descend, ← Except.ok.inj h]
  | case3 | case6 | case7 | case8 => cases h
  | case2 links here part rest hempty ih =>
      have hhere := hkeep (isOpenAt_of_descend_of_isOpenAt h hspot)
      rw [descend, if_pos ⟨hempty.1, isFolderAt_of_isOpenAt hhere⟩]
      exact ih h
  | case4 links here rest hhere hempty ih =>
      have hopen : t.isOpenAt here = true := by simpa using hhere
      rw [descend_dot (hkeep hopen)]
      exact ih h
  | case5 links here rest hhere hempty hdot ih =>
      have hopen : t.isOpenAt here = true := by simpa using hhere
      rw [descend, if_neg (by simp), hkeep hopen, if_neg (by decide), if_neg hdot, if_pos rfl]
      exact ih h
  | case9 here part rest hempty hhere hdot hup hlong target hchild links ih =>
      have hway : t.descend (links + 1) here (part :: rest) = .ok spot := by
        rw [descend_of_child_eq_link links rest (by simpa using hhere) (by omega) hchild]
        exact h
      have hne := hpast hway
      rw [descend_of_child_eq_link links rest (hkeep (by simpa using hhere)) (by omega)
        ((child?_put_of_ne hne).trans hchild)]
      exact ih h
  | case10 links here part rest hempty hhere hdot hup hlong node' hlink hchild ih =>
      have hway : t.descend links here (part :: rest) = .ok spot := by
        rw [descend_of_child_eq_some links rest (by simpa using hhere) (by omega) hchild hlink]
        exact h
      have hne := hpast hway
      rw [descend_of_child_eq_some links rest (hkeep (by simpa using hhere)) (by omega)
        ((child?_put_of_ne hne).trans hchild) hlink]
      exact ih h

/-! ### Ways with missing folders -/

/-- **Going down with missing folders made.** The segments lead from a spot to a folder in the tree
afterwards. Each leads to a folder that is there, or the folder is made, if nothing has its name. In a folder
that has been removed there is nothing, and nothing can be made. -/
inductive Opens : FileTree → Spot → List String → FileTree → Spot → Prop where
  | done {t : FileTree} {spot : Spot} : Opens t spot [] t spot
  | there {t u : FileTree} {spot next last : Spot} {part : String} {rest : List String} :
      part = ".." ∨ Location.isGone spot.location = false →
      t.descend spot.links spot.location [part] = .ok next → t.isOpenAt next.location = true →
      Opens t next rest u last → Opens t spot (part :: rest) u last
  | made {t u : FileTree} {spot last : Spot} {name : String} {rest : List String} :
      Location.isGone spot.location = false → t.child? spot.location name = none →
      isName name = true → name.utf8ByteSize ≤ maxNameBytes →
      Opens (t.put (spot.location ++ [name]) .folder) ⟨spot.location ++ [name], spot.links⟩ rest u last →
      Opens t spot (name :: rest) u last

section Free

variable {here : Location} {name : String}

theorem node?_of_child_eq_none (hname : isName name = true) (h : t.child? here name = none) :
    t.node? (here ++ [name]) = none := by
  rwa [child?, if_pos hname] at h

theorem descend_of_free (hfolder : t.isOpenAt here = true) (hname : isName name = true)
    (hlong : name.utf8ByteSize ≤ maxNameBytes) (h : t.child? here name = none) (links : Nat)
    (rest : List String) : t.descend links here (name :: rest) = .error .absent := by
  obtain ⟨hempty, hdot, hup, -⟩ := isName_iff.mp hname
  exact descend_of_child_eq_none links rest hfolder hempty hdot hup hlong h

/-- Where a name is free, a folder can be made without a change to the ways that are there. -/
theorem descend_put_of_free (hfolder : t.isOpenAt here = true) (hname : isName name = true)
    (hlong : name.utf8ByteSize ≤ maxNameBytes) (hfree : t.child? here name = none) {links : Nat}
    {above : Location} {parts : List String} {spot : Spot} (h : t.descend links above parts = .ok spot)
    (hspot : t.isOpenAt spot.location = true) (node : Node) :
    (t.put (here ++ [name]) node).descend links above parts = .ok spot := by
  refine descend_put node h hspot (fun more mid _ hmid => ?_) ?_
  · rw [descend_of_free hfolder hname hlong hfree] at hmid
    cases hmid
  · rw [isOpenAt, node?_of_child_eq_none hname hfree]

theorem isOpenAt_put_of_free (hname : isName name = true) (hfree : t.child? here name = none)
    {other : Location} (h : t.isOpenAt other = true) (node : Node) :
    (t.put (here ++ [name]) node).isOpenAt other = true := by
  rw [isOpenAt_put_of_ne fun heq => ?_, h]
  rw [isOpenAt, heq, node?_of_child_eq_none hname hfree] at h
  cases h

theorem isOpenAt_put_folder (here : Location) (name : String) :
    (t.put (here ++ [name]) .folder).isOpenAt (here ++ [name]) = true := by
  rw [isOpenAt, node?_put_self (by simp)]

/-- The folder that was made is reached at once. -/
theorem descend_put_folder (hfolder : t.isOpenAt here = true) (hname : isName name = true)
    (hlong : name.utf8ByteSize ≤ maxNameBytes) (hfree : t.child? here name = none) (links : Nat) :
    (t.put (here ++ [name]) .folder).descend links here [name] = .ok ⟨here ++ [name], links⟩ := by
  have hchild : (t.put (here ++ [name]) .folder).child? here name = some .folder := by
    rw [child?, if_pos hname, node?_put_self (by simp)]
  rw [descend_of_child_eq_some links [] (isOpenAt_put_of_free hname hfree hfolder _) hlong hchild
    (by simp), descend]

end Free

namespace Opens

variable {spot last : Spot} {parts : List String}

theorem append_iff {above below : List String} : Opens t spot (above ++ below) u last ↔
    ∃ v mid, Opens t spot above v mid ∧ Opens v mid below u last := by
  constructor
  · intro h
    induction above generalizing t spot with
    | nil => exact ⟨t, spot, .done, h⟩
    | cons part above ih =>
        cases h with
        | there hgone hnext hfolder hrest =>
            obtain ⟨v, mid, habove, hbelow⟩ := ih hrest
            exact ⟨v, mid, .there hgone hnext hfolder habove, hbelow⟩
        | made hgone hfree hname hlong hrest =>
            obtain ⟨v, mid, habove, hbelow⟩ := ih hrest
            exact ⟨v, mid, .made hgone hfree hname hlong habove, hbelow⟩
  · rintro ⟨v, mid, habove, hbelow⟩
    induction habove with
    | done => exact hbelow
    | there hgone hnext hfolder _ ih => exact .there hgone hnext hfolder (ih hbelow)
    | made hgone hfree hname hlong _ ih => exact .made hgone hfree hname hlong (ih hbelow)

/-- It ends at a folder, and all folders that were reached before are still reached. -/
theorem keeps (h : Opens t spot parts u last) (hspot : t.isOpenAt spot.location = true) :
    u.isOpenAt last.location = true ∧
      (∀ other, t.isOpenAt other = true → u.isOpenAt other = true) ∧
      ∀ links here parts sub, t.descend links here parts = .ok sub →
        t.isOpenAt sub.location = true → u.descend links here parts = .ok sub := by
  induction h with
  | done => exact ⟨hspot, fun _ h => h, fun _ _ _ _ h _ => h⟩
  | there _ _ hfolder _ ih => exact ih hfolder
  | @made t u spot last name rest _ hfree hname hlong _ ih =>
      obtain ⟨hlast, hfolders, hways⟩ := ih (isOpenAt_put_folder spot.location name)
      refine ⟨hlast, fun other hother => hfolders other (isOpenAt_put_of_free hname hfree hother _),
        fun links here parts sub hdescend hsub => ?_⟩
      exact hways links here parts sub (descend_put_of_free hspot hname hlong hfree hdescend hsub _)
        (isOpenAt_put_of_free hname hfree hsub _)

/-- Afterwards the segments lead to the folder. -/
theorem descend_eq (h : Opens t spot parts u last) (hspot : t.isOpenAt spot.location = true) :
    u.descend spot.links spot.location parts = .ok last := by
  induction h with
  | done => rw [descend]
  | @there t u spot next last part rest _ hnext hfolder hrest ih =>
      obtain ⟨-, -, hways⟩ := hrest.keeps hfolder
      rw [← List.singleton_append, descend_append, hways _ _ _ _ hnext hfolder, ok_bind]
      exact ih hfolder
  | @made t u spot last name rest _ hfree hname hlong hrest ih =>
      have hmade := isOpenAt_put_folder (t := t) spot.location name
      obtain ⟨-, -, hways⟩ := hrest.keeps hmade
      rw [← List.singleton_append, descend_append,
        hways _ _ _ _ (descend_put_folder hspot hname hlong hfree spot.links) hmade, ok_bind]
      exact ih hmade

/-- Before, they lead there as well, and nothing is new, or they lead to nothing. -/
theorem before (h : Opens t spot parts u last) (hspot : t.isOpenAt spot.location = true) :
    u = t ∧ t.descend spot.links spot.location parts = .ok last ∨
      t.descend spot.links spot.location parts = .error .absent := by
  induction h with
  | done => exact .inl ⟨rfl, by rw [descend]⟩
  | @there t u spot next last part rest _ hnext hfolder _ ih =>
      rw [← List.singleton_append, descend_append, hnext, ok_bind]
      exact ih hfolder
  | made _ hfree hname hlong _ _ => exact .inr (descend_of_free hspot hname hlong hfree _ _)

/-- **Only the folders on the way are new.** -/
theorem changes (h : Opens t spot parts u last) (hspot : t.isOpenAt spot.location = true) :
    u.unlistable = t.unlistable ∧ ∀ l, u.node? l = t.node? l ∨
      t.node? l = none ∧ u.node? l = some .folder ∧ ∃ above below links, parts = above ++ below ∧
        u.descend spot.links spot.location above = .ok ⟨l, links⟩ := by
  induction h with
  | done => exact ⟨rfl, fun _ => .inl rfl⟩
  | @there t u spot next last part rest _ hnext hfolder hrest ih =>
      obtain ⟨-, -, hways⟩ := hrest.keeps hfolder
      obtain ⟨hunlistable, hnodes⟩ := ih hfolder
      refine ⟨hunlistable, fun l => ?_⟩
      rcases hnodes l with hsame | ⟨hnone, hnew, above, below, links, rfl, habove⟩
      · exact .inl hsame
      · refine .inr ⟨hnone, hnew, part :: above, below, links, rfl, ?_⟩
        rw [← List.singleton_append, descend_append, hways _ _ _ _ hnext hfolder, ok_bind, habove]
  | @made t u spot last name rest _ hfree hname hlong hrest ih =>
      have hmade := isOpenAt_put_folder (t := t) spot.location name
      obtain ⟨-, hfolders, hways⟩ := hrest.keeps hmade
      obtain ⟨hunlistable, hnodes⟩ := ih hmade
      have hfirst : u.descend spot.links spot.location [name] =
          .ok ⟨spot.location ++ [name], spot.links⟩ :=
        hways _ _ _ _ (descend_put_folder hspot hname hlong hfree spot.links) hmade
      refine ⟨hunlistable, fun l => ?_⟩
      by_cases hl : l = spot.location ++ [name]
      · obtain rfl := hl
        have hnew := hfolders _ hmade
        refine .inr ⟨node?_of_child_eq_none hname hfree, ?_, [name], rest, spot.links, rfl, hfirst⟩
        exact node?_of_isOpenAt hnew
      · have hnode := hnodes l
        rw [node?_put_of_ne hl] at hnode
        rcases hnode with hsame | ⟨hnone, hnew, above, below, links, rfl, habove⟩
        · exact .inl hsame
        · refine .inr ⟨hnone, hnew, name :: above, below, links, rfl, ?_⟩
          rw [← List.singleton_append, descend_append, hfirst, ok_bind, habove]

end Opens

/-! ### Making folders -/

section Make

variable {anchor : Anchor} {parts : List String}

/-- A path that is short enough and without a NUL leads where its segments do. -/
theorem find_eq_descend {p : Path} (hnul : p.hasNul = false) (hbytes : p.byteLength < maxPathBytes)
    (hstart : p.parts = [] → t.isOpenAt (start cwd p) = true) :
    t.find cwd p = t.descend maxLinks (start cwd p) p.parts := by
  rw [find, hnul, if_neg Bool.false_ne_true, if_neg (by omega)]
  by_cases hparts : p.parts = []
  · exact descend_along (hstart hparts) _ p
  · rw [along_of_ne_nil hparts]

/-- Where the last segment of a path can be changed, if its parent leads to a folder. -/
theorem entryOf_eq {p : Path} {spot : Spot} (hnul : p.hasNul = false) (hbytes : p.byteLength < maxPathBytes)
    (hparent : t.find cwd p.parent = .ok spot) (hspot : t.isOpenAt spot.location = true) :
    t.entryOf cwd p =
      if p.name = ".." then .ok spot.location.dropLast
      else if p.name = "" then .ok spot.location
      else if Location.isGone spot.location then .error .absent
      else if maxNameBytes < p.name.utf8ByteSize then .error .tooLong
      else .ok (spot.location ++ [p.name]) := by
  rw [entryOf, hnul, if_neg Bool.false_ne_true, if_neg (by omega), hparent]
  dsimp only
  rw [hspot, if_neg (by decide)]

theorem lookUp_of_find {p : Path} {spot : Spot} (h : t.find cwd p = .ok spot)
    (hspot : t.isOpenAt spot.location = true) : t.lookUp cwd p = .ok .folder := by
  rw [lookUp, h]
  dsimp only
  rw [node?_of_isOpenAt hspot]

/-- What is there already is no failure, if it is a folder. -/
theorem makeFolder_of_there {p : Path} {l : Location} (hentry : t.entryOf cwd p = .ok l)
    (hnode : (t.node? l).isSome = true) (hfolder : t.lookUp cwd p = .ok .folder) :
    t.makeFolder cwd p = .ok (t, true) := by
  rw [makeFolder, hentry, ok_bind, if_pos hnode, hfolder]
  rfl

/-- **Making one folder**, if there is not one already. -/
theorem makeFolder_of_opens {above : List String} {part : String} {spot last : Spot}
    (hproper : Proper (above ++ [part])) (hnul : (Path.mk anchor (above ++ [part])).hasNul = false)
    (hbytes : (Path.mk anchor (above ++ [part])).byteLength < maxPathBytes)
    (hparent : t.find cwd ⟨anchor, above⟩ = .ok spot) (hspot : t.isOpenAt spot.location = true)
    (h : Opens t spot [part] u last) :
    t.makeFolder cwd ⟨anchor, above ++ [part]⟩ = .ok (u, true) := by
  have hname : (Path.mk anchor (above ++ [part])).name = part := by simp [Path.name]
  have hfound : t.find cwd (Path.mk anchor (above ++ [part])).parent = .ok spot := by
    simpa [Path.parent] using hparent
  have hentry := entryOf_eq hnul hbytes hfound hspot
  obtain ⟨hempty, hdot, -⟩ := hproper part (by simp)
  rw [hname, if_neg hempty] at hentry
  cases h with
  | there hgone hnext hfolder hrest =>
      cases hrest
      have hfind : t.find cwd ⟨anchor, above ++ [part]⟩ = .ok last := by
        obtain ⟨-, -, -, hdescend⟩ := find_eq_ok_iff.mp hparent
        refine find_eq_ok_iff.mpr ⟨hnul, hbytes, by simp, ?_⟩
        show t.descend _ (start cwd ⟨anchor, above⟩) (above ++ [part]) = _
        rw [descend_append, hdescend, ok_bind, hnext]
      have hlook := lookUp_of_find hfind hfolder
      by_cases hup : part = ".."
      · rw [if_pos hup] at hentry
        rw [hup, descend_up hspot, descend] at hnext
        refine makeFolder_of_there hentry ?_ hlook
        have hlast : spot.location.dropLast = last.location := congrArg Spot.location (Except.ok.inj hnext)
        rw [hlast, node?_of_isOpenAt hfolder]
        rfl
      · obtain ⟨hlong, node, hchild⟩ := child?_of_descend hempty hdot hup hnext
        rw [if_neg hup, hgone.resolve_left hup, if_neg Bool.false_ne_true, if_neg (by omega)] at hentry
        refine makeFolder_of_there hentry ?_ hlook
        rw [child?, if_pos (isName_of_child? hchild)] at hchild
        rw [hchild]
        rfl
  | made hgone hfree hisName hlong hrest =>
      cases hrest
      obtain ⟨-, -, hup, -⟩ := isName_iff.mp hisName
      rw [if_neg hup, hgone, if_neg Bool.false_ne_true, if_neg (by omega)] at hentry
      rw [makeFolder, hentry, ok_bind, node?_of_child_eq_none hisName hfree]
      rfl

theorem hasNul_of_append {above below : List String}
    (h : (Path.mk anchor (above ++ below)).hasNul = false) : (Path.mk anchor above).hasNul = false := by
  rw [Path.hasNul, List.any_append, Bool.or_eq_false_iff] at h
  exact h.1

/-- The folder that a path without segments starts from is there. -/
theorem makeFolder_nil (hstart : t.isOpenAt (start cwd ⟨anchor, []⟩) = true) :
    t.makeFolder cwd ⟨anchor, []⟩ = .ok (t, true) := by
  have hfits : (Path.mk anchor []).byteLength < maxPathBytes := by cases anchor <;> decide
  have hfind : t.find cwd ⟨anchor, []⟩ = .ok ⟨start cwd ⟨anchor, []⟩, maxLinks⟩ := by
    refine find_eq_ok_iff.mpr ⟨rfl, hfits, fun _ => hstart, ?_⟩
    rw [descend]
  have hentry := entryOf_eq (p := ⟨anchor, []⟩) rfl hfits hfind hstart
  refine makeFolder_of_there hentry ?_ (lookUp_of_find hfind hstart)
  rw [node?_of_isOpenAt hstart]
  rfl

/-- Where the parent of a folder leads to nothing, the folder cannot be made. -/
theorem makeFolder_of_absent {above : List String} {part : String}
    (hnul : (Path.mk anchor (above ++ [part])).hasNul = false)
    (hbytes : (Path.mk anchor (above ++ [part])).byteLength < maxPathBytes)
    (habsent : t.find cwd ⟨anchor, above⟩ = .error .absent) :
    t.makeFolder cwd ⟨anchor, above ++ [part]⟩ = .error .absent := by
  have hparent : (Path.mk anchor (above ++ [part])).parent = ⟨anchor, above⟩ := by simp [Path.parent]
  rw [makeFolder, entryOf, hnul, if_neg Bool.false_ne_true, if_neg (by omega), hparent, habsent]
  rfl

/-- A folder whose parent leads to nothing is made after its parent. -/
theorem makeFolders_of_absent {above : List String} {part : String} {room : Nat} {v : FileTree}
    (hnul : (Path.mk anchor (above ++ [part])).hasNul = false)
    (hbytes : (Path.mk anchor (above ++ [part])).byteLength < maxPathBytes)
    (habsent : t.find cwd ⟨anchor, above⟩ = .error .absent)
    (habove : t.makeFolders cwd ⟨anchor, above⟩ room = (v, .ok ()))
    (hmake : v.makeFolder cwd ⟨anchor, above ++ [part]⟩ = .ok (u, true)) :
    t.makeFolders cwd ⟨anchor, above ++ [part]⟩ (room + 1) = (u, .ok ()) := by
  have hparent : (Path.mk anchor (above ++ [part])).parent = ⟨anchor, above⟩ := by simp [Path.parent]
  simp [makeFolders, makeFolder_of_absent hnul hbytes habsent, hparent, habove, hmake]

/-- If its parent is not made, the folder is not. -/
theorem makeFolders_of_absent_of_error {above : List String} {part : String} {room : Nat} {v : FileTree}
    {fault : Fault} (hnul : (Path.mk anchor (above ++ [part])).hasNul = false)
    (hbytes : (Path.mk anchor (above ++ [part])).byteLength < maxPathBytes)
    (habsent : t.find cwd ⟨anchor, above⟩ = .error .absent)
    (habove : t.makeFolders cwd ⟨anchor, above⟩ room = (v, .error fault)) :
    t.makeFolders cwd ⟨anchor, above ++ [part]⟩ (room + 1) = (v, .error fault) := by
  have hparent : (Path.mk anchor (above ++ [part])).parent = ⟨anchor, above⟩ := by simp [Path.parent]
  simp [makeFolders, makeFolder_of_absent hnul hbytes habsent, hparent, habove]

/-- Some of the segments lead somewhere, and no more than `count` are left then. -/
def MissesAtMost (t : FileTree) (here : Location) (parts : List String) (count : Nat) : Prop :=
  ∃ above below spot, parts = above ++ below ∧ below.length ≤ count ∧
    t.descend maxLinks here above = .ok spot

/-- If not even the parent leads anywhere, two levels are missing at least. -/
theorem MissesAtMost.of_absent {here : Location} {above : List String} {part : String} {count : Nat}
    (h : t.MissesAtMost here (above ++ [part]) (count + 1))
    (habsent : t.descend maxLinks here above = .error .absent) :
    count ≠ 0 ∧ t.MissesAtMost here above count := by
  obtain ⟨first, below, spot, hsplit, hlength, hfirst⟩ := h
  rcases List.eq_nil_or_concat below with rfl | ⟨missing, last, rfl⟩
  · rw [List.append_nil] at hsplit
    rw [← hsplit, descend_append, habsent, error_bind] at hfirst
    cases hfirst
  · rw [List.concat_eq_append, ← List.append_assoc] at hsplit
    obtain ⟨rfl, -⟩ := List.append_singleton_inj.mp hsplit
    rw [List.concat_eq_append, List.length_append, List.length_singleton] at hlength
    refine ⟨?_, first, missing, spot, rfl, by omega, hfirst⟩
    rintro rfl
    obtain rfl : missing = [] := List.length_eq_zero_iff.mp (by omega)
    rw [List.append_nil, hfirst] at habsent
    cases habsent

section All

variable {parts : List String} (hproper : Proper parts) (hnul : (Path.mk anchor parts).hasNul = false)
  (hbytes : (Path.mk anchor parts).byteLength < maxPathBytes)

include hproper hnul hbytes

/-- **Making the folders on the way** from the bottom up, in as many levels as there is room for. -/
theorem makeFolders_of_opens {room : Nat} {last : Spot}
    (hstart : t.isOpenAt (start cwd ⟨anchor, []⟩) = true)
    (h : Opens t ⟨start cwd ⟨anchor, []⟩, maxLinks⟩ parts u last)
    (hmisses : t.MissesAtMost (start cwd ⟨anchor, []⟩) parts (room + 1)) :
    t.makeFolders cwd ⟨anchor, parts⟩ (room + 1) = (u, .ok ()) := by
  induction parts using List.reverseRecOn generalizing u last room with
  | nil =>
      cases h
      rw [makeFolders, makeFolder_nil hstart]
  | append_singleton above part ih =>
      have hproper' : Proper above := (List.forall_mem_append.mp hproper).1
      have hnul' := hasNul_of_append hnul
      have hbytes' := (Path.byteLength_le anchor hproper).trans_lt hbytes
      obtain ⟨v, mid, habove, hpart⟩ := Opens.append_iff.mp h
      have hmid := (habove.keeps hstart).1
      have hparent : v.find cwd ⟨anchor, above⟩ = .ok mid :=
        find_eq_ok_iff.mpr ⟨hnul', hbytes', fun _ => (habove.keeps hstart).2.1 _ hstart,
          habove.descend_eq hstart⟩
      have hmake := makeFolder_of_opens hproper hnul hbytes hparent hmid hpart
      rcases habove.before hstart with ⟨rfl, -⟩ | habsent
      · rw [makeFolders, hmake]
      · have hfind : t.find cwd ⟨anchor, above⟩ = .error .absent :=
          (find_eq_descend hnul' hbytes' fun _ => hstart).trans habsent
        obtain ⟨hne, hmisses'⟩ := hmisses.of_absent habsent
        obtain ⟨room, rfl⟩ := Nat.exists_eq_succ_of_ne_zero hne
        exact makeFolders_of_absent hnul hbytes hfind (ih hproper' hnul' hbytes' habove hmisses') hmake

/-- With more levels missing than there is room for, nothing is made. -/
theorem makeFolders_of_too_many {room : Nat} {last : Spot}
    (hstart : t.isOpenAt (start cwd ⟨anchor, []⟩) = true)
    (h : Opens t ⟨start cwd ⟨anchor, []⟩, maxLinks⟩ parts u last)
    (hmisses : ¬ t.MissesAtMost (start cwd ⟨anchor, []⟩) parts room) :
    t.makeFolders cwd ⟨anchor, parts⟩ room = (t, .error .nestedTooDeep) := by
  induction parts using List.reverseRecOn generalizing u last room with
  | nil => exact absurd ⟨[], [], _, rfl, Nat.zero_le room, FileTree.descend.eq_1 ..⟩ hmisses
  | append_singleton above part ih =>
      cases room with
      | zero => rw [makeFolders]
      | succ room =>
          have hproper' : Proper above := (List.forall_mem_append.mp hproper).1
          have hnul' := hasNul_of_append hnul
          have hbytes' := (Path.byteLength_le anchor hproper).trans_lt hbytes
          obtain ⟨v, mid, habove, -⟩ := Opens.append_iff.mp h
          have hmore : ¬ t.MissesAtMost (start cwd ⟨anchor, []⟩) above room := by
            rintro ⟨first, below, spot, rfl, hlength, hfirst⟩
            refine hmisses ⟨first, below ++ [part], spot, by simp, ?_, hfirst⟩
            simpa using hlength
          rcases habove.before hstart with ⟨rfl, hfound⟩ | habsent
          · exact absurd ⟨above, [], mid, by simp, Nat.zero_le room, hfound⟩ hmore
          · have hfind : t.find cwd ⟨anchor, above⟩ = .error .absent :=
              (find_eq_descend hnul' hbytes' fun _ => hstart).trans habsent
            exact makeFolders_of_absent_of_error hnul hbytes hfind
              (ih hproper' hnul' hbytes' habove hmore)

end All

end Make

end FileTree

end AntResources
