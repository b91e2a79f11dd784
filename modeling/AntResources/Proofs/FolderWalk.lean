import AntResources.FileTree.Walk
import AntResources.Proofs.NormalForm
import AntResources.Proofs.Sequencing

/-!
# AntResources.Proofs.FolderWalk

**A walk finds the files in all folders that it can reach.** A path is followed one segment after the
other (`descend_append`), and along a name only from a folder that may be searched (`descend_name`,
`isOpenAt_of_descend`). `folderBelow?` follows names down from a folder, through folders only. A walk
ends well exactly if every folder reached in this way can be listed and is not too deep
(`exists_walk_eq_ok_iff`), and then its result is what these folders have in them besides folders
(`mem_walk_iff`).
-/

namespace AntResources

namespace FileTree

variable {t : FileTree}

/-! ### Names -/

theorem isName_iff {name : String} : isName name = true ↔
    name ≠ "" ∧ name ≠ "." ∧ name ≠ ".." ∧ '/' ∉ name.toList ∧ '\x00' ∉ name.toList := by
  simp [isName, and_assoc]

theorem lookup_isSome_iff {nodes : List (Location × Node)} {l : Location} :
    (nodes.lookup l).isSome ↔ ∃ node, (l, node) ∈ nodes := by
  induction nodes with
  | nil => simp
  | cons entry nodes ih =>
      obtain ⟨place, node⟩ := entry
      rw [List.lookup_cons]
      by_cases h : l = place
      · subst h
        simp
      · have hbeq : (l == place) = false := by simpa using h
        simp [hbeq, h, ih]

theorem isName_of_child? {l : Location} {name : String} {node : Node}
    (h : t.child? l name = some node) : isName name = true := by
  unfold child? at h
  split at h
  · assumption
  · cases h

theorem exists_child?_iff {l : Location} {name : String} :
    (∃ node, t.child? l name = some node) ↔
      isName name = true ∧ ∃ node, (l ++ [name], node) ∈ t.nodes := by
  rw [← lookup_isSome_iff, Option.isSome_iff_exists]
  by_cases hname : isName name = true <;> simp [child?, node?, hname]

/-- The names in a folder are those under which it has something. -/
theorem mem_names_iff {l : Location} {name : String} :
    name ∈ t.names l ↔ ∃ node, t.child? l name = some node := by
  rw [names, List.mem_mergeSort, List.mem_eraseDups, List.mem_filterMap, exists_child?_iff]
  constructor
  · intro h
    obtain ⟨⟨place, node⟩, hmem, hplace⟩ := h
    rcases List.eq_nil_or_concat place with rfl | ⟨above, last, rfl⟩
    · cases hplace
    · simp only [List.concat_eq_append, List.getLast?_concat, List.dropLast_concat,
        Option.ite_none_right_eq_some, Option.some.injEq] at hplace hmem
      obtain ⟨⟨rfl, hname⟩, rfl⟩ := hplace
      exact ⟨hname, node, hmem⟩
  · intro h
    obtain ⟨hname, node, hmem⟩ := h
    exact ⟨(l ++ [name], node), hmem, by simp [hname]⟩

/-! ### Folders -/

theorem isFolderAt_of_child {l : Location} {name : String} {node : Node}
    (h : t.child? l name = some node) : t.isFolderAt (l ++ [name]) = node.isFolder := by
  rw [child?, if_pos (isName_of_child? h)] at h
  rw [isFolderAt, h]

theorem isOpenAt_of_child {l : Location} {name : String}
    (h : t.child? l name = some .folder) : t.isOpenAt (l ++ [name]) = true := by
  rw [child?, if_pos (isName_of_child? h)] at h
  rw [isOpenAt, h]

theorem node?_of_isOpenAt {l : Location} (h : t.isOpenAt l = true) :
    t.node? l = some .folder := by
  unfold isOpenAt at h
  split at h
  · assumption
  · cases h

theorem isFolderAt_of_isOpenAt {l : Location} (h : t.isOpenAt l = true) :
    t.isFolderAt l = true := by
  rw [isFolderAt, node?_of_isOpenAt h]
  rfl

/-! ### Descent -/

/-- Following a longer path is following its start, and from there the rest. -/
theorem descend_append (links : Nat) (here : Location) (above below : List String) :
    t.descend links here (above ++ below) =
      t.descend links here above >>= fun s => t.descend s.links s.location below := by
  fun_induction descend t links here above with
  | case1 => rfl
  | case2 links here part rest hempty ih => rw [List.cons_append, descend, if_pos hempty, ih]
  | case3 links here part rest hempty h => rw [List.cons_append, descend, if_neg hempty, if_pos h, error_bind]
  | case4 links here rest h hempty ih => rw [List.cons_append, descend, if_neg hempty, if_neg h, if_pos rfl, ih]
  | case5 links here rest h hempty hdot ih =>
      rw [List.cons_append, descend, if_neg hempty, if_neg h, if_neg hdot, if_pos rfl, ih]
  | case6 links here part rest hempty h hdot hup hlong =>
      rw [List.cons_append, descend, if_neg hempty, if_neg h, if_neg hdot, if_neg hup, if_pos hlong, error_bind]
  | case7 links here part rest hempty h hdot hup hlong hchild =>
      rw [List.cons_append, descend, if_neg hempty, if_neg h, if_neg hdot, if_neg hup, if_neg hlong, hchild,
        error_bind]
  | case8 here part rest hempty h hdot hup hlong target hchild =>
      rw [List.cons_append, descend, if_neg hempty, if_neg h, if_neg hdot, if_neg hup, if_neg hlong, hchild,
        error_bind]
  | case9 here part rest hempty h hdot hup hlong target hchild links ih =>
      rw [List.cons_append, descend, if_neg hempty, if_neg h, if_neg hdot, if_neg hup, if_neg hlong, hchild]
      rw [List.append_assoc] at ih
      exact ih
  | case10 links here part rest hempty h hdot hup hlong node hlink hchild ih =>
      rw [List.cons_append, descend, if_neg hempty, if_neg h, if_neg hdot, if_neg hup, if_neg hlong, hchild]
      cases node with
      | link target => exact absurd rfl (hlink target)
      | folder | lockedFolder | file content | nullDevice => exact ih

/-- Where no folder may be searched, a path does not go on. -/
theorem descend_of_not_open {here : Location} {part : String} (hpart : part ≠ "")
    (hopen : t.isOpenAt here = false) (links : Nat) (rest : List String) :
    t.descend links here (part :: rest) = .error (t.barrier here) := by
  rw [descend, if_neg (fun h => hpart h.1), hopen]
  rfl

/-- An empty segment asks for a folder, and leads no further. -/
theorem descend_empty_eq_ok_iff {links : Nat} {here : Location} {rest : List String} {spot : Spot} :
    t.descend links here ("" :: rest) = .ok spot ↔
      t.isFolderAt here = true ∧ t.descend links here rest = .ok spot := by
  cases hfolder : t.isFolderAt here with
  | true => rw [descend, if_pos ⟨rfl, hfolder⟩, eq_self, true_and]
  | false =>
      have hopen : t.isOpenAt here = false := Bool.eq_false_iff.mpr fun hopen => by
        rw [isFolderAt_of_isOpenAt hopen] at hfolder
        cases hfolder
      rw [descend, if_neg (by simp [hfolder]), hopen]
      simp

theorem descend_dot {here : Location} (hopen : t.isOpenAt here = true) (links : Nat) (rest : List String) :
    t.descend links here ("." :: rest) = t.descend links here rest := by
  rw [descend, if_neg (by simp), hopen, if_neg (by decide), if_pos rfl]

theorem along_of_ne_nil {p : Path} (h : p.parts ≠ []) : along p = p.parts := if_neg h

theorem exists_along_eq_cons {p : Path} (h : ∀ s ∈ p.parts, s ≠ "") :
    ∃ first rest, along p = first :: rest ∧ first ≠ "" := by
  cases hparts : p.parts with
  | nil => exact ⟨".", [], if_pos hparts, by decide⟩
  | cons first rest =>
      exact ⟨first, rest, (along_of_ne_nil (by simp [hparts])).trans hparts, h first (by simp [hparts])⟩

/-- In a folder that may be searched, a path without segments leads to that folder. -/
theorem descend_along {here : Location} (hopen : t.isOpenAt here = true) (links : Nat) (p : Path) :
    t.descend links here (along p) = t.descend links here p.parts := by
  by_cases hparts : p.parts = []
  · rw [along, if_pos hparts, descend_dot hopen, hparts]
  · rw [along_of_ne_nil hparts]

theorem descend_along_eq_ok_iff {links : Nat} {here : Location} {p : Path} {spot : Spot} :
    t.descend links here (along p) = .ok spot ↔
      (p.parts = [] → t.isOpenAt here = true) ∧ t.descend links here p.parts = .ok spot := by
  cases hopen : t.isOpenAt here with
  | true => simp [descend_along hopen]
  | false =>
      by_cases hparts : p.parts = []
      · rw [along, if_pos hparts, descend_of_not_open (by decide) hopen]
        simp [hparts]
      · simp [along_of_ne_nil hparts, hparts]

/-- When a path leads somewhere. -/
theorem find_eq_ok_iff {cwd : Location} {p : Path} {spot : Spot} :
    t.find cwd p = .ok spot ↔ p.hasNul = false ∧ p.byteLength < maxPathBytes ∧
      (p.parts = [] → t.isOpenAt (start cwd p) = true) ∧
      t.descend maxLinks (start cwd p) p.parts = .ok spot := by
  rw [← descend_along_eq_ok_iff]
  unfold find
  cases p.hasNul with
  | true => simp
  | false =>
      by_cases hlong : maxPathBytes ≤ p.byteLength
      · have hnot : ¬ p.byteLength < maxPathBytes := by omega
        simp [hlong, hnot]
      · have hfits : p.byteLength < maxPathBytes := by omega
        simp [hlong, hfits]

theorem hasNul_of_find {cwd : Location} {p : Path} {spot : Spot} (h : t.find cwd p = .ok spot) :
    p.hasNul = false := (find_eq_ok_iff.mp h).1

theorem hasNul_below {p : Path} {names : List String} (hp : p.hasNul = false)
    (h : ∀ s ∈ names, '\x00' ∉ s.toList) : (p.below names).hasNul = false := by
  simp only [Path.hasNul, Path.below, List.any_append, Bool.or_eq_false_iff]
  refine ⟨hp, ?_⟩
  simpa using h

/-- Where a path leads with some names after it. -/
theorem find_below {cwd : Location} {p : Path} {spot : Spot} (h : t.find cwd p = .ok spot)
    (names : List String) :
    t.find cwd (p.below names) =
      if (p.below names).hasNul then .error .nul
      else if maxPathBytes ≤ (p.below names).byteLength then .error .tooLong
      else t.descend spot.links spot.location names := by
  obtain ⟨hnul, hbytes, -, hdescend⟩ := find_eq_ok_iff.mp h
  cases names with
  | nil =>
      have hend : t.descend spot.links spot.location [] = .ok spot := by rw [descend]
      rw [Path.below_nil, h, hnul, if_neg Bool.false_ne_true, if_neg (by omega), hend]
  | cons name rest =>
      have halong : along (p.below (name :: rest)) = p.parts ++ name :: rest :=
        along_of_ne_nil (by simp [Path.below])
      have hbelow : t.descend maxLinks (start cwd (p.below (name :: rest))) (along (p.below (name :: rest))) =
          t.descend spot.links spot.location (name :: rest) := by
        rw [halong, descend_append]
        show t.descend maxLinks (start cwd p) p.parts >>= _ = _
        rw [hdescend, ok_bind]
      rw [find, hbelow]

section Step

variable {here : Location} {name : String} (links : Nat) (rest : List String)

/-- Where a folder may be searched, it is asked for the name that a path goes on with. -/
theorem descend_name (hfolder : t.isOpenAt here = true) (hname : name ≠ "") (hdot : name ≠ ".")
    (hup : name ≠ "..") :
    t.descend links here (name :: rest) =
      if maxNameBytes < name.utf8ByteSize then .error .tooLong
      else
        match t.child? here name with
        | none => .error .absent
        | some (.link target) =>
          match links with
          | 0 => .error .linkLoop
          | links + 1 => t.descend links (targetStart here target) (targetParts target ++ rest)
        | some _ => t.descend links (here ++ [name]) rest := by
  have hstep := FileTree.descend.eq_2 t links here name rest
  rw [if_neg (fun h => hname h.1), hfolder, if_neg (by decide), if_neg hdot, if_neg hup] at hstep
  refine hstep.trans ?_
  cases t.child? here name with
  | none => rfl
  | some node =>
      cases node with
      | link target => cases links <;> rfl
      | folder | lockedFolder | file content | nullDevice => rfl

/-- One step down, where nothing has the name. -/
theorem descend_of_child_eq_none (hfolder : t.isOpenAt here = true) (hname : name ≠ "") (hdot : name ≠ ".")
    (hup : name ≠ "..") (hlong : name.utf8ByteSize ≤ maxNameBytes)
    (hchild : t.child? here name = none) :
    t.descend links here (name :: rest) = .error .absent := by
  rw [descend_name _ _ hfolder hname hdot hup, if_neg (by omega), hchild]

/-- A name that is too long is not followed. -/
theorem descend_of_long (hfolder : t.isOpenAt here = true) (hname : isName name = true)
    (hlong : maxNameBytes < name.utf8ByteSize) :
    t.descend links here (name :: rest) = .error .tooLong := by
  obtain ⟨hempty, hdot, hup, -⟩ := isName_iff.mp hname
  rw [descend_name _ _ hfolder hempty hdot hup, if_pos hlong]

/-- One step down, through a link. -/
theorem descend_of_child_eq_link {target : String} (hfolder : t.isOpenAt here = true)
    (hlong : name.utf8ByteSize ≤ maxNameBytes) (hchild : t.child? here name = some (.link target)) :
    t.descend (links + 1) here (name :: rest) =
      t.descend links (targetStart here target) (targetParts target ++ rest) := by
  obtain ⟨hname, hdot, hup, -⟩ := isName_iff.mp (isName_of_child? hchild)
  rw [descend_name _ _ hfolder hname hdot hup, if_neg (by omega), hchild]

/-- A link too many is not followed. -/
theorem descend_of_child_eq_last_link {target : String} (hfolder : t.isOpenAt here = true)
    (hlong : name.utf8ByteSize ≤ maxNameBytes) (hchild : t.child? here name = some (.link target)) :
    t.descend 0 here (name :: rest) = .error .linkLoop := by
  obtain ⟨hname, hdot, hup, -⟩ := isName_iff.mp (isName_of_child? hchild)
  rw [descend_name _ _ hfolder hname hdot hup, if_neg (by omega), hchild]

/-- One step down, to something that is not a link. -/
theorem descend_of_child_eq_some {node : Node} (hfolder : t.isOpenAt here = true)
    (hlong : name.utf8ByteSize ≤ maxNameBytes) (hchild : t.child? here name = some node)
    (hlink : ∀ target, node ≠ .link target) :
    t.descend links here (name :: rest) = t.descend links (here ++ [name]) rest := by
  obtain ⟨hname, hdot, hup, -⟩ := isName_iff.mp (isName_of_child? hchild)
  rw [descend_name _ _ hfolder hname hdot hup, if_neg (by omega), hchild]
  cases node with
  | link target => exact absurd rfl (hlink target)
  | folder | lockedFolder | file content | nullDevice => rfl

variable {links rest} {spot : Spot}

/-- A path goes on from folders that may be searched only. -/
theorem isOpenAt_of_descend (hname : name ≠ "") (h : t.descend links here (name :: rest) = .ok spot) :
    t.isOpenAt here = true := by
  cases hopen : t.isOpenAt here with
  | true => rfl
  | false =>
      rw [descend_of_not_open hname hopen] at h
      cases h

/-- A way that ends in a folder that may be searched starts in one. -/
theorem isOpenAt_of_descend_of_isOpenAt {parts : List String} (h : t.descend links here parts = .ok spot)
    (hspot : t.isOpenAt spot.location = true) : t.isOpenAt here = true := by
  induction parts with
  | nil =>
      rw [descend] at h
      obtain rfl := Except.ok.inj h
      exact hspot
  | cons part rest ih =>
      by_cases hpart : part = ""
      · subst hpart
        exact ih (descend_empty_eq_ok_iff.mp h).2
      · exact isOpenAt_of_descend hpart h

/-- A step down to something leads through what has the name. -/
theorem child?_of_descend (hname : name ≠ "") (hdot : name ≠ ".") (hup : name ≠ "..")
    (h : t.descend links here (name :: rest) = .ok spot) :
    name.utf8ByteSize ≤ maxNameBytes ∧ ∃ node, t.child? here name = some node := by
  rw [descend_name _ _ (isOpenAt_of_descend hname h) hname hdot hup] at h
  split at h
  · cases h
  next hlong =>
    refine ⟨by omega, ?_⟩
    cases hchild : t.child? here name with
    | none =>
        rw [hchild] at h
        cases h
    | some node => exact ⟨node, rfl⟩

/-- A step along the name of a link goes on along its target. -/
theorem exists_descend_of_link {target : String} (hchild : t.child? here name = some (.link target))
    (h : t.descend links here (name :: rest) = .ok spot) : ∃ less, links = less + 1 ∧
      t.descend less (targetStart here target) (targetParts target ++ rest) = .ok spot := by
  obtain ⟨hname, hdot, hup, -⟩ := isName_iff.mp (isName_of_child? hchild)
  have hopen := isOpenAt_of_descend hname h
  obtain ⟨hlong, -⟩ := child?_of_descend hname hdot hup h
  cases links with
  | zero =>
      rw [descend_of_child_eq_last_link _ hopen hlong hchild] at h
      cases h
  | succ less =>
      rw [descend_of_child_eq_link _ _ hopen hlong hchild] at h
      exact ⟨less, rfl, h⟩

end Step

/-! ### Folders below a folder -/

/-- The folder that is reached by going down the given names, through folders only. `path` is the
path under which the first one is reached. -/
def folderBelow? (t : FileTree) (path : Path) (spot : Spot) : List String → Option Spot
  | [] => some spot
  | name :: rest => (t.below? path spot name).bind fun sub => folderBelow? t (path.child name) sub rest

@[simp] theorem folderBelow?_nil (path : Path) (spot : Spot) :
    t.folderBelow? path spot [] = some spot := rfl

theorem folderBelow?_cons_eq_some_iff {path : Path} {spot final : Spot} {name : String}
    {rest : List String} :
    t.folderBelow? path spot (name :: rest) = some final ↔
      ∃ sub, t.below? path spot name = some sub ∧
        t.folderBelow? (path.child name) sub rest = some final := by
  rw [folderBelow?, Option.bind_eq_some_iff]

/-- A subfolder has a name that is in its folder. -/
theorem mem_names_of_below? {path : Path} {spot sub : Spot} {name : String}
    (h : t.below? path spot name = some sub) : name ∈ t.names spot.location := by
  rw [mem_names_iff]
  cases hchild : t.child? spot.location name with
  | some node => exact ⟨node, rfl⟩
  | none =>
      rw [below?, isLinkIn, hchild] at h
      cases h

theorem mem_subfolders_iff {path : Path} {spot sub : Spot} {name : String} :
    (name, sub) ∈ t.subfolders path spot ↔ t.below? path spot name = some sub := by
  rw [subfolders, List.mem_filterMap]
  constructor
  · intro h
    obtain ⟨other, -, hother⟩ := h
    obtain ⟨found, hfound, heq⟩ := Option.map_eq_some_iff.mp hother
    obtain ⟨rfl, rfl⟩ := Prod.mk.inj heq
    exact hfound
  · intro h
    exact ⟨name, mem_names_of_below? h, by rw [h]; rfl⟩

theorem mem_files_iff {path : Path} {spot : Spot} {name : String} :
    name ∈ t.files path spot ↔ name ∈ t.names spot.location ∧ t.below? path spot name = none := by
  rw [files, List.mem_filter, Option.isNone_iff_eq_none]

/-- What starts at the root is found from everywhere. -/
theorem find_of_anchored {p : Path} (h : p.anchor ≠ .relative) (cwd other : Location) :
    t.find cwd p = t.find other p := by
  have hstart : ∀ cwd, start cwd p = [] := fun cwd => if_neg h
  rw [find, find, hstart, hstart]

/-! ### Trees in which every folder may be searched -/

/-- Every folder of the tree may be searched. -/
def allOpen (t : FileTree) : Bool :=
  t.nodes.all fun
    | (_, .lockedFolder) => false
    | _ => true

theorem mem_nodes_of_lookup {nodes : List (Location × Node)} {l : Location} {node : Node}
    (h : nodes.lookup l = some node) : (l, node) ∈ nodes := by
  obtain ⟨before, after, rfl, -⟩ := List.lookup_eq_some_iff.mp h
  simp

theorem mem_nodes_of_child? {l : Location} {name : String} {node : Node} (h : t.child? l name = some node) :
    (l ++ [name], node) ∈ t.nodes := by
  rw [child?, if_pos (isName_of_child? h), node?, if_neg (by simp)] at h
  exact mem_nodes_of_lookup h

theorem isFolderAt_eq_of_allOpen (h : t.allOpen = true) (l : Location) : t.isFolderAt l = t.isOpenAt l := by
  unfold isFolderAt isOpenAt
  cases hnode : t.node? l with
  | none => rfl
  | some node =>
      cases node with
      | lockedFolder =>
          rw [node?] at hnode
          split at hnode
          · cases hnode
          · cases List.all_eq_true.mp h _ (mem_nodes_of_lookup hnode)
      | _ => rfl

theorem descend_ne_denied (h : t.allOpen = true) (links : Nat) (here : Location) (parts : List String) :
    t.descend links here parts ≠ .error .denied := by
  fun_induction descend t links here parts with
  | case1 | case6 | case7 | case8 => simp
  | case3 links here part rest _ hopen =>
      simp only [Bool.not_eq_true'] at hopen
      simp [barrier, isFolderAt_eq_of_allOpen h, hopen]
  | case2 _ _ _ _ _ ih | case4 _ _ _ _ _ ih | case5 _ _ _ _ _ _ ih | case9 _ _ _ _ _ _ _ _ _ _ _ ih
  | case10 _ _ _ _ _ _ _ _ _ _ _ _ ih => exact ih

theorem find_ne_denied (h : t.allOpen = true) (cwd : Location) (p : Path) : t.find cwd p ≠ .error .denied := by
  unfold find
  split
  · simp
  · split
    · simp
    · exact descend_ne_denied h _ _ _

/-! ### The walk -/

theorem isBarred_iff {path : Path} : t.isBarred path = true ↔ t.find [] path = .error .denied := by
  unfold isBarred
  split <;> simp_all

theorem isListable_iff {path : Path} : t.isListable path = true ↔
    path.byteLength < maxPathBytes ∧ t.find [] path ≠ .error .denied ∧
      t.unlistable.contains path = false := by
  rw [isListable, Bool.and_eq_true, Bool.and_eq_true, decide_eq_true_eq, Bool.not_eq_true',
    Bool.not_eq_true', and_assoc, ne_eq, ← isBarred_iff, Bool.not_eq_true]

/-- Where every folder may be searched, only its path keeps one from being listed. -/
theorem isListable_of_allOpen (h : t.allOpen = true) {path : Path} (hbytes : path.byteLength < maxPathBytes)
    (hlistable : t.unlistable.contains path = false) : t.isListable path = true :=
  isListable_iff.mpr ⟨hbytes, find_ne_denied h [] path, hlistable⟩

/-- What a walk finds in a subfolder, as seen from the folder at `path`. -/
def walkInto (t : FileTree) (room : Nat) (path : Path) (entry : String × Spot) :
    Except WalkFailure (List (List String)) :=
  List.map (entry.1 :: ·) <$> t.walk room (path.child entry.1) entry.2

theorem walk_succ (room : Nat) (path : Path) (spot : Spot) :
    t.walk (room + 1) path spot =
      if t.isListable path then
        (fun below => (t.files path spot).map ([·]) ++ below.flatten) <$>
          (t.subfolders path spot).mapM (t.walkInto room path)
      else .error (.unlistable path) := by
  rw [walk]
  simp only [bind_pure_comp]
  cases t.isListable path with
  | false => rfl
  | true => rfl

/-- What a walk that ends well comes to. -/
theorem walk_succ_eq_ok_iff {room : Nat} {path : Path} {spot : Spot} {found : List (List String)} :
    t.walk (room + 1) path spot = .ok found ↔
      t.isListable path = true ∧
        ∃ below, (t.subfolders path spot).mapM (t.walkInto room path) = .ok below ∧
          (t.files path spot).map ([·]) ++ below.flatten = found := by
  rw [walk_succ]
  by_cases hlistable : t.isListable path = true
  · rw [if_pos hlistable, map_eq_ok_iff]
    simp [hlistable]
  · rw [if_neg hlistable]
    simp [hlistable]

/-- The files that a walk finds are those of the folders that can be reached. -/
theorem mem_walk_iff {room : Nat} {path : Path} {spot : Spot} {found : List (List String)}
    (h : t.walk room path spot = .ok found) {names : List String} :
    names ∈ found ↔ ∃ dir name sub, names = dir ++ [name] ∧
      t.folderBelow? path spot dir = some sub ∧ name ∈ t.files (path.below dir) sub := by
  induction room generalizing path spot found names with
  | zero => cases h
  | succ room ih =>
      obtain ⟨-, below, hbelow, rfl⟩ := walk_succ_eq_ok_iff.mp h
      rw [List.mem_append, List.mem_map, List.mem_flatten]
      constructor
      · intro hmem
        cases hmem with
        | inl hfile =>
            obtain ⟨name, hname, rfl⟩ := hfile
            exact ⟨[], name, spot, rfl, rfl, by rwa [Path.below_nil]⟩
        | inr hsub =>
            obtain ⟨part, hpart, hnames⟩ := hsub
            obtain ⟨⟨first, sub⟩, hfirst, hwalk⟩ := (mem_iff_of_mapM_eq_ok hbelow).mp hpart
            obtain ⟨found, hfound, rfl⟩ := map_eq_ok_iff.mp hwalk
            obtain ⟨rest, hrest, rfl⟩ := List.mem_map.mp hnames
            obtain ⟨dir, name, final, rfl, hdir, hname⟩ := (ih hfound).mp hrest
            refine ⟨first :: dir, name, final, rfl, ?_, by rwa [Path.below_child] at hname⟩
            exact folderBelow?_cons_eq_some_iff.mpr ⟨sub, mem_subfolders_iff.mp hfirst, hdir⟩
      · intro hmem
        obtain ⟨dir, name, final, rfl, hdir, hname⟩ := hmem
        cases dir with
        | nil =>
            obtain rfl := Option.some.inj hdir
            rw [Path.below_nil] at hname
            exact Or.inl ⟨name, hname, rfl⟩
        | cons first dir =>
            obtain ⟨sub, hfirst, hdir⟩ := folderBelow?_cons_eq_some_iff.mp hdir
            obtain ⟨part, hpart⟩ := exists_mapM_eq_ok_iff.mp ⟨below, hbelow⟩ (first, sub)
              (mem_subfolders_iff.mpr hfirst)
            obtain ⟨found, hfound, rfl⟩ := map_eq_ok_iff.mp hpart
            rw [← Path.below_child] at hname
            refine Or.inr ⟨_, (mem_iff_of_mapM_eq_ok hbelow).mpr
              ⟨(first, sub), mem_subfolders_iff.mpr hfirst, hpart⟩, ?_⟩
            exact List.mem_map_of_mem ((ih hfound).mpr ⟨dir, name, final, rfl, hdir, hname⟩)

/-- A walk ends well exactly if every folder that can be reached is listable and not too deep. -/
theorem exists_walk_eq_ok_iff {room : Nat} {path : Path} {spot : Spot} :
    (∃ found, t.walk room path spot = .ok found) ↔
      ∀ dir sub, t.folderBelow? path spot dir = some sub →
        dir.length < room ∧ t.isListable (path.below dir) = true := by
  induction room generalizing path spot with
  | zero =>
      constructor
      · intro h
        obtain ⟨found, hfound⟩ := h
        cases hfound
      · intro h
        exact absurd (h [] spot rfl).1 (Nat.not_lt_zero _)
  | succ room ih =>
      have hinto : (∃ below, (t.subfolders path spot).mapM (t.walkInto room path) = .ok below) ↔
          ∀ name sub, t.below? path spot name = some sub →
            ∃ found, t.walk room (path.child name) sub = .ok found := by
        rw [exists_mapM_eq_ok_iff]
        constructor
        · intro h name sub hsub
          obtain ⟨part, hpart⟩ := h (name, sub) (mem_subfolders_iff.mpr hsub)
          obtain ⟨found, hfound, -⟩ := map_eq_ok_iff.mp hpart
          exact ⟨found, hfound⟩
        · intro h entry hentry
          obtain ⟨found, hfound⟩ := h entry.1 entry.2 (mem_subfolders_iff.mp hentry)
          exact ⟨_, map_eq_ok_iff.mpr ⟨found, hfound, rfl⟩⟩
      constructor
      · intro h dir final hdir
        obtain ⟨found, hfound⟩ := h
        obtain ⟨hlistable, below, hbelow, -⟩ := walk_succ_eq_ok_iff.mp hfound
        cases dir with
        | nil => exact ⟨Nat.succ_pos _, by rwa [Path.below_nil]⟩
        | cons name dir =>
            obtain ⟨sub, hsub, hrest⟩ := folderBelow?_cons_eq_some_iff.mp hdir
            have hwalk := hinto.mp ⟨below, hbelow⟩ name sub hsub
            obtain ⟨hroom, hlisted⟩ := ih.mp hwalk dir final hrest
            rw [Path.below_child] at hlisted
            exact ⟨Nat.succ_lt_succ hroom, hlisted⟩
      · intro h
        have hlistable := (h [] spot rfl).2
        rw [Path.below_nil] at hlistable
        have hwalks : ∀ name sub, t.below? path spot name = some sub →
            ∃ found, t.walk room (path.child name) sub = .ok found := by
          intro name sub hsub
          refine ih.mpr fun dir final hdir => ?_
          obtain ⟨hroom, hlisted⟩ := h (name :: dir) final
            (folderBelow?_cons_eq_some_iff.mpr ⟨sub, hsub, hdir⟩)
          rw [Path.below_child]
          exact ⟨Nat.lt_of_succ_lt_succ hroom, hlisted⟩
        obtain ⟨below, hbelow⟩ := hinto.mpr hwalks
        exact ⟨_, walk_succ_eq_ok_iff.mpr ⟨hlistable, below, hbelow, rfl⟩⟩

/-- A folder that ends a walk because it cannot be listed is one that can be reached. -/
theorem exists_of_walk_eq_unlistable {room : Nat} {path folder : Path} {spot : Spot}
    (h : t.walk room path spot = .error (.unlistable folder)) :
    ∃ dir sub, t.folderBelow? path spot dir = some sub ∧ folder = path.below dir ∧
      t.isListable folder = false := by
  induction room generalizing path spot with
  | zero => cases h
  | succ room ih =>
      rw [walk_succ] at h
      by_cases hlistable : t.isListable path = true
      · rw [if_pos hlistable] at h
        obtain ⟨before, ⟨name, sub⟩, after, hsplit, -, hwalk⟩ :=
          mapM_eq_error_iff.mp (map_eq_error_iff.mp h)
        have hsub : t.below? path spot name = some sub := by
          rw [← mem_subfolders_iff, hsplit]
          exact List.mem_append_right _ List.mem_cons_self
        obtain ⟨dir, final, hdir, rfl, hlisted⟩ := ih (map_eq_error_iff.mp hwalk)
        rw [Path.below_child] at hlisted ⊢
        exact ⟨name :: dir, final, folderBelow?_cons_eq_some_iff.mpr ⟨sub, hsub, hdir⟩, rfl,
          hlisted⟩
      · rw [if_neg hlistable] at h
        cases h
        exact ⟨[], spot, rfl, (Path.below_nil _).symm, by simpa using hlistable⟩

end FileTree

end AntResources
