import AntResources.Proofs.FolderWalk
import AntResources.Proofs.HeldFiles

/-!
# AntResources.Proofs.ReachableFolders

**Folders below a folder, told by what the tree has.** An entry of a folder leads to a folder if it is
one, or a link whose target is found to be one (`LeadsTo`); `Reaches` follows such entries down. A walk
goes exactly there (`folderBelow?_eq_some_iff_reaches`). How the names of an entry are looked up shows in
neither: they say which nodes there have to be.
-/

namespace AntResources.FileTree

variable {t : FileTree} {path : Path} {spot sub final : Spot} {name : String} {dir : List String}

/-! ### One step -/

/-- The entry with the given name, in the folder at `spot` that is reached under `path`, leads to the
folder at the last spot. A folder shows itself also where nothing can be looked up. A link is found under
its whole path, and one fewer may follow it. -/
inductive LeadsTo (t : FileTree) (path : Path) (spot : Spot) (name : String) : Spot → Prop where
  | folder {node : Node} : t.child? spot.location name = some node → node.isFolder = true →
      name.utf8ByteSize ≤ maxNameBytes → LeadsTo t path spot name ⟨spot.location ++ [name], spot.links⟩
  | link {target : String} {links : Nat} {sub : Spot} : t.isOpenAt spot.location = true →
      t.child? spot.location name = some (.link target) → name.utf8ByteSize ≤ maxNameBytes →
      (path.child name).byteLength < maxPathBytes → spot.links = links + 1 →
      t.descend links (targetStart spot.location target) (targetParts target) = .ok sub →
      t.isFolderAt sub.location = true → LeadsTo t path spot name sub

theorem LeadsTo.isFolderAt (h : t.LeadsTo path spot name sub) : t.isFolderAt sub.location = true := by
  cases h with
  | folder hchild hnode => rw [isFolderAt_of_child hchild, hnode]
  | link _ _ _ _ _ _ hfolder => exact hfolder

theorem LeadsTo.exists_child? (h : t.LeadsTo path spot name sub) :
    ∃ node, t.child? spot.location name = some node := by
  cases h with
  | folder hchild => exact ⟨_, hchild⟩
  | link _ hchild => exact ⟨_, hchild⟩

/-- An entry leads where its name does as a path, if that is a folder. -/
theorem leadsTo_of_descend (hname : isName name = true) (hpath : (path.child name).byteLength < maxPathBytes)
    (h : t.descend spot.links spot.location [name] = .ok sub) (hfolder : t.isFolderAt sub.location = true) :
    t.LeadsTo path spot name sub := by
  obtain ⟨hempty, hdot, hup, -⟩ := isName_iff.mp hname
  have hopen := isOpenAt_of_descend hempty h
  obtain ⟨hlong, node, hchild⟩ := child?_of_descend hempty hdot hup h
  cases node with
  | link target =>
      obtain ⟨links, hlinks, htarget⟩ := exists_descend_of_link hchild h
      rw [List.append_nil] at htarget
      exact .link hopen hchild hlong hpath hlinks htarget hfolder
  | folder | lockedFolder | file content | nullDevice =>
      rw [descend_of_child_eq_some _ _ hopen hlong hchild (by simp), descend] at h
      obtain rfl := Except.ok.inj h
      exact .folder hchild ((isFolderAt_of_child hchild).symm.trans hfolder) hlong

/-- A step of a walk through a link asks what its path leads to. -/
theorem below?_of_link {target : String} (hchild : t.child? spot.location name = some (.link target)) :
    t.below? path spot name = some sub ↔ (path.child name).byteLength < maxPathBytes ∧
      t.descend spot.links spot.location [name] = .ok sub ∧ t.isFolderAt sub.location = true := by
  rw [below?, if_pos (by rw [isLinkIn, hchild])]
  by_cases hlong : maxPathBytes ≤ (path.child name).byteLength
  · rw [if_pos hlong]
    exact iff_of_false (by simp) fun h => by omega
  · rw [if_neg hlong, and_iff_right (Nat.lt_of_not_le hlong)]
    cases t.descend spot.links spot.location [name] with
    | error obstacle => simp
    | ok found =>
        simp only [Option.ite_none_right_eq_some, Option.some.injEq, Except.ok.injEq]
        constructor
        · rintro ⟨hfolder, rfl⟩
          exact ⟨rfl, hfolder⟩
        · rintro ⟨rfl, hfolder⟩
          exact ⟨hfolder, rfl⟩

/-- A step of a walk to something else asks what that is. -/
theorem below?_of_child {node : Node} (hchild : t.child? spot.location name = some node)
    (hlink : ∀ target, node ≠ .link target) : t.below? path spot name = some sub ↔
      node.isFolder = true ∧ name.utf8ByteSize ≤ maxNameBytes ∧
        sub = ⟨spot.location ++ [name], spot.links⟩ := by
  have hnolink : t.isLinkIn spot.location name = false := by
    rw [isLinkIn, hchild]
    cases node with
    | link target => exact absurd rfl (hlink target)
    | folder | lockedFolder | file content | nullDevice => rfl
  rw [below?, hnolink, if_neg Bool.false_ne_true, hchild]
  simp only [Option.ite_none_right_eq_some, Bool.and_eq_true, decide_eq_true_eq, Option.some.injEq,
    and_assoc, eq_comm (b := sub)]

/-- **One step of a walk** leads where the entry leads. -/
theorem below?_eq_some_iff_leadsTo : t.below? path spot name = some sub ↔ t.LeadsTo path spot name sub := by
  constructor
  · intro h
    obtain ⟨node, hchild⟩ := mem_names_iff.mp (mem_names_of_below? h)
    cases node with
    | link target =>
        obtain ⟨hpath, hdescend, hfolder⟩ := (below?_of_link hchild).mp h
        exact leadsTo_of_descend (isName_of_child? hchild) hpath hdescend hfolder
    | folder | lockedFolder | file content | nullDevice =>
        obtain ⟨hnode, hlong, rfl⟩ := (below?_of_child hchild (by simp)).mp h
        exact .folder hchild hnode hlong
  · intro h
    cases h with
    | @folder node hchild hnode hlong =>
        refine (below?_of_child hchild fun target heq => ?_).mpr ⟨hnode, hlong, rfl⟩
        rw [heq] at hnode
        cases hnode
    | link hopen hchild hlong hpath hlinks hdescend hfolder =>
        refine (below?_of_link hchild).mpr ⟨hpath, ?_, hfolder⟩
        rw [hlinks, descend_of_child_eq_link _ _ hopen hlong hchild, List.append_nil]
        exact hdescend

/-- The name of an entry is a path to the folder that it leads to, if the entry can be looked up. -/
theorem LeadsTo.descend (h : t.LeadsTo path spot name sub) (hfolder : t.isFolderAt spot.location = true) :
    t.descend spot.links spot.location [name] = .ok sub ∨
      t.descend spot.links spot.location [name] = .error .denied := by
  cases h with
  | @folder node hchild hnode hlong =>
      cases hopen : t.isOpenAt spot.location with
      | true =>
          rw [descend_of_child_eq_some _ _ hopen hlong hchild (by rintro target rfl; cases hnode),
            FileTree.descend]
          exact .inl rfl
      | false =>
          obtain ⟨hempty, -⟩ := isName_iff.mp (isName_of_child? hchild)
          rw [descend_of_not_open hempty hopen, barrier, hfolder]
          exact .inr rfl
  | link hopen hchild hlong _ hlinks hdescend _ =>
      rw [hlinks, descend_of_child_eq_link _ _ hopen hlong hchild, List.append_nil]
      exact .inl hdescend

/-! ### Many steps -/

/-- The given names lead down from the folder at `spot`, which is reached under `path`, to the folder at
the last spot. -/
inductive Reaches (t : FileTree) : Path → Spot → List String → Spot → Prop where
  | here {path : Path} {spot : Spot} : Reaches t path spot [] spot
  | down {path : Path} {spot sub final : Spot} {name : String} {dir : List String} :
      t.LeadsTo path spot name sub → Reaches t (path.child name) sub dir final →
      Reaches t path spot (name :: dir) final

theorem Reaches.isFolderAt (h : t.Reaches path spot dir final)
    (hfolder : t.isFolderAt spot.location = true) : t.isFolderAt final.location = true := by
  induction h with
  | here => exact hfolder
  | down hname _ ih => exact ih hname.isFolderAt

/-- The names that lead down to a folder are a path to it, if no folder on the way is one that may not be
searched. -/
theorem Reaches.descend (h : t.Reaches path spot dir final) (hfolder : t.isFolderAt spot.location = true) :
    t.descend spot.links spot.location dir = .ok final ∨
      t.descend spot.links spot.location dir = .error .denied := by
  induction h with
  | here => exact .inl (by rw [FileTree.descend])
  | @down path spot next final name dir hname _ ih =>
      have hsplit : name :: dir = [name] ++ dir := rfl
      rw [hsplit, descend_append]
      rcases hname.descend hfolder with hstep | hstep
      · rw [hstep, ok_bind]
        exact ih hname.isFolderAt
      · rw [hstep, error_bind]
        exact .inr rfl

theorem Reaches.isName (h : t.Reaches path spot dir final) : ∀ s ∈ dir, isName s = true := by
  induction h with
  | here => simp
  | down hname _ ih =>
      obtain ⟨node, hnode⟩ := hname.exists_child?
      exact List.forall_mem_cons.mpr ⟨isName_of_child? hnode, ih⟩

/-- Under a path that leads to a folder, the path of one below it leads there if that may be listed. -/
theorem Reaches.find {cwd : Location} (h : t.Reaches path spot dir final) (hanchor : path.anchor ≠ .relative)
    (hspot : t.find cwd path = .ok spot) (hfolder : t.isFolderAt spot.location = true)
    (hlistable : t.isListable (path.below dir) = true) :
    t.descend spot.links spot.location dir = .ok final := by
  obtain ⟨hbytes, hbarred, -⟩ := isListable_iff.mp hlistable
  refine (h.descend hfolder).resolve_right fun hdenied => hbarred ?_
  have hnul : (path.below dir).hasNul = false :=
    hasNul_below (hasNul_of_find hspot) fun s hs => (isName_iff.mp (h.isName s hs)).2.2.2.2
  rw [find_of_anchored (show (path.below dir).anchor ≠ .relative from hanchor) [] cwd, find_below hspot, hnul,
    if_neg Bool.false_ne_true, if_neg (by omega), hdenied]

/-- **Many steps of a walk** lead where the entries lead, one after the other. -/
theorem folderBelow?_eq_some_iff_reaches :
    t.folderBelow? path spot dir = some final ↔ t.Reaches path spot dir final := by
  induction dir generalizing path spot with
  | nil =>
      constructor
      · intro h
        obtain rfl := Option.some.inj h
        exact .here
      · intro h
        cases h
        rfl
  | cons name dir ih =>
      rw [folderBelow?_cons_eq_some_iff]
      constructor
      · rintro ⟨sub, hsub, hdir⟩
        exact .down (below?_eq_some_iff_leadsTo.mp hsub) (ih.mp hdir)
      · intro h
        cases h with
        | down hname hdir => exact ⟨_, below?_eq_some_iff_leadsTo.mpr hname, ih.mpr hdir⟩

/-! ### Files -/

/-- The given names lead down to something that is not, and does not lead to, a folder. -/
def HasFile (t : FileTree) (path : Path) (spot : Spot) (names : List String) : Prop :=
  ∃ dir name sub node, names = dir ++ [name] ∧ t.Reaches path spot dir sub ∧
    t.child? sub.location name = some node ∧ ∀ final, ¬ t.LeadsTo (path.below dir) sub name final

/-- **A walk finds** the files below its folder, and no others. -/
theorem mem_walk_iff_hasFile {room : Nat} {found : List (List String)}
    (h : t.walk room path spot = .ok found) {names : List String} :
    names ∈ found ↔ t.HasFile path spot names := by
  have hfile : ∀ dir name sub, name ∈ t.files (path.below dir) sub ↔
      (∃ node, t.child? sub.location name = some node) ∧
        ∀ final, ¬ t.LeadsTo (path.below dir) sub name final := by
    intro dir name sub
    rw [mem_files_iff, mem_names_iff, Option.eq_none_iff_forall_ne_some]
    simp only [ne_eq, below?_eq_some_iff_leadsTo]
  rw [mem_walk_iff h]
  constructor
  · rintro ⟨dir, name, sub, rfl, hsub, hname⟩
    obtain ⟨⟨node, hnode⟩, hnone⟩ := (hfile dir name sub).mp hname
    exact ⟨dir, name, sub, node, rfl, folderBelow?_eq_some_iff_reaches.mp hsub, hnode, hnone⟩
  · rintro ⟨dir, name, sub, node, rfl, hreaches, hnode, hnone⟩
    exact ⟨dir, name, sub, rfl, folderBelow?_eq_some_iff_reaches.mpr hreaches,
      (hfile dir name sub).mpr ⟨⟨node, hnode⟩, hnone⟩⟩

theorem HasFile.ne_nil {names : List String} (h : t.HasFile path spot names) : names ≠ [] := by
  obtain ⟨dir, name, -, -, rfl, -⟩ := h
  simp

/-- The names on the way to a file can stand in a path. -/
theorem HasFile.proper {names : List String} (h : t.HasFile path spot names) : Text.Proper names := by
  have hname : ∀ {l : Location} {name : String} {node : Node}, t.child? l name = some node →
      name ≠ "" ∧ name ≠ "." ∧ '/' ∉ name.toList := by
    intro l name node hchild
    obtain ⟨hempty, hdot, -, hslash, -⟩ := isName_iff.mp (isName_of_child? hchild)
    exact ⟨hempty, hdot, hslash⟩
  obtain ⟨dir, name, sub, node, rfl, hreaches, hnode, -⟩ := h
  have hdir : ∀ s ∈ dir, s ≠ "" ∧ s ≠ "." ∧ '/' ∉ s.toList := by
    clear hnode
    induction hreaches with
    | here => simp
    | down hleads _ ih =>
        obtain ⟨entry, hentry⟩ := hleads.exists_child?
        exact List.forall_mem_cons.mpr ⟨hname hentry, ih⟩
  intro s hs
  rcases List.mem_append.mp hs with hs | hs
  · exact hdir s hs
  · rw [List.mem_singleton.mp hs]
    exact hname hnode

/-! ### Folders with files only -/

theorem below?_of_child_file {content : ByteArray}
    (hchild : t.child? spot.location name = some (.file content)) :
    t.below? path spot name = none := by
  rw [Option.eq_none_iff_forall_ne_some]
  intro sub hsub
  cases ((below?_of_child hchild (by simp)).mp hsub).1

/-- The walk of a folder with nothing but files in it. -/
theorem walk_of_files {room : Nat} (hlistable : t.isListable path = true)
    (hfiles : ∀ name ∈ t.names spot.location, ∃ content, t.child? spot.location name = some (.file content)) :
    t.walk (room + 1) path spot = .ok ((t.names spot.location).map ([·])) := by
  have hnone : ∀ name ∈ t.names spot.location, t.below? path spot name = none := fun name hname => by
    obtain ⟨content, hchild⟩ := hfiles name hname
    exact below?_of_child_file hchild
  have hsubfolders : t.subfolders path spot = [] := by
    rw [subfolders, List.filterMap_eq_nil_iff]
    intro name hname
    rw [hnone name hname]
    rfl
  have hkept : t.files path spot = t.names spot.location := by
    rw [files, List.filter_eq_self]
    intro name hname
    rw [hnone name hname]
    rfl
  rw [walk_succ, if_pos hlistable, hsubfolders, hkept]
  simp [pure, Except.pure]

end AntResources.FileTree
