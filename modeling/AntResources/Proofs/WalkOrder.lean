import Mathlib.Data.List.Sort
import AntResources.Proofs.FolderWalk

/-!
# AntResources.Proofs.WalkOrder

**The order of a walk.** Names in a folder ascend (`pairwise_names`). What a walk finds therefore comes in
a fixed order, the files of a folder before those of its subfolders (`pairwise_walk`), and a walk that
fails does so at the first folder, in the order of the names on the way, that cannot be listed or lies
too deep (`walk_eq_error_iff`).
-/

namespace AntResources

variable {ε α β : Type}

/-! ### Lists -/

theorem nodup_eraseDups [BEq α] [LawfulBEq α] : ∀ xs : List α, xs.eraseDups.Nodup
  | [] => by simp
  | x :: xs => by
      rw [List.eraseDups_cons, List.nodup_cons, List.mem_eraseDups]
      exact ⟨by simp, nodup_eraseDups _⟩
termination_by xs => xs.length
decreasing_by exact Nat.lt_succ_of_le (List.length_filter_le _ _)

/-- The results of a sequence stand to each other as its steps make them. -/
theorem pairwise_of_mapM_eq_ok {R : α → α → Prop} {S : β → β → Prop} {f : α → Except ε β}
    {xs : List α} {ys : List β} (h : xs.mapM f = .ok ys) (hxs : xs.Pairwise R)
    (hstep : ∀ x x' y y', R x x' → f x = .ok y → f x' = .ok y' → S y y') : ys.Pairwise S := by
  have hok : (ys.map (Except.ok (ε := ε))).Pairwise fun r r' =>
      ∀ y y', r = .ok y → r' = .ok y' → S y y' := by
    rw [← mapM_eq_ok_iff.mp h, List.pairwise_map]
    exact hxs.imp fun hR y y' hy hy' => hstep _ _ y y' hR hy hy'
  rw [List.pairwise_map] at hok
  exact hok.imp fun hS => hS _ _ rfl rfl

/-- If the steps of a sequence ascend, it fails at the least step that does. -/
theorem mapM_eq_error_iff_of_pairwise {R : α → α → Prop} {f : α → Except ε β} {xs : List α}
    (hxs : xs.Pairwise R) (hasymm : ∀ {x y}, R x y → ¬ R y x) {e : ε} :
    xs.mapM f = .error e ↔
      ∃ x ∈ xs, (∀ y ∈ xs, R y x → ∃ b, f y = .ok b) ∧ f x = .error e := by
  rw [mapM_eq_error_iff]
  constructor
  · rintro ⟨before, x, after, rfl, hbefore, hx⟩
    refine ⟨x, by simp, fun y hy hyx => ?_, hx⟩
    obtain ⟨-, hafter, -⟩ := List.pairwise_append.mp hxs
    rcases List.mem_append.mp hy with hy | hy
    · exact hbefore y hy
    · rcases List.mem_cons.mp hy with rfl | hy
      · exact absurd hyx (hasymm hyx)
      · exact absurd hyx (hasymm ((List.pairwise_cons.mp hafter).1 y hy))
  · rintro ⟨x, hmem, hbefore, hx⟩
    obtain ⟨before, after, rfl⟩ := List.append_of_mem hmem
    obtain ⟨-, -, hcross⟩ := List.pairwise_append.mp hxs
    exact ⟨before, x, after, rfl,
      fun y hy => hbefore y (List.mem_append_left _ hy) (hcross y hy x List.mem_cons_self), hx⟩

/-- What stands in order is known by its members. -/
theorem eq_of_pairwise_of_mem_iff {R : α → α → Prop} (hasymm : ∀ {x y}, R x y → ¬ R y x)
    {xs ys : List α} (hxs : xs.Pairwise R) (hys : ys.Pairwise R) (h : ∀ x, x ∈ xs ↔ x ∈ ys) :
    xs = ys := by
  have hnodup : ∀ {zs : List α}, zs.Pairwise R → zs.Nodup := by
    intro zs hzs
    refine hzs.imp fun hR heq => ?_
    subst heq
    exact hasymm hR hR
  have : Std.Antisymm R := ⟨fun _ _ hxy hyx => absurd hyx (hasymm hxy)⟩
  exact List.Perm.eq_of_pairwise' hxs hys
    ((List.perm_ext_iff_of_nodup (hnodup hxs) (hnodup hys)).mpr h)

namespace FileTree

variable {t : FileTree}

/-! ### Names -/

/-- **The names in a folder ascend.** -/
theorem pairwise_names (t : FileTree) (l : Location) : (t.names l).Pairwise (· < ·) := by
  unfold names
  generalize (t.nodes.filterMap _) = found
  have hle : (found.eraseDups.mergeSort fun a b => a ≤ b).Pairwise (· ≤ ·) := by
    have htrans : ∀ a b c : String, decide (a ≤ b) = true → decide (b ≤ c) = true →
        decide (a ≤ c) = true := by
      simpa using fun a b c => String.le_trans
    have htotal : ∀ a b : String, (decide (a ≤ b) || decide (b ≤ a)) = true := by
      simpa using String.le_total
    simpa using List.pairwise_mergeSort htrans htotal found.eraseDups
  have hne : (found.eraseDups.mergeSort fun a b => a ≤ b).Pairwise (· ≠ ·) :=
    (List.mergeSort_perm _ _).nodup_iff.mpr (nodup_eraseDups found)
  refine hle.imp₂ (fun a b hab hne => ?_) hne
  exact String.not_le.mp fun hba => hne (String.le_antisymm hab hba)

theorem pairwise_files (t : FileTree) (path : Path) (spot : Spot) :
    (t.files path spot).Pairwise (· < ·) :=
  (t.pairwise_names spot.location).filter _

theorem pairwise_subfolders (t : FileTree) (path : Path) (spot : Spot) :
    (t.subfolders path spot).Pairwise (·.1 < ·.1) := by
  refine (t.pairwise_names spot.location).filterMap _ ?_
  intro name name' hlt entry hentry entry' hentry'
  obtain ⟨sub, -, rfl⟩ := Option.map_eq_some_iff.mp hentry
  obtain ⟨sub', -, rfl⟩ := Option.map_eq_some_iff.mp hentry'
  exact hlt

/-! ### The order of the files -/

/-- The names on the way to a file come before those on the way to another: if they part where one of
the files is, that comes first; if both lie deeper, or neither does, the lesser name does. -/
inductive Before : List String → List String → Prop where
  | file {name other : String} : name < other → Before [name] [other]
  | fileFirst {name other : String} {rest : List String} : rest ≠ [] → Before [name] (other :: rest)
  | folder {name other : String} {rest rest' : List String} : rest ≠ [] → rest' ≠ [] →
      name < other → Before (name :: rest) (other :: rest')
  | inside {name : String} {rest rest' : List String} :
      Before rest rest' → Before (name :: rest) (name :: rest')

theorem Before.irrefl (names : List String) : ¬ Before names names := by
  induction names with
  | nil => intro h; cases h
  | cons name rest ih =>
      intro h
      cases h with
      | file hlt => exact String.lt_irrefl _ hlt
      | fileFirst hne => exact hne rfl
      | folder _ _ hlt => exact String.lt_irrefl _ hlt
      | inside h => exact ih h

theorem nodup_of_pairwise {files : List (List String)} (h : files.Pairwise Before) : files.Nodup := by
  refine h.imp fun hbefore heq => ?_
  subst heq
  exact hbefore.irrefl

theorem ne_nil_of_mem_walk {room : Nat} {path : Path} {spot : Spot} {found : List (List String)}
    (h : t.walk room path spot = .ok found) {names : List String} (hnames : names ∈ found) :
    names ≠ [] := by
  obtain ⟨dir, name, -, rfl, -⟩ := (mem_walk_iff h).mp hnames
  simp

/-- What is found in one subfolder is in order if what is found below it is. -/
theorem pairwise_walkInto {room : Nat} {path : Path} {entry : String × Spot}
    {part : List (List String)} (h : t.walkInto room path entry = .ok part)
    (hfound : ∀ found, t.walk room (path.child entry.1) entry.2 = .ok found → found.Pairwise Before) :
    part.Pairwise Before := by
  obtain ⟨found, hwalk, rfl⟩ := map_eq_ok_iff.mp h
  rw [List.pairwise_map]
  exact (hfound found hwalk).imp .inside

theorem mem_walkInto {room : Nat} {path : Path} {entry : String × Spot} {part : List (List String)}
    (h : t.walkInto room path entry = .ok part) {names : List String} (hnames : names ∈ part) :
    ∃ rest, rest ≠ [] ∧ names = entry.1 :: rest := by
  obtain ⟨found, hwalk, rfl⟩ := map_eq_ok_iff.mp h
  obtain ⟨rest, hrest, rfl⟩ := List.mem_map.mp hnames
  exact ⟨rest, ne_nil_of_mem_walk hwalk hrest, rfl⟩

/-- **The files that a walk finds are in order.** -/
theorem pairwise_walk {room : Nat} {path : Path} {spot : Spot} {found : List (List String)}
    (h : t.walk room path spot = .ok found) : found.Pairwise Before := by
  induction room generalizing path spot found with
  | zero => cases h
  | succ room ih =>
      obtain ⟨-, below, hbelow, rfl⟩ := walk_succ_eq_ok_iff.mp h
      have hpart : ∀ part ∈ below, ∃ entry, t.walkInto room path entry = .ok part := fun part hpart => by
        obtain ⟨entry, -, hentry⟩ := (mem_iff_of_mapM_eq_ok hbelow).mp hpart
        exact ⟨entry, hentry⟩
      rw [List.pairwise_append, List.pairwise_map, List.pairwise_flatten]
      refine ⟨(t.pairwise_files path spot).imp .file, ⟨fun part hmem => ?_, ?_⟩, ?_⟩
      · obtain ⟨entry, hentry⟩ := hpart part hmem
        exact pairwise_walkInto hentry fun found hfound => ih hfound
      · refine pairwise_of_mapM_eq_ok hbelow (t.pairwise_subfolders path spot) ?_
        intro entry entry' part part' hlt hentry hentry' names hnames names' hnames'
        obtain ⟨rest, hrest, rfl⟩ := mem_walkInto hentry hnames
        obtain ⟨rest', hrest', rfl⟩ := mem_walkInto hentry' hnames'
        exact .folder hrest hrest' hlt
      · intro file hfile names hnames
        obtain ⟨name, -, rfl⟩ := List.mem_map.mp hfile
        obtain ⟨part, hmem, hnames⟩ := List.mem_flatten.mp hnames
        obtain ⟨entry, hentry⟩ := hpart part hmem
        obtain ⟨rest, hrest, rfl⟩ := mem_walkInto hentry hnames
        exact .fileFirst hrest

/-! ### The first folder that ends a walk -/

/-- How a walk with the given room ends at the folder that the given names lead to, if it does. -/
def stop? (t : FileTree) (room : Nat) (path : Path) (dir : List String) : Option WalkFailure :=
  if room ≤ dir.length then some .tooDeep
  else if t.isListable (path.below dir) then none
  else some (.unlistable (path.below dir))

theorem stop?_eq_none_iff {room : Nat} {path : Path} {dir : List String} :
    t.stop? room path dir = none ↔ dir.length < room ∧ t.isListable (path.below dir) = true := by
  by_cases hroom : room ≤ dir.length
  · have hnot : ¬ dir.length < room := by omega
    simp [stop?, hroom, hnot]
  · have hlt : dir.length < room := by omega
    simp [stop?, hroom, hlt]

theorem stop?_eq_tooDeep_iff {room : Nat} {path : Path} {dir : List String} :
    t.stop? room path dir = some .tooDeep ↔ room ≤ dir.length := by
  unfold stop?
  split
  · simp [*]
  · split <;> simp [*]

theorem stop?_cons (room : Nat) (path : Path) (name : String) (dir : List String) :
    t.stop? (room + 1) path (name :: dir) = t.stop? room (path.child name) dir := by
  simp [stop?]

theorem exists_walk_eq_ok_iff_stop? {room : Nat} {path : Path} {spot : Spot} :
    (∃ found, t.walk room path spot = .ok found) ↔
      ∀ dir sub, t.folderBelow? path spot dir = some sub → t.stop? room path dir = none := by
  simp only [stop?_eq_none_iff, exists_walk_eq_ok_iff]

/-- A walk fails at its folder, or else as the walk of the first subfolder that fails. -/
theorem walk_succ_eq_error_iff {room : Nat} {path : Path} {spot : Spot} {failure : WalkFailure} :
    t.walk (room + 1) path spot = .error failure ↔
      t.isListable path = false ∧ .unlistable path = failure ∨
      t.isListable path = true ∧ ∃ name sub, t.below? path spot name = some sub ∧
        t.walk room (path.child name) sub = .error failure ∧
        ∀ name' < name, ∀ sub', t.below? path spot name' = some sub' →
          ∃ found, t.walk room (path.child name') sub' = .ok found := by
  rw [walk_succ]
  cases hlistable : t.isListable path with
  | false => simp
  | true =>
      rw [if_pos rfl, map_eq_error_iff,
        mapM_eq_error_iff_of_pairwise (t.pairwise_subfolders path spot) String.lt_asymm]
      simp only [Prod.exists, Prod.forall, mem_subfolders_iff, walkInto, map_eq_error_iff, map_eq_ok_iff,
        Bool.true_eq_false, false_and, false_or, true_and]
      constructor
      · rintro ⟨name, sub, hsub, hearlier, hfails⟩
        refine ⟨name, sub, hsub, hfails, fun name' hlt sub' hsub' => ?_⟩
        obtain ⟨-, found, hfound, -⟩ := hearlier name' sub' hsub' hlt
        exact ⟨found, hfound⟩
      · rintro ⟨name, sub, hsub, hfails, hearlier⟩
        refine ⟨name, sub, hsub, fun name' sub' hsub' hlt => ?_, hfails⟩
        obtain ⟨found, hfound⟩ := hearlier name' hlt sub' hsub'
        exact ⟨_, found, hfound, rfl⟩

/-- **How a walk fails**: as the first folder that ends it says, in the order of the names on the
way. -/
theorem walk_eq_error_iff {room : Nat} {path : Path} {spot : Spot} {failure : WalkFailure} :
    t.walk room path spot = .error failure ↔
      ∃ dir sub, t.folderBelow? path spot dir = some sub ∧ t.stop? room path dir = some failure ∧
        ∀ dir' < dir, ∀ sub', t.folderBelow? path spot dir' = some sub' →
          t.stop? room path dir' = none := by
  induction room generalizing path spot with
  | zero =>
      have hdeep : ∀ dir, t.stop? 0 path dir = some .tooDeep := fun dir => by simp [stop?]
      constructor
      · intro h
        obtain rfl := Except.error.inj h
        exact ⟨[], spot, rfl, hdeep [], fun dir' hlt => absurd hlt (List.not_lt_nil dir')⟩
      · rintro ⟨dir, -, -, hstop, -⟩
        rw [← Option.some.inj ((hdeep dir).symm.trans hstop), walk]
  | succ room ih =>
      have hhere : t.stop? (room + 1) path [] = if t.isListable path then none
          else some (.unlistable path) := by simp [stop?]
      rw [walk_succ_eq_error_iff]
      constructor
      · rintro (⟨hnot, rfl⟩ | ⟨hlistable, name, sub, hsub, hfails, hearlier⟩)
        · exact ⟨[], spot, rfl, by simpa [hnot] using hhere,
            fun dir' hlt => absurd hlt (List.not_lt_nil dir')⟩
        · obtain ⟨dir, final, hdir, hstop, hfirst⟩ := ih.mp hfails
          refine ⟨name :: dir, final, folderBelow?_cons_eq_some_iff.mpr ⟨sub, hsub, hdir⟩,
            by rw [stop?_cons, hstop], fun dir' hlt final' hdir' => ?_⟩
          cases dir' with
          | nil => rw [hhere, if_pos hlistable]
          | cons name' dir' =>
              obtain ⟨sub', hsub', hdir'⟩ := folderBelow?_cons_eq_some_iff.mp hdir'
              rw [stop?_cons]
              rcases List.cons_lt_cons_iff.mp hlt with hname | ⟨rfl, hrest⟩
              · exact exists_walk_eq_ok_iff_stop?.mp (hearlier name' hname sub' hsub') dir' final' hdir'
              · obtain rfl := Option.some.inj (hsub.symm.trans hsub')
                exact hfirst dir' hrest final' hdir'
      · rintro ⟨dir, final, hdir, hstop, hfirst⟩
        cases dir with
        | nil =>
            cases hlistable : t.isListable path with
            | true =>
                rw [hhere, if_pos hlistable] at hstop
                cases hstop
            | false =>
                rw [hhere, hlistable] at hstop
                exact Or.inl ⟨rfl, Option.some.inj hstop⟩
        | cons name dir =>
            have hlistable : t.isListable path = true := by
              have hnone := hfirst [] (List.nil_lt_cons name dir) spot rfl
              simpa using (stop?_eq_none_iff.mp hnone).2
            obtain ⟨sub, hsub, hdir⟩ := folderBelow?_cons_eq_some_iff.mp hdir
            rw [stop?_cons] at hstop
            refine Or.inr ⟨hlistable, name, sub, hsub, ih.mpr ⟨dir, final, hdir, hstop, ?_⟩, ?_⟩
            · intro dir' hlt final' hdir'
              rw [← stop?_cons]
              exact hfirst (name :: dir') (List.cons_lt_cons_iff.mpr (.inr ⟨rfl, hlt⟩)) final'
                (folderBelow?_cons_eq_some_iff.mpr ⟨sub, hsub, hdir'⟩)
            · intro name' hlt sub' hsub'
              refine exists_walk_eq_ok_iff_stop?.mpr fun dir' final' hdir' => ?_
              rw [← stop?_cons]
              exact hfirst (name' :: dir') (List.cons_lt_cons_iff.mpr (.inl hlt)) final'
                (folderBelow?_cons_eq_some_iff.mpr ⟨sub', hsub', hdir'⟩)

/-! ### The order of the nodes -/

/-- Two trees with the same nodes, though perhaps not in the same order. -/
structure SameNodes (t u : FileTree) : Prop where
  node? : ∀ l, t.node? l = u.node? l
  unlistable : t.unlistable = u.unlistable

namespace SameNodes

variable {u : FileTree}

theorem child? (h : SameNodes t u) (l : Location) (name : String) :
    t.child? l name = u.child? l name := by
  rw [FileTree.child?, FileTree.child?, h.node?]

theorem isOpenAt (h : SameNodes t u) (l : Location) : t.isOpenAt l = u.isOpenAt l := by
  rw [FileTree.isOpenAt, FileTree.isOpenAt, h.node?]

theorem isFolderAt (h : SameNodes t u) (l : Location) : t.isFolderAt l = u.isFolderAt l := by
  rw [FileTree.isFolderAt, FileTree.isFolderAt, h.node?]

/-- The names in a folder ascend, and so do not come in another order. -/
theorem names (h : SameNodes t u) (l : Location) : t.names l = u.names l :=
  eq_of_pairwise_of_mem_iff String.lt_asymm (t.pairwise_names l) (u.pairwise_names l) fun name => by
    rw [mem_names_iff, mem_names_iff, h.child?]

theorem descend (h : SameNodes t u) (links : Nat) (here : Location) (parts : List String) :
    t.descend links here parts = u.descend links here parts := by
  fun_induction FileTree.descend t links here parts with
  | case1 => rw [FileTree.descend]
  | case2 links here part rest hempty ih => rw [FileTree.descend, if_pos (h.isFolderAt here ▸ hempty), ih]
  | _ =>
      rw [FileTree.descend, ← h.isFolderAt, if_neg (by assumption)]
      simp_all [← h.isOpenAt, ← h.child?, barrier, ← h.isFolderAt]

theorem find (h : SameNodes t u) (cwd : Location) (p : Path) : t.find cwd p = u.find cwd p := by
  rw [FileTree.find, FileTree.find, h.descend]

theorem isFolder (h : SameNodes t u) (cwd : Location) (p : Path) :
    t.isFolder cwd p = u.isFolder cwd p := by
  simp only [FileTree.isFolder, FileTree.test, FileTree.lookUp, h.find, h.node?]

theorem below? (h : SameNodes t u) (path : Path) (spot : Spot) (name : String) :
    t.below? path spot name = u.below? path spot name := by
  have hlink : t.isLinkIn spot.location name = u.isLinkIn spot.location name := by
    rw [isLinkIn, isLinkIn, h.child?]
  rw [FileTree.below?, FileTree.below?, hlink, h.descend, h.child?]
  simp only [h.isFolderAt]

theorem isListable (h : SameNodes t u) (path : Path) : t.isListable path = u.isListable path := by
  rw [FileTree.isListable, FileTree.isListable, isBarred, isBarred, h.find, h.unlistable]

/-- **A walk does not depend on the order of the nodes.** -/
theorem walk (h : SameNodes t u) (room : Nat) (path : Path) (spot : Spot) :
    t.walk room path spot = u.walk room path spot := by
  induction room generalizing path spot with
  | zero => rfl
  | succ room ih =>
      have hfiles : t.files path spot = u.files path spot := by
        rw [files, files, h.names]
        simp only [h.below?]
      have hsubfolders : t.subfolders path spot = u.subfolders path spot := by
        rw [subfolders, subfolders, h.names]
        simp only [h.below?]
      have hinto : t.walkInto room path = u.walkInto room path := by
        funext entry
        rw [walkInto, walkInto, ih]
      rw [walk_succ, walk_succ, h.isListable, hfiles, hsubfolders, hinto]

end SameNodes

end FileTree

end AntResources
