import AntResources.Program
import AntResources.Proofs.ListedLocators
import AntResources.Proofs.TreeListing

/-!
# AntResources.Proofs.ReadingFiles

**What a listed file reads as.** A listing finds entries of folders (`World.Finds`) and gives them the
absolute paths under which it found them. Such a path leads back to the same entry, unless it is too
long or starts with two slashes (`World.Finds.find_path`), so reading it gives the content of the entry,
if that has any (`World.Finds.readFile_path_iff`). An entry need not have content: whatever leads to no
folder counts as a file, and so does a link that leads nowhere.
-/

namespace AntResources

open Text

/-! ### Content -/

/-- The content of a node that can be read. -/
def Node.content? : Node → Option ByteArray
  | .file content => some content
  | .nullDevice => some ByteArray.empty
  | .folder | .lockedFolder | .link _ => none

namespace FileTree

variable {t : FileTree} {path : Path} {spot sub : Spot} {name : String} {dir : List String}
  {content : ByteArray}

/-- The entry with the given name, in the folder at `spot`, is something with the given content, or a
link to it. Nothing has content in a folder that may not be searched. -/
inductive LeadsToContent (t : FileTree) (spot : Spot) (name : String) (content : ByteArray) : Prop where
  | here {node : Node} : t.isOpenAt spot.location = true → t.child? spot.location name = some node →
      node.content? = some content → name.utf8ByteSize ≤ maxNameBytes → LeadsToContent t spot name content
  | link {target : String} {links : Nat} {sub : Spot} {node : Node} : t.isOpenAt spot.location = true →
      t.child? spot.location name = some (.link target) → name.utf8ByteSize ≤ maxNameBytes →
      spot.links = links + 1 →
      t.descend links (targetStart spot.location target) (targetParts target) = .ok sub →
      t.node? sub.location = some node → node.content? = some content →
      LeadsToContent t spot name content

/-- The content that is found by going down to an entry. -/
theorem leadsToContent_iff (hentry : ∃ node, t.child? spot.location name = some node) :
    t.LeadsToContent spot name content ↔ ∃ final node,
      t.descend spot.links spot.location [name] = .ok final ∧ t.node? final.location = some node ∧
        node.content? = some content := by
  constructor
  · intro h
    cases h with
    | @here node hopen hchild hcontent hlong =>
        have hlink : ∀ target, node ≠ .link target := by
          rintro target rfl
          cases hcontent
        refine ⟨⟨spot.location ++ [name], spot.links⟩, node, ?_, ?_, hcontent⟩
        · rw [descend_of_child_eq_some _ _ hopen hlong hchild hlink, descend]
        · rwa [child?, if_pos (isName_of_child? hchild)] at hchild
    | link hopen hchild hlong hlinks hdescend hnode hcontent =>
        refine ⟨_, _, ?_, hnode, hcontent⟩
        rw [hlinks, descend_of_child_eq_link _ _ hopen hlong hchild, List.append_nil, hdescend]
  · rintro ⟨final, node, hdescend, hnode, hcontent⟩
    obtain ⟨entry, hchild⟩ := hentry
    have hname := isName_of_child? hchild
    obtain ⟨hempty, hdot, hup, -⟩ := isName_iff.mp hname
    have hopen := isOpenAt_of_descend hempty hdescend
    obtain ⟨hlong, -⟩ := child?_of_descend hempty hdot hup hdescend
    cases entry with
    | link target =>
        obtain ⟨links, hlinks, htarget⟩ := exists_descend_of_link hchild hdescend
        rw [List.append_nil] at htarget
        exact .link hopen hchild hlong hlinks htarget hnode hcontent
    | folder | lockedFolder | file | nullDevice =>
        rw [descend_of_child_eq_some _ _ hopen hlong hchild (by simp), descend] at hdescend
        obtain rfl := Except.ok.inj hdescend
        refine .here hopen hchild ?_ hlong
        rw [child?, if_pos hname] at hchild
        obtain rfl := Option.some.inj (hchild.symm.trans hnode)
        exact hcontent

/-- A NUL is met before anything is looked up. -/
theorem descend_ne_nul (links : Nat) (here : Location) (parts : List String) :
    t.descend links here parts ≠ .error .nul := by
  fun_induction FileTree.descend t links here parts with
  | case1 | case6 | case7 | case8 => simp
  | case3 =>
      rw [barrier]
      split <;> simp
  | case2 | case4 | case5 | case9 | case10 => assumption

theorem find_ne_nul {cwd : Location} (h : path.hasNul = false) : t.find cwd path ≠ .error .nul := by
  rw [find, h, if_neg Bool.false_ne_true]
  split
  · simp
  · exact descend_ne_nul _ _ _

end FileTree

/-! ### Reading a path -/

namespace World

variable {w : World} {p : Path} {encoding : Encoding}

theorem contents_eq_ok_some_iff {content : ByteArray} :
    w.contents p = .ok (some content) ↔ ∃ spot node, w.tree.find w.cwd p = .ok spot ∧
      w.tree.node? spot.location = some node ∧ node.content? = some content := by
  unfold contents FileTree.contents FileTree.lookUp
  cases w.tree.find w.cwd p with
  | error obstacle => cases obstacle <;> simp [Except.mapError]
  | ok spot =>
      dsimp only
      cases hnode : w.tree.node? spot.location with
      | none => simp [Except.mapError, hnode]
      | some node => cases node <;> simp [Except.mapError, Node.content?, hnode]

theorem readFile_eq_ok_iff {text : String} : w.readFile p encoding = .ok text ↔
    ∃ content, w.contents p = .ok (some content) ∧ encoding.decodeFile content = .text text := by
  unfold readFile
  cases w.contents p with
  | error failure => simp
  | ok content? =>
      rw [ok_bind]
      cases content? with
      | none => simp [throw, throwThe, MonadExceptOf.throw]
      | some content => cases hdecode : encoding.decodeFile content <;> simp [hdecode, decoded]

/-- A file is read that lies in a folder which is there. -/
theorem readFile_of_isThere {above : Location} {name text : String} {content : ByteArray}
    (hthere : w.tree.IsThere (FileTree.start w.cwd p ++ above)) (hparts : p.parts = above ++ [name])
    (hnul : p.hasNul = false) (hbytes : p.byteLength < FileTree.maxPathBytes)
    (hlong : name.utf8ByteSize ≤ FileTree.maxNameBytes)
    (hchild : w.tree.child? (FileTree.start w.cwd p ++ above) name = some (.file content))
    (htext : encoding.decodeFile content = .text text) : w.readFile p encoding = .ok text := by
  have hnode : w.tree.node? (FileTree.start w.cwd p ++ above ++ [name]) = some (.file content) := by
    rwa [FileTree.child?, if_pos (FileTree.isName_of_child? hchild)] at hchild
  have hfind := hthere.find hparts hnul hbytes hlong hchild (by simp)
  exact readFile_eq_ok_iff.mpr
    ⟨content, contents_eq_ok_some_iff.mpr ⟨_, _, hfind, hnode, rfl⟩, htext⟩

/-- A path without a NUL in it can be asked for its content. -/
theorem exists_contents (hnul : p.hasNul = false) : ∃ content?, w.contents p = .ok content? := by
  have hfind : w.tree.find w.cwd p ≠ .error .nul := FileTree.find_ne_nul hnul
  unfold contents FileTree.contents FileTree.lookUp
  cases hspot : w.tree.find w.cwd p with
  | error obstacle =>
      rw [hspot] at hfind
      cases obstacle with
      | nul => exact absurd rfl hfind
      | _ => exact ⟨none, rfl⟩
  | ok spot =>
      dsimp only
      cases w.tree.node? spot.location with
      | none => exact ⟨none, rfl⟩
      | some node => cases node <;> exact ⟨_, rfl⟩

/-- A path without a NUL in it fails to be read in two ways only: there is nothing that could be read as
text, or the decoder gives up on what there is. -/
theorem readFile_eq_error_iff {failure : Failure} (hnul : p.hasNul = false) :
    w.readFile p encoding = .error failure ↔
      failure = .fault .refusedText ∧
        (∃ content, w.contents p = .ok (some content) ∧ encoding.decodeFile content = .refused) ∨
      failure = .resource (.unreadableFile p) ∧
        ∀ content, w.contents p = .ok (some content) → encoding.decodeFile content = .undecodable := by
  obtain ⟨content?, hcontent⟩ := exists_contents (w := w) hnul
  unfold readFile
  rw [hcontent, ok_bind]
  cases content? with
  | none => simp [throw, throwThe, MonadExceptOf.throw, eq_comm]
  | some content => cases hdecode : encoding.decodeFile content <;> simp [hdecode, decoded, eq_comm]

end World

/-! ### Entries of folders -/

/-- An entry of a folder: the names `dir` lead down to the folder, which is at `sub`, from the one at the
absolute path `root`, and in the folder the entry has its name. -/
structure Entry where
  root : Path
  dir : List String
  name : String
  sub : FileTree.Spot

namespace Entry

/-- The path of an entry. -/
def path (entry : Entry) : Path := entry.root.below (entry.dir ++ [entry.name])

/-- The locator under which an entry is listed. -/
def locator (entry : Entry) : Locator := Source.fileLocator entry.root (entry.dir ++ [entry.name])

end Entry

/-- A listing that starts from the root of the entry finds it, in a folder that may be listed, and finds
that it leads to no folder. -/
structure World.Finds (w : World) (entry : Entry) : Prop where
  anchored : entry.root.anchor ≠ .relative
  proper : Proper entry.root.parts
  reached : ∃ spot, w.tree.find w.cwd entry.root = .ok spot ∧
    w.tree.isFolderAt spot.location = true ∧ w.tree.Reaches entry.root spot entry.dir entry.sub
  listed : w.tree.isListable (entry.root.below entry.dir) = true
  there : ∃ node, w.tree.child? entry.sub.location entry.name = some node
  noFolder : ∀ final, ¬ w.tree.LeadsTo (entry.root.below entry.dir) entry.sub entry.name final

/-- What the content of an entry is as text: it has some content, which its path is not too long to lead
to, and decoding that comes to the given outcome. -/
def World.Decodes (w : World) (encoding : Encoding) (entry : Entry) (outcome : Decoded) : Prop :=
  ¬ entry.path.TooLong ∧ ∃ content, w.tree.LeadsToContent entry.sub entry.name content ∧
    encoding.decodeFile content = outcome

/-- The text of an entry. -/
def World.HasText (w : World) (encoding : Encoding) (entry : Entry) (text : String) : Prop :=
  w.Decodes encoding entry (.text text)

namespace World.Finds

variable {w : World} {entry : Entry}

theorem isName (h : w.Finds entry) :
    ∀ s ∈ entry.dir ++ [entry.name], FileTree.isName s = true := by
  obtain ⟨spot, -, -, hreaches⟩ := h.reached
  obtain ⟨node, hnode⟩ := h.there
  refine List.forall_mem_append.mpr ⟨hreaches.isName, fun s hs => ?_⟩
  rw [List.mem_singleton.mp hs]
  exact FileTree.isName_of_child? hnode

theorem proper_path (h : w.Finds entry) : Proper entry.path.parts := by
  refine List.forall_mem_append.mpr ⟨h.proper, fun s hs => ?_⟩
  obtain ⟨hempty, hdot, -, hslash, -⟩ := FileTree.isName_iff.mp (h.isName s hs)
  exact ⟨hempty, hdot, hslash⟩

theorem path_ne_nil : entry.path.parts ≠ [] := by simp [Entry.path, Path.below]

theorem hasNul_path (h : w.Finds entry) : entry.path.hasNul = false := by
  obtain ⟨spot, hspot, -⟩ := h.reached
  refine FileTree.hasNul_below (FileTree.hasNul_of_find hspot) fun s hs => ?_
  obtain ⟨-, -, -, -, hnul⟩ := FileTree.isName_iff.mp (h.isName s hs)
  exact hnul

/-- **Where the path of an entry leads.** It leads through the same folders, and to the entry. -/
theorem find_path (h : w.Finds entry) : w.tree.find w.cwd entry.path =
    if FileTree.maxPathBytes ≤ entry.path.byteLength then .error .tooLong
    else w.tree.descend entry.sub.links entry.sub.location [entry.name] := by
  obtain ⟨spot, hspot, hfolder, hreaches⟩ := h.reached
  have hbelow := FileTree.find_below hspot (entry.dir ++ [entry.name])
  rw [show entry.root.below (entry.dir ++ [entry.name]) = entry.path from rfl, h.hasNul_path,
    if_neg Bool.false_ne_true, FileTree.descend_append,
    hreaches.find h.anchored hspot hfolder h.listed, ok_bind] at hbelow
  exact hbelow

theorem contents_path_iff (h : w.Finds entry) {content : ByteArray} :
    w.contents entry.path = .ok (some content) ↔
      ¬ entry.path.TooLong ∧ w.tree.LeadsToContent entry.sub entry.name content := by
  rw [contents_eq_ok_some_iff, h.find_path, Path.TooLong, h.hasNul_path,
    FileTree.leadsToContent_iff h.there]
  by_cases hlong : FileTree.maxPathBytes ≤ entry.path.byteLength
  · simp [hlong]
  · simp [hlong]

/-- **Reading an entry under its path** gives its text, or says that there is none. -/
theorem readFile_path_iff (h : w.Finds entry) {encoding : Encoding} {text : String} :
    w.readFile entry.path encoding = .ok text ↔ w.HasText encoding entry text := by
  simp only [readFile_eq_ok_iff, h.contents_path_iff, HasText, Decodes, and_assoc, exists_and_left]

/-- **How reading an entry under its path fails.** -/
theorem readFile_path_eq_error (h : w.Finds entry) {encoding : Encoding} {failure : Failure}
    (hfails : w.readFile entry.path encoding = .error failure) :
    failure = .resource (.unreadableFile entry.path) ∨
      failure = .fault .refusedText ∧ w.Decodes encoding entry .refused := by
  rcases (readFile_eq_error_iff h.hasNul_path).mp hfails with ⟨hfailure, content, hcontent, hrefused⟩ |
    ⟨hfailure, -⟩
  · obtain ⟨hshort, hcontent⟩ := h.contents_path_iff.mp hcontent
    exact .inr ⟨hfailure, hshort, content, hcontent, hrefused⟩
  · exact .inl hfailure

variable (setup : ReadSetup)

/-- The path in a locator is read as it was written, but for two slashes at its start. -/
theorem outcome_read (h : w.Finds entry) : (entry.locator.read w setup).outcome =
    w.readFile (if entry.root.anchor = .doubleRoot then ⟨.relative, entry.path.parts⟩ else entry.path)
      setup.encoding := by
  have hread := Locator.read_file w setup entry.path.toString
  rw [Locator.filePath_toString h.proper_path path_ne_nil] at hread
  exact hread

end World.Finds

/-! ### Listed entries -/

theorem Path.anchor_absolute (cwd : Location) (p : Path) :
    (p.absolute cwd).anchor = if p.anchor = .relative then .root else p.anchor := by
  obtain ⟨anchor, parts⟩ := p
  cases anchor <;> rfl

theorem Path.proper_absolute {cwd : Location} {p : Path} (h : Proper p.parts)
    (hcwd : p.anchor = .relative → Proper cwd) : Proper (p.absolute cwd).parts := by
  intro s hs
  rw [Path.parts_absolute] at hs
  rcases mem_normalizeOnto hs with hstart | ⟨hmem, -, -⟩
  · rw [List.mem_reverse, FileTree.start] at hstart
    split at hstart
    case isTrue hrelative => exact hcwd hrelative s hstart
    case isFalse => cases hstart
  · exact h s hmem

theorem FileTree.absolute_eq_ok {cwd : Location} {p root : Path}
    (h : FileTree.absolute cwd p = .ok root) :
    root = p.absolute cwd ∧ (p.anchor = .relative → Location.isGone cwd = false) := by
  unfold absolute at h
  split at h
  · cases h
  · rename_i hthere
    exact ⟨(Except.ok.inj h).symm, by simpa using hthere⟩

variable {w : World}

/-- The files below a folder were found by a walk. -/
theorem exists_walk_of_filesBelow {root : Path} {files : List (List String)}
    (h : Source.filesBelow w root = .ok files) : ∃ spot, w.tree.find w.cwd root = .ok spot ∧
      w.tree.isFolderAt spot.location = true ∧ w.tree.walk maxNesting root spot = .ok files := by
  unfold Source.filesBelow at h
  cases hspot : w.tree.find w.cwd root with
  | error obstacle =>
      rw [hspot] at h
      cases h
  | ok spot =>
      rw [hspot] at h
      dsimp only at h
      split at h
      case isFalse => cases h
      case isTrue hfolder =>
        cases hwalk : w.tree.walk maxNesting root spot with
        | error failure =>
            rw [hwalk] at h
            cases h
        | ok found =>
            rw [hwalk] at h
            obtain rfl : found = files := Except.ok.inj h
            exact ⟨spot, rfl, hfolder, hwalk⟩

theorem exists_finds_of_mem_filesBelow {root : Path} (hanchor : root.anchor ≠ .relative)
    (hproper : Proper root.parts) {files : List (List String)}
    (h : Source.filesBelow w root = .ok files) {names : List String} (hnames : names ∈ files) :
    ∃ entry, w.Finds entry ∧ entry.root = root ∧ entry.dir ++ [entry.name] = names := by
  obtain ⟨spot, hspot, hfolder, hwalk⟩ := exists_walk_of_filesBelow h
  obtain ⟨dir, name, sub, node, rfl, hreaches, hnode, hnone⟩ :=
    (FileTree.mem_walk_iff_hasFile hwalk).mp hnames
  obtain ⟨-, hlisted⟩ := FileTree.exists_walk_eq_ok_iff.mp ⟨files, hwalk⟩ dir sub
    (FileTree.folderBelow?_eq_some_iff_reaches.mpr hreaches)
  exact ⟨⟨root, dir, name, sub⟩, ⟨hanchor, hproper, ⟨spot, hspot, hfolder, hreaches⟩, hlisted,
    ⟨node, hnode⟩, hnone⟩, rfl, rfl⟩

section Expand

variable {workers : Int} {entries texts : List String} {ls : List Locator} {l : Locator}

/-- A listed file is an entry that a listing finds. Two slashes at the start of its path come from the
search path. -/
theorem exists_finds_of_mem_expand (hcwd : w.HasWorkingFolder)
    (h : (expand w ⟨SearchPath.resolve (entries.map Path.ofString) w, workers⟩ texts).outcome = .ok ls)
    (hl : l ∈ ls) (horigin : l.origin = some Source.fileOrigin) :
    ∃ entry, w.Finds entry ∧ entry.locator = l ∧ (entry.root.anchor = .doubleRoot →
      ∃ text ∈ entries, (Path.ofString text).anchor = .doubleRoot) := by
  have hentries : ∀ p ∈ entries.map Path.ofString, Proper p.parts := by
    intro p hp
    obtain ⟨text, -, rfl⟩ := List.mem_map.mp hp
    exact Path.proper_ofString text
  obtain ⟨base, root, files, names, hbase, hslashes, habsolute, hfiles, hnames, rfl⟩ :=
    exists_file_of_mem_expand h hl horigin hentries
  obtain ⟨rfl, hthere⟩ := FileTree.absolute_eq_ok habsolute
  have hanchor := Path.anchor_absolute w.cwd base
  have hproper := Path.proper_absolute hbase fun hrel => (hcwd (hthere hrel)).proper
  have hrooted : (base.absolute w.cwd).anchor ≠ .relative := by
    rw [hanchor]
    split <;> simp [*]
  obtain ⟨entry, hfinds, hroot, hsplit⟩ :=
    exists_finds_of_mem_filesBelow hrooted hproper hfiles hnames
  refine ⟨entry, hfinds, by rw [Entry.locator, hroot, hsplit], fun hdouble => ?_⟩
  rw [hroot, hanchor] at hdouble
  split at hdouble
  · cases hdouble
  · obtain ⟨p, hp, hp'⟩ := hslashes hdouble
    obtain ⟨text, htext, rfl⟩ := List.mem_map.mp hp
    exact ⟨text, htext, hp'⟩

end Expand

/-- Steps that all succeed, with results of some kind, succeed one after the other. -/
theorem exists_mapM_eq_ok_of_forall {ε α β : Type} {f : α → Except ε β} {P : α → β → Prop}
    {xs : List α} (h : ∀ x ∈ xs, ∃ y, f x = .ok y ∧ P x y) :
    ∃ ys, xs.mapM f = .ok ys ∧ List.Forall₂ P xs ys := by
  induction xs with
  | nil => exact ⟨[], rfl, .nil⟩
  | cons x xs ih =>
      obtain ⟨⟨y, hy, hxy⟩, hrest⟩ := List.forall_mem_cons.mp h
      obtain ⟨ys, hys, hall⟩ := ih hrest
      exact ⟨y :: ys, by rw [List.mapM_cons, hy, hys]; rfl, .cons hxy hall⟩

/-- With `--cat`, the text is that of all resources, one after the other. -/
theorem outcome_render_cat (w : World) {o : Options} (hcat : o.cat = true)
    (ls : List Locator) : (Program.render w o ls).outcome = String.join <$>
      ls.mapM fun l => (l.read w (Program.readSetup w o)).outcome := by
  rw [Program.render, if_pos hcat, Trace.outcome_bind, Trace.outcome_mapM]
  rfl

/-- **What a listed file reads as.** Every listed locator of a file names an entry that was found below
a folder. If the path of that folder starts with one slash, then the locator reads as the content of
the very entry, exactly if the entry has text and is not too far away; else the file cannot be read, or the
decoder gives up on it. If it starts with two, as only an entry of the search path can, the locator is read
as a relative path. Where every listed resource is a file with text, these texts are printed one after the
other. -/
theorem outcome_read_listed_file (w : World) (workers : Int) (entries texts : List String)
    (ls : List Locator) (hcwd : w.HasWorkingFolder)
    (hexpand : (expand w ⟨SearchPath.resolve (entries.map Path.ofString) w, workers⟩ texts).outcome =
      .ok ls) :
    (∀ l ∈ ls, l.origin = some Source.fileOrigin →
      (∃ entry, w.Finds entry ∧ entry.locator = l ∧ (entry.root.anchor = .doubleRoot →
        ∃ text ∈ entries, (Path.ofString text).anchor = .doubleRoot)) ∧
      ∀ entry, w.Finds entry → entry.locator = l → ∀ setup : ReadSetup,
        (entry.root.anchor = .root →
          (∀ text, (l.read w setup).outcome = .ok text ↔ w.HasText setup.encoding entry text) ∧
          ∀ failure, (l.read w setup).outcome = .error failure →
            failure = .resource (.unreadableFile entry.path) ∨
              failure = .fault .refusedText ∧ w.Decodes setup.encoding entry .refused) ∧
        (entry.root.anchor = .doubleRoot → (l.read w setup).outcome =
          w.readFile ⟨.relative, entry.path.parts⟩ setup.encoding)) ∧
    ∀ o : Options, o.cat = true →
      (∀ l ∈ ls, ∃ entry text, w.Finds entry ∧ entry.locator = l ∧ entry.root.anchor = .root ∧
        w.HasText .utf8 entry text) →
      ∃ contents, (Program.render w o ls).outcome = .ok (String.join contents) ∧
        List.Forall₂ (fun l text => ∃ entry, w.Finds entry ∧ entry.locator = l ∧
          w.HasText .utf8 entry text) ls contents := by
  -- Under one slash a locator reads as its entry does under its path.
  have hread : ∀ entry, w.Finds entry → entry.root.anchor = .root → ∀ setup : ReadSetup,
      (entry.locator.read w setup).outcome = w.readFile entry.path setup.encoding := by
    intro entry hfinds hanchor setup
    rw [hfinds.outcome_read, if_neg (by simp [hanchor])]
  constructor
  · intro l hl horigin
    refine ⟨exists_finds_of_mem_expand hcwd hexpand hl horigin, ?_⟩
    rintro entry hfinds rfl setup
    refine ⟨fun hanchor => ?_, fun hanchor => by rw [hfinds.outcome_read, if_pos hanchor]⟩
    rw [hread entry hfinds hanchor]
    exact ⟨fun text => hfinds.readFile_path_iff, fun failure => hfinds.readFile_path_eq_error⟩
  · intro o hcat hall
    have hcontents : ∀ l ∈ ls, ∃ text, (l.read w (Program.readSetup w o)).outcome = .ok text ∧
        ∃ entry, w.Finds entry ∧ entry.locator = l ∧ w.HasText .utf8 entry text := by
      intro l hl
      obtain ⟨entry, text, hfinds, rfl, hanchor, htext⟩ := hall l hl
      refine ⟨text, ?_, entry, hfinds, rfl, htext⟩
      rw [hread entry hfinds hanchor]
      exact hfinds.readFile_path_iff.mpr htext
    obtain ⟨contents, hok, hcontents⟩ := exists_mapM_eq_ok_of_forall hcontents
    exact ⟨contents, by rw [outcome_render_cat w hcat, hok, map_ok], hcontents⟩

/-- A world with a file in the folder `d`, and another in `c/d`, where `c` is the working folder. -/
def twoFolders : World where
  tree := ⟨[(["c"], .folder), (["c", "d"], .folder), (["c", "d", "x.js"], .file ⟨#[50]⟩),
    (["d"], .folder), (["d", "x.js"], .file ⟨#[49]⟩)], []⟩
  cwd := ["c"]
  defaultPath := []
  web := []

theorem isThere_twoFolders : twoFolders.tree.IsThere ["c"] :=
  (FileTree.IsThere.nil _).child rfl (by decide)

theorem hasWorkingFolder_twoFolders : twoFolders.HasWorkingFolder :=
  fun _ => isThere_twoFolders.stands

theorem find_twoFolders : twoFolders.tree.find twoFolders.cwd ⟨.doubleRoot, ["d"]⟩ =
    .ok ⟨["d"], FileTree.maxLinks⟩ :=
  FileTree.find_of_child rfl rfl (by decide) (by decide) (by decide)
    (show twoFolders.tree.child? [] "d" = some .folder from rfl) (by simp)

theorem locate_twoFolders : SearchPath.locate twoFolders "" ⟨.doubleRoot, ["d"]⟩ =
    .ok (some (.tree ⟨.doubleRoot, ["d"]⟩)) := by
  have hpresent : twoFolders.isPresent ⟨.doubleRoot, ["d"]⟩ = .ok true := by
    unfold World.isPresent FileTree.isPresent FileTree.test FileTree.lookUp
    rw [find_twoFolders]
    rfl
  rw [SearchPath.locate_of_isFolder (World.isFolder_of_find find_twoFolders)]
  show _ <$> twoFolders.isPresent ⟨.doubleRoot, ["d"]⟩ = _
  rw [hpresent]
  rfl

theorem walk_twoFolders (anchor : Anchor) :
    twoFolders.tree.walk maxNesting ⟨anchor, ["d"]⟩ ⟨["d"], FileTree.maxLinks⟩ =
      .ok [["x.js"]] := by
  have hnames : twoFolders.tree.names ["d"] = ["x.js"] := by decide +kernel
  have hlistable : twoFolders.tree.isListable ⟨anchor, ["d"]⟩ = true :=
    FileTree.isListable_of_allOpen rfl (by cases anchor <;> decide) rfl
  rw [show maxNesting = 987 + 1 from rfl, FileTree.walk_of_files hlistable]
  · exact congrArg (fun names => Except.ok (names.map ([·]))) hnames
  · intro name hname
    obtain rfl := List.mem_singleton.mp (hnames ▸ hname)
    exact ⟨⟨#[49]⟩, rfl⟩

theorem filesBelow_twoFolders : Source.filesBelow twoFolders ⟨.root, ["d"]⟩ = .ok [["x.js"]] := by
  have hfind : twoFolders.tree.find twoFolders.cwd ⟨.root, ["d"]⟩ = .ok ⟨["d"], FileTree.maxLinks⟩ :=
    FileTree.find_of_child rfl rfl (by decide) (by decide) (by decide)
      (show twoFolders.tree.child? [] "d" = some .folder from rfl) (by simp)
  rw [Source.filesBelow, hfind]
  show (twoFolders.tree.walk maxNesting _ _).mapError _ = _
  rw [walk_twoFolders]
  rfl

theorem expand_twoFolders : (expand twoFolders
    ⟨SearchPath.resolve (["//d"].map Path.ofString) twoFolders, 1⟩ ["classpath:*.js"]).outcome =
      .ok [⟨"file://d/x.js"⟩] := by
  have hlist : (Source.listTree twoFolders
      ⟨"classpath:*.js", false, some "classpath", [], ["*.js"], false⟩ ⟨.doubleRoot, ["d"]⟩).outcome =
        .ok [⟨"file://d/x.js"⟩] := by
    rw [Source.outcome_listTree_of_plain_folder _ hasWorkingFolder_twoFolders
      (by unfold Path.IsPlain; decide) (fun h => absurd h.1 (by decide)) find_twoFolders rfl]
    show _ <$> (twoFolders.tree.walk maxNesting ⟨.doubleRoot, ["d"]⟩ _).mapError _ = _
    rw [walk_twoFolders]
    decide +kernel
  have hlisting : listing twoFolders (onlyOn twoFolders ⟨.doubleRoot, ["d"]⟩ 1) "classpath:*.js" =
      .ok [⟨"file://d/x.js"⟩] := by
    rw [listing_onlyOn 1 (e := ⟨"classpath:*.js", false, some "classpath", [], ["*.js"], false⟩) rfl rfl]
    show SearchPath.locate twoFolders "" _ >>= _ = _
    rw [locate_twoFolders]
    exact hlist
  have hexpand := outcome_expand_singleton twoFolders (onlyOn twoFolders ⟨.doubleRoot, ["d"]⟩ 1)
    (show "classpath:*.js" ≠ "" by decide)
  rw [hlisting] at hexpand
  exact hexpand

/-- A file that is listed under a path with two slashes, and read in another place. -/
theorem outcome_read_twoFolders : ∃ entry, twoFolders.Finds entry ∧
    entry.locator = ⟨"file://d/x.js"⟩ ∧ twoFolders.HasText .utf8 entry "1" ∧
    ((Locator.mk "file://d/x.js").read twoFolders
      ⟨SearchPath.resolve (["//d"].map Path.ofString) twoFolders, none, .utf8⟩).outcome = .ok "2" := by
  obtain ⟨hread, -⟩ := outcome_read_listed_file twoFolders 1 ["//d"] ["classpath:*.js"] _
    hasWorkingFolder_twoFolders expand_twoFolders
  obtain ⟨⟨entry, hfinds, hlocator, -⟩, hreads⟩ := hread ⟨"file://d/x.js"⟩ (List.mem_singleton_self _)
    ((Locator.origin_eq_some_iff (by decide) (by decide)).mpr ⟨"//d/x.js", rfl⟩)
  have hpath : entry.path = ⟨.doubleRoot, ["d", "x.js"]⟩ := by
    have htext : entry.path.toString = "//d/x.js" :=
      (String.append_right_inj (Source.fileOrigin ++ ":")).mp (Locator.mk.inj hlocator)
    rw [← Path.ofString_toString hfinds.proper_path World.Finds.path_ne_nil, htext]
    rfl
  refine ⟨entry, hfinds, hlocator, hfinds.readFile_path_iff.mp ?_, ?_⟩
  · rw [hpath]
    have hthere : twoFolders.tree.IsThere ["d"] := (FileTree.IsThere.nil _).child rfl (by decide)
    have hchild : twoFolders.tree.child? ["d"] "x.js" = some (.file ⟨#[49]⟩) := rfl
    exact World.readFile_of_isThere hthere rfl (by decide) (by decide) (by decide) hchild
      (by decide +kernel)
  · rw [(hreads entry hfinds hlocator _).2 (congrArg Path.anchor hpath), hpath]
    have hthere : twoFolders.tree.IsThere ["c", "d"] := isThere_twoFolders.child rfl (by decide)
    have hchild : twoFolders.tree.child? ["c", "d"] "x.js" = some (.file ⟨#[50]⟩) := rfl
    exact World.readFile_of_isThere hthere rfl (by decide) (by decide) (by decide) hchild
      (by decide +kernel)

end AntResources
