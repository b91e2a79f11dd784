import AntResources.Proofs.LiteralFiles
import AntResources.Proofs.RealPlaces

/-!
# AntResources.Proofs.ReadingExpressions

**Reading the text of an expression.** A text such as `file:a/../x.js` can be expanded, and it can be read as
it stands. The expansion cancels every `..` in the text. The reader leaves it to the file system, which goes
into the folder `a` first, and stops if there is none. In a tree without links this is all that makes a
difference: a path leads where its text says exactly if each folder is there that it leaves by `..`, and
something is at its end (`FileTree.descend_eq_ok_iff_of_linkless`). So a text that stands for one file is read
like the locator of that file, if it can be followed (`outcome_read_expression`).
-/

namespace AntResources

open Contribution (Setup)
open Text

/-! ### Ways without links -/

namespace FileTree

variable {t : FileTree} {l above below : Location} {links : Nat} {spot : Spot} {parts : List String}
  {part : String}

theorem IsPlace.upper (h : t.IsPlace (above ++ below)) : t.IsPlace above := by
  rcases List.eq_nil_or_concat below with rfl | ⟨first, last, rfl⟩
  · rwa [List.append_nil] at h
  · rw [List.concat_eq_append, ← List.append_assoc] at h
    exact h.exists_child.1.upper.isPlace

/-- One step down to a place. -/
theorem IsPlace.descend_cons (h : t.IsPlace (l ++ [part])) (links : Nat) (parts : List String) :
    t.descend links l (part :: parts) = t.descend links (l ++ [part]) parts := by
  obtain ⟨hthere, node, hchild, hlong, hlink⟩ := h.exists_child
  exact descend_of_child_eq_some links parts hthere.isOpenAt_self hlong hchild hlink

/-- Where no links are, each step down is to a place. -/
theorem isPlace_of_descend_cons (hlinks : t.LinklessBelow []) (hplace : t.IsPlace l) (hname : part ≠ "")
    (hdot : part ≠ ".") (hup : part ≠ "..") (h : t.descend links l (part :: parts) = .ok spot) :
    t.IsPlace (l ++ [part]) := by
  obtain ⟨hlong, node, hchild⟩ := child?_of_descend hname hdot hup h
  refine .child (hplace.isThere (isOpenAt_of_descend hname h)) hchild hlong ?_
  rintro target rfl
  exact hlinks l List.nil_prefix part target hchild

/-- Each folder that the segments leave by `..`, on their way from a location, is there. -/
def HasDetours (t : FileTree) (l : Location) (parts : List String) : Prop :=
  ∀ before after, parts = before ++ ".." :: after → t.IsThere (normalizeOnto true l.reverse before)

theorem hasDetours_of_not_mem (h : ".." ∉ parts) : t.HasDetours l parts := by
  rintro before after rfl
  simp at h

/-- The way can be cut anywhere. -/
theorem hasDetours_append_iff {above below : List String} : t.HasDetours l (above ++ below) ↔
    t.HasDetours l above ∧ t.HasDetours (normalizeOnto true l.reverse above) below := by
  constructor
  · intro h
    constructor
    · rintro before after rfl
      exact h before (after ++ below) (by simp)
    · rintro before after rfl
      rw [← normalizeOnto_append]
      exact h (above ++ before) after (by simp)
  · rintro ⟨habove, hbelow⟩ before after hsplit
    rcases List.append_eq_append_iff.mp hsplit with ⟨mid, rfl, hmid⟩ | ⟨mid, rfl, hmid⟩
    · rw [normalizeOnto_append]
      exact hbelow mid after hmid
    · cases mid with
      | nil => simpa [normalizeOnto] using hbelow [] after hmid.symm
      | cons first mid =>
          obtain ⟨rfl, -⟩ := List.cons.inj hmid
          exact habove before mid rfl

theorem hasDetours_cons_name (hskip : ¬ (part = "" ∨ part = ".")) (hup : part ≠ "..") :
    t.HasDetours l (part :: parts) ↔ t.HasDetours (l ++ [part]) parts := by
  have hstep : normalizeOnto true l.reverse [part] = l ++ [part] := by
    rw [normalizeOnto_cons_name hskip hup, normalizeOnto, List.reverse_cons, List.reverse_reverse]
  have hnone : t.HasDetours l [part] := hasDetours_of_not_mem (by simpa using hup.symm)
  rw [← List.singleton_append, hasDetours_append_iff, hstep, and_iff_right hnone]

/-- A `..` leads up from a location that has none in it. -/
theorem normalizeOnto_reverse_cons_up (h : ".." ∉ l) (parts : List String) :
    normalizeOnto true l.reverse (".." :: parts) = normalizeOnto true l.dropLast.reverse parts := by
  rw [← List.singleton_append, normalizeOnto_append, normalizeOnto_rooted_up h]

theorem hasDetours_cons_up (hthere : t.IsThere l) :
    t.HasDetours l (".." :: parts) ↔ t.HasDetours l.dropLast parts := by
  have hleft : t.HasDetours l [".."] := by
    intro before after hsplit
    cases before with
    | nil => simpa [normalizeOnto] using hthere
    | cons first before => simp at hsplit
  rw [← List.singleton_append, hasDetours_append_iff, normalizeOnto_rooted_up hthere.not_mem_up,
    and_iff_right hleft]

theorem isThere_of_hasDetours (h : t.HasDetours l (".." :: parts)) : t.IsThere l := by
  simpa [normalizeOnto] using h [] parts rfl

/-- A way with all its detours that comes to a place starts from one. -/
theorem isPlace_of_hasDetours (hparts : ∀ s ∈ parts, s ≠ "" ∧ s ≠ ".") (h : t.HasDetours l parts)
    (hplace : t.IsPlace (normalizeOnto true l.reverse parts)) : t.IsPlace l := by
  have hdown : ∀ names, (∀ s ∈ names, s ∈ parts) → ".." ∉ names →
      normalizeOnto true l.reverse names = l ++ names := by
    intro names hnames hup
    rw [normalizeOnto_of_plain, List.reverse_reverse]
    exact fun s hs => ⟨(hparts s (hnames s hs)).1, (hparts s (hnames s hs)).2, fun heq => hup (heq ▸ hs)⟩
  by_cases hup : ".." ∈ parts
  · -- As far as the first `..`, the way goes down.
    obtain ⟨names, after, rfl, hnames⟩ := List.eq_append_cons_of_mem hup
    have hthere := h names after rfl
    rw [hdown names (by simp +contextual) hnames] at hthere
    exact hthere.upper.isPlace
  · rw [hdown parts (by simp) hup] at hplace
    exact hplace.upper

/-- **Where no links are**, segments lead where their text says, if each folder is there that they leave by
`..`, and there is something at their end. -/
theorem descend_eq_ok_iff_of_linkless (hlinks : t.LinklessBelow []) (hplace : t.IsPlace l)
    (hparts : ∀ s ∈ parts, s ≠ "" ∧ s ≠ ".") : t.descend links l parts = .ok spot ↔
      spot = ⟨normalizeOnto true l.reverse parts, links⟩ ∧
        t.IsPlace (normalizeOnto true l.reverse parts) ∧ t.HasDetours l parts := by
  -- The way so far has come to the place `l`, of which the text says the same as the tree.
  induction parts generalizing l with
  | nil =>
      have hnone : t.HasDetours l [] := hasDetours_of_not_mem List.not_mem_nil
      rw [descend, normalizeOnto, List.reverse_reverse, Except.ok.injEq, eq_comm]
      simp [hplace, hnone]
  | cons part parts ih =>
      obtain ⟨⟨hempty, hdot⟩, hrest⟩ := List.forall_mem_cons.mp hparts
      by_cases hup : part = ".."
      · subst hup
        by_cases hfolder : t.isOpenAt l = true
        · have hthere := hplace.isThere hfolder
          rw [descend_up hfolder, normalizeOnto_reverse_cons_up hthere.not_mem_up,
            hasDetours_cons_up hthere, ih (hplace.dropLast hfolder) hrest]
        · refine iff_of_false (fun h => hfolder (isOpenAt_of_descend (by decide) h)) ?_
          rintro ⟨-, -, hdetours⟩
          exact hfolder (isThere_of_hasDetours hdetours).isOpenAt_self
      · have hskip : ¬ (part = "" ∨ part = ".") := by simp [hempty, hdot]
        have hstep : part :: l.reverse = (l ++ [part]).reverse := by simp
        rw [normalizeOnto_cons_name hskip hup, hasDetours_cons_name hskip hup, hstep]
        by_cases hnext : t.IsPlace (l ++ [part])
        · rw [hnext.descend_cons, ih hnext hrest]
        · -- Nothing is there to go to, and no later `..` can make up for that.
          refine iff_of_false (fun h => hnext (isPlace_of_descend_cons hlinks hplace hempty hdot hup h)) ?_
          rintro ⟨-, hend, hdetours⟩
          exact hnext (isPlace_of_hasDetours hrest hdetours hend)

/-- The segments of such a way are names, but for the `..`. -/
theorem isName_of_hasDetours (hparts : ∀ s ∈ parts, s ≠ "" ∧ s ≠ ".") (h : t.HasDetours l parts)
    (hplace : t.IsPlace (normalizeOnto true l.reverse parts)) (hmem : part ∈ parts) (hup : part ≠ "..") :
    isName part = true := by
  obtain ⟨before, after, rfl⟩ := List.append_of_mem hmem
  obtain ⟨⟨hempty, hdot⟩, hafter⟩ := List.forall_mem_cons.mp (List.forall_mem_append.mp hparts).2
  have hplain : ∀ s ∈ [part], s ≠ "" ∧ s ≠ "." ∧ s ≠ ".." := by simp [hempty, hdot, hup]
  rw [List.append_cons] at h hplace
  have hdetours := (hasDetours_append_iff.mp h).2
  rw [normalizeOnto_append] at hplace
  -- The way behind the segment starts from a place, whose last name the segment is.
  have hthere := isPlace_of_hasDetours hafter hdetours hplace
  rw [normalizeOnto_append, normalizeOnto_of_plain hplain] at hthere
  exact hthere.isName_of_mem (by simp)

/-- **Where no links are**, a path leads where its text says, if it can be followed. -/
theorem find_eq_ok_iff_of_linkless {cwd : Location} {p : Path} (hlinks : t.LinklessBelow [])
    (hstart : t.IsThere (start cwd p)) (hparts : ∀ s ∈ p.parts, s ≠ "" ∧ s ≠ ".") :
    t.find cwd p = .ok spot ↔ p.byteLength < maxPathBytes ∧ spot = ⟨(p.absolute cwd).parts, maxLinks⟩ ∧
      t.IsPlace (p.absolute cwd).parts ∧ t.HasDetours (start cwd p) p.parts := by
  rw [find_eq_ok_iff, descend_eq_ok_iff_of_linkless hlinks hstart.isPlace hparts, Path.parts_absolute,
    and_iff_right (a := p.parts = [] → t.isOpenAt (start cwd p) = true) fun _ => hstart.isOpenAt_self]
  refine and_iff_right_of_imp ?_
  -- A segment with a NUL is no name, so the path has none.
  rintro ⟨-, -, hplace, hdetours⟩
  rw [Path.hasNul, List.any_eq_false]
  intro s hs
  by_cases hup : s = ".."
  · simp [hup]
  · obtain ⟨-, -, -, -, hnul⟩ := isName_iff.mp (isName_of_hasDetours hparts hdetours hplace hs hup)
    simpa using hnul

end FileTree

/-- A path that can be followed from one segment to the next: it is not too long, and each folder that it
leaves by `..` is there and may be searched. -/
def World.CanFollow (w : World) (p : Path) : Prop :=
  p.byteLength < FileTree.maxPathBytes ∧ w.tree.HasDetours (FileTree.start w.cwd p) p.parts

/-- A file system without links in which every file can be read as text. So no folder keeps one that may not
be searched. -/
structure World.IsReadable (w : World) (encoding : Encoding) : Prop where
  linkless : w.tree.LinklessBelow []
  opened : ∀ l name node content, w.tree.child? l name = some node → node.content? = some content →
    w.tree.isFolderAt l = true → w.tree.isOpenAt l = true
  fits : ∀ l name node, w.tree.child? l name = some node → name.utf8ByteSize ≤ FileTree.maxNameBytes
  hasText : ∀ l name node content, w.tree.child? l name = some node → node.content? = some content →
    ∃ text, encoding.decodeFile content = .text text

namespace World

variable {w : World} {encoding : Encoding} {p : Path} {text : String}

section Follow

variable (hlinks : w.tree.LinklessBelow []) (hstart : w.tree.IsThere (FileTree.start w.cwd p))
  (hparts : ∀ s ∈ p.parts, s ≠ "" ∧ s ≠ ".")

include hlinks hstart hparts

theorem canFollow_of_contents {content : ByteArray} (h : w.contents p = .ok (some content)) :
    w.CanFollow p := by
  obtain ⟨spot, _, hspot, -⟩ := contents_eq_ok_some_iff.mp h
  obtain ⟨hbytes, -, -, hdetours⟩ := (FileTree.find_eq_ok_iff_of_linkless hlinks hstart hparts).mp hspot
  exact ⟨hbytes, hdetours⟩

/-- **A file is read under a path** exactly if that can be followed. -/
theorem readFile_iff_canFollow {node : Node} {content : ByteArray}
    (hplace : w.tree.IsPlace (p.absolute w.cwd).parts)
    (hnode : w.tree.node? (p.absolute w.cwd).parts = some node) (hcontent : node.content? = some content)
    (htext : encoding.decodeFile content = .text text) :
    w.readFile p encoding = .ok text ↔ w.CanFollow p := by
  constructor
  · intro h
    obtain ⟨_, hfound, -⟩ := readFile_eq_ok_iff.mp h
    exact canFollow_of_contents hlinks hstart hparts hfound
  rintro ⟨hbytes, hdetours⟩
  have hfind := (FileTree.find_eq_ok_iff_of_linkless hlinks hstart hparts).mpr
    ⟨hbytes, rfl, hplace, hdetours⟩
  exact readFile_eq_ok_iff.mpr
    ⟨content, contents_eq_ok_some_iff.mpr ⟨_, node, hfind, hnode, hcontent⟩, htext⟩

theorem readFile_of_not_canFollow (hnul : p.hasNul = false) (hnot : ¬ w.CanFollow p) :
    w.readFile p encoding = .error (.resource (.unreadableFile p)) :=
  (readFile_eq_error_iff hnul).mpr (.inr ⟨rfl, fun _ hcontent =>
    absurd (canFollow_of_contents hlinks hstart hparts hcontent) hnot⟩)

end Follow

/-- Under the path of its place a file is read, unless that path is too long. -/
theorem readFile_ofLocation_iff {l : Location} {node : Node} {content : ByteArray} (hplace : w.tree.IsPlace l)
    (hnode : w.tree.node? l = some node) (hcontent : node.content? = some content)
    (htext : encoding.decodeFile content = .text text) :
    w.readFile (Path.ofLocation l) encoding = .ok text ↔
      (Path.ofLocation l).byteLength < FileTree.maxPathBytes := by
  rw [readFile_eq_ok_iff]
  constructor
  · rintro ⟨found, hfound, -⟩
    obtain ⟨spot, _, hspot, -⟩ := contents_eq_ok_some_iff.mp hfound
    exact (FileTree.find_eq_ok_iff.mp hspot).2.1
  · intro hbytes
    have hfind : w.tree.find w.cwd (Path.ofLocation l) = .ok ⟨l, FileTree.maxLinks⟩ :=
      FileTree.find_eq_ok_iff.mpr ⟨hplace.hasNul .root, hbytes, fun _ => rfl, hplace.descend FileTree.maxLinks⟩
    exact ⟨content, contents_eq_ok_some_iff.mpr ⟨_, node, hfind, hnode, hcontent⟩, htext⟩

end World

/-! ### The path of an expression, as it is read -/

namespace Text

/-- Empty segments and `.` make no difference to what segments come to. -/
theorem normalizeOnto_filter (rooted : Bool) (kept segments : List String) :
    normalizeOnto rooted kept (segments.filter fun s => s ≠ "" ∧ s ≠ ".") =
      normalizeOnto rooted kept segments := by
  induction segments generalizing kept with
  | nil => rfl
  | cons s segments ih =>
      by_cases hskip : s = "" ∨ s = "."
      · rw [List.filter_cons_of_neg (by rcases hskip with rfl | rfl <;> simp), normalizeOnto_cons_skip hskip, ih]
      · rw [List.filter_cons_of_pos (by simpa using hskip)]
        by_cases hup : s = ".."
        · subst hup
          rw [normalizeOnto_cons_up, normalizeOnto_cons_up, ih]
        · rw [normalizeOnto_cons_name hskip hup, normalizeOnto_cons_name hskip hup, ih]

theorem length_takeWhile_slash_eq_zero_iff {cs : List Char} :
    (cs.takeWhile (· = '/')).length = 0 ↔ cs.head? ≠ some '/' := by
  rw [List.length_eq_zero_iff]
  refine ⟨fun h hslash => ?_, takeWhile_slash⟩
  obtain ⟨rest, rfl⟩ := List.head?_eq_some_iff.mp hslash
  simp at h

/-- The last segment is at the end of the text. -/
theorem exists_joinSlash_concat (above : List String) (last : String) :
    ∃ before, joinSlash (above ++ [last]) = before ++ last := by
  by_cases hnil : above = []
  · exact ⟨"", by simp [hnil]⟩
  · exact ⟨joinSlash above ++ "/", by
      rw [joinSlash_append hnil (List.cons_ne_nil _ _), joinSlash_singleton]⟩

end Text

namespace Locator

variable {path : List Char}

/-- The segments of a path are read as they are, but for those that say nothing. -/
theorem parts_filePath (path : List Char) : (filePath path).parts =
    ((split '/' path).map String.ofList).filter fun s => s ≠ "" ∧ s ≠ "." := by
  fun_cases filePath path with
  | case1 rest => simp [Path.ofString, splitSlash, split]
  | case2 rest => simp [Path.ofString, splitSlash]

/-- Unless it starts with just two slashes, a path starts from where its text says. -/
theorem anchor_filePath (hslashes : (path.takeWhile (· = '/')).length ≠ 2) :
    (filePath path).anchor = .relative ↔ path.head? ≠ some '/' := by
  have hrelative : ∀ n, Anchor.ofSlashes n = .relative ↔ n = 0 := by
    intro n
    unfold Anchor.ofSlashes
    split <;> simp_all
  fun_cases filePath path with
  | case1 rest =>
      have hmore : (rest.takeWhile (· = '/')).length ≠ 0 := by simpa using hslashes
      rw [Path.ofString, String.toList_ofList, hrelative]
      simpa using hmore
  | case2 rest =>
      rw [Path.ofString, String.toList_ofList, hrelative, length_takeWhile_slash_eq_zero_iff]

theorem start_filePath {path : String} (cwd : Location)
    (hslashes : (path.toList.takeWhile (· = '/')).length ≠ 2) :
    FileTree.start cwd (filePath path.toList) = FileTree.start cwd (Expression.atPath path).parent := by
  have hparent : (Expression.atPath path).parent.anchor = .relative ↔ path.toList.head? ≠ some '/' := by
    simp [Expression.parent, Expression.atPath]
  exact if_congr ((anchor_filePath hslashes).trans hparent.symm) rfl rfl

/-- **The path of an expression** is read as one that comes to the same in its text. -/
theorem parts_absolute_filePath {path : String} (cwd : Location)
    (hslashes : (path.toList.takeWhile (· = '/')).length ≠ 2) :
    ((filePath path.toList).absolute cwd).parts =
      ((Expression.atPath path).target.absolute cwd).parts := by
  have htarget : (Expression.atPath path).target.parts = Expression.pathSegments path.toList :=
    Expression.splitGlob_append _
  have hstart : FileTree.start cwd (Expression.atPath path).target =
      FileTree.start cwd (filePath path.toList) := (start_filePath cwd hslashes).symm
  rw [Path.parts_absolute, Path.parts_absolute, htarget, hstart, parts_filePath, normalizeOnto_filter]
  by_cases hslash : path.toList.head? = some '/'
  · have hroot : FileTree.start cwd (filePath path.toList) = [] :=
      if_neg fun hrelative => (anchor_filePath hslashes).mp hrelative hslash
    rw [hroot, Expression.pathSegments, decide_eq_true hslash]
    exact (normalize_normalize true _).symm
  · rw [Expression.pathSegments_relative hslash]
    exact (normalizeOnto_normalize true _ _).symm

end Locator

/-! ### The file that is listed -/

namespace World

variable {w : World} {base : Path} {name : String} {encoding : Encoding}

/-- A file in a folder that is listed has a text, and the folder is there under its absolute path. -/
theorem IsReadable.exists_text (h : w.IsReadable encoding) (hsame : w.AbsoluteLeadsThere base)
    (hmay : w.MayList base []) (hrooted : (base.absolute w.cwd).anchor = .root)
    (hplain : (base.absolute w.cwd).IsPlain) (hfile : w.HasFile base [name]) :
    w.tree.IsThere (base.absolute w.cwd).parts ∧
    w.tree.IsPlace ((base.absolute w.cwd).parts ++ [name]) ∧ ∃ node content text,
      w.tree.node? ((base.absolute w.cwd).parts ++ [name]) = some node ∧ node.content? = some content ∧
        encoding.decodeFile content = .text text := by
  obtain ⟨spot, hfind, hfolder, dir, last, sub, node, hsplit, hreaches, hchild, hnone⟩ := hfile
  obtain ⟨rfl, rfl⟩ : [] = dir ∧ name = last := List.append_singleton_inj.mp hsplit
  cases hreaches
  have hstart : w.tree.IsThere (FileTree.start w.cwd (base.absolute w.cwd)) := by
    rw [FileTree.start, hrooted, if_neg (by simp)]
    exact .nil _
  have hend : ((base.absolute w.cwd).absolute w.cwd).parts = (base.absolute w.cwd).parts := by
    rw [hplain.absolute, if_neg (by simp [hrooted])]
  have hparts : ∀ s ∈ (base.absolute w.cwd).parts, s ≠ "" ∧ s ≠ "." := fun s hs =>
    ⟨(hplain s hs).1, (hplain s hs).2.1⟩
  -- The listing has found the folder under its absolute path.
  have hlisted := hsame spot hfind (by rwa [MayList, Path.below_nil] at hmay)
  rw [FileTree.find_eq_ok_iff_of_linkless h.linkless hstart hparts, hend] at hlisted
  obtain ⟨-, rfl, hplace, -⟩ := hlisted
  have hfits := h.fits _ name node hchild
  have hlink : ∀ target, node ≠ .link target := by
    rintro target rfl
    exact h.linkless _ List.nil_prefix name target hchild
  obtain ⟨content, hcontent⟩ : ∃ content, node.content? = some content := by
    cases node with
    -- A folder is walked, and not listed as a file.
    | folder | lockedFolder => exact absurd (.folder hchild rfl hfits) (hnone _)
    | link target => exact absurd rfl (hlink target)
    | file content => exact ⟨content, rfl⟩
    | nullDevice => exact ⟨_, rfl⟩
  obtain ⟨text, htext⟩ := h.hasText _ name node content hchild hcontent
  have hthere := hplace.isThere (h.opened _ name node content hchild hcontent hfolder)
  refine ⟨hthere, .child hthere hchild hfits hlink, node, content, text, ?_, hcontent, htext⟩
  rwa [FileTree.child?, if_pos (FileTree.isName_of_child? hchild)] at hchild

end World

/-- The locator of a file whose name goes on with a line feed ends with it. -/
theorem Source.getLast?_fileLocator_feed (root : Path) (name : String) :
    (fileLocator root [name ++ "\n"]).text.toList.getLast? = some '\n' := by
  obtain ⟨before, hbefore⟩ := exists_joinSlash_concat root.parts (name ++ "\n")
  rw [fileLocator, Path.toString_of_ne_nil (by simp), hbefore]
  simp [List.getLast?_cons, List.getLast?_append]

section Single

variable {w : World} {setup : Setup} {path : String} {r : Locator}

theorem Expression.isLiteral_atPath (hwild : '*' ∉ path.toList ∧ '?' ∉ path.toList) :
    (atPath path).IsLiteral := by
  intro s hs
  have hsegments : (atPath path).root ++ (atPath path).glob = pathSegments path.toList := splitGlob_append _
  exact isGlob_of_mem_pathSegments hwild (hsegments ▸ hs)

/-- Where an expression without wildcards lists a single file, that is one that it names. -/
theorem exists_named_of_expand (hcwd : w.HasWorkingFolder)
    (hlast : ∀ c, path.toList.getLast? = some c → isBlank c = false)
    (hwild : '*' ∉ path.toList ∧ '?' ∉ path.toList)
    (hexpand : (expand w setup [Source.fileOrigin ++ ":" ++ path]).outcome = .ok [r]) :
    ¬ w.IsLost (Expression.atPath path).parent ∧ w.MayList (Expression.atPath path).parent [] ∧
      ∃ names, w.HasNamed (Expression.atPath path) names ∧
      r = Source.fileLocator ((Expression.atPath path).parent.absolute w.cwd) names := by
  have hparse := Expression.parse_atPath hlast
  have hliteral := Expression.isLiteral_atPath hwild
  rw [outcome_expand_of_fileOrigin hparse setup rfl] at hexpand
  obtain ⟨ls, hlist, hleaves⟩ := map_eq_ok_iff.mp hexpand
  rw [Expression.leaves_of_inclusion rfl] at hleaves
  subst hleaves
  -- The folder was listed, so no fault has ended that, and all below it may be listed.
  have hfault : ∀ fault, ¬ w.FolderFault (Expression.atPath path).parent fault := fun fault h => by
    rw [Source.outcome_listTree_eq_fault_iff.mpr h] at hlist
    cases hlist
  have hreadable : ¬ IsUnreadable (Source.listTree w (Expression.atPath path)
      (Expression.atPath path).parent).outcome := by
    rintro ⟨error, herror, -⟩
    rw [hlist] at herror
    cases herror
  obtain ⟨hfolder, hmay⟩ :=
    not_or.mp (mt (listsFolder_parent hcwd hparse hfault).fails_iff.mpr hreadable)
  rw [not_not] at hfolder
  have hmay : ∀ dir sub, w.Reaches (Expression.atPath path).parent dir sub →
      w.MayList (Expression.atPath path).parent dir := fun dir sub hsub =>
    not_not.mp fun hnot => hmay ⟨dir, sub, hsub, hnot⟩
  obtain ⟨files, hfiles, hmem, -⟩ := exists_files_of_isLiteral hcwd hparse hliteral hfault hfolder hmay
  rw [hlist, Except.ok.injEq] at hfiles
  obtain ⟨names, rfl, rfl⟩ := List.map_eq_singleton_iff.mp hfiles.symm
  obtain ⟨spot, hfind, hspot⟩ := hfolder
  refine ⟨fun hlost => ?_, hmay [] spot ⟨spot, hfind, hspot, .here⟩, names,
    (hmem names).mp (List.mem_singleton_self names), rfl⟩
  rw [Source.outcome_listTree_of_lost _ hfind hspot hlost] at hlist
  cases hlist

/-- What an expression starts from is there, if its folder is there under its absolute path. -/
theorem World.isThere_start_of_parse {text : String} {e : Expression} {spot : FileTree.Spot}
    (hcwd : w.HasWorkingFolder) (hparse : Expression.parse text = some e) (hlost : ¬ w.IsLost e.parent)
    (hfind : w.tree.find w.cwd e.parent = .ok spot) (hthere : w.tree.IsThere (e.parent.absolute w.cwd).parts) :
    w.tree.IsThere (FileTree.start w.cwd e.parent) := by
  cases habsolute : e.absolute with
  | true =>
      rw [FileTree.start, if_neg (by simp [Expression.parent, habsolute])]
      exact .nil _
  | false =>
      obtain ⟨k, names, hparent, hnames⟩ := Expression.exists_parent_climbs hparse habsolute
      have hstands := hcwd (by simpa [IsLost, hparent] using hlost)
      obtain ⟨-, -, -, hdescend⟩ := FileTree.find_eq_ok_iff.mp hfind
      rw [absolute_of_climbs hstands hnames hparent] at hthere
      rw [hparent, FileTree.start, if_pos rfl] at hdescend ⊢
      exact hstands.isThere_of_climbing hthere.upper hdescend

/-- **The file that is listed** is at the place that the path comes to in its text. -/
theorem exists_place_of_expand {encoding : Encoding} (hcwd : w.HasWorkingFolder)
    (hreadable : w.IsReadable encoding) (hlast : ∀ c, path.toList.getLast? = some c → isBlank c = false)
    (hwild : '*' ∉ path.toList ∧ '?' ∉ path.toList)
    (hexpand : (expand w setup [Source.fileOrigin ++ ":" ++ path]).outcome = .ok [r])
    (hslashes : (path.toList.takeWhile (· = '/')).length ≠ 2)
    (hfeed : r.text.toList.getLast? ≠ some '\n') :
    w.tree.IsThere (FileTree.start w.cwd (Locator.filePath path.toList)) ∧
    ∃ l, ((Locator.filePath path.toList).absolute w.cwd).parts = l ∧ l ≠ [] ∧ w.tree.IsPlace l ∧
      r = ⟨Source.fileOrigin ++ ":" ++ (Path.ofLocation l).toString⟩ ∧
      ∃ node content text, w.tree.node? l = some node ∧ node.content? = some content ∧
        encoding.decodeFile content = .text text := by
  obtain ⟨hlost, hmay, names, ⟨hfile, name, hglob, hnames⟩, rfl⟩ :=
    exists_named_of_expand hcwd hlast hwild hexpand
  obtain rfl : names = [name] := hnames.resolve_right fun hfed => hfeed (by
    rw [hfed]
    exact Source.getLast?_fileLocator_feed _ name)
  have hparse := Expression.parse_atPath hlast
  have hanchor : ((Expression.atPath path).parent.absolute w.cwd).anchor = .root := by
    rw [Path.anchor_absolute, Expression.parent]
    cases (Expression.atPath path).absolute <;> rfl
  have hstands : (Expression.atPath path).parent.anchor = .relative → w.tree.Stands w.cwd := fun hrelative =>
    hcwd (by simpa [World.IsLost, hrelative] using hlost)
  have hproper : Proper ((Expression.atPath path).parent.absolute w.cwd).parts :=
    Path.proper_absolute (Expression.proper_root_of_parse hparse) fun hrelative => (hstands hrelative).proper
  have hup : ".." ∉ ((Expression.atPath path).parent.absolute w.cwd).parts :=
    Path.not_mem_absolute fun hrelative => (hstands hrelative).not_mem_up
  have hroot : ((Expression.atPath path).parent.absolute w.cwd).IsPlain := fun s hs =>
    ⟨(hproper s hs).1, (hproper s hs).2.1, fun heq => hup (heq ▸ hs)⟩
  obtain ⟨hthere, hplace, htext⟩ := hreadable.exists_text
    (World.absoluteLeadsThere_of_parse hcwd hparse hlost) hmay hanchor hroot hfile
  obtain ⟨spot, hfind, -⟩ := id hfile
  have hstart := World.isThere_start_of_parse hcwd hparse hlost hfind hthere
  have hplain : ∀ s ∈ [name], s ≠ "" ∧ s ≠ "." ∧ s ≠ ".." := fun s hs =>
    hplace.isPlain .root s (List.mem_append_right _ hs)
  have hparts : ((Locator.filePath path.toList).absolute w.cwd).parts =
      ((Expression.atPath path).parent.absolute w.cwd).parts ++ [name] := by
    rw [Locator.parts_absolute_filePath w.cwd hslashes, ← Expression.parent_below_glob, hglob,
      Path.absolute_below hplain]
    rfl
  rw [Locator.start_filePath w.cwd hslashes]
  refine ⟨hstart, _, hparts, by simp, hplace, ?_, htext⟩
  rw [Source.fileLocator, hanchor]
  rfl

end Single

/-- **A text that is expanded and read.** Let `file:` and a path stand for one file, in a file system without
links in which every file can be read. What is listed then is the place that the path comes to in its text. The
text itself is read to the same as the listed locator, if the path can be followed from one segment to the next:
where it leaves a folder by `..` which is not there, the expansion cancels both, and the reader fails. Each of the
two paths may be too long to be read, the one as it is written and the absolute one. -/
theorem outcome_read_expression (w : World) (setup : Setup) (reading : ReadSetup) (path : String)
    (r : Locator) (hcwd : w.HasWorkingFolder) (hreadable : w.IsReadable reading.encoding)
    (hlast : ∀ c, path.toList.getLast? = some c → isBlank c = false)
    (hwild : '*' ∉ path.toList ∧ '?' ∉ path.toList)
    (hexpand : (expand w setup [Source.fileOrigin ++ ":" ++ path]).outcome = .ok [r])
    (hslashes : (path.toList.takeWhile (· = '/')).length ≠ 2)
    (hfeed : r.text.toList.getLast? ≠ some '\n') :
    let t : Locator := ⟨Source.fileOrigin ++ ":" ++ path⟩
    let p := Locator.filePath path.toList
    let place := Path.ofLocation (p.absolute w.cwd).parts
    r = ⟨Source.fileOrigin ++ ":" ++ place.toString⟩ ∧
    (∃ text, ((t.read w reading).outcome = .ok text ↔ w.CanFollow p) ∧
      ((r.read w reading).outcome = .ok text ↔ place.byteLength < FileTree.maxPathBytes)) ∧
    (p.hasNul = false → ¬ w.CanFollow p →
      (t.read w reading).outcome = .error (.resource (.unreadableFile p))) := by
  intro t p place
  obtain ⟨hstart, l, hl, hne, hplace, hlocator, node, content, text, hnode, hcontent, htext⟩ :=
    exists_place_of_expand hcwd hreadable hlast hwild hexpand hslashes hfeed
  have hread : (t.read w reading).outcome = w.readFile p reading.encoding := Locator.read_file w reading path
  have hsegments : ∀ s ∈ p.parts, s ≠ "" ∧ s ≠ "." := fun s hs => by
    have hkept : s ∈ List.filter _ _ := Locator.parts_filePath path.toList ▸ hs
    simpa using (List.mem_filter.mp hkept).2
  have hpath : place = Path.ofLocation l := congrArg Path.ofLocation hl
  have hback : Locator.filePath (Path.ofLocation l).toString.toList = Path.ofLocation l :=
    Locator.filePath_toString hplace.proper hne
  rw [hread, hpath, hlocator, Locator.read_file, hback]
  subst hl
  exact ⟨rfl, ⟨text, World.readFile_iff_canFollow hreadable.linkless hstart hsegments hplace hnode hcontent
    htext, World.readFile_ofLocation_iff hplace hnode hcontent htext⟩,
    World.readFile_of_not_canFollow hreadable.linkless hstart hsegments⟩

/-! ### A path through a folder that is not there -/

theorem isReadable_twoFolders : twoFolders.IsReadable .utf8 := by
  have hnodes : ∀ l name node, twoFolders.tree.child? l name = some node →
      (l ++ [name], node) ∈ twoFolders.tree.nodes := fun l name node => FileTree.mem_nodes_of_child?
  have hopen : twoFolders.tree.allOpen = true := rfl
  have hentries : ∀ entry ∈ twoFolders.tree.nodes, (∀ name ∈ entry.1, name.utf8ByteSize ≤ 255) ∧
      (entry.2 = .folder ∨ entry.2 = .file ⟨#[50]⟩ ∨ entry.2 = .file ⟨#[49]⟩) := by
    simp only [twoFolders, List.forall_mem_cons]
    refine ⟨⟨by decide, .inl trivial⟩, ⟨by decide, .inl trivial⟩, ⟨by decide, .inr (.inl trivial)⟩,
      ⟨by decide, .inl trivial⟩, ⟨by decide, .inr (.inr trivial)⟩, by simp⟩
  constructor
  case linkless =>
    intro l _ name target hchild
    simpa using (hentries _ (hnodes l name _ hchild)).2
  case opened =>
    intro l _ _ _ _ _ hfolder
    rwa [FileTree.isFolderAt_eq_of_allOpen hopen] at hfolder
  case fits =>
    intro l name node hchild
    exact (hentries _ (hnodes l name _ hchild)).1 name (by simp)
  case hasText =>
    intro l name node content hchild hcontent
    rcases (hentries _ (hnodes l name _ hchild)).2 with rfl | rfl | rfl
    · cases hcontent
    · obtain rfl := Option.some.inj hcontent
      exact ⟨"2", by decide +kernel⟩
    · obtain rfl := Option.some.inj hcontent
      exact ⟨"1", by decide +kernel⟩

/-- From the folder `c`, such a path stands for the file in the folder `d` beside it. -/
theorem expand_beside_twoFolders (setup : Setup) (path : String)
    (hlast : ∀ c, path.toList.getLast? = some c → isBlank c = false)
    (hrelative : path.toList.head? ≠ some '/')
    (hsegments : Expression.pathSegments path.toList = ["..", "d", "x.js"]) :
    (expand twoFolders setup [Source.fileOrigin ++ ":" ++ path]).outcome = .ok [⟨"file:/d/x.js"⟩] := by
  have hparse := Expression.parse_atPath hlast
  have hroot : (Expression.atPath path).root = ["..", "d"] := by
    simp [Expression.atPath, hsegments]
    decide
  have hglob : (Expression.atPath path).glob = ["x.js"] := by
    simp [Expression.atPath, hsegments]
    decide
  have hparent : (Expression.atPath path).parent = ⟨.relative, ["..", "d"]⟩ := by
    rw [Expression.parent, hroot]
    simp [Expression.atPath, hrelative]
  have hplace : twoFolders.tree.IsThere ["d"] := (FileTree.IsThere.nil _).child rfl (by decide)
  have hfind : twoFolders.tree.find twoFolders.cwd ⟨.relative, ["..", "d"]⟩ =
      .ok ⟨["d"], FileTree.maxLinks⟩ := by
    refine FileTree.find_eq_ok_iff.mpr ⟨by decide, by decide, by simp, ?_⟩
    exact (FileTree.descend_up rfl ["d"]).trans (FileTree.IsThere.descend hplace FileTree.maxLinks)
  have hlost : ¬ twoFolders.IsLost (Expression.atPath path).parent := fun h => absurd h.2 (by decide)
  have hsame := World.absoluteLeadsThere_of_parse hasWorkingFolder_twoFolders hparse hlost
  have habsolute : Path.absolute twoFolders.cwd ⟨.relative, ["..", "d"]⟩ = ⟨.root, ["d"]⟩ := by decide
  rw [outcome_expand_of_fileOrigin hparse setup rfl, map_eq_ok_iff]
  refine ⟨_, ?_, Expression.leaves_of_inclusion rfl _⟩
  rw [hparent] at hsame hlost ⊢
  rw [Source.outcome_listTree_of_folder _ hsame hlost hfind rfl, habsolute, walk_twoFolders]
  show Except.ok (Source.matchingFiles (Expression.atPath path) ⟨.root, ["d"]⟩ [["x.js"]]) = _
  rw [Source.matchingFiles, Expression.globText, hglob]
  decide +kernel

/-- A path that goes through a folder which is not there. It stands for the file in `d`, and is not read. -/
theorem outcome_read_missing_detour :
    twoFolders.HasWorkingFolder ∧ twoFolders.IsReadable .utf8 ∧
    (expand twoFolders ⟨SearchPath.resolve [] twoFolders, 1⟩ ["file:nodir/../../d/x.js"]).outcome =
      .ok [⟨"file:/d/x.js"⟩] ∧
    ((Locator.mk "file:/d/x.js").read twoFolders
      ⟨SearchPath.resolve [] twoFolders, none, .utf8⟩).outcome = .ok "1" ∧
    ((Locator.mk "file:nodir/../../d/x.js").read twoFolders
      ⟨SearchPath.resolve [] twoFolders, none, .utf8⟩).outcome =
        .error (.resource (.unreadableFile ⟨.relative, ["nodir", "..", "..", "d", "x.js"]⟩)) := by
  refine ⟨hasWorkingFolder_twoFolders, isReadable_twoFolders, ?_, ?_, ?_⟩
  · have hlast : ∀ c, "nodir/../../d/x.js".toList.getLast? = some c → isBlank c = false :=
      isBlank_of_eq_some rfl rfl
    exact expand_beside_twoFolders _ "nodir/../../d/x.js" hlast (by decide) (by decide)
  · have hthere : twoFolders.tree.IsThere ["d"] := (FileTree.IsThere.nil _).child rfl (by decide)
    have hchild : twoFolders.tree.child? ["d"] "x.js" = some (.file ⟨#[49]⟩) := rfl
    refine (Locator.read_file twoFolders _ "/d/x.js").trans ?_
    have hpath : Locator.filePath "/d/x.js".toList = ⟨.root, ["d", "x.js"]⟩ := by decide
    rw [hpath]
    exact World.readFile_of_isThere hthere rfl (by decide) (by decide) (by decide) hchild (by decide +kernel)
  · refine (Locator.read_file twoFolders _ "nodir/../../d/x.js").trans ?_
    have hpath : Locator.filePath "nodir/../../d/x.js".toList =
        ⟨.relative, ["nodir", "..", "..", "d", "x.js"]⟩ := by decide
    rw [hpath]
    refine World.readFile_of_not_canFollow isReadable_twoFolders.linkless isThere_twoFolders (by decide)
      (by decide) fun hfollow => ?_
    have hmissing : twoFolders.tree.IsThere ["c", "nodir"] := hfollow.2 ["nodir"] ["..", "d", "x.js"] rfl
    have hchild : twoFolders.tree.child? ["c"] "nodir" = none := rfl
    rw [(hmissing ["c"] "nodir" [] rfl).1] at hchild
    cases hchild

/-- A path that goes through a folder which is there is expanded and read alike. -/
theorem outcome_read_expression_beside :
    (expand twoFolders ⟨SearchPath.resolve [] twoFolders, 1⟩ ["file:../c/.././/d/x.js"]).outcome =
      .ok [⟨"file:/d/x.js"⟩] ∧
    ∃ text, ((Locator.mk "file:../c/.././/d/x.js").read twoFolders
        ⟨SearchPath.resolve [] twoFolders, none, .utf8⟩).outcome = .ok text ∧
      ((Locator.mk "file:/d/x.js").read twoFolders
        ⟨SearchPath.resolve [] twoFolders, none, .utf8⟩).outcome = .ok text := by
  have hlast : ∀ c, "../c/.././/d/x.js".toList.getLast? = some c → isBlank c = false :=
    isBlank_of_eq_some rfl rfl
  have hexpand := expand_beside_twoFolders ⟨SearchPath.resolve [] twoFolders, 1⟩ "../c/.././/d/x.js" hlast
    (by decide) (by decide)
  obtain ⟨-, ⟨text, hwritten, hlisted⟩, -⟩ := outcome_read_expression twoFolders _
    ⟨SearchPath.resolve [] twoFolders, none, .utf8⟩ "../c/.././/d/x.js" _ hasWorkingFolder_twoFolders
    isReadable_twoFolders hlast (by decide) hexpand (by decide) (by decide)
  have hpath : Locator.filePath "../c/.././/d/x.js".toList =
      ⟨.relative, ["..", "c", "..", "d", "x.js"]⟩ := by decide
  refine ⟨hexpand, text, hwritten.mpr ?_, hlisted.mpr ?_⟩
  · rw [hpath]
    refine ⟨by decide, ?_⟩
    show twoFolders.tree.HasDetours ["c"] ["..", "c", "..", "d", "x.js"]
    rw [FileTree.hasDetours_cons_up isThere_twoFolders, FileTree.hasDetours_cons_name (by decide) (by decide)]
    show twoFolders.tree.HasDetours ["c"] ["..", "d", "x.js"]
    rw [FileTree.hasDetours_cons_up isThere_twoFolders]
    exact FileTree.hasDetours_of_not_mem (by decide)
  · rw [hpath]
    decide

end AntResources
