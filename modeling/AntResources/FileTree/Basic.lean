import AntResources.Failure

/-!
# AntResources.FileTree.Basic

A tree of folders, files and links, as a finite map from locations to what is there.

Only what can be reached through folders counts: a node below a file, or below nothing, is not part
of the tree, and neither is one whose name could not be written in a path. So every map is a tree
and no map has to be excluded.

* `Node`, `FileTree` — with `node?`, `child?` and `names`;
* `descend` — following a path down from a folder, through links and folders that may be searched;
* `find`, `isFolder`, `isPresent`, `isFile`, `contents` — what a path leads to.
-/

namespace AntResources

open Text

/-- What is at a location. -/
inductive Node where
  | folder
  /-- A folder that may not be searched: its names may be known, but nothing can be looked up in it. -/
  | lockedFolder
  | file (content : ByteArray)
  /-- Another name for what is at the target. -/
  | link (target : String)
  /-- An endless nothing: it reads as empty and keeps nothing that is written to it. -/
  | nullDevice

/-- Whether a node is a folder, be it one that may be searched or not. -/
def Node.isFolder : Node → Bool
  | .folder | .lockedFolder => true
  | _ => false

/-- A file system. The root is always a folder that may be searched, and every file may be read. -/
structure FileTree where
  nodes : List (Location × Node)
  /-- The folders that may not be listed, by the absolute path under which they are reached. -/
  unlistable : List Path

namespace FileTree

/-! ## Nodes -/

/-- A name that one segment of a path can have. -/
def isName (name : String) : Bool :=
  name ≠ "" && name ≠ "." && name ≠ ".." && !name.toList.contains '/'
    && !name.toList.contains '\x00'

/-- What is at a location. -/
def node? (t : FileTree) (l : Location) : Option Node :=
  if l = [] then some .folder else t.nodes.lookup l

/-- Whether a folder is at a location. -/
def isFolderAt (t : FileTree) (l : Location) : Bool :=
  match t.node? l with
  | some node => node.isFolder
  | none => false

/-- Whether a folder that may be searched is at a location. -/
def isOpenAt (t : FileTree) (l : Location) : Bool :=
  match t.node? l with
  | some .folder => true
  | _ => false

/-- What a folder has under a name. -/
def child? (t : FileTree) (l : Location) (name : String) : Option Node :=
  if isName name then t.node? (l ++ [name]) else none

/-- The names in a folder, each once and in ascending order. -/
def names (t : FileTree) (l : Location) : List String :=
  (t.nodes.filterMap fun (place, _) =>
    match place.getLast? with
    | some name => if place.dropLast = l ∧ isName name then some name else none
    | none => none).eraseDups.mergeSort fun a b => a ≤ b

/-! ## Descent -/

/-- Why a path leads nowhere. -/
inductive Obstacle where
  /-- A segment has a NUL in it. -/
  | nul
  /-- The path or a segment of it is too long. -/
  | tooLong
  /-- There is nothing of that name. -/
  | absent
  /-- The path goes on below something that is not a folder. -/
  | notFolder
  /-- The path goes on below a folder that may not be searched. -/
  | denied
  /-- The path goes through too many links. -/
  | linkLoop
deriving DecidableEq, Repr

/-- A place on the way down. -/
structure Spot where
  location : Location
  /-- How many links may still be followed from here on. -/
  links : Nat
deriving DecidableEq, Repr

/-- How many links one path may go through. -/
def maxLinks : Nat := 40

/-- How many bytes a segment of a path may have. -/
def maxNameBytes : Nat := 255

/-- How many bytes a path has to stay below. -/
def maxPathBytes : Nat := 4096

/-- The segments of the target of a link. A slash at the end leaves an empty one, which asks for a
folder. -/
def targetParts (target : String) : List String :=
  (splitSlash target).filter (· ≠ "") ++ (if target.toList.getLast? = some '/' then [""] else [])

/-- Where a link at `here` goes on from: the root for an absolute target. -/
def targetStart (here : Location) (target : String) : Location :=
  if target.toList.head? = some '/' then [] else here

/-- Why no path goes on below a location where no folder may be searched. -/
def barrier (t : FileTree) (l : Location) : Obstacle :=
  if t.isFolderAt l then .denied else .notFolder

/-- Follow the segments of a path from a spot. -/
def descend (t : FileTree) (links : Nat) (here : Location) : List String → Except Obstacle Spot
  | [] => .ok ⟨here, links⟩
  | part :: rest =>
    -- Only to ask for a folder, it need not be one that may be searched, as it has to be for `.`.
    if part = "" ∧ t.isFolderAt here then descend t links here rest
    else if !t.isOpenAt here then .error (t.barrier here)
    else if part = "." then descend t links here rest
    else if part = ".." then descend t links here.dropLast rest
    else if maxNameBytes < part.utf8ByteSize then .error .tooLong
    else
      match t.child? here part with
      | none => .error .absent
      | some (.link target) =>
        match links with
        | 0 => .error .linkLoop
        -- The target is followed first, and from where it ends the rest of the path.
        | links + 1 => descend t links (targetStart here target) (targetParts target ++ rest)
      | some _ => descend t links (here ++ [part]) rest
termination_by parts => (links, parts.length)

/-- Where a path starts. -/
def start (cwd : Location) (p : Path) : Location :=
  if p.anchor = .relative then cwd else []

/-- The segments along which a path is followed. One that has none is followed along `.`, and so to a
folder that may be searched. -/
def along (p : Path) : List String := if p.parts = [] then ["."] else p.parts

/-- The place that a path leads to. -/
def find (t : FileTree) (cwd : Location) (p : Path) : Except Obstacle Spot :=
  if p.hasNul then .error .nul
  else if maxPathBytes ≤ p.byteLength then .error .tooLong
  else t.descend maxLinks (start cwd p) (along p)

/-- The absolute path that `p` means in the working folder, with every `..` cancelled in the text. A
relative path means none once the working folder has been removed. -/
def absolute (cwd : Location) (p : Path) : Except Fault Path :=
  if p.anchor = .relative && Location.isGone cwd then .error .missingFolder
  else .ok (p.absolute cwd)

/-! ## What a path leads to -/

/-- The node that a path leads to. -/
def lookUp (t : FileTree) (cwd : Location) (p : Path) : Except Obstacle Node :=
  match t.find cwd p with
  | .error obstacle => .error obstacle
  | .ok spot =>
    match t.node? spot.location with
    | some node => .ok node
    | none => .error .absent

/-- The fault that an obstacle is where it is asked what a path leads to, if it is one: a path that is
too long, or leads through a folder that may not be searched, does not say that nothing is there. -/
def Obstacle.refusal? : Obstacle → Option Fault
  | .tooLong => some .nameTooLong
  | .denied => some .permissionDenied
  | _ => none

/-- Whether a path leads to a node of some kind. -/
def test (t : FileTree) (cwd : Location) (p : Path) (kind : Node → Bool) : Except Fault Bool :=
  match t.lookUp cwd p with
  | .ok node => .ok (kind node)
  | .error obstacle =>
    match obstacle.refusal? with
    | some fault => .error fault
    | none => .ok false

/-- Whether a path leads to a folder. -/
def isFolder (t : FileTree) (cwd : Location) (p : Path) : Except Fault Bool :=
  t.test cwd p Node.isFolder

/-- Whether a path leads to anything. -/
def isPresent (t : FileTree) (cwd : Location) (p : Path) : Except Fault Bool :=
  t.test cwd p fun _ => true

/-- Whether a path leads to a file. -/
def isFile (t : FileTree) (cwd : Location) (p : Path) : Except Fault Bool :=
  t.test cwd p fun
    | .file _ => true
    | _ => false

/-- The content of the file that a path leads to, if it leads to one. -/
def contents (t : FileTree) (cwd : Location) (p : Path) : Except Fault (Option ByteArray) :=
  match t.lookUp cwd p with
  | .ok (.file content) => .ok (some content)
  | .ok .nullDevice => .ok (some ByteArray.empty)
  | .error .nul => .error .nulInPath
  | _ => .ok none

end FileTree

end AntResources
