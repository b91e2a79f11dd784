import AntResources.FileTree.Basic

/-!
# AntResources.FileTree.Walk

The files below a folder, links followed. In each folder its own files come first, in ascending
order, and then what is below its subfolders, in ascending order too. Everything that is not a
folder counts as a file, a link that leads nowhere included.

* `below?` — one step down;
* `subfolders`, `files` — what is in a folder;
* `walk` — all files below a folder.
-/

namespace AntResources.FileTree

/-! ## What is in a folder -/

/-- Whether a folder has a link under a name. -/
def isLinkIn (t : FileTree) (l : Location) (name : String) : Bool :=
  match t.child? l name with
  | some (.link _) => true
  | _ => false

/-- The subfolder of the folder at `spot` that has the given name, through links if need be. `path`
is the path under which the folder is reached. A link is followed by its whole path, and so leads
nowhere if that is too long, or if the folder may not be searched. -/
def below? (t : FileTree) (path : Path) (spot : Spot) (name : String) : Option Spot :=
  if t.isLinkIn spot.location name then
    if maxPathBytes ≤ (path.child name).byteLength then none
    else
      match t.descend spot.links spot.location [name] with
      | .ok sub => if t.isFolderAt sub.location then some sub else none
      | .error _ => none
  else
    match t.child? spot.location name with
    | some node =>
      if node.isFolder && name.utf8ByteSize ≤ maxNameBytes then
        some ⟨spot.location ++ [name], spot.links⟩
      else none
    | none => none

/-- The subfolders of a folder, by name in ascending order. -/
def subfolders (t : FileTree) (path : Path) (spot : Spot) : List (String × Spot) :=
  (t.names spot.location).filterMap fun name => (t.below? path spot name).map (name, ·)

/-- The names in a folder that lead to no folder, in ascending order. -/
def files (t : FileTree) (path : Path) (spot : Spot) : List String :=
  (t.names spot.location).filter fun name => (t.below? path spot name).isNone

/-! ## Walking -/

/-- Why a walk ends early. -/
inductive WalkFailure where
  /-- A folder cannot be listed. -/
  | unlistable (folder : Path)
  /-- Folders lie too deep in each other. -/
  | tooDeep
deriving DecidableEq, Repr

/-- Whether the way along an absolute path leads through a folder that may not be searched. -/
def isBarred (t : FileTree) (path : Path) : Bool :=
  match t.find [] path with
  | .error .denied => true
  | _ => false

/-- Whether the folder that is reached under an absolute path may be listed. Its names are asked for
by that path. -/
def isListable (t : FileTree) (path : Path) : Bool :=
  path.byteLength < maxPathBytes && !t.isBarred path && !t.unlistable.contains path

/-- The files below the folder at `spot`, each as the names on the way down to it. `path` is the
absolute path under which the folder is reached, and `room` bounds how deep folders may lie in each
other. The first folder that cannot be listed ends the walk. -/
def walk (t : FileTree) (room : Nat) (path : Path) (spot : Spot) :
    Except WalkFailure (List (List String)) :=
  match room with
  | 0 => .error .tooDeep
  | room + 1 =>
    if !t.isListable path then .error (.unlistable path)
    else do
      let below ← (t.subfolders path spot).mapM fun (name, sub) => do
        let found ← walk t room (path.child name) sub
        pure (found.map (name :: ·))
      pure ((t.files path spot).map ([·]) ++ below.flatten)

end AntResources.FileTree
