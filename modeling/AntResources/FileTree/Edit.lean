import AntResources.FileTree.Basic

/-!
# AntResources.FileTree.Edit

Changes to a tree.

* `put`, `remove` — setting and deleting what is at a location;
* `makeFolder`, `makeFolders` — making the folder at a path, and the ones above it;
* `replaceFile` — putting a whole file in place, with the folders on the way to it.
-/

namespace AntResources.FileTree

/-! ## Locations -/

/-- Put a node at a location, in place of what is there. -/
def put (t : FileTree) (l : Location) (node : Node) : FileTree :=
  { t with nodes := (l, node) :: t.nodes.filter fun entry => entry.1 ≠ l }

/-- Remove what is at a location and below it. -/
def remove (t : FileTree) (l : Location) : FileTree :=
  { t with nodes := t.nodes.filter fun entry => ¬ l <+: entry.1 }

/-! ## Paths -/

/-- An obstacle on the way to a place that is to be changed. -/
def Obstacle.fault : Obstacle → Fault
  | .nul => .nulInPath
  | .tooLong => .nameTooLong
  | .absent => .missingFolder
  | .notFolder => .notAFolder
  | .denied => .permissionDenied
  | .linkLoop => .tooManyLinks

/-- The location at which the last segment of a path can be changed. A link there is not
followed. -/
def entryOf (t : FileTree) (cwd : Location) (p : Path) : Except Obstacle Location :=
  if p.hasNul then .error .nul
  else if maxPathBytes ≤ p.byteLength then .error .tooLong
  else
    match t.find cwd p.parent with
    | .error obstacle => .error obstacle
    | .ok spot =>
      if !t.isOpenAt spot.location then .error (t.barrier spot.location)
      else if p.name = ".." then .ok spot.location.dropLast
      else if p.name = "" then .ok spot.location
      -- Nothing can be made in a folder that has been removed.
      else if Location.isGone spot.location then .error .absent
      else if maxNameBytes < p.name.utf8ByteSize then .error .tooLong
      else .ok (spot.location ++ [p.name])

/-- Make the folder at a path. That there is a folder already is no failure. -/
def makeFolder (t : FileTree) (cwd : Location) (p : Path) : Except Obstacle (FileTree × Bool) := do
  let l ← t.entryOf cwd p
  if (t.node? l).isSome then
    match t.lookUp cwd p with
    | .ok node => pure (t, node.isFolder)
    -- What is there is a link, and it may be impossible to find out what it leads to.
    | .error obstacle => if obstacle.refusal?.isSome then throw obstacle else pure (t, false)
  else pure (t.put l .folder, true)

/-- Make the folder at a path and, from the top down, the ones above it that are missing. What was
made before a failure stays; `room` bounds how many levels may be missing. -/
def makeFolders (t : FileTree) (cwd : Location) (p : Path) : Nat → FileTree × Except Fault Unit
  | 0 => (t, .error .nestedTooDeep)
  | room + 1 =>
    match t.makeFolder cwd p with
    | .ok (t, true) => (t, .ok ())
    | .ok (t, false) => (t, .error .fileExists)
    | .error .absent =>
      if p.parts = [] then (t, .error .notAFolder)
      else
        match t.makeFolders cwd p.parent room with
        | (t, .error fault) => (t, .error fault)
        | (t, .ok ()) =>
          match t.makeFolder cwd p with
          | .ok (t, true) => (t, .ok ())
          | .ok (t, false) => (t, .error .fileExists)
          | .error obstacle => (t, .error obstacle.fault)
    | .error obstacle => (t, .error obstacle.fault)

/-- The path of the device that keeps nothing. -/
def nullDevicePath : Path := ⟨.root, ["dev", "null"]⟩

/-- Whether a path, and its last segment, can be so many bytes longer. -/
def hasRoom (extra : Nat) (p : Path) : Bool :=
  p.name.utf8ByteSize + extra ≤ maxNameBytes && p.byteLength + extra < maxPathBytes

/-- Put a file with the given content at a path, whole and at once: it is first written under a
name beside that path that is longer by `extra` bytes, and then nothing of what is there is changed,
a link least of all. Folders on the way are made, and stay also where the file cannot be put there. A
folder is not replaced, nor is a link to one. -/
def replaceFile (t : FileTree) (cwd : Location) (extra : Nat) (p : Path) (content : ByteArray) :
    FileTree × Except Fault Unit :=
  if p = nullDevicePath then (t, .ok ())
  else if p.name = "" then (t, .error .noFileName)
  else
    match t.makeFolders cwd p.parent maxNesting with
    | (t, .error fault) => (t, .error fault)
    | (t, .ok ()) =>
      match t.entryOf cwd p with
      | .error obstacle => (t, .error obstacle.fault)
      | .ok l =>
        if !hasRoom extra p then (t, .error .nameTooLong)
        else
          match t.isFolder cwd p with
          | .error fault => (t, .error fault)
          | .ok true => (t, .error .fileExists)
          | .ok false => (t.put l (.file content), .ok ())

end AntResources.FileTree
