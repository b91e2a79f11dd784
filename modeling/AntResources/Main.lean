import AntResources.Program

/-!
# AntResources.Main

The program on the command line. A run is a function of the world, so this module takes a picture of
the parts of the file system that the run looks at, runs, and carries out what has changed.

The picture shows links as what they lead to. A folder that does not have itself under the name `.`
is one that may not be searched. No search path serves where none is given, and there is no web.
-/

namespace AntResources.Main

/-! ## Taking pictures -/

/-- Enter a node in a picture, with the folders above it. -/
def enter (t : FileTree) (l : Location) (node : Node) : FileTree :=
  let above := (List.range (l.length - 1)).map fun i => l.take (i + 1)
  (above.foldl (fun t l => if (t.node? l).isSome then t else t.put l .folder) t).put l node

/-- Whether a folder that may not be searched is at a location. -/
def isLocked (l : Location) : IO Bool := do
  let here ← IO.currentDir
  let path := (Path.ofLocation l).toString
  return (← (here / path).isDir) && !(← (here / (path ++ "/.")).pathExists)

/-- Enter the folder, if there is one, that keeps what is at a location from being looked up. -/
def enterBarrier (t : FileTree) (l : Location) : IO FileTree := do
  for length in List.range l.length do
    if ← isLocked (l.take length) then return enter t (l.take length) .lockedFolder
  return t

/-- Take a picture of what is at a location, and below it for as many levels as `depth` says. Files
are read if `withContents` says so. -/
def takePicture (withContents : Bool) (t : FileTree) (l : Location) (depth : Nat) :
    IO FileTree := do
  let path := (← IO.currentDir) / (Path.ofLocation l).toString
  if !(← path.pathExists) then return ← enterBarrier t l
  let ofFolder := if ← isLocked l then Node.lockedFolder else .folder
  match (← path.metadata).type, depth with
  | .file, _ =>
    if withContents then return enter t l (.file (← IO.FS.readBinFile path))
    -- A file that has been read stays so.
    else if (t.node? l).isSome then return t
    else return enter t l (.file ByteArray.empty)
  | .dir, 0 => return enter t l ofFolder
  | .dir, depth + 1 =>
    let mut t := if l = [] then t else enter t l ofFolder
    match ← path.readDir.toBaseIO with
    | .error _ => return { t with unlistable := Path.ofLocation l :: t.unlistable }
    | .ok entries =>
      for entry in entries do
        let below := l ++ [entry.fileName]
        t ← takePicture withContents t below depth
        -- What has not been entered leads nowhere, or is in a folder that may not be searched.
        if (t.node? below).isNone then t := enter t below (.link entry.fileName)
      return t
  | _, _ => return enter t l .nullDevice

/-- The location of a path, with every `..` cancelled in the text. -/
def locationOf (cwd : Location) (p : Path) : Location := (p.absolute cwd).parts

/-- The settings files that there can be for a folder. -/
def settingsFiles (cwd : Location) : List Location :=
  (Settings.upwards cwd).flatMap fun l => Settings.fileNames.map fun name => l ++ [name]

/-- The paths that a run looks at besides the settings files: where the search for files begins, and
the entries of the search path. -/
def usedPaths (o : Options) : List Path :=
  let bases := (o.expressions.filterMap Expression.parse).filterMap fun e =>
    if e.origin = some Source.fileOrigin then some (Path.ofString e.baseDir) else none
  let entries := ((o.searchPath.getD []).filterMap id).map Path.ofString
  bases ++ entries

/-- How deep a picture goes. -/
def maxDepth : Nat := 64

/-- The world as far as a run with the given words looks at it. -/
def observe (cwd : Location) (args : List String) : IO World := do
  let mut tree : FileTree := enter ⟨[], []⟩ cwd .folder
  for l in settingsFiles cwd do
    tree ← takePicture true tree l 0
  let world : World := { tree, cwd, defaultPath := [], web := [] }
  match CommandLine.parse args with
  | .run o given =>
    match Program.checked world o given with
    | .ok (.ok o) =>
      for p in usedPaths o do
        -- An archive has to be read even where only its members are listed.
        let isArchive := !(← ((← IO.currentDir) / p.toString).isDir)
        tree ← takePicture (o.cat || isArchive) tree (locationOf cwd p) maxDepth
      if let some output := o.output then
        tree ← takePicture false tree (locationOf cwd (Path.ofString output).parent) 1
      return { world with tree := tree }
    | _ => return world
  | _ => return world

/-! ## Carrying out changes -/

/-- Carry out what a run has changed. -/
def carryOut (before after : FileTree) : IO Unit := do
  for (l, node) in after.nodes.reverse do
    let path := (Path.ofLocation l).toString
    match node, before.node? l with
    | .folder, none => IO.FS.createDirAll path
    | .file content, some (.file old) =>
      if content.data ≠ old.data then IO.FS.writeBinFile path content
    | .file content, _ => IO.FS.writeBinFile path content
    | _, _ => pure ()

end AntResources.Main

open AntResources in
/-- Run the program with the words of the command line. -/
def main (args : List String) : IO UInt32 := do
  let cwd := (Path.ofString (← IO.currentDir).toString).parts
  let world ← Main.observe cwd args
  let outcome := Program.run world args
  match outcome.ending with
  | .error fault =>
    IO.eprintln ("Error: " ++ fault.message)
    return 1
  | .ok ending =>
    Main.carryOut world.tree outcome.tree
    IO.print ending.stdout
    IO.eprint (outcome.log ++ ending.stderr)
    return ending.exitCode.toUInt32
