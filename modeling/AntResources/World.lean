import AntResources.Archive.Content
import AntResources.FileTree.Edit
import AntResources.Text.Encoding
import AntResources.Web

/-!
# AntResources.World

What the program runs in: a file system with a working directory, a web, and the search path that
serves where none is given.

* `World.isFolder`, `isFile`, … — questions about paths, as seen from the working directory;
* `World.workingPath`, `World.remove` — the path of the working directory, and how it gets lost;
* `World.isArchive`, `World.openArchive` — archives in files;
* `World.readFile` — files as text.
-/

namespace AntResources

/-- What the program runs in. -/
structure World where
  tree : FileTree
  /-- The working directory. -/
  cwd : Location
  /-- The search path where none is given. -/
  defaultPath : List Path
  web : Web
  /-- What the reader of archives has beside its own method of compression. -/
  decompressors : Archive.Decompressors := {}
  /-- How many bytes longer than the path of a file is the path at which it is written before it is
  put in place. -/
  unfinishedBytes : Nat := 21

namespace World

/-! ## Paths -/

/-- Whether a path leads to a folder. -/
def isFolder (w : World) (p : Path) : Except Failure Bool :=
  (w.tree.isFolder w.cwd p).mapError .fault

/-- Whether a path leads to anything. -/
def isPresent (w : World) (p : Path) : Except Failure Bool :=
  (w.tree.isPresent w.cwd p).mapError .fault

/-- Whether a path leads to a file. -/
def isFile (w : World) (p : Path) : Except Failure Bool :=
  (w.tree.isFile w.cwd p).mapError .fault

/-- The content of the file that a path leads to, if it leads to one. -/
def contents (w : World) (p : Path) : Except Failure (Option ByteArray) :=
  (w.tree.contents w.cwd p).mapError .fault

/-! ## The working directory -/

/-- The path of the working directory. It has none once it has been removed. -/
def workingPath (w : World) : Except Fault Path :=
  FileTree.absolute w.cwd ⟨.relative, []⟩

/-- The locations of folders that have been removed, each in the one before, the first of which was
in the folder at `above`. -/
def goneBelow (above : Location) (count : Nat) : List Location :=
  (List.range count).map fun i => above ++ List.replicate (i + 1) ""

/-- Remove what is at a location and below it. If the working directory is among that, it lives on
without a name, as do the folders that it is in. -/
def remove (w : World) (l : Location) : World :=
  let tree := w.tree.remove l
  if l.isPrefixOf w.cwd then
    let gone := goneBelow l.dropLast (w.cwd.length + 1 - l.length)
    { w with
      tree := gone.foldl (fun tree l => tree.put l .folder) tree
      cwd := gone.getLastD w.cwd }
  else { w with tree := tree }

/-! ## Archives -/

/-- The failure that a defect of the archive at a path comes to. -/
def defectFailure (p : Path) : Defect → Failure
  | .broken => .resource (.unreadableArchive p)
  | .fault fault => .fault fault

/-- Whether a path leads to a file that ends like an archive. -/
def isArchive (w : World) (p : Path) : Except Failure Bool := do
  match ← w.contents p with
  | none => pure false
  | some bytes =>
    match Archive.findEnd bytes with
    | .absent | .cramped => pure false
    | .split => throw (.fault .splitArchive)
    | .found _ => pure true

/-- Open the archive at a path. -/
def openArchive (w : World) (p : Path) : Except Failure Archive := do
  match ← w.contents p with
  | none => throw (.resource (.unreadableArchive p))
  | some bytes => (Archive.ofBytes bytes).mapError (defectFailure p)

/-! ## Text -/

/-- The text that decoding came to, or a failure: the given one for bytes that no text has. -/
def decoded (failure : Failure) : Text.Decoded → Except Failure String
  | .text s => .ok s
  | .undecodable => .error failure
  | .refused => .error (.fault .refusedText)

/-- Read the file at a path as text. -/
def readFile (w : World) (p : Path) (encoding : Text.Encoding) : Except Failure String := do
  match ← w.contents p with
  | none => throw (.resource (.unreadableFile p))
  | some bytes => decoded (.resource (.unreadableFile p)) (encoding.decodeFile bytes)

end World

end AntResources
