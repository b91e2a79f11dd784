import AntResources.Expression
import AntResources.FileTree.Walk
import AntResources.Locator
import AntResources.Pattern.Regex
import AntResources.Remote.Location
import AntResources.SearchPath
import AntResources.TaskPool

/-!
# AntResources.Listing

The resources that one expression stands for. Where they are listed depends on its origin:

* with the origin `classpath`, in all archives that provide the root of the expression, or in the
  one folder that does, whichever the lookup prefers;
* with the origin `file`, in the folder that the expression starts with;
* with any other origin, or none, the expression is itself a remote location.

`Source` is the choice, `Source.choose` makes it, and `Source.list` carries it out.
-/

namespace AntResources

open Text

/-- Where the resources of an expression are listed. -/
inductive Source where
  | archives (roots : List ArchiveRoot)
  | tree (base : Path)
  | remote
deriving DecidableEq, Repr

namespace Source

def origin : Source → Origin
  | .archives _ => .archive
  | .tree _ => .tree
  | .remote => .remote

def classpathOrigin : String := "classpath"

def fileOrigin : String := "file"

/-! ## The choice -/

/-- Choose where to list the resources of an expression. -/
def choose (lookup : Lookup) (e : Expression) : Trace Source := do
  if e.origin = some classpathOrigin then
    let locations ← lookup e.rootDir
    match locations with
    | [] => Trace.fail (.rootNotFound e.rootDir e.raw)
    | .archive _ :: _ =>
      let roots := locations.filterMap RootLocation.archive?
      Trace.tell (.scanningArchives roots.length e.raw)
      pure (.archives roots)
    | .tree path :: _ =>
      Trace.tell (.scanningFolder path e.raw)
      pure (.tree path)
  else if e.origin = some fileOrigin then pure (.tree (Path.ofString e.baseDir))
  else pure .remote

/-! ## Archives -/

/-- What comes before the names of the members below a root. -/
def memberStart (root : ArchiveRoot) : String :=
  let entry := stripSlashes root.entry
  if entry = "" then "" else entry ++ "/"

/-- The part of a member's name below `start`, if it lies there. -/
def below? (start name : String) : Option String :=
  if start.toList.isPrefixOf name.toList then
    some (String.ofList (name.toList.drop start.toList.length))
  else none

/-- The locators of the members of an opened archive that match an expression. -/
def membersMatching (e : Expression) (root : ArchiveRoot) (archive : Archive) : List Locator :=
  (archive.members.filter (!·.isFolder)).filterMap fun m =>
    (below? (memberStart root) m.name).bind fun name =>
      if Pattern.matchesPath e.globText name then
        some ⟨e.origin.getD classpathOrigin ++ ":" ++ memberStart root ++ name⟩
      else none

/-- List the matching members of one archive. All its members have to have names. -/
def scan (w : World) (e : Expression) (root : ArchiveRoot) : Except Failure (List Locator) := do
  let archive ← w.openArchive root.archive
  if archive.members.any (·.name = "") then throw (.fault .namelessMember)
  pure (membersMatching e root archive)

/-- The scans of some archives, as numbered tasks. -/
def scanTasks (w : World) (e : Expression) (roots : List ArchiveRoot) :
    List (Task Failure (List Locator)) :=
  roots.zipIdx.map fun (root, i) => ⟨i, scan w e root⟩

/-- Run the scans, which complete in the order of `completed` if they run in a pool, and put the
results together in the order of the archives. -/
def gather (maxWorkers : Int) (tasks completed : List (Task Failure (List Locator))) :
    Except Failure (List Locator) := do
  let results ← TaskPool.run maxWorkers tasks completed
  pure (Locator.unique (results.flatMap (·.2)))

/-- List the matching members of some archives. -/
def listArchives (w : World) (maxWorkers : Int) (e : Expression) (roots : List ArchiveRoot) :
    Trace (List Locator) := do
  let tasks := scanTasks w e roots
  let found ← Trace.ofExcept (gather maxWorkers tasks tasks)
  Trace.tell (.membersMatched found.length e.raw roots.length)
  pure found

/-! ## Folders -/

/-- All files below the folder at an absolute path, each as the names on the way down to it. -/
def filesBelow (w : World) (root : Path) : Except Failure (List (List String)) :=
  match w.tree.find w.cwd root with
  | .error _ => .error (.resource (.unreadableFolder root))
  | .ok spot =>
    if w.tree.isFolderAt spot.location then
      (w.tree.walk maxNesting root spot).mapError fun
        | .unlistable folder => .resource (.unreadableFolder folder)
        | .tooDeep => .fault .nestedTooDeep
    else .error (.resource (.unreadableFolder root))

/-- The locator of the file that is found below `root` by going down the given names. -/
def fileLocator (root : Path) (names : List String) : Locator :=
  ⟨fileOrigin ++ ":" ++ (Path.mk root.anchor (root.parts ++ names)).toString⟩

/-- List the matching files below a folder. The folder is walked under its absolute path. -/
def listTree (w : World) (e : Expression) (base : Path) : Trace (List Locator) := do
  if !(← Trace.ofExcept (w.isFolder base)) then Trace.fail (.baseNotFound base)
  else
    let root ← Trace.ofExcept ((FileTree.absolute w.cwd base).mapError .fault)
    let files ← Trace.ofExcept (filesBelow w root)
    let found := (files.filter fun names =>
      Pattern.matchesPath e.globText (joinSlash names)).map (fileLocator root)
    Trace.tell (.filesMatched found.length e.raw root)
    pure found

/-! ## Remote locations -/

/-- The location that an expression is, if it is one. -/
def listRemote (e : Expression) : Trace (List Locator) :=
  match Remote.judge e.location with
  | .malformed => Trace.fail (.malformedLocation e.location)
  | .notALocation => Trace.fail (.notALocation e.location)
  | .location => pure [⟨e.location⟩]

/-! ## All of them -/

/-- List the resources of an expression. -/
def list (w : World) (maxWorkers : Int) (e : Expression) : Source → Trace (List Locator)
  | .archives roots => listArchives w maxWorkers e roots
  | .tree base => listTree w e base
  | .remote => listRemote e

end Source

end AntResources
