import AntResources.Trace
import AntResources.World

/-!
# AntResources.SearchPath

The lookup of roots on a search path, an ordered list of folders and archives. A folder provides a
root if the path below it is there, and an archive if it has a member of that name or below it.
Entries of the search path that are neither are passed over.

* `RootLocation` — a place that provides a root;
* `Lookup` — any way of finding such places;
* `SearchPath.locate`, `SearchPath.resolve` — the lookup on a search path.
-/

namespace AntResources

open Text

/-- A root inside an archive. -/
structure ArchiveRoot where
  archive : Path
  /-- The name of the root, without slashes at its ends. -/
  entry : String
deriving DecidableEq, Repr

/-- A place that provides a root. -/
inductive RootLocation where
  | tree (path : Path)
  | archive (root : ArchiveRoot)
deriving DecidableEq, Repr

namespace RootLocation

/-- The archive of a location that is in one. -/
def archive? : RootLocation → Option ArchiveRoot
  | .tree _ => none
  | .archive root => some root

end RootLocation

/-- A way of finding the places that provide a root, the one to be preferred first. -/
abbrev Lookup := String → Trace (List RootLocation)

/-- A list of folders and archives. -/
abbrev SearchPath := List Path

namespace SearchPath

/-- Whether an archive has a member of the given name, or below it. -/
def provides (archive : Archive) (root : String) : Bool :=
  archive.members.any fun m => m.name = root || (root ++ "/").toList.isPrefixOf m.name.toList

/-- The place where one entry of a search path provides `root`. -/
def locate (w : World) (root : String) (entry : Path) : Except Failure (Option RootLocation) := do
  if ← w.isFolder entry then
    let candidate := if root = "" then entry else entry.join (Path.ofString root)
    if ← w.isPresent candidate then pure (some (.tree candidate)) else pure none
  else if ← w.isArchive entry then
    -- Every archive provides the empty root, even one whose table cannot be read.
    if root = "" then pure (some (.archive ⟨entry, root⟩))
    else if provides (← w.openArchive entry) root then pure (some (.archive ⟨entry, root⟩))
    else pure none
  else pure none

/-- The places on a search path that provide a root, in the order of the search path. Slashes at the
ends of the root do not count. -/
def resolve (searchPath : SearchPath) (w : World) : Lookup := fun text => do
  let root := stripSlashes text
  let found ← Trace.ofExcept (searchPath.mapM (locate w root))
  let locations := found.filterMap id
  Trace.tell (.rootResolved root locations.length)
  pure locations

end SearchPath

end AntResources
