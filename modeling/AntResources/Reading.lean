import AntResources.Listing

/-!
# AntResources.Reading

The content of single resources as text. How a locator is read depends on the text before its first
colon: on the search path, from a file, or from the web.

* `SearchPath.readFrom` — looking through the places that provide a name;
* `Locator.read` — reading a locator.
-/

namespace AntResources

open Text

/-- How resources are read. -/
structure ReadSetup where
  lookup : Lookup
  /-- How many seconds to wait for the web, if that is limited. -/
  timeout : Option Binary64
  encoding : Encoding

namespace SearchPath

/-- Read the member of an archive that has the given name, if there is one. -/
def readMember (w : World) (encoding : Encoding) (entry : String) (archive : Path) :
    Except Failure (Option String) := do
  let opened ← w.openArchive archive
  match ← (opened.content? w.decompressors entry).mapError (World.defectFailure archive) with
  | none => pure none
  | some bytes =>
    some <$> World.decoded (.resource (.undecodableMember entry archive)) (encoding.decode bytes)

/-- Read the name `entry` from the first of the places that has it itself, and not only something
below it. -/
def readFrom (w : World) (encoding : Encoding) (entry : String) :
    List RootLocation → Except Failure (Option String)
  | [] => .ok none
  | .archive root :: rest => do
    match ← readMember w encoding entry root.archive with
    | some text => pure (some text)
    | none => readFrom w encoding entry rest
  | .tree path :: rest => do
    if ← w.isFile path then pure (some (← w.readFile path encoding))
    else readFrom w encoding entry rest

end SearchPath

namespace Locator

/-- Read what the lookup finds under a name. -/
def readClasspath (w : World) (setup : ReadSetup) (name : String) : Trace String := do
  let entry := stripSlashes name
  let locations ← setup.lookup entry
  match ← Trace.ofExcept (SearchPath.readFrom w setup.encoding entry locations) with
  | some text => pure text
  | none => Trace.fail (.resourceNotFound name)

/-- The path of a file locator, which may have two slashes before it. -/
def filePath : List Char → Path
  | '/' :: '/' :: rest => Path.ofString (String.ofList rest)
  | rest => Path.ofString (String.ofList rest)

/-- Read a remote resource. -/
def readRemote (w : World) (setup : ReadSetup) (url : String) : Trace String := do
  Trace.tell (.fetching url setup.timeout)
  match w.web.fetch url with
  | .ok text => pure text
  | .error reason => Trace.fail (.fetchFailed url reason)

/-- The schemes of resources that are requested from the web. -/
def remoteSchemes : List String := ["http", "https"]

/-- Read the resource that a locator names. -/
def read (w : World) (setup : ReadSetup) (l : Locator) : Trace String :=
  let cs := l.text.toList
  let scheme := String.ofList (cs.takeWhile (· ≠ ':'))
  match cs.dropWhile (· ≠ ':') with
  | [] => Trace.fail (.noScheme l.text)
  | _ :: rest =>
    if scheme = Source.classpathOrigin then readClasspath w setup (String.ofList rest)
    else if scheme = Source.fileOrigin then
      Trace.ofExcept (w.readFile (filePath rest) setup.encoding)
    else if remoteSchemes.contains scheme then readRemote w setup l.text
    else Trace.fail (.unsupportedScheme scheme l.text)

end Locator

end AntResources
