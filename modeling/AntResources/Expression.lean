import AntResources.Text.Blank
import AntResources.Text.Segments

/-!
# AntResources.Expression

Resource expressions: an Ant-style path with two optional marks before it,

    [~][origin:]path/with/**/gl?bs/*.js

A leading `~` makes the expression an exclusion. An origin is the text before a colon that stands
ahead of every slash; it says where resources are looked up. The path is brought to normal form and
cut into a literal root and a glob: the glob begins at the first segment with a `*` or a `?`, and
takes at least the last segment.

* `Expression` — a parsed expression, with `Expression.parse`;
* `splitOrigin`, `splitGlob` — the two cuts;
* `Expression.rootDir`, `globText`, `location`, `baseDir`, `path` — its parts as texts.
-/

namespace AntResources

open Text

/-- A parsed resource expression. -/
structure Expression where
  /-- The text of the expression without the blanks around it. -/
  raw : String
  /-- Whether the expression removes resources instead of adding them. -/
  exclusion : Bool
  /-- Where the resources are looked up, if the text says so. -/
  origin : Option String
  /-- The literal segments at the start of the path. -/
  root : List String
  /-- The segments from the first glob on. -/
  glob : List String
  /-- Whether the path starts with a slash. -/
  absolute : Bool
deriving DecidableEq, Repr

namespace Expression

/-! ## Parsing -/

/-- Cut off an origin: the text before the first colon, if that is not empty and has no slash. -/
def splitOrigin (body : List Char) : Option (List Char) × List Char :=
  let before := body.takeWhile (· ≠ ':')
  if before = [] ∨ before.contains '/' then (none, body)
  else
    match body.dropWhile (· ≠ ':') with
    | [] => (none, body)
    | _ :: after => (some before, after)

/-- The segments of a path in normal form. -/
def pathSegments (path : List Char) : List String :=
  normalize (path.head? = some '/') ((split '/' path).map String.ofList)

/-- Whether a segment has a wildcard in it. -/
def isGlob (segment : String) : Bool := segment.toList.any fun c => c = '*' ∨ c = '?'

/-- Cut the segments of a path at the first glob, or before the last segment if none is one. -/
def splitGlob : List String → List String × List String
  | [] => ([], [])
  | [last] => ([], [last])
  | segment :: next :: rest =>
    if isGlob segment then ([], segment :: next :: rest)
    else
      let (root, glob) := splitGlob (next :: rest)
      (segment :: root, glob)

/-- Parse an expression. There is none in a text with nothing but blanks around at most a `~`. -/
def parse (text : String) : Option Expression :=
  let raw := trim text.toList
  let exclusion : Bool := raw.head? = some '~'
  let body := if exclusion then raw.tail else raw
  if body = [] then none
  else
    let (origin, path) := splitOrigin body
    let (root, glob) := splitGlob (pathSegments path)
    some {
      raw := String.ofList raw
      exclusion := exclusion
      origin := origin.map String.ofList
      root := root
      glob := glob
      absolute := path.head? = some '/' }

/-! ## The parts as texts -/

/-- The literal directory at the start of the path, without a leading slash. -/
def rootDir (e : Expression) : String := joinSlash e.root

/-- The glob at the end of the path. -/
def globText (e : Expression) : String := joinSlash e.glob

/-- The text of the expression without its exclusion mark. -/
def location (e : Expression) : String :=
  if e.exclusion then String.ofList e.raw.toList.tail else e.raw

/-- The directory that a search of the file system starts from. -/
def baseDir (e : Expression) : String :=
  if e.absolute then "/" ++ e.rootDir else if e.rootDir = "" then "." else e.rootDir

/-- The whole path in normal form. -/
def path (e : Expression) : String :=
  (if e.absolute then "/" else "") ++ joinSlash (e.root ++ e.glob)

end Expression

end AntResources
