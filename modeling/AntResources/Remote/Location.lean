import AntResources.Remote.Host

/-!
# AntResources.Remote.Location

Remote locations: texts of the form

    scheme:[//authority][path][?query][#fragment]

Before a text is read, control characters and spaces at its start are skipped, and tabs, carriage
returns and line feeds are left out wherever they stand.

* `Reading` — the parts of a location that decide on it, with `read`;
* `Verdict`, `judge` — whether a text is a location: it has a scheme, and an authority or a path.
-/

namespace AntResources.Remote

/-- The parts of a location that decide whether it is one. -/
structure Reading where
  scheme : List Char
  authority : List Char
  path : List Char
deriving DecidableEq, Repr

/-- The characters after the first that a scheme may have. -/
def isSchemeChar (c : Char) : Bool := c.isAlphanum || c = '+' || c = '-' || c = '.'

/-- The text as it is read: without control characters and spaces at its start, and without tabs,
carriage returns and line feeds. -/
def clean (text : List Char) : List Char :=
  (text.dropWhile (· ≤ ' ')).filter fun c => c ≠ '\t' ∧ c ≠ '\r' ∧ c ≠ '\n'

/-- Cut off a scheme: a letter and scheme characters before the first colon. Where there is none the
scheme is empty. -/
def splitScheme (text : List Char) : List Char × List Char :=
  let before := text.takeWhile (· ≠ ':')
  match before, text.dropWhile (· ≠ ':') with
  | c :: _, _ :: after =>
    if c.isAlpha && before.all isSchemeChar then (before.map Char.toLower, after) else ([], text)
  | _, _ => ([], text)

/-- Cut off an authority, which stands after two slashes and reaches up to a slash, a `?` or
a `#`. -/
def splitAuthority : List Char → List Char × List Char
  | '/' :: '/' :: rest =>
    (rest.takeWhile fun c => c ≠ '/' ∧ c ≠ '?' ∧ c ≠ '#',
     rest.dropWhile fun c => c ≠ '/' ∧ c ≠ '?' ∧ c ≠ '#')
  | text => ([], text)

/-- Read a text as a location. -/
def read (text : List Char) : Reading :=
  let (scheme, rest) := splitScheme (clean text)
  let (authority, rest) := splitAuthority rest
  ⟨scheme, authority, (rest.takeWhile (· ≠ '#')).takeWhile (· ≠ '?')⟩

/-- What a text is, taken as a remote location. -/
inductive Verdict where
  /-- It has an authority that cannot be read. -/
  | malformed
  /-- It lacks a scheme, or has nothing but a scheme. -/
  | notALocation
  /-- It is a location. -/
  | location
deriving DecidableEq, Repr

/-- Whether a text is a remote location. -/
def judge (text : String) : Verdict :=
  let reading := read text.toList
  if !bracketsAreSound reading.authority || reading.authority.any hidesMark then .malformed
  else if reading.scheme = [] || (reading.authority = [] && reading.path = []) then .notALocation
  else .location

end AntResources.Remote
