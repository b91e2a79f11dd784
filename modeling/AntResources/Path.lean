import AntResources.Text.Segments

/-!
# AntResources.Path

Paths as they are written: an anchor and the segments after it. A path is read from text by dropping
empty and `.` segments; `..` stays, because what it means depends on the links on the way.

* `Path` — with `Path.ofString` and `Path.toString`;
* `Path.join`, `Path.parent`, `Path.up`, `Path.name` — the operations that need no file system;
* `Path.absolute` — the rooted path with every `..` cancelled in the text;
* `Location` — an absolute place in the tree of folders, as the names from the root down.
-/

namespace AntResources

open Text

/-- A place in the tree of folders: the names on the way down from the root. A folder that was
removed while something still ran in it is where it was, but without a name. -/
abbrev Location := List String

/-- Whether a location is that of a removed folder, or below one. -/
def Location.isGone (l : Location) : Bool := l.contains ""

/-- What a path starts from. Exactly two leading slashes are kept as they are; any other number
above zero means the root. -/
inductive Anchor where
  /-- The working directory. -/
  | relative
  /-- The root, written with one slash. -/
  | root
  /-- The root, written with two slashes. -/
  | doubleRoot
deriving DecidableEq, Repr

/-- The slashes that an anchor is written with. -/
def Anchor.text : Anchor → String
  | .relative => ""
  | .root => "/"
  | .doubleRoot => "//"

/-- The anchor of a path that starts with `n` slashes. -/
def Anchor.ofSlashes : Nat → Anchor
  | 0 => .relative
  | 2 => .doubleRoot
  | _ => .root

/-- A path as it is written. -/
structure Path where
  anchor : Anchor
  parts : List String
deriving DecidableEq, Repr

namespace Path

/-- Read a path. Empty and `.` segments say nothing and are dropped. -/
def ofString (s : String) : Path where
  anchor := .ofSlashes (s.toList.takeWhile (· = '/')).length
  parts := (splitSlash s).filter fun part => part ≠ "" ∧ part ≠ "."

/-- Write a path. The one with no anchor and no segment is `.`, the working directory. -/
def toString (p : Path) : String :=
  if p.anchor = .relative ∧ p.parts = [] then "." else p.anchor.text ++ joinSlash p.parts

instance : ToString Path := ⟨Path.toString⟩

/-- The path at a location. -/
def ofLocation (l : Location) : Path := ⟨.root, l⟩

/-- The path `rel` as seen from `base`: an anchored path stands for itself. -/
def join (base rel : Path) : Path :=
  if rel.anchor = .relative then ⟨base.anchor, base.parts ++ rel.parts⟩ else rel

/-- One segment further down. -/
def child (p : Path) (name : String) : Path := ⟨p.anchor, p.parts ++ [name]⟩

/-- The path without its last segment; one that has none is its own parent. -/
def parent (p : Path) : Path := ⟨p.anchor, p.parts.dropLast⟩

/-- The path that `..` at the end of `p` makes of it in the text. Nothing lies above the root; above
the start of a relative path, and above a `..` there, lies another `..`. -/
def up (p : Path) : Path :=
  match p.parts.getLast? with
  | none => if p.anchor = .relative then p.child ".." else p
  | some last => if last = ".." then p.child ".." else p.parent

/-- The last segment, or the empty text where there is none. -/
def name (p : Path) : String := p.parts.getLastD ""

/-- The rooted path that `p` means in the working directory `cwd`, with every `..` cancelled in the
text: links are not asked. -/
def absolute (cwd : Location) (p : Path) : Path :=
  match p.anchor with
  | .relative => ⟨.root, normalizeOnto true cwd.reverse p.parts⟩
  | anchor => ⟨anchor, normalize true p.parts⟩

/-- A path with a NUL in it names nothing that could exist. -/
def hasNul (p : Path) : Bool := p.parts.any fun part => part.toList.contains '\x00'

/-- The length in bytes of the path as it is written. -/
def byteLength (p : Path) : Nat := p.toString.utf8ByteSize

end Path

end AntResources
