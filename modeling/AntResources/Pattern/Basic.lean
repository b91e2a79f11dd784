import AntResources.Text.Segments

/-!
# AntResources.Pattern.Basic

Ant patterns. A pattern is a list of segments, matched against the segments of a path: `**` stands
for any number of segments, and every other segment for exactly one, in which `*` is any run of
characters, `?` is any one character and every other character is itself.

* `Glyph`, `Segment`, `Pattern` — the parts of a pattern, with `Pattern.ofString`;
* `Pattern.Accepts` — what a pattern means, by recursion on its segments.
-/

namespace AntResources

open Text

/-- One character of a pattern. -/
inductive Glyph where
  /-- The character itself. -/
  | char (c : Char)
  /-- Any one character, written `?`. -/
  | one
  /-- Any run of characters, written `*`. -/
  | run
deriving DecidableEq, Repr

/-- One segment of a pattern. -/
inductive Segment where
  /-- Any number of whole segments, written `**`. -/
  | anyDepth
  /-- One segment of the form that the glyphs give. -/
  | name (glyphs : List Glyph)
deriving DecidableEq, Repr

/-- A pattern: its segments from first to last. -/
abbrev Pattern := List Segment

/-- Read one character of a pattern. -/
def Glyph.ofChar : Char → Glyph
  | '*' => .run
  | '?' => .one
  | c => .char c

/-- Read one segment of a pattern. Only a segment that is `**` and nothing more spans segments. -/
def Segment.ofChars (cs : List Char) : Segment :=
  if cs = ['*', '*'] then .anyDepth else .name (cs.map Glyph.ofChar)

/-- Read a pattern. Empty segments say nothing and are dropped. -/
def Pattern.ofString (s : String) : Pattern :=
  ((split '/' s.toList).filter (· ≠ [])).map Segment.ofChars

/-! ## Meaning -/

/-- The glyphs match a text. -/
def Glyph.Accepts : List Glyph → List Char → Prop
  | [], text => text = []
  | .char c :: glyphs, text => ∃ rest, text = c :: rest ∧ Glyph.Accepts glyphs rest
  | .one :: glyphs, text => ∃ c rest, text = c :: rest ∧ Glyph.Accepts glyphs rest
  | .run :: glyphs, text => ∃ before rest, text = before ++ rest ∧ Glyph.Accepts glyphs rest

/-- The pattern matches a path, given by its segments. -/
def Pattern.Accepts : Pattern → List (List Char) → Prop
  | [], path => path = []
  | .anyDepth :: pattern, path => ∃ above rest, path = above ++ rest ∧ Pattern.Accepts pattern rest
  | .name glyphs :: pattern, path =>
    ∃ name rest, path = name :: rest ∧ Glyph.Accepts glyphs name ∧ Pattern.Accepts pattern rest

end AntResources
