import AntResources.Pattern.Basic

/-!
# AntResources.Pattern.Regex

Patterns as regular expressions. A pattern becomes a row of pieces; the pieces have a text, the
regular expression that the pattern stands for, and a meaning, by which paths are matched.

Matching reads the path from left to right and keeps the set of places in the row that can have been
reached, so its cost is bounded by the product of the two lengths. As regular expressions have it,
the end of the row may stand before one last line feed, and `.` is any character but a line feed.

* `Piece`, `Pattern.pieces` — the row;
* `Pattern.regex?` — its text;
* `Piece.step`, `Piece.matches` — its meaning;
* `Pattern.matchesPath` — the test of a path.
-/

namespace AntResources

open Text

/-- One piece of a regular expression for paths. -/
inductive Piece where
  /-- The character itself. -/
  | exactly (c : Char)
  /-- `[^/]`, one character of a segment. -/
  | one
  /-- `[^/]*`, a run of characters of a segment. -/
  | run
  /-- `.*`, any text on one line. -/
  | anything
  /-- `(?:/.*)?`, nothing, or anything further down. -/
  | below
  /-- `(?:[^/]+/)*`, any number of segments, each with the slash after it. -/
  | folders
  /-- `(?:/[^/]+)*/`, any number of segments, each with the slash before it, and one more slash. -/
  | foldersBetween
deriving DecidableEq, Repr

/-! ## From patterns to pieces -/

/-- Reduce runs of `**` to one of them. -/
def Pattern.collapse : Pattern → Pattern
  | [] => []
  | .anyDepth :: rest =>
    match Pattern.collapse rest with
    | .anyDepth :: more => .anyDepth :: more
    | other => .anyDepth :: other
  | segment :: rest => segment :: Pattern.collapse rest

/-- The piece for one glyph. -/
def Glyph.piece : Glyph → Piece
  | .char c => .exactly c
  | .one => .one
  | .run => .run

/-- The pieces for the segments of a pattern from some place on. `atStart` says that no segment
comes before, `slashDone` that the slash before the first of them has been matched. -/
def Pattern.piecesFrom (atStart slashDone : Bool) : Pattern → List Piece
  | [] => []
  | [.anyDepth] => if atStart then [.anything] else [.below]
  | .anyDepth :: rest =>
    (if atStart then .folders else .foldersBetween) :: Pattern.piecesFrom false true rest
  | .name glyphs :: rest =>
    (if slashDone then [] else [.exactly '/']) ++ glyphs.map Glyph.piece
      ++ Pattern.piecesFrom false false rest

/-- The row of pieces that stands for a pattern. -/
def Pattern.pieces (pattern : Pattern) : List Piece :=
  Pattern.piecesFrom true true pattern.collapse

/-! ## Text -/

/-- The characters that mean something in a regular expression, or that a reader could overlook. -/
def specialChars : List Char :=
  " \t\n\r#$&()*+-.?[]^|~\\".toList ++ ['\x0b', '\x0c', '\x7b', '\x7d']

/-- A character that stands for itself. -/
def escapeRegexChar (c : Char) : List Char := if specialChars.contains c then ['\\', c] else [c]

/-- One piece as it is written. -/
def Piece.text : Piece → List Char
  | .exactly c => escapeRegexChar c
  | .one => "[^/]".toList
  | .run => "[^/]*".toList
  | .anything => ".*".toList
  | .below => "(?:/.*)?".toList
  | .folders => "(?:[^/]+/)*".toList
  | .foldersBetween => "(?:/[^/]+)*/".toList

/-- The regular expression that `pattern` stands for; a pattern without segments has none. -/
def Pattern.regex? (pattern : String) : Option String :=
  match Pattern.ofString pattern with
  | [] => none
  | segments => some (String.ofList ('^' :: (Pattern.pieces segments).flatMap Piece.text ++ ['$']))

/-! ## Meaning -/

/-- The rows that can be left after reading `c` with a given row ahead. -/
def Piece.step (c : Char) : List Piece → List (List Piece)
  | [] => []
  | .exactly d :: row => if c = d then [row] else []
  | .one :: row => if c = '/' then [] else [row]
  | .run :: row => (if c = '/' then [] else [.run :: row]) ++ Piece.step c row
  | .anything :: row => (if c = '\n' then [] else [.anything :: row]) ++ Piece.step c row
  | .below :: row => (if c = '/' then [.anything :: row] else []) ++ Piece.step c row
  | .folders :: row =>
    (if c = '/' then [] else [.run :: .exactly '/' :: .folders :: row]) ++ Piece.step c row
  | .foldersBetween :: row =>
    if c = '/' then [row, .one :: .run :: .foldersBetween :: row] else []

/-- Whether a row can match the empty text. -/
def Piece.canEnd : List Piece → Bool
  | [] => true
  | .run :: row | .anything :: row | .below :: row | .folders :: row => Piece.canEnd row
  | _ => false

/-- Whether one of the `rows` matches the text, or the text without one last line feed. -/
def Piece.matches (rows : List (List Piece)) : List Char → Bool
  | [] => rows.any Piece.canEnd
  | c :: rest =>
    (c = '\n' && rest.isEmpty && rows.any Piece.canEnd)
      || Piece.matches (rows.flatMap (Piece.step c)).eraseDups rest

/-- A path without one leading slash, or else without one leading `./`. -/
def dropPathStart : List Char → List Char
  | '/' :: rest => rest
  | '.' :: '/' :: rest => rest
  | path => path

/-- Whether a path matches a pattern. A pattern without segments matches no path. -/
def Pattern.matchesPath (pattern path : String) : Bool :=
  match Pattern.ofString pattern with
  | [] => false
  | segments => Piece.matches [Pattern.pieces segments] (dropPathStart path.toList)

end AntResources
