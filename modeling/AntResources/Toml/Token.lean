import AntResources.Toml.Value

/-!
# AntResources.Toml.Token

The parts of TOML documents that hold no other values: keys, strings, numbers, dates and times, and
the blanks and comments between them. Each reader takes the text from some place on and returns what
it has read and the text after it.

* `ReadError`, `Reader` — readers;
* `skipBlanks`, `skipComment`, `skipFiller` — what lies between values;
* `keyPart`, `key`, `string` — keys and strings;
* `date?`, `time?`, `moment?`, `number?` — the rest.
-/

namespace AntResources.Toml

open Number

/-- Why a document cannot be read. -/
inductive ReadError where
  | malformed
  /-- A whole number has too many digits. -/
  | numberTooLong
  /-- Values lie too deep in each other. -/
  | nestedTooDeep
deriving DecidableEq, Repr

/-- A reader takes what it needs from the start of a text. -/
abbrev Reader := StateT (List Char) (Except ReadError)

namespace Reader

variable {α : Type}

def fail : Reader α := throw .malformed

/-- Take the given text, if it comes next. -/
def accept (text : List Char) : Reader Bool := do
  let cs ← get
  if text.isPrefixOf cs then
    set (cs.drop text.length)
    pure true
  else pure false

/-- Take the given text, which has to come next. -/
def expect (text : List Char) : Reader Unit := do
  if !(← accept text) then fail

/-- Take all characters up to the first that is not in a class. -/
def takeWhile (p : Char → Bool) : Reader (List Char) := do
  let cs ← get
  set (cs.dropWhile p)
  pure (cs.takeWhile p)

/-- Take what a partial function finds at the start of the text. -/
def ofOption (f : List Char → Option (α × List Char)) : Reader α := do
  match f (← get) with
  | some (a, rest) =>
    set rest
    pure a
  | none => fail

end Reader

open Reader

/-! ## Blanks and comments -/

/-- Spaces and tabs. -/
def isSpace (c : Char) : Bool := c = ' ' || c = '\t'

/-- Control characters, which may not stand in strings or comments. A tab is none. -/
def isControl (c : Char) : Bool := (c.toNat < 32 || c.toNat = 127) && c ≠ '\t'

/-- Skip spaces and tabs. -/
def skipBlanks : Reader Unit := modify (·.dropWhile isSpace)

/-- Skip a comment, if there is one. It reaches up to the end of the line. -/
def skipComment : Reader Unit := do
  if ← accept ['#'] then
    let text ← takeWhile (· ≠ '\n')
    if text.any isControl then fail

/-- The text after blanks, line ends and comments. `inComment` says that it starts in a comment. -/
def dropFiller (inComment : Bool) : List Char → Option (List Char)
  | [] => some []
  | c :: cs =>
    if c = '\n' then dropFiller false cs
    else if inComment then (if isControl c then none else dropFiller true cs)
    else if isSpace c then dropFiller false cs
    else if c = '#' then dropFiller true cs
    else some (c :: cs)

/-- Skip blanks, line ends and comments. -/
def skipFiller : Reader Unit := ofOption fun cs => (dropFiller false cs).map ((), ·)

/-! ## Strings -/

/-- The number of `count` hexadecimal digits. -/
def hexNumber? (count : Nat) (cs : List Char) : Option Nat :=
  let digits := cs.take count
  let value? (c : Char) : Option Nat :=
    if c.isDigit then some (c.toNat - '0'.toNat)
    else if 'a' ≤ c ∧ c ≤ 'f' then some (c.toNat - 'a'.toNat + 10)
    else if 'A' ≤ c ∧ c ≤ 'F' then some (c.toNat - 'A'.toNat + 10)
    else none
  if digits.length < count then none
  else digits.foldlM (fun n c => (value? c).map (16 * n + ·)) 0

/-- The character of a code point in `count` hexadecimal digits, and the text after them. -/
def hexChar? (count : Nat) (cs : List Char) : Option (List Char × List Char) := do
  let n ← hexNumber? count cs
  if n < 0xd800 ∨ (0xdfff < n ∧ n < 0x110000) then some ([Char.ofNat n], cs.drop count) else none

/-- What stands for itself after a backslash, by its letter. -/
def escapes : List (Char × Char) :=
  [('b', '\x08'), ('t', '\t'), ('n', '\n'), ('f', '\x0c'), ('r', '\r'), ('"', '"'), ('\\', '\\')]

/-- The line end after a backslash, and all blanks and line ends that follow. -/
def dropLineEnd? (cs : List Char) : Option (List Char) :=
  match cs.dropWhile isSpace with
  | '\n' :: rest => some (rest.dropWhile fun c => isSpace c || c = '\n')
  | _ => none

/-- What the text after a backslash stands for, and the text after that. In a string of several
lines a backslash may also stand at the end of a line: it removes the line end and the blanks
around it. -/
def escape? (multiline : Bool) : List Char → Option (List Char × List Char)
  | [] => none
  | 'u' :: rest => hexChar? 4 rest
  | 'U' :: rest => hexChar? 8 rest
  | c :: rest =>
    match escapes.lookup c with
    | some meant => some ([meant], rest)
    | none => if multiline then (dropLineEnd? (c :: rest)).map ([], ·) else none

/-- Put characters before those of a string that is read. -/
def prepend (cs : List Char) (read : Option (List Char × List Char)) :
    Option (List Char × List Char) :=
  read.map fun (text, rest) => (cs ++ text, rest)

/-- The rest of a string with escapes, up to its closing mark. -/
def escapedBody? (multiline : Bool) (cs : List Char) : Option (List Char × List Char) :=
  match cs with
  | [] => none
  | '"' :: rest =>
    if !multiline then some ([], rest)
    else if ['"', '"'].isPrefixOf rest then some ([], rest.drop 2)
    else prepend ['"'] (escapedBody? multiline rest)
  | '\\' :: rest =>
    match escape? multiline rest with
    | none => none
    | some (text, after) =>
      if after.length ≤ rest.length then prepend text (escapedBody? multiline after) else none
  | c :: rest =>
    if isControl c && !(multiline && c = '\n') then none
    else prepend [c] (escapedBody? multiline rest)
termination_by cs.length

/-- The rest of a string without escapes, up to its closing mark. -/
def literalBody? (multiline : Bool) : List Char → Option (List Char × List Char)
  | [] => none
  | '\'' :: rest =>
    if !multiline then some ([], rest)
    else if ['\'', '\''].isPrefixOf rest then some ([], rest.drop 2)
    else prepend ['\''] (literalBody? multiline rest)
  | c :: rest =>
    if isControl c && !(multiline && c = '\n') then none
    else prepend [c] (literalBody? multiline rest)

/-- A string of several lines, from after its opening marks on. A line end right there is not part
of it, but one or two more marks at the end are. -/
def multilineString (mark : Char) (body? : List Char → Option (List Char × List Char)) :
    Reader String := do
  let _ ← accept ['\n']
  let text ← ofOption body?
  if ← accept [mark, mark] then pure (String.ofList (text ++ [mark, mark]))
  else if ← accept [mark] then pure (String.ofList (text ++ [mark]))
  else pure (String.ofList text)

/-- A string on one line, if one starts here. -/
def shortString? : Reader (Option String) := do
  if ← accept ['"'] then pure (some (String.ofList (← ofOption (escapedBody? false))))
  else if ← accept ['\''] then pure (some (String.ofList (← ofOption (literalBody? false))))
  else pure none

/-- A string, if one starts here. -/
def string? : Reader (Option String) := do
  if ← accept ['"', '"', '"'] then pure (some (← multilineString '"' (escapedBody? true)))
  else if ← accept ['\'', '\'', '\''] then
    pure (some (← multilineString '\'' (literalBody? true)))
  else shortString?

/-! ## Keys -/

/-- A key has one part or more. -/
abbrev Key := List String

/-- The characters of keys that are written without marks. -/
def isBareKeyChar (c : Char) : Bool := c.isAlphanum || c = '-' || c = '_'

/-- One part of a key. -/
def keyPart : Reader String := do
  match ← takeWhile isBareKeyChar with
  | [] =>
    match ← shortString? with
    | some part => pure part
    | none => fail
  | part => pure (String.ofList part)

/-- The parts of a key, with full stops between them. `count` bounds how many there are. -/
def keyParts : Nat → Reader Key
  | 0 => fail
  | count + 1 => do
    let part ← keyPart
    skipBlanks
    if ← accept ['.'] then
      skipBlanks
      pure (part :: (← keyParts count))
    else pure [part]

/-- A key, and the blanks after it. -/
def key : Reader Key := do keyParts ((← get).length + 1)

/-! ## Numbers -/

/-- Digits of a class, with single low lines between them allowed, as they are written; and the text
after them. `afterDigit` says that a digit stands right before. -/
def digitsOf (isDigit : Char → Bool) (afterDigit : Bool) : List Char → List Char × List Char
  | [] => ([], [])
  | c :: cs =>
    if isDigit c then
      let (digits, rest) := digitsOf isDigit true cs
      (c :: digits, rest)
    else if afterDigit && c = '_' then
      match digitsOf isDigit false cs with
      | ([], _) => ([], c :: cs)
      | found => found
    else ([], c :: cs)

/-- The digits of a number that is written in a power of two, after the letter that says which. -/
def powerDigits? (letter : Char) : Option (Nat × (Char → Bool)) :=
  if letter = 'x' then some (16, fun c => (hexNumber? 1 [c]).isSome)
  else if letter = 'o' then some (8, fun c => '0' ≤ c && c ≤ '7')
  else if letter = 'b' then some (2, fun c => c = '0' || c = '1')
  else none

/-- A whole number that is written in a power of two. -/
def powerNumber? : List Char → Option (Value × List Char)
  | '0' :: letter :: cs => do
    let (base, isDigit) ← powerDigits? letter
    match digitsOf isDigit false cs with
    | ([], _) => none
    | (digits, rest) =>
      let value := digits.foldl (fun n c => base * n + (hexNumber? 1 [c]).getD 0) 0
      some (.integer value, rest)
  | _ => none

/-- The whole part of a decimal number: a zero, or digits that do not start with one. -/
def wholeDigits? : List Char → Option (List Char × List Char)
  | '0' :: rest => some (['0'], rest)
  | cs =>
    match digitsOf Char.isDigit false cs with
    | ([], _) => none
    | found => some found

/-- The fraction of a decimal number with its point, or nothing. -/
def fractionPart : List Char → List Char × List Char
  | '.' :: cs =>
    match digitsOf Char.isDigit false cs with
    | ([], _) => ([], '.' :: cs)
    | (digits, rest) => ('.' :: digits, rest)
  | cs => ([], cs)

/-- The exponent of a decimal number with its letter, or nothing. -/
def exponentPart (cs : List Char) : List Char × List Char :=
  match cs with
  | [] => ([], [])
  | c :: rest =>
    if c = 'e' ∨ c = 'E' then
      let sign := (rest.take 1).filter fun c => c = '+' || c = '-'
      match digitsOf Char.isDigit false (rest.drop sign.length) with
      | ([], _) => ([], cs)
      | (digits, after) => (c :: sign ++ digits, after)
    else ([], cs)

/-- A decimal number, which is a whole one if it has neither fraction nor exponent. -/
def decimalNumber? (cs : List Char) : Option (Except ReadError Value × List Char) := do
  let (negative, unsigned) := splitSign cs
  let (whole, rest) ← wholeDigits? unsigned
  let (fraction, rest) := fractionPart rest
  let (exponent, rest) := exponentPart rest
  if fraction = [] ∧ exponent = [] then
    let n : Int := ofDigits (whole.map fun c => c.toNat - '0'.toNat)
    if maxDigits < whole.length then some (.error .numberTooLong, rest)
    else some (.ok (.integer (if negative then -n else n)), rest)
  else
    let x ← Binary64.readUnsigned negative (whole ++ fraction ++ exponent)
    some (.ok (.float x), rest)

/-- One of the numbers that have names. -/
def namedNumber? (cs : List Char) : Option (Value × List Char) :=
  let (negative, unsigned) := splitSign cs
  if ['i', 'n', 'f'].isPrefixOf unsigned then
    some (.float (.infinity negative), unsigned.drop 3)
  else if ['n', 'a', 'n'].isPrefixOf unsigned then some (.float .nan, unsigned.drop 3)
  else none

/-! ## Dates and times -/

/-- The number of `count` decimal digits, if it lies between two bounds. -/
def boundedNumber? (count low high : Nat) (cs : List Char) : Option (Nat × List Char) :=
  let digits := cs.take count
  let n := ofDigits (digits.map fun c => c.toNat - '0'.toNat)
  if digits.length = count ∧ digits.all Char.isDigit ∧ low ≤ n ∧ n ≤ high then
    some (n, cs.drop count)
  else none

/-- The text after a character that has to come next. -/
def after? (c : Char) : List Char → Option (List Char)
  | [] => none
  | d :: rest => if d = c then some rest else none

/-- A date. It may be one that is not in the calendar. -/
def date? (cs : List Char) : Option (Date × List Char) := do
  let (year, cs) ← boundedNumber? 4 0 9999 cs
  let cs ← after? '-' cs
  let (month, cs) ← boundedNumber? 2 1 12 cs
  let cs ← after? '-' cs
  let (day, cs) ← boundedNumber? 2 1 31 cs
  some (⟨year, month, day⟩, cs)

/-- The microseconds in a fraction of a second, if there is one. More digits do not count. -/
def microseconds : List Char → Nat × List Char
  | '.' :: cs =>
    match cs.takeWhile Char.isDigit with
    | [] => (0, '.' :: cs)
    | digits =>
      let six := (digits ++ List.replicate 6 '0').take 6
      (ofDigits (six.map fun c => c.toNat - '0'.toNat), cs.dropWhile Char.isDigit)
  | cs => (0, cs)

/-- A time of day. -/
def time? (cs : List Char) : Option (Time × List Char) := do
  let (hour, cs) ← boundedNumber? 2 0 23 cs
  let cs ← after? ':' cs
  let (minute, cs) ← boundedNumber? 2 0 59 cs
  let cs ← after? ':' cs
  let (second, cs) ← boundedNumber? 2 0 59 cs
  let (microsecond, cs) := microseconds cs
  some (⟨hour, minute, second, microsecond⟩, cs)

/-- An offset from universal time. -/
def offset? (cs : List Char) : Option (Int × List Char) :=
  match cs with
  | 'Z' :: rest | 'z' :: rest => some (0, rest)
  | sign :: rest =>
    if sign = '+' ∨ sign = '-' then do
      let (hours, rest) ← boundedNumber? 2 0 23 rest
      let rest ← after? ':' rest
      let (minutes, rest) ← boundedNumber? 2 0 59 rest
      let n : Int := 60 * hours + minutes
      some (if sign = '-' then -n else n, rest)
    else none
  | [] => none

/-- The time after a date, with the letter or space before it, and its offset. -/
def timeOfDate? (cs : List Char) : Option ((Time × Option Int) × List Char) :=
  match cs with
  | [] => none
  | c :: rest =>
    if c = 'T' ∨ c = 't' ∨ c = ' ' then do
      let (time, rest) ← time? rest
      match offset? rest with
      | some (minutes, rest) => some ((time, some minutes), rest)
      | none => some ((time, none), rest)
    else none

/-- A date, or a date with a time, with whether it is in the calendar. -/
def moment? (cs : List Char) : Option (Value × Bool × List Char) := do
  let (date, cs) ← date? cs
  match timeOfDate? cs with
  | some ((time, offset), cs) => some (.moment ⟨date, time, offset⟩, date.isValid, cs)
  | none => some (.date date, date.isValid, cs)

/-- A number, a date or a time. -/
def scalar : Reader Value := do
  let cs ← get
  match moment? cs with
  | some (value, valid, rest) =>
    if !valid then fail
    set rest
    pure value
  | none =>
    match time? cs with
    | some (time, rest) =>
      set rest
      pure (.time time)
    | none =>
      match powerNumber? cs with
      | some (value, rest) =>
        set rest
        pure value
      | none =>
        match decimalNumber? cs with
        | some (value, rest) =>
          set rest
          liftM value
        | none => ofOption namedNumber?

end AntResources.Toml
