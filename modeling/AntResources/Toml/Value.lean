import AntResources.Failure
import AntResources.Number.Shortest

/-!
# AntResources.Toml.Value

The values of TOML documents, and the text by which messages show them.

* `Date`, `Time`, `Moment`, `Value`, `Table` — the values;
* `Value.text?` — a value in a message.
-/

namespace AntResources.Toml

/-! ## Dates and times -/

/-- A day of the calendar. -/
structure Date where
  year : Nat
  month : Nat
  day : Nat
deriving DecidableEq, Repr

/-- A time of day. -/
structure Time where
  hour : Nat
  minute : Nat
  second : Nat
  microsecond : Nat
deriving DecidableEq, Repr

/-- A day and a time of it, with the offset from universal time in minutes, if that is known. -/
structure Moment where
  date : Date
  time : Time
  offset : Option Int
deriving DecidableEq, Repr

/-- A leap year. -/
def isLeap (year : Nat) : Bool := year % 4 = 0 && (year % 100 ≠ 0 || year % 400 = 0)

/-- How many days a month has. -/
def daysIn (year month : Nat) : Nat :=
  if month = 2 then (if isLeap year then 29 else 28)
  else if month = 4 ∨ month = 6 ∨ month = 9 ∨ month = 11 then 30
  else 31

/-- A date that is in the calendar, which begins with the year 1. -/
def Date.isValid (d : Date) : Bool :=
  1 ≤ d.year && 1 ≤ d.month && d.month ≤ 12 && 1 ≤ d.day && d.day ≤ daysIn d.year d.month

/-! ## Values -/

/-- A value of a document. -/
inductive Value where
  | string (s : String)
  | boolean (b : Bool)
  | integer (i : Int)
  | float (x : Binary64)
  | date (d : Date)
  | time (t : Time)
  | moment (m : Moment)
  | array (items : List Value)
  /-- The fields of a table, in the order in which they were first written. -/
  | table (fields : List (String × Value))

/-- The fields of a table, in the order in which they were first written. -/
abbrev Table := List (String × Value)

namespace Table

/-- The value of a field. -/
def get? (t : Table) (key : String) : Option Value := t.lookup key

/-- Give a field a value. A field that is there keeps its place. -/
def set (t : Table) (key : String) (value : Value) : Table :=
  match t with
  | [] => [(key, value)]
  | (k, v) :: rest => if k = key then (k, value) :: rest else (k, v) :: set rest key value

end Table

/-! ## Depth -/

mutual

/-- How deep values lie in each other. -/
def Value.depth : Value → Nat
  | .array items => itemDepth items + 1
  | .table fields => fieldDepth fields + 1
  | _ => 0

/-- The greatest depth of some values. -/
def itemDepth : List Value → Nat
  | [] => 0
  | value :: rest => max value.depth (itemDepth rest)

/-- The greatest depth of the values of some fields. -/
def fieldDepth : List (String × Value) → Nat
  | [] => 0
  | (_, value) :: rest => max value.depth (fieldDepth rest)

end

/-! ## Values in messages -/

/-- Texts with a comma between each two. -/
def commaSeparated (texts : List String) : String := String.intercalate ", " texts

/-- The numbers in the text of a time of day: seconds and their fractions only where needed. -/
def Time.numbers (t : Time) : List Nat :=
  [t.hour, t.minute] ++
    (if t.microsecond ≠ 0 then [t.second, t.microsecond]
      else if t.second ≠ 0 then [t.second] else [])

/-- The text of a span of less than a day, either way: days are rounded down. -/
def spanText (minutes : Int) : String :=
  let days := Int.fdiv minutes 1440
  let seconds := 60 * Int.fmod minutes 1440
  "datetime.timedelta(" ++
    commaSeparated ((if days ≠ 0 then ["days=" ++ toString days] else []) ++
      (if seconds ≠ 0 then ["seconds=" ++ toString seconds] else [])) ++ ")"

/-- The text of an offset from universal time. -/
def offsetText (minutes : Int) : String :=
  if minutes = 0 then "datetime.timezone.utc" else "datetime.timezone(" ++ spanText minutes ++ ")"

def Date.numbers (d : Date) : List Nat := [d.year, d.month, d.day]

def Date.text (d : Date) : String :=
  "datetime.date(" ++ commaSeparated (d.numbers.map toString) ++ ")"

def Time.text (t : Time) : String :=
  "datetime.time(" ++ commaSeparated (t.numbers.map toString) ++ ")"

def Moment.text (m : Moment) : String :=
  "datetime.datetime(" ++ commaSeparated ((m.date.numbers ++ m.time.numbers).map toString ++
    match m.offset with
    | none => []
    | some minutes => ["tzinfo=" ++ offsetText minutes]) ++ ")"

/-- The text of a whole number, unless that would have too many digits. -/
def integerText? (i : Int) : Option String :=
  if Number.tenTo Number.maxDigits ≤ i.natAbs then none else some (toString i)

mutual

/-- A value as messages show it. There is no text for a number with too many digits. -/
def Value.text? : Value → Option String
  | .string s => some (Text.quote s)
  | .boolean b => some (if b then "True" else "False")
  | .integer i => integerText? i
  | .float x => some x.toText
  | .date d => some d.text
  | .time t => some t.text
  | .moment m => some m.text
  | .array items => (itemTexts? items).map fun texts => "[" ++ commaSeparated texts ++ "]"
  | .table fields =>
    (fieldTexts? fields).map fun texts => "\x7b" ++ commaSeparated texts ++ "\x7d"

/-- The texts of some values. -/
def itemTexts? : List Value → Option (List String)
  | [] => some []
  | value :: rest => do
    let text ← value.text?
    let texts ← itemTexts? rest
    pure (text :: texts)

/-- The texts of some fields. -/
def fieldTexts? : List (String × Value) → Option (List String)
  | [] => some []
  | (key, value) :: rest => do
    let text ← value.text?
    let texts ← fieldTexts? rest
    pure ((Text.quote key ++ ": " ++ text) :: texts)

end

end AntResources.Toml
