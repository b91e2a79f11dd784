import AntResources.Text.Blank

/-!
# AntResources.Number.Digit

Decimal digits and numbers written with them. Every script's decimal digits count; Unicode 14 has
them in runs of ten from zero to nine. Single low lines may stand between digits.

* `digitValue?` — the value of a digit;
* `digitRun` — the digits at the start of a text;
* `readInteger` — a whole number with an optional sign, with blanks around it.
-/

namespace AntResources.Number

open Text

/-- The code points of the zeros, in ascending order. -/
def zeros : List Nat :=
  [0x30, 0x660, 0x6f0, 0x7c0, 0x966, 0x9e6, 0xa66, 0xae6, 0xb66, 0xbe6, 0xc66, 0xce6, 0xd66,
   0xde6, 0xe50, 0xed0, 0xf20, 0x1040, 0x1090, 0x17e0, 0x1810, 0x1946, 0x19d0, 0x1a80, 0x1a90,
   0x1b50, 0x1bb0, 0x1c40, 0x1c50, 0xa620, 0xa8d0, 0xa900, 0xa9d0, 0xa9f0, 0xaa50, 0xabf0,
   0xff10, 0x104a0, 0x10d30, 0x11066, 0x110f0, 0x11136, 0x111d0, 0x112f0, 0x11450, 0x114d0,
   0x11650, 0x116c0, 0x11730, 0x118e0, 0x11950, 0x11c50, 0x11d50, 0x11da0, 0x16a60, 0x16ac0,
   0x16b50, 0x1d7ce, 0x1d7d8, 0x1d7e2, 0x1d7ec, 0x1d7f6, 0x1e140, 0x1e2f0, 0x1e950, 0x1fbf0]

/-- The value of a decimal digit of any script. -/
def digitValue? (c : Char) : Option Nat :=
  (zeros.find? fun first => first ≤ c.toNat && c.toNat < first + 10).map (c.toNat - ·)

/-- Read digits from a text, with `afterDigit` if a digit stands right before it: there a low line
is passed over if a digit follows. -/
def digitsFrom (afterDigit : Bool) : List Char → List Nat × List Char
  | [] => ([], [])
  | c :: cs =>
    if afterDigit && c = '_' then
      match digitsFrom false cs with
      | ([], _) => ([], c :: cs)
      | found => found
    else
      match digitValue? c with
      | none => ([], c :: cs)
      | some digit =>
        let (digits, after) := digitsFrom true cs
        (digit :: digits, after)

/-- The values of the digits at the start of a text, and the text after them. A low line counts as
part of the run only between two digits. -/
def digitRun (cs : List Char) : List Nat × List Char := digitsFrom false cs

/-- The number with the given decimal digits, most significant first. -/
def ofDigits (digits : List Nat) : Nat := digits.foldl (fun n digit => 10 * n + digit) 0

/-- A blank that may surround a number. The information separators may not. -/
def isNumberBlank (c : Char) : Bool := isBlank c && !(0x1c ≤ c.toNat && c.toNat ≤ 0x1f)

/-- A text without the blanks around it. -/
def trimNumber (cs : List Char) : List Char :=
  (((cs.dropWhile isNumberBlank).reverse).dropWhile isNumberBlank).reverse

/-- Cut off a sign. -/
def splitSign : List Char → Bool × List Char
  | '-' :: rest => (true, rest)
  | '+' :: rest => (false, rest)
  | cs => (false, cs)

/-- The most digits that a whole number may be written with, so that reading one stays cheap. -/
def maxDigits : Nat := 4300

/-- Read a whole number. -/
def readInteger (text : String) : Option Int :=
  let (negative, unsigned) := splitSign (trimNumber text.toList)
  match digitRun unsigned with
  | (digits, []) =>
    if digits = [] ∨ maxDigits < digits.length then none
    else if negative then some (-(ofDigits digits : Int)) else some (ofDigits digits)
  | _ => none

end AntResources.Number
