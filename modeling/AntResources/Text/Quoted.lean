import AntResources.Text.Printable

/-!
# AntResources.Text.Quoted

The quoted form of a text, in which messages show the texts they complain about.

The quotation mark is `'`, unless the text has a `'` and no `"`. The mark itself and the backslash
are written after a backslash; line feed, carriage return and tab by their letters; every other
character that does not show in print by its code point, in the shortest of the forms `\xNN`,
`\uNNNN` and `\UNNNNNNNN`.
-/

namespace AntResources.Text

/-- `n` in hexadecimal with at least `width` digits. -/
def hexDigits (width n : Nat) : List Char :=
  let digits := Nat.toDigits 16 n
  List.replicate (width - digits.length) '0' ++ digits

/-- The quotation mark that needs no escape if one of the two does not. -/
def quotationMark (cs : List Char) : Char :=
  if cs.contains '\'' && !cs.contains '"' then '"' else '\''

/-- One character as it stands between two `mark`s. -/
def quoteChar (mark c : Char) : List Char :=
  if c = mark ∨ c = '\\' then ['\\', c]
  else if c = '\n' then ['\\', 'n']
  else if c = '\r' then ['\\', 'r']
  else if c = '\t' then ['\\', 't']
  else if isPrintable c then [c]
  else if c.toNat ≤ 0xff then '\\' :: 'x' :: hexDigits 2 c.toNat
  else if c.toNat ≤ 0xffff then '\\' :: 'u' :: hexDigits 4 c.toNat
  else '\\' :: 'U' :: hexDigits 8 c.toNat

/-- The quoted form of `s`. -/
def quote (s : String) : String :=
  let cs := s.toList
  let mark := quotationMark cs
  String.ofList (mark :: cs.flatMap (quoteChar mark) ++ [mark])

end AntResources.Text
