import AntResources.Number.Binary64
import AntResources.Number.Digit

/-!
# AntResources.Number.Shortest

The decimal text of a floating-point number, and the way back.

A number is written with the fewest digits that read back as that number, and of these with the ones
nearest to it, the last of them even if that leaves a choice. The digits stand in place from
`0.0001` up to below `10 ^ 16`, with at least one on each side of the point; elsewhere they are
followed by an exponent of at least two digits.

* `shortest` — the digits and the place of the point;
* `Binary64.toText`, `Binary64.ofText?` — writing and reading.
-/

namespace AntResources

open Number

namespace Binary64

/-! ## Digits -/

/-- The least `k` with `num / den < 10 ^ k`, for a value above zero. -/
def decimalMagnitude (num den : Nat) : Int :=
  let estimate : Int := (digitCount num : Int) - digitCount den
  let reached :=
    if estimate < 0 then den ≤ num * tenTo (-estimate).toNat else den * tenTo estimate.toNat ≤ num
  if reached then estimate + 1 else estimate

/-- The multiple of `10 ^ e` that reads back as `m * 2 ^ q`, if one of the two next to it does. If
both do it is the nearer one, and the even one of two that are equally near. -/
def onGrid? (m : Nat) (q : Int) (num den : Nat) (e : Int) : Option Nat :=
  let (num, den) := if e < 0 then (num * tenTo (-e).toNat, den) else (num, den * tenTo e.toNat)
  let down := num / den
  let readsBack (n : Nat) : Bool := ofDecimal false n e = .finite false m q
  match readsBack down, readsBack (down + 1) with
  | true, true => some (roundDiv num den)
  | true, false => some down
  | false, true => some (down + 1)
  | false, false => none

/-- Look for digits on ever finer grids, `steps` of them from the one with `count` digits on. -/
def search (m : Nat) (q : Int) (num den : Nat) (magnitude : Int) : Nat → Nat → Nat × Int
  | 0, count => (num * tenTo (count - magnitude).toNat / den, magnitude - count)
  | steps + 1, count =>
    match onGrid? m q num den (magnitude - count) with
    | some n => (n, magnitude - count)
    | none => search m q num den magnitude steps (count + 1)

/-- The fewest digits that read back as `m * 2 ^ q`, as `n` and `e` for `n * 10 ^ e`. Seventeen
digits always suffice. -/
def shortest (m : Nat) (q : Int) : Nat × Int :=
  let (num, den) := ratio m q
  search m q num den (decimalMagnitude num den) 17 1

/-! ## Writing -/

/-- Drop the zeros at the end of a list of digits. -/
def dropTrailingZeros (digits : List Char) : List Char :=
  (digits.reverse.dropWhile (· = '0')).reverse

/-- The text of the number whose digits are `digits`, the first of which stands for
`10 ^ exponent`. -/
def layOut (digits : List Char) (exponent : Int) : List Char :=
  if -4 ≤ exponent ∧ exponent < 0 then
    '0' :: '.' :: List.replicate (-exponent - 1).toNat '0' ++ digits
  else if 0 ≤ exponent ∧ exponent < 16 then
    let whole := exponent.toNat + 1
    let padded := digits ++ List.replicate (whole - digits.length) '0'
    let fraction := padded.drop whole
    padded.take whole ++ '.' :: (if fraction = [] then ['0'] else fraction)
  else
    let sign := if exponent < 0 then '-' else '+'
    let power := Nat.toDigits 10 exponent.natAbs
    let fraction := digits.drop 1
    digits.take 1 ++ (if fraction = [] then [] else '.' :: fraction) ++ 'e' :: sign
      :: List.replicate (2 - power.length) '0' ++ power

/-- The text of a floating-point number. -/
def toText : Binary64 → String
  | .nan => "nan"
  | .infinity negative => if negative then "-inf" else "inf"
  | .finite negative m q =>
    let sign := if negative then "-" else ""
    if m = 0 then sign ++ "0.0"
    else
      let (n, e) := shortest m q
      let digits := Nat.toDigits 10 n
      sign ++ String.ofList (layOut (dropTrailingZeros digits) (e + digits.length - 1))

instance : ToString Binary64 := ⟨toText⟩

/-! ## Reading -/

/-- The exponent at the end of a number: an `e`, perhaps a sign, and digits; or nothing. -/
def readExponent : List Char → Option Int
  | [] => some 0
  | c :: rest =>
    if c = 'e' ∨ c = 'E' then
      let (negative, unsigned) := splitSign rest
      match digitRun unsigned with
      | (digit :: digits, []) =>
        let n : Int := ofDigits (digit :: digits)
        some (if negative then -n else n)
      | _ => none
    else none

/-- Read a number without its sign: digits with a point among or beside them, and an exponent. -/
def readUnsigned (negative : Bool) (cs : List Char) : Option Binary64 :=
  let (whole, rest) := digitRun cs
  let (fraction, rest) :=
    match rest with
    | '.' :: after => digitRun after
    | _ => ([], rest)
  if whole = [] ∧ fraction = [] then none
  else
    (readExponent rest).map fun e =>
      ofDecimal negative (ofDigits (whole ++ fraction)) (e - fraction.length)

/-- Read a floating-point number, with blanks around it. -/
def ofText? (text : String) : Option Binary64 :=
  let (negative, unsigned) := splitSign (trimNumber text.toList)
  let word := String.ofList (unsigned.map Char.toLower)
  if word = "nan" then some .nan
  else if word = "inf" ∨ word = "infinity" then some (.infinity negative)
  else readUnsigned negative unsigned

end Binary64

end AntResources
