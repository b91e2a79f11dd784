/-!
# AntResources.Number.Binary64

Binary floating-point numbers of 64 bits, as exact values: a finite one is `m * 2 ^ e` with
`m < 2 ^ 53` and `-1074 ≤ e ≤ 971`. Every operation here is exact arithmetic on whole numbers and
rounds at most once, to the nearest number, and to the even one of two that are equally near.

* `Binary64` — the numbers;
* `ofRatio`, `ofDecimal`, `ofInt?` — rounding an exact value;
* `ratio?` — the exact value of a finite number.
-/

namespace AntResources

namespace Number

/-- Two to the power `n`. -/
def twoTo (n : Nat) : Nat := Nat.pow 2 n

/-- Ten to the power `n`. -/
def tenTo (n : Nat) : Nat := Nat.pow 10 n

end Number

open Number

/-- A binary floating-point number of 64 bits. -/
inductive Binary64 where
  | nan
  | infinity (negative : Bool)
  /-- The number `mantissa * 2 ^ exponent`, or its negative. -/
  | finite (negative : Bool) (mantissa : Nat) (exponent : Int)
deriving DecidableEq, Repr

namespace Binary64

/-- The least exponent. -/
def minExponent : Int := -1074

/-- The greatest exponent. -/
def maxExponent : Int := 971

/-- All mantissas are below this number, and those of normal numbers are at least half of it. -/
def mantissaBound : Nat := twoTo 53

/-- Zero. -/
def zero (negative : Bool) : Binary64 := .finite negative 0 minExponent

/-- The whole number nearest to `num / den`, the even one of two. -/
def roundDiv (num den : Nat) : Nat :=
  let quotient := num / den
  let twice := 2 * (num % den)
  if twice < den then quotient
  else if twice = den then quotient + quotient % 2
  else quotient + 1

/-- The whole number nearest to `num / den / 2 ^ e`. -/
def roundScaled (num den : Nat) (e : Int) : Nat :=
  if e < 0 then roundDiv (num * twoTo (-e).toNat) den else roundDiv num (den * twoTo e.toNat)

/-- The number `m * 2 ^ e` with `m ≤ mantissaBound`, or infinity if that is too large. -/
def pack (negative : Bool) (m : Nat) (e : Int) : Binary64 :=
  let (m, e) := if m = mantissaBound then (mantissaBound / 2, e + 1) else (m, e)
  if maxExponent < e then .infinity negative else .finite negative m e

/-- The number nearest to `num / den`, where `den` is not zero. -/
def ofRatio (negative : Bool) (num den : Nat) : Binary64 :=
  if num = 0 then zero negative
  else
    -- At this exponent the value has 53 bits or 54 before the point, and fewer only at the bottom.
    let e := max ((num.log2 : Int) - den.log2 - 53) minExponent
    let m := roundScaled num den e
    if m < mantissaBound then pack negative m e
    else pack negative (roundScaled num den (e + 1)) (e + 1)

/-- How many decimal digits `n` has. -/
def digitCount (n : Nat) : Nat := (Nat.toDigits 10 n).length

/-- The number nearest to `n * 10 ^ e`. Values far outside the range are told by their magnitude, so
that the cost does not depend on how far they are. -/
def ofDecimal (negative : Bool) (n : Nat) (e : Int) : Binary64 :=
  if n = 0 then zero negative
  else
    let magnitude := e + digitCount n
    if 310 < magnitude then .infinity negative
    else if magnitude < -330 then zero negative
    else if e < 0 then ofRatio negative n (tenTo (-e).toNat)
    else ofRatio negative (n * tenTo e.toNat) 1

/-- The number nearest to a whole number, if that is in range. -/
def ofInt? (i : Int) : Option Binary64 :=
  match ofRatio (i < 0) i.natAbs 1 with
  | .infinity _ => none
  | x => some x

/-- The absolute value of a finite number, as a numerator and a denominator. -/
def ratio (mantissa : Nat) (exponent : Int) : Nat × Nat :=
  if exponent < 0 then (mantissa, twoTo (-exponent).toNat) else (mantissa * twoTo exponent.toNat, 1)

/-- Zero or less. This holds of no number that is not a number. -/
def isAtMostZero : Binary64 → Bool
  | .nan => false
  | .infinity negative => negative
  | .finite negative mantissa _ => negative || mantissa == 0

end Binary64

end AntResources
