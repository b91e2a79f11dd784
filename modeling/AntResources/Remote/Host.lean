import AntResources.Text.Segments

/-!
# AntResources.Remote.Host

Which hosts a remote location may name. A host in brackets is an IPv6 address, with or without a
zone, or an address of a future version (`v`, hexadecimal digits, a full stop, and more). A host may
not use a character that compatibility normalization turns into one of the marks `/?#@:` by which a
location is cut into its parts.

* `isIPv4`, `isIPv6`, `isFutureAddress` — the forms of addresses;
* `bracketsAreSound` — the rule for brackets in the authority of a location;
* `hidesMark` — the characters that normalization turns into a mark.
-/

namespace AntResources.Remote

open Text

/-! ## Addresses -/

/-- The number that a text of decimal digits is. -/
def decimalValue (cs : List Char) : Nat := cs.foldl (fun n c => 10 * n + (c.toNat - '0'.toNat)) 0

/-- A decimal number from 0 to 255 without leading zeros. -/
def isOctet (cs : List Char) : Bool :=
  cs ≠ [] && cs.all Char.isDigit && cs.length ≤ 3 && (cs = ['0'] || cs.head? ≠ some '0')
    && decimalValue cs ≤ 255

/-- Four octets with full stops between them. -/
def isIPv4 (cs : List Char) : Bool :=
  let octets := split '.' cs
  octets.length = 4 && octets.all isOctet

def isHexDigit (c : Char) : Bool :=
  c.isDigit || ('a' ≤ c && c ≤ 'f') || ('A' ≤ c && c ≤ 'F')

/-- Up to four hexadecimal digits, as one of the eight groups of an IPv6 address. -/
def isGroup (cs : List Char) : Bool := cs ≠ [] && cs.length ≤ 4 && cs.all isHexDigit

/-- The groups of an IPv6 address, in which an IPv4 address at the end stands for two. -/
def addressGroups (cs : List Char) : Option (List (List Char)) :=
  let parts := split ':' cs
  match parts.getLast? with
  | some last =>
    if last.contains '.' then
      if isIPv4 last then some (parts.dropLast ++ [['0'], ['0']]) else none
    else some parts
  | none => none

/-- The groups on the two sides of `::`, if it stands there once. At the ends of the address the
colons of `::` leave one more empty part behind, which is no group. -/
def aroundGap (parts : List (List Char)) : Option (List (List Char) × List (List Char)) :=
  let inner := parts.tail.dropLast
  if (inner.filter (· = [])).length ≠ 1 then none
  else
    let before := parts.take (1 + (inner.takeWhile (· ≠ [])).length)
    let after := parts.drop (before.length + 1)
    some (if before = [[]] then [] else before, if after = [[]] then [] else after)

/-- An IPv6 address without a zone: eight groups, or fewer around one `::`. -/
def isIPv6Address (cs : List Char) : Bool :=
  match addressGroups cs with
  | none => false
  | some parts =>
    3 ≤ (split ':' cs).length && parts.length ≤ 9 &&
      if parts.tail.dropLast.contains [] then
        match aroundGap parts with
        | none => false
        | some (before, after) => before.length + after.length < 8 && (before ++ after).all isGroup
      else parts.length = 8 && parts.all isGroup

/-- An IPv6 address, perhaps with a zone after a `%`. -/
def isIPv6 (cs : List Char) : Bool :=
  let address := cs.takeWhile (· ≠ '%')
  match cs.dropWhile (· ≠ '%') with
  | [] => isIPv6Address address
  | _ :: zone => zone ≠ [] && !zone.contains '%' && isIPv6Address address

/-- An address of a version to come: `v`, hexadecimal digits, a full stop, and one character or more
on the same line. -/
def isFutureAddress : List Char → Bool
  | 'v' :: rest =>
    rest.takeWhile isHexDigit ≠ [] &&
      match rest.dropWhile isHexDigit with
      | '.' :: tail => tail ≠ [] && !tail.contains '\n'
      | _ => false
  | _ => false

/-- A host that may stand in brackets. -/
def isBracketedHost (host : List Char) : Bool :=
  if host.head? = some 'v' then isFutureAddress host else isIPv6 host

/-! ## The authority of a location -/

/-- The text after the last `@`, or all of it if there is none. -/
def afterLastAt (cs : List Char) : List Char := (cs.reverse.takeWhile (· ≠ '@')).reverse

/-- The brackets of an authority are sound if there are none, or if they hold an address, with
nothing before them and nothing after them but what a colon starts. Where the only brackets are
those of the user name, the host itself has to be such an address. -/
def bracketsAreSound (authority : List Char) : Bool :=
  if !authority.contains '[' && !authority.contains ']' then true
  else if !authority.contains '[' || !authority.contains ']' then false
  else
    let hostPart := afterLastAt authority
    match hostPart.dropWhile (· ≠ '[') with
    | [] => isBracketedHost (hostPart.takeWhile (· ≠ ':'))
    | _ :: bracketed =>
      let after := (bracketed.dropWhile (· ≠ ']')).tail
      hostPart.head? = some '[' && (after = [] || after.head? = some ':')
        && isBracketedHost (bracketed.takeWhile (· ≠ ']'))

/-- The characters whose compatibility normal form has one of the marks `/?#@:` in it, beyond the
marks themselves. -/
def markHidingChars : List Nat :=
  [0x2047, 0x2048, 0x2049, 0x2100, 0x2101, 0x2105, 0x2106, 0x2a74, 0xfe13, 0xfe16, 0xfe55, 0xfe56,
   0xfe5f, 0xfe6b, 0xff03, 0xff0f, 0xff1a, 0xff1f, 0xff20]

/-- Whether compatibility normalization makes `c` a mark that cuts a location. -/
def hidesMark (c : Char) : Bool := markHidingChars.contains c.toNat

end AntResources.Remote
