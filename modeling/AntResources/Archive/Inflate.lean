/-!
# AntResources.Archive.Inflate

Decompression of the deflate format: blocks of bytes that are stored, or coded as literals and as
references to earlier output, with prefix codes that are fixed or described in the block.

A stream is read as a list of bits. Every step takes at least one bit off it, which is why reading
ends.

* `Levels` — a prefix code, with `Levels.ofLengths` and `decode`;
* `symbolStep`, `symbols` — the content of a coded block;
* `blockStep`, `inflate` — the blocks of a stream.
-/

namespace AntResources.Archive

/-- Why a stream cannot be read on. -/
inductive Stop where
  /-- There are no more bits. -/
  | cut
  /-- The bits make no sense. -/
  | corrupt
deriving DecidableEq, Repr

/-- What came of a stream. -/
inductive Inflated where
  /-- It ended with its last block. -/
  | finished (output : ByteArray)
  /-- It ended too early, after this much output. -/
  | cut (output : ByteArray)
  /-- It makes no sense. -/
  | corrupt

namespace Inflate

/-! ## Bits -/

/-- The bits of a byte, the least first. -/
def bitsOfByte (b : UInt8) : List Bool := (List.range 8).map fun i => b.toNat.testBit i

/-- The bits of some bytes, in the order in which they are read. -/
def bitsOf (bytes : ByteArray) : List Bool := bytes.toList.flatMap bitsOfByte

/-- Read a number of `n` bits, the least first. -/
def takeNumber : Nat → List Bool → Option (Nat × List Bool)
  | 0, bits => some (0, bits)
  | _ + 1, [] => none
  | n + 1, b :: bits => (takeNumber n bits).map fun (v, rest) => (2 * v + b.toNat, rest)

theorem length_takeNumber {n v : Nat} {bits rest : List Bool}
    (h : takeNumber n bits = some (v, rest)) : rest.length + n = bits.length := by
  induction n generalizing v bits rest with
  | zero => simp only [takeNumber, Option.some.injEq, Prod.mk.injEq] at h; simp [h.2]
  | succ n ih =>
    cases bits with
    | nil => simp [takeNumber] at h
    | cons b bits =>
      simp only [takeNumber, Option.map_eq_some_iff, Prod.mk.injEq] at h
      obtain ⟨⟨v, r⟩, found, -, rfl⟩ := h
      have := ih found
      simp only [List.length_cons]
      omega

/-- The bits from the next whole byte on. The number of bits that are left tells how far that is. -/
def alignToByte (bits : List Bool) : List Bool := bits.drop (bits.length % 8)

/-! ## Prefix codes -/

/-- A prefix code: for each length from one on, the symbols whose codes have that length, in the
order of their codes. -/
abbrev Levels := List (List Nat)

/-- The symbols with a code of the given length. -/
def symbolsOfLength (lengths : List Nat) (length : Nat) : List Nat :=
  lengths.zipIdx.filterMap fun (l, symbol) => if l = length then some symbol else none

/-- The code in which each symbol has the given length, and no code if that is zero. There is at
least one level. -/
def levelsOf (lengths : List Nat) : Levels :=
  (List.range (max 1 (lengths.foldl max 0))).map fun i => symbolsOfLength lengths (i + 1)

/-- How many codes of the last length are unused, or none if the levels hold too many codes. -/
def unused (free : Nat) : Levels → Option Nat
  | [] => some free
  | level :: levels =>
    if 2 * free < level.length then none else unused (2 * free - level.length) levels

/-- A code for the symbols of a block. It has to use up all codes, except that one symbol may have
the one code of length one, and that there may be no symbol at all. -/
def levelsOf? (lengths : List Nat) : Option Levels :=
  let levels := levelsOf lengths
  match unused 1 levels with
  | none => none
  | some 0 => some levels
  | some _ => if levels.length = 1 then some levels else none

/-- A code for the lengths of codes. It has to use up all codes. If it has no symbol at all, every
bit stands for the length zero. -/
def levelsOfCodeLengths? (lengths : List Nat) : Option Levels :=
  let levels := levelsOf lengths
  if levels = [[]] then some [[0, 0]]
  else if unused 1 levels = some 0 then some levels else none

/-- Read a symbol. `code` counts how far the bits so far lie beyond the codes of shorter length. -/
def decode : Levels → Nat → List Bool → Except Stop (Nat × List Bool)
  | [], _, _ => .error .corrupt
  | _ :: _, _, [] => .error .cut
  | level :: levels, code, b :: bits =>
    let code := 2 * code + b.toNat
    match level[code]? with
    | some symbol => .ok (symbol, bits)
    | none => decode levels (code - level.length) bits

theorem length_decode {levels : Levels} {code symbol : Nat} {bits rest : List Bool}
    (h : decode levels code bits = .ok (symbol, rest)) : rest.length < bits.length := by
  induction levels generalizing code bits with
  | nil => simp [decode] at h
  | cons level levels ih =>
    cases bits with
    | nil => simp [decode] at h
    | cons b bits =>
      rw [decode] at h
      split at h
      · cases h; simp
      · have := ih h
        simp only [List.length_cons]
        omega

/-! ## Coded blocks -/

/-- The least length that each length symbol stands for, and how many extra bits it takes. -/
def lengthTable : List (Nat × Nat) :=
  [(3, 0), (4, 0), (5, 0), (6, 0), (7, 0), (8, 0), (9, 0), (10, 0), (11, 1), (13, 1), (15, 1),
   (17, 1), (19, 2), (23, 2), (27, 2), (31, 2), (35, 3), (43, 3), (51, 3), (59, 3), (67, 4),
   (83, 4), (99, 4), (115, 4), (131, 5), (163, 5), (195, 5), (227, 5), (258, 0)]

/-- The least distance that each distance symbol stands for, and how many extra bits it takes. -/
def distanceTable : List (Nat × Nat) :=
  [(1, 0), (2, 0), (3, 0), (4, 0), (5, 1), (7, 1), (9, 2), (13, 2), (17, 3), (25, 3), (33, 4),
   (49, 4), (65, 5), (97, 5), (129, 6), (193, 6), (257, 7), (385, 7), (513, 8), (769, 8),
   (1025, 9), (1537, 9), (2049, 10), (3073, 10), (4097, 11), (6145, 11), (8193, 12), (12289, 12),
   (16385, 13), (24577, 13)]

/-- Read the extra bits of an entry of one of the tables. -/
def takeExtra (table : List (Nat × Nat)) (entry : Nat) (bits : List Bool) :
    Except Stop (Nat × List Bool) :=
  match table[entry]? with
  | none => .error .corrupt
  | some (least, extra) =>
    match takeNumber extra bits with
    | none => .error .cut
    | some (v, rest) => .ok (least + v, rest)

theorem length_takeExtra {table : List (Nat × Nat)} {entry v : Nat} {bits rest : List Bool}
    (h : takeExtra table entry bits = .ok (v, rest)) : rest.length ≤ bits.length := by
  unfold takeExtra at h
  split at h
  · cases h
  split at h
  · cases h
  · rename_i taken
    cases h
    have := length_takeNumber taken
    omega

/-- Repeat `count` bytes, each `distance` behind the end. -/
def copyBack (distance : Nat) : Nat → ByteArray → ByteArray
  | 0, out => out
  | count + 1, out => copyBack distance count (out.push (out[out.size - distance]?.getD 0))

/-- What one symbol of a coded block does. -/
inductive SymbolStep where
  /-- There is more output, and there are bits to go on with. -/
  | output (out : ByteArray) (bits : List Bool)
  /-- The block ends. -/
  | done (bits : List Bool)
  | stop (why : Stop)

/-- Read a symbol of a coded block, and the distance that belongs to a length. -/
def symbolStep (literals distances : Levels) (out : ByteArray) (bits : List Bool) : SymbolStep :=
  match decode literals 0 bits with
  | .error why => .stop why
  | .ok (symbol, bits) =>
    if symbol < 256 then .output (out.push symbol.toUInt8) bits
    else if symbol = 256 then .done bits
    else
      match takeExtra lengthTable (symbol - 257) bits with
      | .error why => .stop why
      | .ok (length, bits) =>
        match decode distances 0 bits with
        | .error why => .stop why
        | .ok (symbol, bits) =>
          match takeExtra distanceTable symbol bits with
          | .error why => .stop why
          | .ok (distance, bits) =>
            if out.size < distance then .stop .corrupt
            else .output (copyBack distance length out) bits

theorem length_symbolStep {literals distances : Levels} {out out' : ByteArray}
    {bits rest : List Bool} (h : symbolStep literals distances out bits = .output out' rest) :
    rest.length < bits.length := by
  unfold symbolStep at h
  split at h
  · cases h
  rename_i first
  have := length_decode first
  split at h
  · cases h; exact this
  split at h
  · cases h
  split at h
  · cases h
  rename_i second
  have := length_takeExtra second
  split at h
  · cases h
  rename_i third
  have := length_decode third
  split at h
  · cases h
  rename_i fourth
  have := length_takeExtra fourth
  split at h
  · cases h
  · cases h; omega

/-- Read the symbols of a coded block up to its end. -/
def symbols (literals distances : Levels) (out : ByteArray) (bits : List Bool) :
    ByteArray × Except Stop (List Bool) :=
  match _h : symbolStep literals distances out bits with
  | .output out rest => symbols literals distances out rest
  | .done rest => (out, .ok rest)
  | .stop why => (out, .error why)
termination_by bits.length
decreasing_by exact length_symbolStep _h

/-! ## Code descriptions -/

/-- The lengths of the fixed code of literals and lengths. -/
def fixedLiterals : List Nat :=
  List.replicate 144 8 ++ List.replicate 112 9 ++ List.replicate 24 7 ++ List.replicate 8 8

/-- The lengths of the fixed code of distances. -/
def fixedDistances : List Nat := List.replicate 32 5

/-- The order in which the lengths of the code of lengths are written. -/
def codeLengthOrder : List Nat :=
  [16, 17, 18, 0, 8, 7, 9, 6, 10, 5, 11, 4, 12, 3, 13, 2, 14, 1, 15]

/-- Read `count` numbers of `width` bits. -/
def takeNumbers (width : Nat) : Nat → List Bool → Option (List Nat × List Bool)
  | 0, bits => some ([], bits)
  | count + 1, bits => do
    let (v, bits) ← takeNumber width bits
    let (vs, bits) ← takeNumbers width count bits
    pure (v :: vs, bits)

/-- Read a run of lengths: which length it repeats, and how often. `last` is the length before. -/
def takeRun (code : Levels) (last : Option Nat) (bits : List Bool) :
    Except Stop (Nat × Nat × List Bool) :=
  match decode code 0 bits with
  | .error why => .error why
  | .ok (symbol, bits) =>
    if symbol < 16 then .ok (symbol, 0, bits)
    else
      let (width, least) := if symbol = 16 then (2, 3) else if symbol = 17 then (3, 3) else (7, 11)
      match takeNumber width bits with
      | none => .error .cut
      | some (v, bits) =>
        if symbol = 16 then
          match last with
          | none => .error .corrupt
          | some length => .ok (length, least + v - 1, bits)
        else .ok (0, least + v - 1, bits)

/-- Read `count` lengths, in runs of one or more. No run may go beyond them. -/
def takeLengths (code : Levels) (lengths : List Nat) (count : Nat) (bits : List Bool) :
    Except Stop (List Nat × List Bool) :=
  match count with
  | 0 => .ok (lengths, bits)
  | count + 1 =>
    match takeRun code lengths.getLast? bits with
    | .error why => .error why
    | .ok (length, more, bits) =>
      if count < more then .error .corrupt
      else takeLengths code (lengths ++ List.replicate (more + 1) length) (count - more) bits
termination_by count
decreasing_by omega

/-- Read the codes of a block that describes them. A block without an end is refused. -/
def takeCodes (bits : List Bool) : Except Stop (Levels × Levels × List Bool) := do
  let some (counts, bits) := takeNumber 14 bits | throw .cut
  let literalCount := counts % 32 + 257
  let distanceCount := counts / 32 % 32 + 1
  if 286 < literalCount || 30 < distanceCount then throw .corrupt
  let some (written, bits) := takeNumbers 3 (counts / 1024 + 4) bits | throw .cut
  let lengthOf (symbol : Nat) : Nat := ((codeLengthOrder.zip written).lookup symbol).getD 0
  let some code := levelsOfCodeLengths? ((List.range 19).map lengthOf) | throw .corrupt
  -- The lengths of both codes are one row, so that a run may go from the one into the other.
  let (lengths, bits) ← takeLengths code [] (literalCount + distanceCount) bits
  if (lengths[256]?).getD 0 = 0 then throw .corrupt
  let some literals := levelsOf? (lengths.take literalCount) | throw .corrupt
  let some distances := levelsOf? (lengths.drop literalCount) | throw .corrupt
  pure (literals, distances, bits)

/-! ## Blocks -/

/-- Read `count` bytes as they stand, or as many as there are. -/
def copyStored : Nat → ByteArray → List Bool → ByteArray × Except Stop (List Bool)
  | 0, out, bits => (out, .ok bits)
  | count + 1, out, bits =>
    match takeNumber 8 bits with
    | none => (out, .error .cut)
    | some (v, rest) => copyStored count (out.push v.toUInt8) rest

/-- Read a block of stored bytes, whose length is written twice, the second time inverted. -/
def storedBlock (out : ByteArray) (bits : List Bool) : ByteArray × Except Stop (List Bool) :=
  match takeNumber 32 (alignToByte bits) with
  | none => (out, .error .cut)
  | some (v, rest) =>
    let length := v % 65536
    if v / 65536 + length ≠ 65535 then (out, .error .corrupt) else copyStored length out rest

/-- Read the content of a block of the given kind. -/
def block (kind : Nat) (out : ByteArray) (bits : List Bool) : ByteArray × Except Stop (List Bool) :=
  match kind with
  | 0 => storedBlock out bits
  | 1 => symbols (levelsOf fixedLiterals) (levelsOf fixedDistances) out bits
  | 2 =>
    match takeCodes bits with
    | .error why => (out, .error why)
    | .ok (literals, distances, bits) => symbols literals distances out bits
  | _ => (out, .error .corrupt)

/-- Read the blocks of a stream. `count` bounds how many there are. -/
def blocks : Nat → ByteArray → List Bool → Inflated
  | 0, out, _ => .cut out
  | count + 1, out, bits =>
    match takeNumber 3 bits with
    | none => .cut out
    | some (header, bits) =>
      match block (header / 2) out bits with
      | (out, .error .cut) => .cut out
      | (_, .error .corrupt) => .corrupt
      | (out, .ok bits) => if header % 2 = 1 then .finished out else blocks count out bits

end Inflate

/-- Decompress a stream. It cannot have more blocks than bits. -/
def inflate (bytes : ByteArray) : Inflated :=
  let bits := Inflate.bitsOf bytes
  Inflate.blocks (bits.length + 1) ByteArray.empty bits

end AntResources.Archive
