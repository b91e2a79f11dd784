/-!
# AntResources.Archive.Checksum

The 32-bit cyclic redundancy check by which archives notice damaged members.
-/

namespace AntResources.Archive

/-- The generator polynomial, its least significant coefficient first. -/
def polynomial : UInt32 := 0xedb88320

/-- Divide out one bit. -/
def checksumBit (c : UInt32) : UInt32 :=
  if c &&& 1 = 1 then (c >>> 1) ^^^ polynomial else c >>> 1

/-- Take in one byte. -/
def checksumByte (c : UInt32) (b : UInt8) : UInt32 :=
  (List.range 8).foldl (fun c _ => checksumBit c) (c ^^^ b.toUInt32)

/-- The check of some bytes. -/
def checksum (bytes : ByteArray) : Nat :=
  (bytes.foldl checksumByte 0xffffffff ^^^ 0xffffffff).toNat

end AntResources.Archive
