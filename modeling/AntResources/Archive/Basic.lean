import AntResources.Failure
import AntResources.Text.CodePage437

/-!
# AntResources.Archive.Basic

Zip archives and their tables of members. The table stands near the end of the file; the end record
behind it says where it starts, relative to the start of the archive. Bytes before the archive and a
comment behind it are allowed.

* `findEnd` — the search for the end record, with the larger record of big archives;
* `Member`, `readMembers` — the table;
* `Archive`, `Archive.ofBytes` — an archive that has been opened.
-/

namespace AntResources

/-- Why an archive cannot be used. -/
inductive Defect where
  /-- It contradicts itself, or is none at all. -/
  | broken
  | fault (fault : Fault)
deriving DecidableEq, Repr

/-- What the table of an archive says about a member. -/
structure Member where
  /-- The name, which ends at its first NUL. -/
  name : String
  /-- The name with all that comes after a NUL. -/
  fullName : String
  flags : Nat
  /-- The number of the method of compression. -/
  method : Nat
  checksum : Nat
  packedSize : Nat
  size : Nat
  /-- Where the member starts in the file. -/
  start : Int
  /-- Where whatever follows the member starts. -/
  bound : Int
deriving DecidableEq, Repr

/-- A member that stands for a folder. -/
def Member.isFolder (m : Member) : Bool := m.name.toList.getLast? = some '/'

/-- An archive. -/
structure Archive where
  bytes : ByteArray
  members : List Member

namespace Archive

/-! ## Fields -/

/-- The number in the `width` bytes from `place` on, the least significant first. -/
def number (bytes : ByteArray) (place : Nat) : Nat → Nat
  | 0 => 0
  | width + 1 => (bytes[place]?.getD 0).toNat + 256 * number bytes (place + 1) width

/-- The first two bytes of every record. -/
def recordMark : Nat := 0x4b50

/-- Whether a record of the given kind starts at `place`. -/
def isRecord (bytes : ByteArray) (place kind : Nat) : Bool :=
  place + 4 ≤ bytes.size && number bytes place 4 = recordMark + 65536 * kind

/-- A text of the given flags: bit 11 tells UTF-8 from the old character set. -/
def decodeName (flags : Nat) (bytes : ByteArray) : Except Defect String :=
  if flags.testBit 11 then
    match String.fromUTF8? bytes with
    | some s => .ok s
    | none => .error (.fault .notText)
  else .ok (Text.ofCodePage437 bytes)

/-! ## The end record -/

/-- Where the table is. -/
structure EndRecord where
  /-- Where the records that follow the table start in the file. -/
  position : Nat
  tableSize : Nat
  /-- Where the table starts, counted from the start of the archive. -/
  tableOffset : Nat
deriving DecidableEq, Repr

/-- What the search for the end record found. -/
inductive EndSearch where
  | absent
  /-- There is one that belongs to one part of several. -/
  | split
  /-- There is no room for the larger record that a locator announces. -/
  | cramped
  | found (record : EndRecord)
deriving DecidableEq, Repr

def endKind : Nat := 0x0605
def bigEndKind : Nat := 0x0606
def bigLocatorKind : Nat := 0x0706
def tableKind : Nat := 0x0201
def memberKind : Nat := 0x0403

def endLength : Nat := 22
def bigEndLength : Nat := 56
def bigLocatorLength : Nat := 20

/-- The last place from `low` on, below `low + count`, at which an end record starts. -/
def lastEnd? (bytes : ByteArray) (low : Nat) : Nat → Option Nat
  | 0 => none
  | count + 1 =>
    if isRecord bytes (low + count) endKind then some (low + count) else lastEnd? bytes low count

/-- The place of the end record: at the very end, if one without a comment is there, and else the
last that leaves room for no more than the longest comment. -/
def endPlace? (bytes : ByteArray) : Option Nat :=
  if bytes.size < endLength then none
  else
    -- Without a comment the record is the end of the file.
    let last := bytes.size - endLength
    if isRecord bytes last endKind && number bytes (last + 20) 2 = 0 then some last
    else
      let low := bytes.size - (65536 + endLength)
      match lastEnd? bytes low (bytes.size - low) with
      | some place => if bytes.size < place + endLength then none else some place
      | none => none

/-- Replace the end record by the larger one before it, if a locator announces such a record. -/
def enlarge (bytes : ByteArray) (small : EndRecord) : EndSearch :=
  if small.position < bigLocatorLength then .found small
  else
    let locator := small.position - bigLocatorLength
    if !isRecord bytes locator bigLocatorKind then .found small
    else if number bytes (locator + 4) 4 ≠ 0 || 1 < number bytes (locator + 16) 4 then .split
    else if locator < bigEndLength then .cramped
    else
      let place := locator - bigEndLength
      if !isRecord bytes place bigEndKind then .found small
      else .found ⟨place, number bytes (place + 40) 8, number bytes (place + 48) 8⟩

/-- Search for the end record. -/
def findEnd (bytes : ByteArray) : EndSearch :=
  match endPlace? bytes with
  | none => .absent
  | some place =>
    enlarge bytes ⟨place, number bytes (place + 12) 4, number bytes (place + 16) 4⟩

/-! ## The table -/

def tableEntryLength : Nat := 46

/-- The highest version of the format that the reader knows, in tenths. -/
def maxVersion : Nat := 63

/-- Sizes and place of a member that need more than 32 bits are written as all ones, and in full
among the extra fields. -/
structure Extent where
  size : Nat
  packedSize : Nat
  offset : Nat

/-- All ones in 32 bits. -/
def allOnes32 : Nat := 0xffffffff

/-- All ones in 64 bits. -/
def allOnes64 : Nat := 0xffffffffffffffff

/-- Read a number of eight bytes in place of one that is marked as too large. -/
def fullNumber (marked : Bool) (given : Nat) (field : ByteArray) :
    Except Defect (Nat × ByteArray) :=
  if !marked then .ok (given, field)
  else if field.size < 8 then .error .broken
  else .ok (number field 0 8, field.extract 8 field.size)

/-- Complete an extent from the extra field that is for this. -/
def completeExtent (e : Extent) (field : ByteArray) : Except Defect Extent := do
  let (size, field) ← fullNumber (e.size = allOnes32 || e.size = allOnes64) e.size field
  let (packedSize, field) ← fullNumber (e.packedSize = allOnes32) e.packedSize field
  let (offset, _) ← fullNumber (e.offset = allOnes32) e.offset field
  pure ⟨size, packedSize, offset⟩

/-- Read the extra fields from `place` on. -/
def readExtra (extra : ByteArray) (place : Nat) (e : Extent) : Except Defect Extent :=
  if extra.size < place + 4 then .ok e
  else
    let next := place + 4 + number extra (place + 2) 2
    if extra.size < next then .error .broken
    else if number extra place 2 = 1 then
      match completeExtent e (extra.extract (place + 4) next) with
      | .error defect => .error defect
      | .ok e => readExtra extra next e
    else readExtra extra next e
termination_by extra.size - place
decreasing_by all_goals omega

/-- Read the entry of the table at `place`, and where the next one starts. `shift` is what lies
before the archive in the file. -/
def readMember (table : ByteArray) (place : Nat) (shift : Int) : Except Defect (Member × Nat) := do
  if table.size < place + tableEntryLength then throw .broken
  if !isRecord table place tableKind then throw .broken
  let field (offset width : Nat) : Nat := number table (place + offset) width
  let nameEnd := place + tableEntryLength + field 28 2
  let extraEnd := nameEnd + field 30 2
  let flags := field 8 2
  let fullName ← decodeName flags (table.extract (place + tableEntryLength) nameEnd)
  if maxVersion < field 6 1 then throw (.fault .unsupportedArchive)
  let extent ← readExtra (table.extract nameEnd extraEnd) 0 ⟨field 24 4, field 20 4, field 42 4⟩
  let member : Member := {
    name := String.ofList (fullName.toList.takeWhile (· ≠ '\x00'))
    fullName := fullName
    flags := flags
    method := field 10 2
    checksum := field 16 4
    packedSize := extent.packedSize
    size := extent.size
    start := extent.offset + shift
    bound := 0 }
  pure (member, extraEnd + field 32 2)

/-- Read the entries of the table from `place` on. `count` bounds how many there are. -/
def readMembers (table : ByteArray) (shift : Int) : Nat → Nat → Except Defect (List Member)
  | 0, _ => .ok []
  | count + 1, place =>
    if table.size ≤ place then .ok []
    else do
      let (member, next) ← readMember table place shift
      let members ← readMembers table shift count next
      pure (member :: members)

/-- Set where each member has to end: where the next one starts, or the table. Of members that start
at the same place the first one keeps its room. -/
def setBounds (tableStart : Int) (members : List Member) : List Member :=
  members.zipIdx.map fun (m, i) =>
    let later := members.zipIdx.filter fun (n, j) => m.start < n.start || n.start = m.start && j < i
    { m with bound := ((later.map fun (n, _) => n.start).min?).getD tableStart }

/-- Open an archive. -/
def ofBytes (bytes : ByteArray) : Except Defect Archive :=
  match findEnd bytes with
  | .absent | .split | .cramped => .error .broken
  | .found record =>
    if record.position < record.tableSize then .error .broken
    else do
      let tableStart := record.position - record.tableSize
      let table := bytes.extract tableStart record.position
      let members ← readMembers table (tableStart - record.tableOffset : Int) (table.size + 1) 0
      pure ⟨bytes, setBounds tableStart members⟩

end Archive

end AntResources
