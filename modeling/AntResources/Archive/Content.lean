import AntResources.Archive.Basic
import AntResources.Archive.Checksum
import AntResources.Archive.Inflate

/-!
# AntResources.Archive.Content

The content of archive members. A member starts with a header of its own, which has to agree with
the table on the name; the member may not reach into what follows it, and its content has to have
the checksum that the table gives. It is stored as it is or compressed: `inflate` undoes one method of
compression, and what undoes the others is taken as it is.

* `Archive.Method`, `Archive.Decompressors` — the methods by which content is stored;
* `Archive.packed` — the bytes that are stored for a member;
* `Archive.unpack` — the content in these bytes;
* `Archive.contentOf`, `Archive.content?` — the content of a member, and of a name.
-/

namespace AntResources.Archive

/-! ## Methods -/

/-- A way of storing content. -/
structure Method where
  restore : ByteArray → Inflated
  /-- The defect of bytes that make no sense. -/
  corruption : Defect

/-- What undoes the methods of compression other than deflate, unless the reader lacks it. -/
structure Decompressors where
  bzip2 : Option (ByteArray → Inflated) := none
  lzma : Option (ByteArray → Inflated) := none

/-- The method of the given number, if the reader has it. -/
def Decompressors.method? (d : Decompressors) : Nat → Option Method
  -- Bytes that are stored as they are do not say where they end.
  | 0 => some ⟨.cut, .broken⟩
  | 8 => some ⟨inflate, .fault .corruptMember⟩
  | 12 => d.bzip2.map (⟨·, .broken⟩)
  | 14 => d.lzma.map (⟨·, .fault .corruptMember⟩)
  | _ => none

/-! ## Stored bytes -/

def headerLength : Nat := 30

/-- Places in a file are below this number. -/
def placeBound : Int := 0x8000000000000000

/-- The bytes that are stored for a member. They may be fewer than the table says. -/
def packed (a : Archive) (m : Member) : Except Defect ByteArray := do
  -- A place before the file cannot be read, and one beyond all files cannot even be gone to.
  if m.start < 0 then throw .broken
  if placeBound ≤ m.start then throw (.fault .offsetOutOfRange)
  let place := m.start.toNat
  if a.bytes.size < place + headerLength then throw .broken
  if !isRecord a.bytes place memberKind then throw .broken
  if m.flags.testBit 5 || m.flags.testBit 6 then throw (.fault .unsupportedArchive)
  let nameEnd := place + headerLength + number a.bytes (place + 26) 2
  let name ← decodeName (number a.bytes (place + 6) 2)
    (a.bytes.extract (place + headerLength) nameEnd)
  if name ≠ m.fullName then throw .broken
  -- The file may end within the extra fields; the content then starts at its end.
  let dataStart := min (nameEnd + number a.bytes (place + 28) 2) a.bytes.size
  if m.bound < (dataStart + m.packedSize : Nat) then throw .broken
  if m.flags.testBit 0 then throw (.fault .encryptedMember)
  pure (a.bytes.extract dataStart (dataStart + m.packedSize))

/-! ## Content -/

/-- The content in the bytes stored for a member, as far as the table says that it goes. -/
def unpack (d : Decompressors) (m : Member) (stored : ByteArray) : Except Defect ByteArray :=
  match d.method? m.method with
  | none => .error (.fault .unsupportedArchive)
  | some method => do
    let isShort := stored.size < m.packedSize
    if isShort && stored.size = 0 then throw (.fault .truncatedMember)
    match method.restore stored with
    | .corrupt => throw method.corruption
    | .finished output => pure (output.extract 0 m.size)
    | .cut output =>
      if isShort && output.size < m.size then throw (.fault .truncatedMember)
      pure (output.extract 0 m.size)

/-- The content of a member. -/
def contentOf (a : Archive) (d : Decompressors) (m : Member) : Except Defect ByteArray := do
  let content ← unpack d m (← a.packed m)
  if checksum content ≠ m.checksum then throw .broken
  pure content

/-- The member that a name stands for: the last one of that name. -/
def member? (a : Archive) (name : String) : Option Member :=
  a.members.reverse.find? fun m => m.name = name

/-- The content of the member of the given name, if there is one. -/
def content? (a : Archive) (d : Decompressors) (name : String) : Except Defect (Option ByteArray) :=
  match a.member? name with
  | none => .ok none
  | some m => (a.contentOf d m).map some

end AntResources.Archive
