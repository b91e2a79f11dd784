/-!
# AntResources.Text.Encoding

Bytes as text. What an encoding makes of bytes is up to its decoder, which is taken as it is.

* `Decoded` — what comes of decoding;
* `Encoding`, `Encoding.decodeFile` — a decoder, and the text of a file;
* `Encoding.utf8`, `latin1`, `ascii` — three encodings;
* `unifyNewlines` — line ends of all kinds as line feeds.
-/

namespace AntResources.Text

/-- What comes of decoding some bytes. -/
inductive Decoded where
  | text (s : String)
  /-- There are bytes that no text has. -/
  | undecodable
  /-- The decoder gives up without naming any bytes, for instance for want of a mark at the start. -/
  | refused
deriving DecidableEq, Repr

/-- The text that decoding came to, if it came to one. -/
def Decoded.text? : Decoded → Option String
  | .text s => some s
  | .undecodable | .refused => none

/-- The outcome with its text changed, if there is one. -/
def Decoded.map (f : String → String) : Decoded → Decoded
  | .text s => .text (f s)
  | .undecodable => .undecodable
  | .refused => .refused

/-- An encoding of text. Bytes in one piece and bytes from a stream have decoders of their own, which
need not agree: one may ask for a mark at the start that the other can do without. -/
structure Encoding where
  decode : ByteArray → Decoded
  decodeStream : ByteArray → Decoded

namespace Encoding

/-- An encoding that makes no difference between bytes in one piece and bytes from a stream. -/
def uniform (decode : ByteArray → Decoded) : Encoding := ⟨decode, decode⟩

def utf8 : Encoding := uniform fun bytes =>
  match String.fromUTF8? bytes with
  | some s => .text s
  | none => .undecodable

/-- The text of the characters that have the values of some bytes. -/
def ofValues (bytes : ByteArray) : String := String.ofList (bytes.toList.map fun b => Char.ofNat b.toNat)

/-- One byte a character, which has the value of the byte. -/
def latin1 : Encoding := uniform fun bytes => .text (ofValues bytes)

def ascii : Encoding := uniform fun bytes =>
  if bytes.toList.all (· < 128) then .text (ofValues bytes) else .undecodable

end Encoding

/-- Write each line end, be it a line feed, a carriage return or one after the other, as a line
feed. -/
def unifyNewlines : List Char → List Char
  | [] => []
  | '\r' :: '\n' :: rest => '\n' :: unifyNewlines rest
  | '\r' :: rest => '\n' :: unifyNewlines rest
  | c :: rest => c :: unifyNewlines rest

/-- A text with its line ends unified. -/
def unified (s : String) : String := String.ofList (unifyNewlines s.toList)

/-- Decode the bytes of a text file. -/
def Encoding.decodeFile (encoding : Encoding) (bytes : ByteArray) : Decoded :=
  (encoding.decodeStream bytes).map unified

/-- The text of a file in UTF-8, if it is that. -/
def utf8FileText? (bytes : ByteArray) : Option String := (String.fromUTF8? bytes).map unified

end AntResources.Text
