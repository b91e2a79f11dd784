/-!
# AntResources.Text.CodePage437

The character set of old archives: ASCII below 128, and letters, frames and signs above. Every byte
has a character.
-/

namespace AntResources.Text

/-- The characters of the bytes from 128 on. -/
def codePage437Upper : Array Char :=
  ("ÇüéâäàåçêëèïîìÄÅÉæÆôöòûùÿÖÜ¢£¥₧ƒ" ++
   "áíóúñÑªº¿⌐¬½¼¡«»░▒▓│┤╡╢╖╕╣║╗╝╜╛┐" ++
   "└┴┬├─┼╞╟╚╔╩╦╠═╬╧╨╤╥╙╘╒╓╫╪┘┌█▄▌▐▀" ++
   "αßΓπΣσµτΦΘΩδ∞φε∩≡±≥≤⌠⌡÷≈°∙·√ⁿ²■\u00a0").toList.toArray

/-- The character of a byte. -/
def codePage437Char (b : UInt8) : Char :=
  if b < 128 then Char.ofNat b.toNat else (codePage437Upper[b.toNat - 128]?).getD '?'

/-- Some bytes as text. -/
def ofCodePage437 (bytes : ByteArray) : String :=
  String.ofList (bytes.toList.map codePage437Char)

end AntResources.Text
