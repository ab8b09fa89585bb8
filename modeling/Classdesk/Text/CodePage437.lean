import Classdesk.Bytes

/-!
# Code page 437

Names in old archives are written with one byte for each character. The lower half is
ASCII.
-/

namespace Classdesk.Text.CodePage437

/-- The characters of the upper half. -/
def upperHalf : Array Char :=
  ("ÇüéâäàåçêëèïîìÄÅÉæÆôöòûùÿÖÜ¢£¥₧ƒ" ++
    "áíóúñÑªº¿⌐¬½¼¡«»░▒▓│┤╡╢╖╕╣║╗╝╜╛┐" ++
    "└┴┬├─┼╞╟╚╔╩╦╠═╬╧╨╤╥╙╘╒╓╫╪┘┌█▄▌▐▀" ++
    "αßΓπΣσµτΦΘΩδ∞φε∩≡±≥≤⌠⌡÷≈°∙·√ⁿ²■\u00a0").toList.toArray

/-- The character of a byte. -/
def decodeByte (b : UInt8) : Char :=
  if b.toNat < 128 then Char.ofNat b.toNat else upperHalf.getD (b.toNat - 128) ' '

/-- The text of some bytes. -/
def decode (bs : Bytes) : String := String.ofList (bs.map decodeByte)

end Classdesk.Text.CodePage437
