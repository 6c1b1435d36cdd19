import FileShell.Text.Utf8

/-!
# The old code page of archives

Names that an archive does not mark as UTF-8 have one byte for each character: ASCII below 128,
and above it the letters, boxes and signs of code page 437.
-/

namespace FileShell

namespace Codepage

def upperHalf : Text :=
  ("ÇüéâäàåçêëèïîìÄÅÉæÆôöòûùÿÖÜ¢£¥₧ƒáíóúñÑªº¿⌐¬½¼¡«»░▒▓│┤╡╢╖╕╣║╗╝╜╛┐└┴┬├─┼╞╟╚╔╩╦╠═╬╧╨╤╥╙╘╒╓╫╪┘┌█▄▌▐▀" ++
    "αßΓπΣσµτΦΘΩδ∞φε∩≡±≥≤⌠⌡÷≈°∙·√ⁿ²■\u00A0").toList

def decodeByte (b : UInt8) : Char :=
  if b.toNat < 128 then Char.ofNat b.toNat else upperHalf.getD (b.toNat - 128) Utf8.replacement

def decode (b : Bytes) : Text := b.map decodeByte

end Codepage

end FileShell
