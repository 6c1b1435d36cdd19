import FileShell.Text.Utf8

/-!
# Percent signs

In the text of an address a percent sign and two hexadecimal digits stand for a byte of UTF-8. A
percent sign that is followed by anything else stands for itself.
-/

namespace FileShell

namespace Percent

def hexValue? (b : UInt8) : Option UInt8 :=
  if 0x30 ≤ b ∧ b ≤ 0x39 then some (b - 0x30)
  else if 0x41 ≤ b ∧ b ≤ 0x46 then some (b - 0x41 + 10)
  else if 0x61 ≤ b ∧ b ≤ 0x66 then some (b - 0x61 + 10)
  else none

def unescape : Bytes → Bytes
  | 0x25 :: a :: b :: r =>
    match hexValue? a, hexValue? b with
    | some x, some y => (16 * x + y) :: unescape r
    | _, _ => 0x25 :: unescape (a :: b :: r)
  | b :: r => b :: unescape r
  | [] => []

def decode (t : Text) : Text := Utf8.decode (unescape (Utf8.encode t))

end Percent

end FileShell
