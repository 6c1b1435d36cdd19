import FileShell.Text.Printable

/-!
# Quoted text

A text between quotes, as a message shows it. Single quotes, unless the text has a single quote
and no double one. Within them the backslash and the quote in use follow a backslash, the tab, the
line feed and the carriage return have short names, and any other character that is not printable
is written by its code in two, four or eight hexadecimal digits.
-/

namespace FileShell

namespace Text

def hexDigit (n : Nat) : Char := Nat.digitChar (n % 16)

/-- The last `k` hexadecimal digits. -/
def hex (n : Nat) : Nat → Text
  | 0 => []
  | k + 1 => hex (n / 16) k ++ [hexDigit n]

def quotedChar (quote c : Char) : Text :=
  let n := c.toNat
  if c = quote ∨ c = '\\' then ['\\', c]
  else if c = '\t' then ['\\', 't']
  else if c = '\n' then ['\\', 'n']
  else if c = '\r' then ['\\', 'r']
  else if isPrintable c then [c]
  else if n < 0x100 then '\\' :: 'x' :: hex n 2
  else if n < 0x10000 then '\\' :: 'u' :: hex n 4
  else '\\' :: 'U' :: hex n 8

def quoted (t : Text) : Text :=
  let quote := if t.contains '\'' && !t.contains '"' then '"' else '\''
  quote :: t.flatMap (quotedChar quote) ++ [quote]

end Text

end FileShell
