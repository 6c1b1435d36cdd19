import FileShell.Text.Basic

/-!
# Blanks

The characters that separate words: the ASCII controls from tab to carriage return, the four
separators 1C to 1F, the space, and the blanks of Unicode. Words are the maximal runs of other
characters, so a text has no word exactly when all of it is blank.
-/

namespace FileShell

/-- The closed ranges of code points that count as blank. -/
def blankRanges : List (Nat × Nat) :=
  [(0x09, 0x0D), (0x1C, 0x20), (0x85, 0x85), (0xA0, 0xA0), (0x1680, 0x1680), (0x2000, 0x200A),
   (0x2028, 0x2029), (0x202F, 0x202F), (0x205F, 0x205F), (0x3000, 0x3000)]

def isBlank (c : Char) : Bool :=
  blankRanges.any fun (lo, hi) => lo ≤ c.toNat && c.toNat ≤ hi

namespace Text

/-- The text without the blanks at its two ends. -/
def strip (t : Text) : Text := trim isBlank t

def words (t : Text) : List Text := fields isBlank t

end Text

end FileShell
