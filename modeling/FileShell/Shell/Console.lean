import FileShell.Text.Blank
import FileShell.Text.Width

/-!
# The console

What a terminal shows of a text is up to the console that prints it. This is what can be relied on
(`Console.Described`): five control characters are dropped, from the bell and the backspace to the
carriage return; a tab is filled with spaces, at most as many as eight; each line is printed on its
own; and all else of it is shown as it is, but blanks at the end of a line that is longer than the
console is wide may be missing. One such console fills tabs up to the next column that eight
divides, counts columns in cells from the start of the line, and leaves all blanks.
-/

namespace FileShell

namespace Console

def isDropped (c : Char) : Bool := [0x07, 0x08, 0x0B, 0x0C, 0x0D].contains c.toNat

def tabStop : Nat := 8

/-- Whether the console shows the character as it is. -/
def isKept (c : Char) : Bool := !isDropped c && c != '\t'

/-- What is known of a console that shows `print t` for a text `t`. -/
structure Described (width : Nat) (print : Text → Text) : Prop where
  drops t : print t = print (t.filter fun c => !isDropped c)
  fills a b : (∀ c ∈ a, isKept c = true) →
    ∃ n, 0 < n ∧ n ≤ tabStop ∧ print (a ++ '\t' :: b) = print (a ++ List.replicate n ' ' ++ b)
  feeds a b : print (a ++ '\n' :: b) = print (a ++ ['\n']) ++ print b
  /-- The line `a ++ z` is shown as `a`, with the line feed behind it if it has one. -/
  shows l : '\n' ∉ l → (∀ c ∈ l, isKept c = true) →
    ∃ a z, l = a ++ z ∧ (∀ c ∈ z, isBlank c = true) ∧ (z ≠ [] → width < l.length) ∧
      print l = a ∧ print (l ++ ['\n']) = a ++ ['\n']

/-- Fills the tabs of a text that starts in the given column. -/
def fillTabs : Nat → Text → Text
  | _, [] => []
  | column, c :: t =>
    if c = '\n' then c :: fillTabs 0 t
    else if c = '\t' then
      let n := tabStop - column % tabStop
      List.replicate n ' ' ++ fillTabs (column + n) t
    else c :: fillTabs (column + charWidth c) t

/-- A console that counts columns in cells, however wide it is. -/
def render (t : Text) : Text := fillTabs 0 (t.filter (!isDropped ·))

/-- What is shown of texts that are written one after the other, each from a column of its own. -/
def printAll (print : Text → Text) (ts : List Text) : Text := ts.flatMap print

end Console

end FileShell
