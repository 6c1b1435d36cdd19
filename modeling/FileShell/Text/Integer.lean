import FileShell.Text.Blank
import FileShell.Text.Digit

/-!
# Integers

Reading a whole number from text: blanks around it, a sign, then decimal digits of any script with
single underscores between them. A number of more than 4300 digits is refused.
-/

namespace FileShell

inductive IntegerError
  | malformed
  | tooLong (digits : Nat)

namespace Integer

/-- The blanks that may stand around a number; the four separators 1C to 1F may not. -/
def isPadding (c : Char) : Bool :=
  isBlank c && !(0x1C ≤ c.toNat && c.toNat ≤ 0x1F)

def maxDigits : Nat := 4300

/-- The digits of a text that has a digit at both ends and no two characters in a row that are
not digits but underscores. -/
def digits? : Text → Option (List Nat)
  | [] => none
  | [c] => (digitValue? c).map ([·])
  | c :: '_' :: t => do
    let d ← digitValue? c
    let ds ← digits? t
    return d :: ds
  | c :: t => do
    let d ← digitValue? c
    let ds ← digits? t
    return d :: ds

def ofDigits (ds : List Nat) : Nat := ds.foldl (fun n d => 10 * n + d) 0

def natural? (t : Text) : Except IntegerError Nat :=
  match digits? (t.takeWhile fun c => c == '_' || (digitValue? c).isSome) with
  | none => .error .malformed
  | some ds =>
    if maxDigits < ds.length then .error (.tooLong ds.length)
    else if t.all fun c => c == '_' || (digitValue? c).isSome then .ok (ofDigits ds)
    else .error .malformed

def parse (t : Text) : Except IntegerError Int :=
  match Text.trim isPadding t with
  | '-' :: t => (natural? t).map fun n => -(n : Int)
  | '+' :: t => (natural? t).map fun n => (n : Int)
  | t => (natural? t).map fun n => (n : Int)

/-- A number in decimal digits, with a minus sign before it if it is negative. -/
def render (n : Int) : Text := (toString n).toList

end Integer

end FileShell
