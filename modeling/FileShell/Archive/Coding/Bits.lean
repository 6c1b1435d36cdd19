import FileShell.Text.Utf8

/-!
# Bits of coded data

Coded data is read bit by bit, each byte low end first. Data whose numbers start at the high end
is read the same way after its bytes have been turned round. Reading stops for want of bits, or on
data that no encoder writes.
-/

namespace FileShell

namespace Coding

/-- The bits left of the byte in hand, and the bytes after it. -/
structure Source where
  bits : List Bool
  bytes : Bytes

def byteBits (b : UInt8) : List Bool := (List.range 8).map b.toNat.testBit

/-- The byte with its high end at the low end. -/
def turned (b : UInt8) : UInt8 :=
  UInt8.ofNat ((byteBits b).foldl (fun n x => 2 * n + x.toNat) 0)

/-- How the data ended: at its last block, for want of bits, or on data that cannot be. -/
inductive End
  | finished
  | cutShort
  | corrupt
  deriving DecidableEq

namespace Source

def bit? : Source → Option (Bool × Source)
  | ⟨b :: bits, bytes⟩ => some (b, ⟨bits, bytes⟩)
  | ⟨[], b :: bytes⟩ =>
    match byteBits b with
    | [] => none
    | x :: bits => some (x, ⟨bits, bytes⟩)
  | ⟨[], []⟩ => none

def bit (s : Source) : Except End (Bool × Source) :=
  match s.bit? with
  | some r => .ok r
  | none => .error .cutShort

/-- A number of so many bits, low end first. -/
def number : Nat → Source → Except End (Nat × Source)
  | 0, s => .ok (0, s)
  | k + 1, s => do
    let (b, s) ← s.bit
    let (n, s) ← number k s
    return (b.toNat + 2 * n, s)

/-- A number of so many bits, high end first, behind the bits of `n`. -/
def numberAfter (n : Nat) : Nat → Source → Except End (Nat × Source)
  | 0, s => .ok (n, s)
  | k + 1, s => do
    let (b, s) ← s.bit
    numberAfter (2 * n + b.toNat) k s

/-- Several numbers of so many bits. -/
def numbers (k : Nat) : Nat → Source → Except End (List Nat × Source)
  | 0, s => .ok ([], s)
  | n + 1, s => do
    let (x, s) ← s.number k
    let (xs, s) ← numbers k n s
    return (x :: xs, s)

end Source

end Coding

end FileShell
