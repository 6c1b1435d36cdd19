import FileShell.Text.Utf8

/-!
# Numbers in bytes

Numbers of a fixed width with the lowest byte first. Reading what was written gives the number
back, up to what fits the width.
-/

namespace FileShell

namespace Number

/-- The number in so many bytes. -/
def write : Nat → Nat → Bytes
  | 0, _ => []
  | k + 1, n => UInt8.ofNat (n % 256) :: write k (n / 256)

def read : Bytes → Nat
  | [] => 0
  | b :: r => b.toNat + 256 * read r

/-- The number in so many bytes from a position on. -/
def field (b : Bytes) (position width : Nat) : Nat := read ((b.drop position).take width)

theorem length_write : ∀ k n : Nat, (write k n).length = k
  | 0, _ => rfl
  | k + 1, n => by simp [write, length_write k]

/-- How many numbers fit into so many bytes. -/
def count : Nat → Nat
  | 0 => 1
  | k + 1 => 256 * count k

theorem read_write : ∀ k n : Nat, read (write k n) = n % count k
  | 0, n => by simp [write, read, count, Nat.mod_one]
  | k + 1, n => by
    have h : (n % 256) % 256 = n % 256 := Nat.mod_mod _ _
    simp only [write, read, read_write k, UInt8.toNat_ofNat', Nat.reducePow, h]
    rw [count, Nat.mod_mul]

end Number

end FileShell
