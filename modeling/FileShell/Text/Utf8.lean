import FileShell.Text.Basic

/-!
# UTF-8

Writing text as bytes, and reading bytes as text. Reading never fails: each maximal part of the
bytes that begins a character and does not complete it is read as the replacement character, and
so is each byte that can begin none. Bytes are well formed when writing what was read gives them
back.
-/

namespace FileShell

abbrev Bytes := List UInt8

namespace Utf8

/-- The bytes of one character, at most four. -/
def encodeChar (c : Char) : Bytes :=
  let n := c.toNat
  let low (n : Nat) : UInt8 := UInt8.ofNat (0x80 + n % 64)
  if n < 0x80 then [UInt8.ofNat n]
  else if n < 0x800 then [UInt8.ofNat (0xC0 + n / 64), low n]
  else if n < 0x10000 then [UInt8.ofNat (0xE0 + n / 4096), low (n / 64), low n]
  else [UInt8.ofNat (0xF0 + n / 262144), low (n / 4096), low (n / 64), low n]

def encode (t : Text) : Bytes := t.flatMap encodeChar

def replacement : Char := '\uFFFD'

/-- A character begun and not completed: how many bytes are still to come, the range of the next
one, and the value read so far. -/
structure Pending where
  missing : Nat
  lo : Nat
  hi : Nat
  value : Nat

/-- What one byte means where a character begins. -/
inductive Lead
  | whole (c : Char)
  | begins (p : Pending)
  | stray

def lead (b : UInt8) : Lead :=
  let n := b.toNat
  if n < 0x80 then .whole (Char.ofNat n)
  else if n < 0xC2 then .stray
  else if n < 0xE0 then .begins ⟨1, 0x80, 0xBF, n - 0xC0⟩
  else if n < 0xF0 then
    .begins ⟨2, if n = 0xE0 then 0xA0 else 0x80, if n = 0xED then 0x9F else 0xBF, n - 0xE0⟩
  else if n < 0xF5 then
    .begins ⟨3, if n = 0xF0 then 0x90 else 0x80, if n = 0xF4 then 0x8F else 0xBF, n - 0xF0⟩
  else .stray

/-- Reads on from a character that may have been begun. -/
def decodeFrom : Option Pending → Bytes → Text
  | none, [] => []
  | some _, [] => [replacement]
  | none, b :: r =>
    match lead b with
    | .whole c => c :: decodeFrom none r
    | .begins p => decodeFrom (some p) r
    | .stray => replacement :: decodeFrom none r
  | some p, b :: r =>
    if p.lo ≤ b.toNat ∧ b.toNat ≤ p.hi then
      let value := p.value * 64 + (b.toNat - 0x80)
      if p.missing ≤ 1 then Char.ofNat value :: decodeFrom none r
      else decodeFrom (some ⟨p.missing - 1, 0x80, 0xBF, value⟩) r
    else
      replacement :: match lead b with
        | .whole c => c :: decodeFrom none r
        | .begins q => decodeFrom (some q) r
        | .stray => replacement :: decodeFrom none r

def decode (b : Bytes) : Text := decodeFrom none b

/-- The text of bytes that are well formed. -/
def decode? (b : Bytes) : Option Text :=
  let t := decode b
  if encode t = b then some t else none

end Utf8

/-- How many bytes the text takes. -/
def Text.byteSize (t : Text) : Nat := (Utf8.encode t).length

end FileShell
