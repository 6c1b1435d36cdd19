import FileShell.Archive.Catalogue
import FileShell.Archive.Checksum
import FileShell.Archive.Coding.Bzip
import FileShell.Archive.Coding.Inflate
import FileShell.Archive.Coding.Lzma
import FileShell.Storage.Stream

/-!
# The contents of entries

The data of an entry follows a record that repeats its name. The data may not run into the record
of the next entry or into the catalogue. It is decoded, then cut at the size the listing gives, and
its checksum is compared at the end. Data is decoded in pieces of at least 4096 bytes, and a piece
in which something is found wrong is lost with what comes after it. Deflated data is decoded for so
many bytes that come out, the slower codings for so many that go in.
-/

namespace FileShell

/-- How the data of an entry is coded. -/
inductive Method
  | stored
  | deflated
  | bzip
  | lzma
  deriving DecidableEq

namespace Method

/-- The method of a number; other numbers are for methods that cannot be read. -/
def ofNumber? : Nat → Option Method
  | 0 => some .stored
  | 8 => some .deflated
  | 12 => some .bzip
  | 14 => some .lzma
  | _ => none

/-- What the data holds, and how it ended. -/
def decode : Method → Bytes → Bytes × Coding.End
  | .stored => fun b => (b, .cutShort)
  | .deflated => Coding.Inflate.inflate
  | .bzip => Coding.Bzip.decode
  | .lzma => Coding.Lzma.decode

end Method

/-- What is wrong with the data of an entry. -/
inductive Flaw
  | checksum
  | missing
  | corrupt (method : Method)
  deriving DecidableEq

/-- The data of an entry as it is coded, whether all of it is there, and the size and the checksum
it should have. -/
structure Contents where
  method : Method
  packed : Bytes
  isWhole : Bool
  size : Nat
  checksum : Nat

namespace Contents

def smallestPiece : Nat := 4096

def bytes (c : Contents) : Bytes := (c.method.decode c.packed).1.take c.size

/-- Compares the checksum; `before` bytes came before the last piece. -/
def checked? (c : Contents) (before : Nat) : Option (Nat × Flaw) :=
  if (Checksum.crc32 c.bytes).toNat = c.checksum then none else some (before, .checksum)

/-- How many bytes come in whole pieces before the piece with the last of `n` bytes. -/
def bytesBefore (piece n : Nat) : Nat := (n - 1) / piece * piece

/-- What comes out, and how it ended. Inflating stops after a piece for more data to go in, even
if there is none. -/
def comingOut (c : Contents) (piece : Nat) : Bytes × Coding.End :=
  let (out, e) := c.method.decode c.packed
  if !c.isWhole && c.method == .deflated && piece < out.length then (out.take piece, .cutShort)
  else (out, e)

/-- What is found wrong when a piece is a number of bytes that come out, and behind how many. -/
def flawComingOut? (c : Contents) (piece : Nat) : Option (Nat × Flaw) :=
  let (out, e) := c.comingOut piece
  let bad := bytesBefore piece out.length
  if e = .corrupt ∧ bad ≤ bytesBefore piece c.size then some (bad, .corrupt c.method)
  else if !c.isWhole ∧ e ≠ .finished ∧ out.length < c.size then some (out.length, .missing)
  else c.checked? (bytesBefore piece c.bytes.length)

/-- What is found wrong when a piece is a number of bytes that go in, and behind how many that come
out; `used` bytes went in before, and at most so many pieces are left. -/
def flawGoingIn? (c : Contents) (piece : Nat) : Nat → Nat → Option (Nat × Flaw)
  | 0, _ => none
  | left + 1, used =>
    let before := (c.method.decode (c.packed.take used)).1.length
    let (out, e) := c.method.decode (c.packed.take (used + piece))
    if e = .corrupt then some (before, .corrupt c.method)
    else if e = .finished ∨ c.size ≤ out.length then c.checked? before
    else if used + piece < c.packed.length then flawGoingIn? c piece left (used + piece)
    else if c.isWhole then c.checked? before
    else some (out.length, .missing)

/-- What is found wrong, and behind how many bytes, when the data is decoded in pieces. -/
def flaw? (c : Contents) (piece : Nat) : Option (Nat × Flaw) :=
  if c.packed.isEmpty && !c.isWhole then some (0, .missing)
  else match c.method with
  | .stored | .deflated => c.flawComingOut? piece
  | .bzip | .lzma => c.flawGoingIn? piece (c.packed.length / piece + 1) 0

/-- Inflating serves no request for more than a signed 64-bit number of bytes. -/
def isServed (c : Contents) (request : Nat) : Bool :=
  c.method != .deflated || request < Stream.wordLimit

def stream (c : Contents) : Stream where
  bytes := c.bytes
  failsAfter request :=
    if c.isServed request then (c.flaw? (max request smallestPiece)).map (·.1) else some 0

/-- All bytes at once, or what is wrong with them. -/
def readAll (c : Contents) : Except Flaw Bytes :=
  match c.flaw? 0x40000000 with
  | none => .ok c.bytes
  | some (_, f) => .error f

end Contents

namespace Archive

def recordSignature : Bytes := [0x50, 0x4B, 0x03, 0x04]

/-- Where the data of the `i`th entry must end: at the next record, or at the catalogue. Of entries
with one position only the first has room. -/
def limit (a : Archive) (i : Nat) (position : Int) : Int :=
  let positions := a.listings.map (·.position)
  if (positions.take i).contains position then position
  else match (positions.filter (position < ·)).min? with
    | none => a.start
    | some next => next

/-- Whether an entry marked so can be read: it is not encrypted, by either method, nor a patch. -/
def readableFlags (flags : Nat) : Bool :=
  !flags.testBit 0 && !flags.testBit 5 && !flags.testBit 6

/-- The data of a listing, as far as it is there, if the record in front of it agrees with the
listing. -/
def packed? (a : Archive) (i : Nat) (l : Listing) : Option Bytes := do
  let start ← if l.position < 0 then none else some l.position.toNat
  let record := a.bytes.drop start
  guard (30 ≤ record.length && recordSignature.isPrefixOf record)
  let nameLength := Number.field record 26 2
  let extraLength := Number.field record 28 2
  let name := (record.drop 30).take nameLength
  let extra := (record.drop (30 + nameLength)).take extraLength
  guard (readableFlags l.flags)
  let stored ← (Catalogue.nameOf (Number.field record 6 2) name).toOption
  guard (stored == l.storedName)
  let data := start + 30 + name.length + extra.length
  guard ((data + l.packedSize : Int) ≤ a.limit i l.position)
  return (a.bytes.drop data).take l.packedSize

/-- The contents of the `i`th entry. -/
def contents? (a : Archive) (i : Nat) : Option Contents := do
  let l ← a.listings[i]?
  let data ← a.packed? i l
  let m ← Method.ofNumber? l.method
  return ⟨m, data, data.length = l.packedSize, l.size, l.checksum⟩

/-- The last entry of the name. -/
def indexOf? (a : Archive) (name : Text) : Option Nat :=
  ((a.listings.zipIdx.filter fun (l, _) => l.name == name).getLast?).map (·.2)

end Archive

end FileShell
