import FileShell.Archive.Catalogue
import FileShell.Archive.Checksum
import FileShell.Archive.Entry

/-!
# Writing archives

The bytes of an archive with given members: for each a record and its data, then the catalogue and
the end record. Directories are stored; files are deflated, in blocks that are stored as they are.
A name that is not ASCII is marked as UTF-8. All dates are the earliest an archive can hold.
-/

namespace FileShell

/-- One member of an archive that is being written. -/
structure Member where
  name : Text
  isDir : Bool
  bytes : Bytes

namespace Member

def maxBlock : Nat := 65535

/-- Deflated data of stored blocks, the last of which says so. -/
def deflate (b : Bytes) : Bytes :=
  let n := min b.length maxBlock
  let block (last : UInt8) := last :: Number.write 2 n ++ Number.write 2 (maxBlock - n) ++ b.take n
  if b.length ≤ maxBlock then block 1 else block 0 ++ deflate (b.drop maxBlock)
  termination_by b.length
  decreasing_by simp only [List.length_drop, maxBlock] at *; omega

def method (m : Member) : Nat := if m.isDir then 0 else 8

def data (m : Member) : Bytes := if m.isDir then m.bytes else deflate m.bytes

def isAscii (t : Text) : Bool := t.all (·.toNat < 128)

def flags (m : Member) : Nat := if isAscii m.name then 0 else 2048

def version : Nat := 20

/-- The fields that the record and the listing of a member share. -/
def sharedFields (m : Member) : Bytes :=
  Number.write 2 m.flags ++ Number.write 2 m.method ++ Number.write 2 0 ++ Number.write 2 33 ++
    Number.write 4 (Checksum.crc32 m.bytes).toNat ++ Number.write 4 m.data.length ++
    Number.write 4 m.bytes.length ++ Number.write 2 (Utf8.encode m.name).length ++ Number.write 2 0

def record (m : Member) : Bytes :=
  [0x50, 0x4B, 0x03, 0x04] ++ Number.write 2 version ++ m.sharedFields ++ Utf8.encode m.name ++
    m.data

/-- The attributes of a directory or a file, those of the host in the upper half. -/
def attributes (m : Member) : Nat := if m.isDir then 0o40755 * 65536 + 16 else 0o100644 * 65536

def listing (m : Member) (position : Nat) : Bytes :=
  [0x50, 0x4B, 0x01, 0x02] ++ Number.write 1 version ++ [3] ++ Number.write 2 version ++
    m.sharedFields ++ Number.write 2 0 ++ Number.write 2 0 ++ Number.write 2 0 ++
    Number.write 4 m.attributes ++ Number.write 4 position ++ Utf8.encode m.name

/-- The listings of members whose records start at a position. -/
def catalogue : Nat → List Member → Bytes
  | _, [] => []
  | position, m :: ms => m.listing position ++ catalogue (position + m.record.length) ms

/-- A whole archive. -/
def archive (ms : List Member) : Bytes :=
  let records := ms.flatMap record
  let listings := catalogue 0 ms
  records ++ listings ++ [0x50, 0x4B, 0x05, 0x06] ++ Number.write 2 0 ++ Number.write 2 0 ++
    Number.write 2 ms.length ++ Number.write 2 ms.length ++ Number.write 4 listings.length ++
    Number.write 4 records.length ++ Number.write 2 0

end Member

end FileShell
