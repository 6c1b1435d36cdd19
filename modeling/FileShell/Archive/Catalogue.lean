import FileShell.Archive.Codepage
import FileShell.Archive.Number

/-!
# The catalogue of an archive

An archive ends with an end record, which tells where its catalogue is; the catalogue has a record
for each entry. The end record is looked for from the end of the bytes, behind which a comment may
stand. Bytes in front of the archive shift all positions in it. Sizes and positions too large for
32 bits stand in records of their own.
-/

namespace FileShell

/-- What the catalogue says of one entry. -/
structure Listing where
  /-- The name as it is stored. -/
  storedName : Text
  flags : Nat
  method : Nat
  checksum : Nat
  packedSize : Nat
  size : Nat
  /-- Where the record in front of the data starts; less than zero if the catalogue is wrong. -/
  position : Int

/-- The name of the entry: the stored name up to its first NUL. -/
def Listing.name (l : Listing) : Text := l.storedName.takeWhile (· != '\x00')

def Listing.isDir (l : Listing) : Bool := l.name.getLast? == some '/'

inductive CatalogueError
  /-- The bytes are no archive, or one that is damaged. -/
  | damaged
  /-- A name that is not the UTF-8 it is marked as, or a version that is not known. -/
  | unsupported

namespace Catalogue

def endSignature : Bytes := [0x50, 0x4B, 0x05, 0x06]
def bigEndSignature : Bytes := [0x50, 0x4B, 0x06, 0x06]
def locatorSignature : Bytes := [0x50, 0x4B, 0x06, 0x07]
def listingSignature : Bytes := [0x50, 0x4B, 0x01, 0x02]

/-- The last position below `n` at which the bytes go on with the word. -/
def lastAt? (word b : Bytes) : Nat → Option Nat
  | 0 => none
  | n + 1 => if word.isPrefixOf (b.drop n) then some n else lastAt? word b n

/-- Where the end record starts. -/
def endPosition? (b : Bytes) : Option Nat :=
  let last := b.drop (b.length - 22)
  if b.length < 22 then none
  else if endSignature.isPrefixOf last && last.drop 20 == [0, 0] then some (b.length - 22)
  else
    let start := b.length - 65558
    match lastAt? endSignature (b.drop start) (b.length - start) with
    | none => none
    | some k => if b.length < start + k + 22 then none else some (start + k)

/-- The length of the catalogue, the position it claims, and the length of what stands between
it and the end record. -/
structure Extent where
  length : Nat
  claimed : Nat
  gap : Nat

/-- What the end record at a position says, or the record for large archives in front of it. -/
def extent (b : Bytes) (position : Nat) : Except CatalogueError Extent :=
  let plain : Extent :=
    ⟨Number.field b (position + 12) 4, Number.field b (position + 16) 4, 0⟩
  if position < 20 || !locatorSignature.isPrefixOf (b.drop (position - 20)) then .ok plain
  else if Number.field b (position - 16) 4 ≠ 0 || 1 < Number.field b (position - 4) 4 then
    .error .damaged
  else if position < 76 then .error .damaged
  else if !bigEndSignature.isPrefixOf (b.drop (position - 76)) then .ok plain
  else .ok ⟨Number.field b (position - 36) 8, Number.field b (position - 28) 8, 76⟩

/-- The name that is stored in the bytes. -/
def nameOf (flags : Nat) (b : Bytes) : Except CatalogueError Text :=
  if flags.testBit 11 then
    match Utf8.decode? b with
    | some t => .ok t
    | none => .error .unsupported
  else .ok (Codepage.decode b)

def allOnes : Nat := 0xFFFFFFFF

/-- The sizes and the position from the record for large entries, each there only if its place in
the listing holds all ones. -/
def enlarge (data : Bytes) (size packed position : Nat) :
    Except CatalogueError (Nat × Nat × Nat) := do
  let take (needed : Bool) (old : Nat) (data : Bytes) : Except CatalogueError (Nat × Bytes) :=
    if !needed then .ok (old, data)
    else if data.length < 8 then .error .damaged
    else .ok (Number.read (data.take 8), data.drop 8)
  let (size, data) ← take (size = allOnes || size = 0xFFFFFFFFFFFFFFFF) size data
  let (packed, data) ← take (packed = allOnes) packed data
  let (position, _) ← take (position = allOnes) position data
  return (size, packed, position)

/-- Goes through the extra records of a listing; `fuel` is at least their number. -/
def readExtra : Nat → Bytes → Nat × Nat × Nat → Except CatalogueError (Nat × Nat × Nat)
  | 0, _, sizes => .ok sizes
  | fuel + 1, extra, (size, packed, position) => do
    if extra.length < 4 then return (size, packed, position)
    let kind := Number.field extra 0 2
    let n := Number.field extra 2 2
    if extra.length < n + 4 then .error .damaged
    let sizes ←
      if kind = 1 then enlarge ((extra.drop 4).take n) size packed position
      else .ok (size, packed, position)
    readExtra fuel (extra.drop (n + 4)) sizes

def newestVersion : Nat := 63

/-- One listing at the head of the bytes and how long it is; `shift` is added to its position. -/
def listing (b : Bytes) (shift : Int) : Except CatalogueError (Listing × Nat) := do
  if b.length < 46 || !listingSignature.isPrefixOf b then .error .damaged
  let nameLength := Number.field b 28 2
  let extraLength := Number.field b 30 2
  let commentLength := Number.field b 32 2
  let flags := Number.field b 8 2
  let name ← nameOf flags ((b.drop 46).take nameLength)
  if newestVersion < Number.field b 6 1 then .error .unsupported
  let extra := (b.drop (46 + nameLength)).take extraLength
  let (size, packed, position) ← readExtra extra.length extra
    (Number.field b 24 4, Number.field b 20 4, Number.field b 42 4)
  return (⟨name, flags, Number.field b 10 2, Number.field b 16 4, packed, size, position + shift⟩,
    46 + nameLength + extraLength + commentLength)

/-- The listings in the first `left` bytes; each has 46 bytes at least. -/
def listings (shift : Int) : Nat → Nat → Bytes → Except CatalogueError (List Listing)
  | 0, _, _ => .ok []
  | fuel + 1, left, b => do
    if left = 0 then return []
    let (l, n) ← listing b shift
    return l :: (← listings shift fuel (left - n) (b.drop n))

end Catalogue

/-- An archive as it is read: its bytes, where the catalogue starts, and the listings in it. -/
structure Archive where
  bytes : Bytes
  start : Nat
  listings : List Listing

namespace Archive

def ofBytes (b : Bytes) : Except CatalogueError Archive := do
  match Catalogue.endPosition? b with
  | none => .error .damaged
  | some e =>
    let x ← Catalogue.extent b e
    if e < x.length + x.gap then .error .damaged
    let start := e - x.length - x.gap
    let data := (b.drop start).take x.length
    let ls ← Catalogue.listings ((start : Int) - x.claimed) (data.length / 46 + 1) x.length data
    return ⟨b, start, ls⟩

end Archive

end FileShell
