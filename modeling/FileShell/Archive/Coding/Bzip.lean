import FileShell.Archive.Coding.PrefixCode

/-!
# Block sorting

Reading data in the form of `bzip2`: blocks that were sorted by what follows each byte, then
written as places in a list that moves each byte used to its front, with runs of the first place
written as numbers in two digits, then coded with two to six prefix codes that take turns every
fifty words. Before all that, runs of four and more bytes were cut to four and a count. All numbers
start at the high end. Each block and the whole have checksums; a block whose checksum fails gives
nothing.
-/

namespace FileShell

namespace Coding.Bzip

/-! ## Checksums -/

/-- One byte into a checksum, high end first. -/
def checksumStep (c : UInt32) (b : UInt8) : UInt32 :=
  (List.range 8).foldl
    (fun c _ => if c &&& 0x80000000 = 0 then c <<< 1 else (c <<< 1) ^^^ 0x04C11DB7)
    (c ^^^ (b.toUInt32 <<< 24))

def checksum (b : Bytes) : UInt32 := b.foldl checksumStep 0xFFFFFFFF ^^^ 0xFFFFFFFF

/-- The checksum of the whole after one more block. -/
def combine (whole block : UInt32) : UInt32 := ((whole <<< 1) ||| (whole >>> 31)) ^^^ block

/-! ## The head of a block -/

def number (k : Nat) (s : Source) : Except End (Nat × Source) := s.numberAfter 0 k

/-- The numbers below `n` whose bit is set. -/
def chosen (n : Nat) (s : Source) : Except End (List Nat × Source) := do
  let (x, s) ← number n s
  return ((List.range n).filter fun k => x.testBit (n - 1 - k), s)

/-- The bytes that occur: sixteen bits say which sixteenths do, sixteen more which of each. -/
def usedBytes (s : Source) : Except End (List UInt8 × Source) := do
  let (rows, s) ← chosen 16 s
  let (bytes, s) ← rows.foldlM (fun (done, s) row => do
    let (columns, s) ← chosen 16 s
    return (done ++ columns.map fun c => UInt8.ofNat (16 * row + c), s)) (([] : Bytes), s)
  if bytes.isEmpty then .error .corrupt
  return (bytes, s)

/-- How many bits are set before the first that is not; that there may be only so many. -/
def ones : Nat → Source → Except End (Nat × Source)
  | 0, _ => .error .corrupt
  | most + 1, s => do
    let (b, s) ← s.bit
    if b then
      let (n, s) ← ones most s
      return (n + 1, s)
    else return (0, s)

/-- The element at a place, moved to the front. -/
def toFront {α : Type} (xs : List α) (i : Nat) : List α := (xs[i]?).toList ++ xs.eraseIdx i

/-- Which code each fifty words use, of `codes` codes. -/
def turns (codes : Nat) : Nat → List Nat → Source → Except End (List Nat × Source)
  | 0, _, s => .ok ([], s)
  | n + 1, order, s => do
    let (i, s) ← ones codes s
    let order := toFront order i
    let (rest, s) ← turns codes n order s
    return (order.headD 0 :: rest, s)

/-- The length of the next word, from that of the last; each step takes two bits. -/
def nextLength : Nat → Nat → Source → Except End (Nat × Source)
  | 0, _, _ => .error .cutShort
  | fuel + 1, length, s => do
    if length < 1 || 20 < length then .error .corrupt
    let (more, s) ← s.bit
    if !more then return (length, s)
    let (down, s) ← s.bit
    nextLength fuel (if down then length - 1 else length + 1) s

def wordLengths : Nat → Nat → Source → Except End (List Nat × Source)
  | 0, _, s => .ok ([], s)
  | n + 1, length, s => do
    let (length, s) ← nextLength (8 * s.bytes.length + 9) length s
    let (rest, s) ← wordLengths n length s
    return (length :: rest, s)

def code (symbols : Nat) (s : Source) : Except End (PrefixCode × Source) := do
  let (length, s) ← number 5 s
  let (lengths, s) ← wordLengths symbols length s
  return (PrefixCode.ofLengths 21 lengths, s)

def codes (symbols : Nat) : Nat → Source → Except End (List PrefixCode × Source)
  | 0, s => .ok ([], s)
  | n + 1, s => do
    let (c, s) ← code symbols s
    let (cs, s) ← codes symbols n s
    return (c :: cs, s)

/-! ## The words of a block -/

/-- The block as it is read: the list of bytes, most recent first, what was put out, and a run in
the making with the worth of its next digit. -/
structure Unfolding where
  order : List UInt8
  out : Array UInt8
  run : Nat
  worth : Nat

/-- Puts out the run in the making. -/
def Unfolding.flush (u : Unfolding) : Unfolding :=
  { u with
    out := u.out ++ Array.replicate u.run (u.order.headD 0)
    run := 0
    worth := 1 }

/-- Takes one word other than the last: a digit of a run, or a place in the list. -/
def Unfolding.take (u : Unfolding) (largest word : Nat) : Except End Unfolding :=
  if word < 2 then
    let run := u.run + (word + 1) * u.worth
    if 2097152 ≤ u.worth || largest < u.out.size + run then .error .corrupt
    else .ok { u with run := run, worth := 2 * u.worth }
  else
    let u := u.flush
    let order := toFront u.order (word - 1)
    if largest ≤ u.out.size then .error .corrupt
    else .ok { u with order := order, out := u.out.push (order.headD 0) }

/-- Reads words up to the last one, `stop`. -/
def words (largest stop : Nat) :
    Nat → List PrefixCode → Nat → Unfolding → Source → Except End (Array UInt8 × Source)
  | 0, _, _, _, _ => .error .cutShort
  | fuel + 1, turns, done, u, s =>
    match turns with
    | [] => .error .corrupt
    | c :: later => do
      let (word, s) ← c.read s
      if word = stop then return (u.flush.out, s)
      let u ← u.take largest word
      if done = 49 then words largest stop fuel later 0 u s
      else words largest stop fuel turns (done + 1) u s

/-! ## Undoing the sort and the first runs -/

/-- For each place of the sorted block where its next byte is: the places ordered by byte. -/
def nextPlaces (sorted : Array UInt8) : Array Nat :=
  let rows : Array (Array Nat) := (Array.range sorted.size).foldl
    (fun rows i => rows.modify (sorted.getD i 0).toNat (·.push i)) (Array.replicate 256 #[])
  rows.foldl (· ++ ·) #[]

/-- Follows the places from one on. -/
def follow (sorted : Array UInt8) (next : Array Nat) : Nat → Nat → Bytes
  | 0, _ => []
  | n + 1, i =>
    let i := next.getD i 0
    sorted.getD i 0 :: follow sorted next n i

def unsort (sorted : Array UInt8) (origin : Nat) : Bytes :=
  follow sorted (nextPlaces sorted) sorted.size origin

/-- Restores runs: after four equal bytes stands how many more there are. `same` bytes equal to
`last` were just seen. -/
def restoreRuns (last : UInt8) : Nat → Bytes → Except End Bytes
  | 4, [] => .error .corrupt
  | 4, n :: r => do
    let rest ← restoreRuns last 0 r
    return List.replicate n.toNat last ++ rest
  | _, [] => .ok []
  | same, b :: r => do
    let rest ← restoreRuns b (if b = last && same ≠ 0 then same + 1 else 1) r
    return b :: rest

/-! ## Blocks -/

def blockSignature : Nat := 0x314159265359

def endSignature : Nat := 0x177245385090

/-- One block, behind its signature: its bytes and its checksum. -/
def block (largest : Nat) (s : Source) : Except End (Bytes × UInt32 × Source) := do
  let (sum, s) ← number 32 s
  let (scrambled, s) ← s.bit
  if scrambled then .error .corrupt
  let (origin, s) ← number 24 s
  if largest + 10 < origin then .error .corrupt
  let (bytes, s) ← usedBytes s
  let (count, s) ← number 3 s
  if count < 2 || 6 < count then .error .corrupt
  let (turnCount, s) ← number 15 s
  if turnCount < 1 then .error .corrupt
  let (order, s) ← turns count turnCount (List.range count) s
  let (cs, s) ← codes (bytes.length + 2) count s
  let turns := (order.take 18002).filterMap (cs[·]?)
  let (sorted, s) ← words largest (bytes.length + 1) (8 * s.bytes.length + 9) turns 0
    ⟨bytes, #[], 0, 1⟩ s
  if sorted.size ≤ origin then .error .corrupt
  let out ← restoreRuns 0 0 (unsort sorted origin)
  if (checksum out).toNat ≠ sum then .error .corrupt
  return (out, UInt32.ofNat sum, s)

/-- Block after block, up to the end signature and the checksum of the whole. -/
def blocks (largest : Nat) : Nat → UInt32 → Source → List Bytes × End
  | 0, _, _ => ([], .cutShort)
  | fuel + 1, whole, s =>
    match number 48 s with
    | .error e => ([], e)
    | .ok (signature, s) =>
      if signature = blockSignature then
        match block largest s with
        | .error e => ([], e)
        | .ok (out, sum, s) =>
          let (later, e) := blocks largest fuel (combine whole sum) s
          (out :: later, e)
      else if signature = endSignature then
        match number 32 s with
        | .error e => ([], e)
        | .ok (sum, _) => ([], if sum = whole.toNat then .finished else .corrupt)
      else ([], .corrupt)

/-- What the data holds, and how it ended. It starts with three letters, and with the size of a
block in hundreds of thousands of bytes as a digit. -/
def decode (b : Bytes) : Bytes × End :=
  let start : Bytes := [0x42, 0x5A, 0x68]
  if (b.take 3) ≠ start.take b.length then ([], .corrupt)
  else match b.drop 3 with
    | [] => ([], .cutShort)
    | size :: data =>
      if size < 0x31 || 0x39 < size then ([], .corrupt)
      else
        let (out, e) := blocks (100000 * (size.toNat - 0x30)) (b.length + 1) 0
          ⟨[], data.map turned⟩
        (out.flatten, e)

end Coding.Bzip

end FileShell
