import FileShell.Archive.Coding.PrefixCode

/-!
# Inflating

Reading deflated data: blocks that are stored, or coded with the fixed or with their own prefix
codes. The reader keeps what it has put out when it meets data that no encoder writes, and says
how it stopped. An incomplete code is allowed only if it has a single word of one bit, or none.
-/

namespace FileShell

namespace Coding.Inflate

/-- The first length of each length symbol from 257 on, and how many further bits it takes. -/
def lengthTable : List (Nat × Nat) :=
  [(3, 0), (4, 0), (5, 0), (6, 0), (7, 0), (8, 0), (9, 0), (10, 0), (11, 1), (13, 1), (15, 1),
   (17, 1), (19, 2), (23, 2), (27, 2), (31, 2), (35, 3), (43, 3), (51, 3), (59, 3), (67, 4),
   (83, 4), (99, 4), (115, 4), (131, 5), (163, 5), (195, 5), (227, 5), (258, 0)]

/-- The first distance of each distance symbol, and how many further bits it takes. -/
def distanceTable : List (Nat × Nat) :=
  [(1, 0), (2, 0), (3, 0), (4, 0), (5, 1), (7, 1), (9, 2), (13, 2), (17, 3), (25, 3), (33, 4),
   (49, 4), (65, 5), (97, 5), (129, 6), (193, 6), (257, 7), (385, 7), (513, 8), (769, 8),
   (1025, 9), (1537, 9), (2049, 10), (3073, 10), (4097, 11), (6145, 11), (8193, 12), (12289, 12),
   (16385, 13), (24577, 13)]

def fromTable (table : List (Nat × Nat)) (symbol : Nat) (s : Source) : Except End (Nat × Source) :=
  match table[symbol]? with
  | none => .error .corrupt
  | some (base, extra) => do
    let (n, s) ← s.number extra
    return (base + n, s)

/-- Puts out `n` bytes, each the one `distance` back. -/
def copyBack (out : Array UInt8) (distance : Nat) : Nat → Array UInt8
  | 0 => out
  | n + 1 => copyBack (out.push (out.getD (out.size - distance) 0)) distance n

/-- One symbol of a coded block: a byte, a copy of earlier bytes, or the end of the block. -/
def codedStep (literals distances : PrefixCode) (out : Array UInt8) (s : Source) :
    Except End (Option (Array UInt8) × Source) := do
  let (x, s) ← literals.read s
  if x < 256 then return (some (out.push (UInt8.ofNat x)), s)
  else if x = 256 then return (none, s)
  else
    let (n, s) ← fromTable lengthTable (x - 257) s
    let (y, s) ← distances.read s
    let (distance, s) ← fromTable distanceTable y s
    if out.size < distance then .error .corrupt
    else return (some (copyBack out distance n), s)

/-- The rest of a coded block; each symbol takes at least a bit, so `fuel` bits are enough. -/
def coded (literals distances : PrefixCode) : Nat → Array UInt8 → Source →
    Array UInt8 × Except End Source
  | 0, out, _ => (out, .error .cutShort)
  | fuel + 1, out, s =>
    match codedStep literals distances out s with
    | .error e => (out, .error e)
    | .ok (none, s) => (out, .ok s)
    | .ok (some out, s) => coded literals distances fuel out s

/-- A stored block: its length, the complement of the length, and the bytes as they are. -/
def stored (out : Array UInt8) (s : Source) : Array UInt8 × Except End Source :=
  match s.bytes with
  | a :: b :: c :: d :: rest =>
    let n := a.toNat + 256 * b.toNat
    if n + (c.toNat + 256 * d.toNat) ≠ 65535 then (out, .error .corrupt)
    else
      let out := out ++ (rest.take n).toArray
      if rest.length < n then (out, .error .cutShort) else (out, .ok ⟨[], rest.drop n⟩)
  | _ => (out, .error .cutShort)

def fixedLiterals : PrefixCode :=
  .tight (List.replicate 144 8 ++ List.replicate 112 9 ++ List.replicate 24 7 ++
    List.replicate 8 8)

def fixedDistances : PrefixCode := .tight (List.replicate 30 5)

/-- The order in which the lengths of the code for lengths are sent. -/
def codeOrder : List Nat := [16, 17, 18, 0, 8, 7, 9, 6, 10, 5, 11, 4, 12, 3, 13, 2, 14, 1, 15]

/-- Reads code lengths, which may be repeated, until `wanted` of them are there. -/
def readLengths (c : PrefixCode) (wanted : Nat) : Nat → List Nat → Source →
    Except End (List Nat × Source)
  | 0, done, s => if done.length = wanted then .ok (done, s) else .error .corrupt
  | fuel + 1, done, s => do
    if wanted ≤ done.length then
      if done.length = wanted then return (done, s) else .error .corrupt
    else
      let (x, s) ← c.read s
      if x < 16 then readLengths c wanted fuel (done ++ [x]) s
      else if x = 16 then
        match done.getLast? with
        | none => .error .corrupt
        | some last =>
          let (n, s) ← s.number 2
          readLengths c wanted fuel (done ++ List.replicate (n + 3) last) s
      else if x = 17 then
        let (n, s) ← s.number 3
        readLengths c wanted fuel (done ++ List.replicate (n + 3) 0) s
      else
        let (n, s) ← s.number 7
        readLengths c wanted fuel (done ++ List.replicate (n + 11) 0) s

/-- The two codes at the head of a block that has its own. -/
def ownCodes (s : Source) : Except End (PrefixCode × PrefixCode × Source) := do
  let (a, s) ← s.number 5
  let (b, s) ← s.number 5
  let (c, s) ← s.number 4
  let literals := a + 257
  let distances := b + 1
  if 286 < literals || 30 < distances then .error .corrupt
  let (sent, s) ← s.numbers 3 (c + 4)
  let lengths := (List.range 19).map fun k => ((codeOrder.zip sent).lookup k).getD 0
  let code := PrefixCode.tight lengths
  if !code.isComplete then .error .corrupt
  let (ls, s) ← readLengths code (literals + distances) (literals + distances) [] s
  let first := PrefixCode.tight (ls.take literals)
  let second := PrefixCode.tight (ls.drop literals)
  let sound (c : PrefixCode) := c.isComplete || c.isTiny
  if ls.getD 256 0 = 0 || !sound first || !sound second then .error .corrupt
  return (first, second, s)

/-- Whether a block is the last, and how it is coded. -/
def header (s : Source) : Except End (Bool × Nat × Source) := do
  let (last, s) ← s.bit
  let (kind, s) ← s.number 2
  return (last, kind, s)

def block (out : Array UInt8) (kind : Nat) (s : Source) : Array UInt8 × Except End Source :=
  match kind with
  | 0 => stored out s
  | 1 => coded fixedLiterals fixedDistances (8 * s.bytes.length + 8) out s
  | 2 =>
    match ownCodes s with
    | .error e => (out, .error e)
    | .ok (literals, distances, s) =>
      coded literals distances (8 * s.bytes.length + 8) out s
  | _ => (out, .error .corrupt)

/-- Block after block; each takes three bits at least. -/
def blocks : Nat → Array UInt8 → Source → Array UInt8 × End
  | 0, out, _ => (out, .cutShort)
  | fuel + 1, out, s =>
    match header s with
    | .error e => (out, e)
    | .ok (last, kind, s) =>
      match block out kind s with
      | (out, .error e) => (out, e)
      | (out, .ok s) => if last then (out, .finished) else blocks fuel out s

/-- What the data holds, and how it ended. -/
def inflate (b : Bytes) : Bytes × End :=
  let (out, e) := blocks (8 * b.length + 1) #[] ⟨[], b⟩
  (out.toList, e)

end Coding.Inflate

end FileShell
