import FileShell.Archive.Coding.Bits
import FileShell.Archive.Number

/-!
# Range coding

Reading data in the form of `lzma`: bytes, and copies of earlier bytes, whose bits were coded each
with the odds that were learned for it so far. Which odds stand for a bit depends on the kinds of
the last steps and on the position. Data may end with a mark or without one; without one it ends
where the bytes do.
-/

namespace FileShell

namespace Coding.Lzma

/-! ## Bits with odds -/

/-- The part of the number line in hand, where in it the data lies, the bytes to come, for each
kind of bit the odds of a zero in 2048ths, and what was put out. -/
structure Decoder where
  range : UInt32
  code : UInt32
  rest : Bytes
  odds : Array UInt32
  out : Array UInt8

abbrev Step := ExceptT End (StateM Decoder)

/-- Takes one more byte when the part in hand has become small. -/
def refill : Step Unit := do
  let c ← get
  if c.range < 0x1000000 then
    match c.rest with
    | [] => throw .cutShort
    | b :: rest =>
      set { c with range := c.range <<< 8, code := (c.code <<< 8) ||| b.toUInt32, rest := rest }

/-- One bit of the `i`th kind. Its odds move by a 32nd of what is missing. -/
def bit (i : Nat) : Step Bool := do
  refill
  let c ← get
  let zero := c.odds.getD i 1024
  let bound := (c.range >>> 11) * zero
  if c.code < bound then
    set { c with range := bound, odds := c.odds.setIfInBounds i (zero + ((2048 - zero) >>> 5)) }
    return false
  else
    set { c with
      range := c.range - bound
      code := c.code - bound
      odds := c.odds.setIfInBounds i (zero - (zero >>> 5)) }
    return true

/-- Bits at even odds, high end first, behind the bits of `n`. -/
def evenBits : Nat → Nat → Step Nat
  | 0, n => return n
  | k + 1, n => do
    refill
    let c ← get
    let range := c.range >>> 1
    let code := c.code - range
    if code >>> 31 = 0 then
      set { c with range := range, code := code }
      evenBits k (2 * n + 1)
    else
      set { c with range := range }
      evenBits k (2 * n)

/-- Bits high end first, each with odds of its own for each way its forerunners can be; `n` is a
one and the bits so far. -/
def highBits (i : Nat) : Nat → Nat → Step Nat
  | 0, n => return n
  | k + 1, n => do
    let b ← bit (i + n)
    highBits i k (2 * n + b.toNat)

/-- A number of so many bits, high end first. -/
def high (i k : Nat) : Step Nat := do
  return (← highBits i k 1) - (1 <<< k)

/-- A number of so many bits, low end first. -/
def lowBits (i : Nat) : Nat → Nat → Step Nat
  | 0, _ => return 0
  | k + 1, n => do
    let b ← bit (i + n)
    return b.toNat + 2 * (← lowBits i k (2 * n + b.toNat))

/-! ## Which odds stand for which bit -/

def isCopy (state place : Nat) : Nat := 16 * state + place
def isRepeat (state : Nat) : Nat := 192 + state
def isOlder (state : Nat) : Nat := 204 + state
def isThird (state : Nat) : Nat := 216 + state
def isFourth (state : Nat) : Nat := 228 + state
def isLong (state place : Nat) : Nat := 240 + 16 * state + place
def slotBits (group : Nat) : Nat := 432 + 64 * group
def nearBits (slot : Nat) : Nat := 688 + 32 * (slot - 4)
def lastBits : Nat := 1008
def newLength : Nat := 1024
def oldLength : Nat := 1538
def letters (group : Nat) : Nat := 2052 + 768 * group

/-! ## Steps -/

/-- How many high bits of the last byte, and how many low bits of the position for letters and for
copies, tell kinds of bits apart, and how far back copies reach. -/
structure Settings where
  fromLast : Nat
  fromPosition : Nat
  forCopies : Nat
  window : Nat

/-- The kinds of the last steps, and the last four distances less one. -/
structure History where
  state : Nat
  first : Nat
  second : Nat
  third : Nat
  fourth : Nat

/-- The last step was no copy. -/
def History.afterLetter (h : History) : Bool := h.state < 7

/-- The byte that lies so far back. -/
def back (out : Array UInt8) (distance : Nat) : UInt8 := out.getD (out.size - distance - 1) 0

def copyFrom (distance : Nat) : Nat → Array UInt8 → Array UInt8
  | 0, out => out
  | n + 1, out => copyFrom distance n (out.push (back out distance))

def copy (h : History) (n : Nat) : Step History := do
  modify fun d => { d with out := copyFrom h.first n d.out }
  return h

/-- The rest of a letter while it agrees with the bits of `expected`. -/
def expectedBits (i : Nat) : List Bool → Nat → Step Nat
  | [], n => return n
  | e :: r, n => do
    let b ← bit (i + 256 * (1 + e.toNat) + n)
    if b = e then expectedBits i r (2 * n + b.toNat)
    else highBits i r.length (2 * n + b.toNat)

/-- A letter; after a copy, the byte that would have come next in it is expected. -/
def letter (s : Settings) (h : History) : Step History := do
  let out := (← get).out
  let last := if out.size = 0 then 0 else (back out 0).toNat
  let expected := byteBits (back out h.first)
  let i := letters
    (((out.size % (1 <<< s.fromPosition)) <<< s.fromLast) + (last >>> (8 - s.fromLast)))
  let n ← if h.afterLetter then highBits i 8 1 else expectedBits i expected.reverse 1
  modify fun d => { d with out := d.out.push (UInt8.ofNat (n - 256)) }
  return { h with
    state := if h.state < 4 then 0 else if h.state < 10 then h.state - 3 else h.state - 6 }

/-- The length of a copy less two. -/
def length (i place : Nat) : Step Nat := do
  if !(← bit i) then high (i + 2 + 8 * place) 3
  else if !(← bit (i + 1)) then return 8 + (← high (i + 130 + 8 * place) 3)
  else return 16 + (← high (i + 258) 8)

/-- A distance less one: its leading bits, then the bits below them. -/
def distance (length : Nat) : Step Nat := do
  let slot ← high (slotBits (min length 3)) 6
  let k := slot / 2 - 1
  let leading := (2 + slot % 2) <<< k
  if slot < 4 then return slot
  else if slot < 14 then return leading + (← lowBits (nearBits slot) k 1)
  else
    let n ← evenBits (k - 4) 0
    return leading + 16 * n + (← lowBits lastBits 4 1)

/-- The distance that marks the end. -/
def endMark : Nat := 0xFFFFFFFF

/-- A copy from a new distance; nothing at the end mark. -/
def newCopy (s : Settings) (place : Nat) (h : History) : Step (Option History) := do
  let n ← length newLength place
  let d ← distance n
  if d = endMark then
    refill
    if (← get).code ≠ 0 then throw .corrupt
    return none
  if min (← get).out.size s.window ≤ d then throw .corrupt
  let state := if h.afterLetter then 7 else 10
  return some (← copy ⟨state, d, h.first, h.second, h.third⟩ (n + 2))

/-- A copy from one of the last four distances, which becomes the first. -/
def oldCopy (place : Nat) (h : History) : Step History := do
  if (← get).out.size = 0 then throw .corrupt
  if !(← bit (isOlder h.state)) then
    if !(← bit (isLong h.state place)) then
      copy { h with state := if h.afterLetter then 9 else 11 } 1
    else finish h
  else if !(← bit (isThird h.state)) then
    finish { h with first := h.second, second := h.first }
  else if !(← bit (isFourth h.state)) then
    finish { h with first := h.third, second := h.first, third := h.second }
  else
    finish { h with first := h.fourth, second := h.first, third := h.second, fourth := h.third }
where
  finish (h : History) : Step History := do
    let n ← length oldLength place
    copy { h with state := if h.afterLetter then 8 else 11 } (n + 2)

/-- One step; nothing at the end mark. -/
def step (s : Settings) (h : History) : Step (Option History) := do
  let place := (← get).out.size % (1 <<< s.forCopies)
  if !(← bit (isCopy h.state place)) then return some (← letter s h)
  else if !(← bit (isRepeat h.state)) then newCopy s place h
  else return some (← oldCopy place h)

/-- Step after step, at most `fuel`. -/
def steps (s : Settings) : Nat → History → Decoder → Bytes × End
  | 0, _, d => (d.out.toList, .cutShort)
  | fuel + 1, h, d =>
    match (step s h).run d with
    | (.error e, d) => (d.out.toList, e)
    | (.ok none, d) => (d.out.toList, .finished)
    | (.ok (some h), d) => steps s fuel h d

/-! ## Whole data -/

def Settings.ofBytes? : Bytes → Option Settings
  | [kinds, a, b, c, d] =>
    let n := kinds.toNat
    let s : Settings :=
      ⟨n % 9, n / 9 % 5, n / 45, (max (Number.read [a, b, c, d]) 4096 + 15) / 16 * 16⟩
    if 225 ≤ n || 4 < s.fromLast + s.fromPosition then none else some s
  | _ => none

/-- More steps than a byte can give: each leaves at most 2017 of 2048 parts of the part in hand,
and a byte makes up for 256. -/
def stepsPerByte : Nat := 400

def word (b : Bytes) : UInt32 :=
  b.foldl (fun (n : UInt32) x => (n <<< 8) ||| x.toUInt32) 0

/-- Decodes what follows the settings. It begins with a zero and the first four bytes. -/
def run (s : Settings) : Bytes → Bytes × End
  | [] => ([], .cutShort)
  | zero :: b =>
    if zero ≠ 0 then ([], .corrupt)
    else if b.length < 4 then ([], .cutShort)
    else
      let odds := Array.replicate (letters (1 <<< (s.fromLast + s.fromPosition))) 1024
      steps s (stepsPerByte * (b.length + 4)) ⟨0, 0, 0, 0, 0⟩
        ⟨0xFFFFFFFF, word (b.take 4), b.drop 4, odds, #[]⟩

/-- What the data holds, and how it ended. In front of it stand a version, and the settings with
their length. -/
def decode (b : Bytes) : Bytes × End :=
  let n := Number.field b 2 2
  if b.length ≤ 4 || b.length ≤ 4 + n then ([], .cutShort)
  else match Settings.ofBytes? ((b.drop 4).take n) with
    | none => ([], .corrupt)
    | some s => run s (b.drop (4 + n))

end Coding.Lzma

end FileShell
