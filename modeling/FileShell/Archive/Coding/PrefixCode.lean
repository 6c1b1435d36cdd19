import FileShell.Archive.Coding.Bits

/-!
# Prefix codes

A prefix code is given by the length of each symbol's word: words of one length follow each other
in the order of their symbols, and shorter words come first. A code is complete if its words fill
the binary tree.
-/

namespace FileShell

namespace Coding

/-- How many words a code has of each length from one bit on, and what they stand for, ordered by
length and then by value. -/
structure PrefixCode where
  counts : List Nat
  symbols : List Nat

namespace PrefixCode

/-- The code whose word for the `i`th symbol has the `i`th length; length 0 means no word. A word
that is in no code is noticed after `longest` bits. -/
def ofLengths (longest : Nat) (lengths : List Nat) : PrefixCode where
  counts := (List.range longest).map fun k => lengths.count (k + 1)
  symbols := (List.range longest).flatMap fun k =>
    (lengths.zipIdx.filter (·.1 == k + 1)).map (·.2)

/-- The code with no words longer than those it needs. -/
def tight (lengths : List Nat) : PrefixCode := ofLengths (lengths.foldl max 0) lengths

/-- How many words of the greatest length the code leaves free; none if it has too many. -/
def spare? (c : PrefixCode) : Option Nat :=
  c.counts.foldl (fun left n => left.bind fun l => if n ≤ 2 * l then some (2 * l - n) else none)
    (some 1)

def isComplete (c : PrefixCode) : Bool := c.spare? == some 0

/-- No words at all, or a single one of one bit. -/
def isTiny (c : PrefixCode) : Bool :=
  c.counts == [] || c.counts == [1]

/-- Reads one word. `first` is the least word of the length in hand, and `index` how many words
are shorter. -/
def readWith (symbols : List Nat) :
    List Nat → Nat → Nat → Nat → Source → Except End (Nat × Source)
  | [], _, _, _, _ => .error .corrupt
  | n :: counts, first, index, word, s => do
    let (b, s) ← s.bit
    let word := 2 * word + b.toNat
    if word < first + n then
      match symbols[index + (word - first)]? with
      | some x => return (x, s)
      | none => .error .corrupt
    else readWith symbols counts (2 * (first + n)) (index + n) word s

def read (c : PrefixCode) (s : Source) : Except End (Nat × Source) :=
  readWith c.symbols c.counts 0 0 0 s

end PrefixCode

end Coding

end FileShell
