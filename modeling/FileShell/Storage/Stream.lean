import FileShell.Text.Utf8

/-!
# Streams

A source of bytes that is read in requests of one size. It may fail, and how much it gives before
it does can depend on that size; a reader then has the whole requests that were served. A stream
that does not fail is read to its end, in requests of any size (`drain_of_holds`).
-/

namespace FileShell

structure Stream where
  bytes : Bytes
  /-- For requests of a given size, after how many bytes the stream fails, if it does. -/
  failsAfter : Nat → Option Nat

namespace Stream

/-- Goes on reading in requests of `n` bytes, `served` bytes behind the start, until a request is
answered with nothing; says whether the stream held. The request it fails in gives nothing. -/
def readOn (n : Nat) (fails : Option Nat) (served : Nat) (left : Bytes) : Bytes × Bool :=
  if fails.any (· < served + n) then ([], false)
  else if left.take n = [] then ([], fails.isNone)
  else
    let (b, held) := readOn n fails (served + n) (left.drop n)
    (left.take n ++ b, held)
  termination_by left.length
  decreasing_by
    rename_i h
    rw [List.take_eq_nil_iff, not_or] at h
    have := List.length_pos_iff.2 h.2
    rw [List.length_drop]
    omega

/-- The size of requests if none is chosen. -/
def usualRequest : Nat := 65536

/-- The size of the requests for a chunk size; none is chosen by zero. -/
def request (chunk : Nat) : Nat := if chunk = 0 then usualRequest else chunk

/-- What is read from the start on in requests for a chunk size, and whether the stream held. -/
def drain (s : Stream) (chunk : Nat) : Bytes × Bool :=
  readOn (request chunk) (s.failsAfter (request chunk)) 0 s.bytes

/-- The signed 64-bit numbers end before it. -/
def wordLimit : Nat := 0x8000000000000000

/-- Bytes in memory: a request is at most as large as a signed 64-bit number. -/
def ofBytes (b : Bytes) : Stream where
  bytes := b
  failsAfter request := if request < wordLimit then none else some 0

/-- Bytes on a disk: each request takes a buffer of its size, which has to be less than `memory`. -/
def ofFile (memory : Nat) (b : Bytes) : Stream where
  bytes := b
  failsAfter request := if request < memory ∧ request < wordLimit then none else some 0

theorem request_pos (chunk : Nat) : 0 < request chunk := by
  unfold request usualRequest
  split <;> omega

/-- Nothing is lost and nothing is read twice, whatever the size of the requests. -/
theorem readOn_none {n : Nat} (hn : 0 < n) (served : Nat) (b : Bytes) :
    readOn n none served b = (b, true) := by
  rw [readOn, Option.any_none, if_neg Bool.false_ne_true]
  split
  · rename_i h
    rw [List.take_eq_nil_iff] at h
    rw [h.resolve_left (by omega)]
    rfl
  · rename_i h
    rw [List.take_eq_nil_iff, not_or] at h
    have := List.length_pos_iff.2 h.2
    rw [readOn_none hn]
    exact congrArg (·, true) (List.take_append_drop n b)
  termination_by b.length
  decreasing_by rw [List.length_drop]; omega

/-- A stream that held was read to its end. -/
theorem readOn_held {n : Nat} (hn : 0 < n) (fails : Option Nat) (served : Nat) (b : Bytes)
    (h : (readOn n fails served b).2 = true) : (readOn n fails served b).1 = b := by
  rw [readOn] at h ⊢
  split at h
  · cases h
  rename_i hserved
  rw [if_neg hserved]
  split at h
  · rename_i hend
    rw [if_pos hend]
    rw [List.take_eq_nil_iff] at hend
    exact (hend.resolve_left (by omega)).symm
  · rename_i hleft
    rw [if_neg hleft]
    rw [List.take_eq_nil_iff, not_or] at hleft
    have := List.length_pos_iff.2 hleft.2
    have ih := readOn_held hn fails (served + n) (b.drop n) h
    dsimp only
    rw [ih, List.take_append_drop]
  termination_by b.length
  decreasing_by rw [List.length_drop]; omega

theorem drain_held {s : Stream} {chunk : Nat} (h : (s.drain chunk).2 = true) :
    (s.drain chunk).1 = s.bytes := readOn_held (request_pos chunk) _ 0 s.bytes h

theorem readOn_fails {n k served : Nat} (h : k < served + n) (b : Bytes) :
    readOn n (some k) served b = ([], false) := by
  rw [readOn, Option.any_some, decide_eq_true h, if_pos rfl]

theorem drain_of_holds {s : Stream} {chunk : Nat} (h : s.failsAfter (request chunk) = none) :
    s.drain chunk = (s.bytes, true) := by
  rw [drain, h, readOn_none (request_pos chunk)]

/-- A stream that fails at once gives nothing. -/
theorem drain_of_fails {s : Stream} {chunk : Nat} (h : s.failsAfter (request chunk) = some 0) :
    s.drain chunk = ([], false) := by
  have := request_pos chunk
  rw [drain, h, readOn_fails (by omega)]

/-- Below a limit on its requests a chunk size is one they can have. -/
theorem request_lt_iff {limit : Nat} (h : usualRequest < limit) (chunk : Nat) :
    request chunk < limit ↔ chunk < limit := by
  unfold request
  split <;> omega

end Stream

end FileShell
