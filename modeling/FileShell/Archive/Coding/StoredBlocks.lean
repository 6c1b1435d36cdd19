import FileShell.Archive.Writing
import FileShell.Archive.Coding.Inflate

/-!
# Inflating stored blocks

Data that is deflated into stored blocks takes three bits and four bytes of each block to say so.
The main statement says that inflating it gives the bytes back and ends at the last block.
-/

namespace FileShell

namespace Coding.Inflate

/-- The first byte of a stored block says whether it is the last, and is used up with that. -/
theorem header_stored (last : Bool) (b : Bytes) :
    ∃ bits, header ⟨[], (if last then 1 else 0) :: b⟩ = .ok (last, 0, ⟨bits, b⟩) := by
  cases last <;> exact ⟨[false, false, false, false, false], rfl⟩

theorem write_two {n : Nat} (h : n < 65536) :
    ∃ a b : UInt8, Number.write 2 n = [a, b] ∧ a.toNat + 256 * b.toNat = n := by
  refine ⟨UInt8.ofNat (n % 256), UInt8.ofNat (n / 256 % 256), rfl, ?_⟩
  simp
  omega

theorem block_stored (bits : List Bool) (out : Array UInt8) {x : Bytes}
    (h : x.length ≤ Member.maxBlock) (r : Bytes) :
    block out 0 ⟨bits, Number.write 2 x.length ++
      (Number.write 2 (Member.maxBlock - x.length) ++ (x ++ r))⟩ =
      (out ++ x.toArray, .ok ⟨[], r⟩) := by
  obtain ⟨a, b, hn, hab⟩ := write_two (n := x.length) (by simp [Member.maxBlock] at h; omega)
  obtain ⟨c, d, hm, hcd⟩ := write_two (n := Member.maxBlock - x.length)
    (by simp [Member.maxBlock]; omega)
  simp only [Member.maxBlock] at h hcd
  rw [hn, hm]
  simp only [block, stored, List.cons_append, List.nil_append, hab, hcd]
  rw [if_neg (by omega), if_neg (by simp)]
  simp

theorem blocks_deflate (fuel : Nat) (out : Array UInt8) (b : Bytes) (h : b.length < fuel) :
    blocks fuel out ⟨[], Member.deflate b⟩ = (out ++ b.toArray, .finished) := by
  induction fuel generalizing out b with
  | zero => omega
  | succ fuel ih =>
    rw [Member.deflate]
    dsimp only
    split
    · rename_i hb
      obtain ⟨bits, hh⟩ := header_stored true (Number.write 2 b.length ++
        (Number.write 2 (Member.maxBlock - b.length) ++ (b ++ [])))
      simp only [if_true, List.append_nil] at hh
      have hs := block_stored bits out hb []
      simp only [List.append_nil] at hs
      simp [Nat.min_eq_left hb, blocks, hh, hs]
    · rename_i hb
      have hl : (b.take Member.maxBlock).length = Member.maxBlock := by
        simp; omega
      have hr := ih (out ++ (b.take Member.maxBlock).toArray) (b.drop Member.maxBlock)
        (by simp [Member.maxBlock] at hb ⊢; omega)
      obtain ⟨bits, hh⟩ := header_stored false (Number.write 2 Member.maxBlock ++
        (Number.write 2 0 ++ (b.take Member.maxBlock ++
          Member.deflate (b.drop Member.maxBlock))))
      have hs := block_stored bits out (Nat.le_of_eq hl)
        (Member.deflate (b.drop Member.maxBlock))
      rw [hl, Nat.sub_self] at hs
      simp only [Bool.false_eq_true, if_false] at hh
      rw [Nat.min_eq_right (by omega), Nat.sub_self]
      simp only [List.cons_append, List.append_assoc, blocks, hh, hs, Bool.false_eq_true, if_false,
        hr]
      have ht : (b.take Member.maxBlock).toArray ++ (b.drop Member.maxBlock).toArray =
          b.toArray := by
        simp
      rw [Array.append_assoc, ht]

theorem length_le_deflate (b : Bytes) : b.length ≤ (Member.deflate b).length := by
  fun_induction Member.deflate b with
  | case1 b n block h => simp [block, n, Nat.min_eq_left h]; omega
  | case2 b n block h ih =>
    simp only [List.length_append, List.length_drop] at ih ⊢
    simp [block, n, Number.length_write]
    omega

/-- Inflating gives back what was deflated. -/
theorem inflate_deflate (b : Bytes) : inflate (Member.deflate b) = (b, .finished) := by
  have h := length_le_deflate b
  simp [inflate, blocks_deflate (8 * (Member.deflate b).length + 1) #[] b (by omega)]

end Coding.Inflate

end FileShell
