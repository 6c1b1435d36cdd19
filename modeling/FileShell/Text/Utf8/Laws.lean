import FileShell.Text.Utf8

/-!
# Reading back UTF-8

The bytes of a character are read as that character and do not touch what follows. So text that
was written is read back, and the bytes that are well formed are exactly the written ones.
-/

namespace FileShell

namespace Utf8

theorem toNat_ofNat {n : Nat} (h : n < 256) : (UInt8.ofNat n).toNat = n := by
  simp [UInt8.toNat_ofNat', Nat.mod_eq_of_lt h]

theorem decodeFrom_last {value lo hi m : Nat} {b : UInt8} (r : Bytes) (hb : b.toNat = 0x80 + m)
    (h : lo ≤ b.toNat ∧ b.toNat ≤ hi) :
    decodeFrom (some ⟨1, lo, hi, value⟩) (b :: r) =
      Char.ofNat (value * 64 + m) :: decodeFrom none r := by
  simp [decodeFrom, hb ▸ h, hb]

theorem decodeFrom_more {k value lo hi m : Nat} {b : UInt8} (r : Bytes) (hb : b.toNat = 0x80 + m)
    (h : lo ≤ b.toNat ∧ b.toNat ≤ hi) :
    decodeFrom (some ⟨k + 2, lo, hi, value⟩) (b :: r) =
      decodeFrom (some ⟨k + 1, 0x80, 0xBF, value * 64 + m⟩) r := by
  simp [decodeFrom, hb ▸ h, hb]

theorem decodeFrom_lead {p : Pending} {b : UInt8} (r : Bytes) (h : lead b = .begins p) :
    decodeFrom none (b :: r) = decodeFrom (some p) r := by
  simp [decodeFrom, h]

theorem lead_two {b : UInt8} (h : 0xC2 ≤ b.toNat) (h' : b.toNat < 0xE0) :
    lead b = .begins ⟨1, 0x80, 0xBF, b.toNat - 0xC0⟩ := by
  unfold lead
  dsimp only
  rw [if_neg (by omega), if_neg (by omega), if_pos h']

theorem lead_three {b : UInt8} (h : 0xE0 ≤ b.toNat) (h' : b.toNat < 0xF0) :
    lead b = .begins ⟨2, if b.toNat = 0xE0 then 0xA0 else 0x80,
      if b.toNat = 0xED then 0x9F else 0xBF, b.toNat - 0xE0⟩ := by
  unfold lead
  dsimp only
  rw [if_neg (by omega), if_neg (by omega), if_neg (by omega), if_pos h']

theorem lead_four {b : UInt8} (h : 0xF0 ≤ b.toNat) (h' : b.toNat < 0xF5) :
    lead b = .begins ⟨3, if b.toNat = 0xF0 then 0x90 else 0x80,
      if b.toNat = 0xF4 then 0x8F else 0xBF, b.toNat - 0xF0⟩ := by
  unfold lead
  dsimp only
  rw [if_neg (by omega), if_neg (by omega), if_neg (by omega), if_neg (by omega), if_pos h']

/-- The bytes of a character are read as that character, whatever follows them. -/
theorem decodeFrom_encodeChar (c : Char) (r : Bytes) :
    decodeFrom none (encodeChar c ++ r) = c :: decodeFrom none r := by
  have hc : c.toNat < 0xD800 ∨ 0xDFFF < c.toNat ∧ c.toNat < 0x110000 := c.valid
  have hv : Char.ofNat c.toNat = c := Char.ofNat_toNat c
  generalize hn : c.toNat = n at hc hv
  have low (n : Nat) : (UInt8.ofNat (0x80 + n % 64)).toNat = 0x80 + n % 64 :=
    toNat_ofNat (by have := Nat.mod_lt n (y := 64) (by decide); omega)
  have l0 := low n
  have l1 := low (n / 64)
  have l2 := low (n / 4096)
  unfold encodeChar
  simp only [hn]
  split
  · have hb := toNat_ofNat (n := n) (by omega)
    simp [decodeFrom, lead, *]
  split
  · have hb := toNat_ofNat (n := 0xC0 + n / 64) (by omega)
    simp only [List.cons_append, List.nil_append]
    rw [decodeFrom_lead _ (lead_two (by omega) (by omega)), decodeFrom_last _ l0 (by omega), hb,
      show (0xC0 + n / 64 - 0xC0) * 64 + n % 64 = n by omega, hv]
  split
  · have hb := toNat_ofNat (n := 0xE0 + n / 4096) (by omega)
    simp only [List.cons_append, List.nil_append]
    rw [decodeFrom_lead _ (lead_three (by omega) (by omega)),
      decodeFrom_more _ l1 (by constructor <;> split <;> omega),
      decodeFrom_last _ l0 (by omega), hb,
      show ((0xE0 + n / 4096 - 0xE0) * 64 + n / 64 % 64) * 64 + n % 64 = n by omega,
      hv]
  · have hb := toNat_ofNat (n := 0xF0 + n / 262144) (by omega)
    simp only [List.cons_append, List.nil_append]
    rw [decodeFrom_lead _ (lead_four (by omega) (by omega)),
      decodeFrom_more _ l2 (by constructor <;> split <;> omega),
      decodeFrom_more _ l1 (by omega), decodeFrom_last _ l0 (by omega), hb,
      show (((0xF0 + n / 262144 - 0xF0) * 64 + n / 4096 % 64) * 64 + n / 64 % 64) * 64 +
        n % 64 = n by omega, hv]

theorem decode_encode : ∀ t : Text, decode (encode t) = t
  | [] => rfl
  | c :: t => by
    have ih := decode_encode t
    unfold decode encode at ih ⊢
    rw [List.flatMap_cons, decodeFrom_encodeChar, ih]

theorem decode?_encode (t : Text) : decode? (encode t) = some t := by
  simp [decode?, decode_encode]

theorem decode?_eq_some_iff {b : Bytes} {t : Text} : decode? b = some t ↔ b = encode t := by
  constructor
  · intro h
    simp only [decode?] at h
    split at h
    · rename_i hb
      rw [← hb, Option.some.inj h]
    · cases h
  · rintro rfl
    exact decode?_encode t

end Utf8

end FileShell
