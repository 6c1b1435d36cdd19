import FileShell.Proofs.Archive.Layout
import Mathlib.Data.List.Basic
import Mathlib.Tactic.IntervalCases

/-!
# Names that look like a locator

In front of the end record of a written archive stands the name in its last listing. Where the
locator of a record for large archives would stand, a reader takes what begins with its signature
for one. The locator then has a part of the name for the number of a disk, which should be zero.
No byte of a name is, so the archive is read as damaged (`ofBytes_of_hasLocator`).
-/

namespace FileShell

namespace Utf8

theorem ofNat_ne_zero {n : Nat} (h : 0 < n ∧ n < 256) : UInt8.ofNat n ≠ 0 := fun e => by
  have hn := toNat_ofNat h.2
  rw [e, UInt8.toNat_zero] at hn
  omega

theorem ne_zero_of_mem_encodeChar {c : Char} (hc : c ≠ '\x00') {b : UInt8}
    (hb : b ∈ encodeChar c) : b ≠ 0 := by
  have h0 : 0 < c.toNat := Nat.pos_of_ne_zero fun e => hc (Char.ext (UInt32.toNat_inj.1 e))
  have hv : c.toNat < 0xD800 ∨ 0xDFFF < c.toNat ∧ c.toNat < 0x110000 := c.valid
  simp only [encodeChar] at hb
  split at hb
  · obtain rfl := List.mem_singleton.1 hb
    exact ofNat_ne_zero (by omega)
  split at hb
  · simp only [List.mem_cons, List.not_mem_nil, or_false] at hb
    rcases hb with rfl | rfl <;> exact ofNat_ne_zero (by omega)
  split at hb
  · simp only [List.mem_cons, List.not_mem_nil, or_false] at hb
    rcases hb with rfl | rfl | rfl <;> exact ofNat_ne_zero (by omega)
  · simp only [List.mem_cons, List.not_mem_nil, or_false] at hb
    rcases hb with rfl | rfl | rfl | rfl <;> exact ofNat_ne_zero (by omega)

theorem ne_zero_of_mem_encode {t : Text} (ht : '\x00' ∉ t) {b : UInt8} (hb : b ∈ encode t) :
    b ≠ 0 := by
  obtain ⟨c, hc, hb⟩ := List.mem_flatMap.1 hb
  exact ne_zero_of_mem_encodeChar (fun e => ht (e ▸ hc)) hb

end Utf8

namespace Member

open Catalogue (locatorSignature)

variable {m : Member} {ms : List Member}

theorem catalogue_concat (m : Member) : ∀ (ms : List Member) (n : Nat),
    catalogue n (ms ++ [m]) = catalogue n ms ++ m.listing (n + (records ms).length)
  | [], n => by simp [catalogue, records]
  | k :: ms, n => by
    rw [List.cons_append, catalogue, catalogue_concat m ms, catalogue, records_cons,
      List.length_append, List.append_assoc, Nat.add_assoc]

/-- A listing, split in front of the number that is the length of its name. -/
theorem listing_eq (m : Member) (n : Nat) : ∃ front rest : Bytes, front.length = 28 ∧
    m.listing n = front ++ (Number.write 2 (Utf8.encode m.name).length ++
      (List.replicate 8 0 ++ (Number.write 4 m.attributes ++ rest))) := by
  refine ⟨[0x50, 0x4B, 0x01, 0x02] ++ Number.write 1 version ++ [3] ++ Number.write 2 version ++
    Number.write 2 m.flags ++ Number.write 2 m.method ++ Number.write 2 0 ++ Number.write 2 33 ++
    Number.write 4 (Checksum.crc32 m.bytes).toNat ++ Number.write 4 m.data.length ++
    Number.write 4 m.bytes.length, Number.write 4 n ++ Utf8.encode m.name, ?_, ?_⟩
  · simp only [List.length_append, Number.length_write, List.length_cons, List.length_nil]
  · have h0 : List.replicate 8 (0 : UInt8) = Number.write 2 0 ++ (Number.write 2 0 ++
        (Number.write 2 0 ++ Number.write 2 0)) := rfl
    simp only [listing, sharedFields, h0, List.append_assoc]

/-- What stands 26 bytes behind a name shorter than 16 bytes is no locator. -/
theorem not_locator_of_lt {k : Nat} (hk : k < 16) (m : Member) {front : Bytes}
    (hf : front.length = 28) (b : Bytes) : ¬ locatorSignature <+: (front ++ (Number.write 2 k ++
      (List.replicate 8 0 ++ (Number.write 4 m.attributes ++ b)))).drop (26 + k) := by
  obtain ⟨x, y, hxy⟩ : ∃ x y, front.drop 26 = [x, y] :=
    List.length_eq_two.1 (by rw [List.length_drop, hf])
  rw [← List.drop_drop, List.drop_append_of_le_length (by omega), hxy]
  rcases hm : m.isDir <;> interval_cases k <;>
    simp [locatorSignature, Number.write, attributes, hm, List.cons_prefix_cons]

/-- The end of an archive: its last listing and its end record. -/
theorem archive_concat (init : List Member) (m : Member) : ∃ front : Bytes,
    archive (init ++ [m]) =
      front ++ (m.listing (records init).length ++ ending (init ++ [m])) := by
  refine ⟨records (init ++ [m]) ++ catalogue 0 init, ?_⟩
  rw [archive_eq, catalogue_concat, Nat.zero_add]
  simp only [List.append_assoc]

/-- A locator ends in the name in the last listing. -/
theorem le_length_of_hasLocator {init : List Member}
    (h : HasLocator (archive (init ++ [m]))) : 16 ≤ (Utf8.encode m.name).length := by
  refine Nat.le_of_not_lt fun hk => ?_
  obtain ⟨front, harchive⟩ := archive_concat init m
  obtain ⟨fields, rest, hf, hlisting⟩ := listing_eq m (records init).length
  have hp := h.2
  rw [harchive, List.length_append, List.length_append, length_listing, length_ending,
    show front.length + (46 + (Utf8.encode m.name).length + 22) - 42 =
      front.length + (26 + (Utf8.encode m.name).length) by omega,
    List.drop_append, List.drop_eq_nil_of_le (by omega), List.nil_append,
    Nat.add_sub_cancel_left, hlisting] at hp
  simp only [List.append_assoc] at hp
  exact not_locator_of_lt hk m hf _ hp

/-- The number of a disk in a locator is not zero: it is a part of the name. -/
theorem field_ne_zero_of_hasLocator {init : List Member} (hm : '\x00' ∉ m.name)
    (h : HasLocator (archive (init ++ [m]))) :
    Number.field (archive (init ++ [m])) ((archive (init ++ [m])).length - 38) 4 ≠ 0 := by
  have hk := le_length_of_hasLocator h
  obtain ⟨front, harchive⟩ := archive_concat init m
  obtain ⟨b, rest, hb⟩ := List.exists_cons_of_length_pos (l := (Utf8.encode m.name).drop
    ((Utf8.encode m.name).length - 16)) (by rw [List.length_drop]; omega)
  have h0 : b ≠ 0 :=
    Utf8.ne_zero_of_mem_encode hm (List.mem_of_mem_drop (by rw [hb]; exact List.mem_cons_self))
  rw [harchive, List.length_append, List.length_append, length_listing, length_ending,
    Number.field_append (by omega), Number.field,
    show front.length + (46 + (Utf8.encode m.name).length + 22) - 38 - front.length =
      46 + ((Utf8.encode m.name).length - 16) by omega,
    ← List.drop_drop, drop_listing, List.drop_append_of_le_length (by omega), hb,
    List.cons_append, List.take_succ_cons, Number.read]
  have : b.toNat ≠ 0 := fun e => h0 (UInt8.toNat_inj.1 e)
  omega

/-- An archive whose last name looks like a locator is read as damaged. -/
theorem ofBytes_of_hasLocator (hn : ∀ m ∈ ms, '\x00' ∉ m.name) (h : HasLocator (archive ms)) :
    Archive.ofBytes (archive ms) = .error .damaged := by
  have hl := length_archive ms
  obtain ⟨h42, hp⟩ := h
  have hfield : Number.field (archive ms) ((archive ms).length - 38) 4 ≠ 0 := by
    rcases List.eq_nil_or_concat ms with rfl | ⟨init, m, rfl⟩
    · exact absurd h42 (by decide)
    · rw [List.concat_eq_append] at hn h42 hp ⊢
      exact field_ne_zero_of_hasLocator (hn m (by simp)) ⟨h42, hp⟩
  unfold Archive.ofBytes Catalogue.extent
  simp only [endPosition?_archive]
  rw [hl, show ∀ n, n + 22 - 42 = n - 20 by omega] at hp
  rw [hl, show ∀ n, n + 22 - 38 = n - 16 by omega] at hfield
  rw [if_neg, if_pos]
  · rfl
  · simp [hfield]
  · simp [List.isPrefixOf_iff_prefix, hp]
    omega

end Member

end FileShell
