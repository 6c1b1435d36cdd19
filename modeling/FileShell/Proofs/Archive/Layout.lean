import FileShell.Archive.Catalogue
import FileShell.Archive.Coding.StoredBlocks
import FileShell.Text.Utf8.Laws
import Mathlib.Tactic.SplitIfs

/-!
# The layout of a written archive

A written archive is its records, then its listings, then its end record. Every field is read back
where it was written, so the catalogue of an archive lists its members, each with the position of
its record (`ofBytes_archive`). This takes names and an archive of plain size, and no bytes in
front of the end record that look like the locator of a larger one.
-/

namespace FileShell

namespace Number

theorem field_append {a b : Bytes} {k : Nat} (h : a.length ≤ k) (w : Nat) :
    field (a ++ b) k w = field b (k - a.length) w := by
  rw [field, field, List.drop_append, List.drop_eq_nil_of_le h, List.nil_append]

theorem field_write (w n : Nat) (b : Bytes) : field (write w n ++ b) 0 w = n % count w := by
  rw [field, List.drop_zero, ← read_write w n]
  congr 1
  exact List.take_left' (length_write w n)

end Number

namespace Member

variable {m : Member} {n : Nat}

theorem encode_of_isAscii : ∀ {t : Text}, isAscii t = true → Codepage.decode (Utf8.encode t) = t
  | [], _ => rfl
  | c :: t, h => by
    simp only [isAscii, List.all_cons, Bool.and_eq_true, decide_eq_true_eq] at h
    have ih := encode_of_isAscii h.2
    have hc : Utf8.encodeChar c = [UInt8.ofNat c.toNat] := by
      simp [Utf8.encodeChar, h.1]
    rw [Utf8.encode, List.flatMap_cons, hc, Codepage.decode, List.map_append, List.map_singleton]
    have hd : Codepage.decodeByte (UInt8.ofNat c.toNat) = c := by
      rw [Codepage.decodeByte, Utf8.toNat_ofNat (by omega), if_pos h.1, Char.ofNat_toNat]
    rw [hd]
    exact congrArg (c :: ·) ih

theorem flags_lt (m : Member) : m.flags < 65536 := by
  unfold flags
  split_ifs <;> omega

/-- A name is read back as it is marked. -/
theorem nameOf_encode (m : Member) :
    Catalogue.nameOf m.flags (Utf8.encode m.name) = .ok m.name := by
  unfold Catalogue.nameOf flags
  by_cases h : isAscii m.name = true
  · rw [if_pos h, if_neg (by decide), encode_of_isAscii h]
  · rw [if_neg h, if_pos (by decide), Utf8.decode?_encode]

theorem length_record (m : Member) :
    m.record.length = 30 + (Utf8.encode m.name).length + m.data.length := by
  simp only [record, sharedFields, List.length_append, Number.length_write, List.length_cons,
    List.length_nil]

theorem length_listing (m : Member) (n : Nat) :
    (m.listing n).length = 46 + (Utf8.encode m.name).length := by
  simp only [listing, sharedFields, List.length_append, Number.length_write, List.length_cons,
    List.length_nil]

theorem record_fields (m : Member) (b : Bytes) :
    Number.field (m.record ++ b) 6 2 = m.flags % 0x10000 ∧
      Number.field (m.record ++ b) 26 2 = (Utf8.encode m.name).length % 0x10000 ∧
      Number.field (m.record ++ b) 28 2 = 0 := by
  refine ⟨?_, ?_, ?_⟩ <;>
    simp only [record, sharedFields, List.append_assoc, Number.field_append, Number.length_write,
      List.length_cons, List.length_nil, Nat.reduceAdd, Nat.reduceLeDiff, Nat.reduceSub,
      Number.field_write, Number.count, Nat.reduceMul, Nat.zero_mod]

theorem listing_fields (m : Member) (n : Nat) (b : Bytes) :
    Number.field (m.listing n ++ b) 6 1 = version ∧
      Number.field (m.listing n ++ b) 8 2 = m.flags % 0x10000 ∧
      Number.field (m.listing n ++ b) 10 2 = m.method % 0x10000 ∧
      Number.field (m.listing n ++ b) 16 4 = (Checksum.crc32 m.bytes).toNat % 0x100000000 ∧
      Number.field (m.listing n ++ b) 20 4 = m.data.length % 0x100000000 ∧
      Number.field (m.listing n ++ b) 24 4 = m.bytes.length % 0x100000000 ∧
      Number.field (m.listing n ++ b) 28 2 = (Utf8.encode m.name).length % 0x10000 ∧
      Number.field (m.listing n ++ b) 30 2 = 0 ∧ Number.field (m.listing n ++ b) 32 2 = 0 ∧
      Number.field (m.listing n ++ b) 42 4 = n % 0x100000000 := by
  refine ⟨?_, ?_, ?_, ?_, ?_, ?_, ?_, ?_, ?_, ?_⟩ <;>
    simp only [listing, sharedFields, List.append_assoc, Number.field_append, Number.length_write,
      List.length_cons, List.length_nil, Nat.reduceAdd, Nat.reduceLeDiff, Nat.reduceSub,
      Number.field_write, Number.count, Nat.reduceMul, Nat.zero_mod]
  rfl

theorem drop_record (m : Member) (b : Bytes) :
    (m.record ++ b).drop 30 = Utf8.encode m.name ++ (m.data ++ b) := by
  rw [record, List.append_assoc, List.append_assoc]
  refine List.drop_left' ?_
  simp only [sharedFields, List.length_append, Number.length_write, List.length_cons,
    List.length_nil]

theorem drop_listing (m : Member) (n : Nat) (b : Bytes) :
    (m.listing n ++ b).drop 46 = Utf8.encode m.name ++ b := by
  rw [listing, List.append_assoc]
  refine List.drop_left' ?_
  simp only [sharedFields, List.length_append, Number.length_write, List.length_cons,
    List.length_nil]

theorem length_le_data (m : Member) : m.bytes.length ≤ m.data.length := by
  unfold data
  split_ifs
  · exact Nat.le_refl _
  · exact Coding.Inflate.length_le_deflate m.bytes

/-- What the catalogue says of a member whose record starts at a position. -/
def listed (m : Member) (n : Nat) : Listing where
  storedName := m.name
  flags := m.flags
  method := m.method
  checksum := (Checksum.crc32 m.bytes).toNat
  packedSize := m.data.length
  size := m.bytes.length
  position := n

theorem readExtra_nil (fuel : Nat) (x : Nat × Nat × Nat) :
    Catalogue.readExtra fuel [] x = .ok x := by
  cases fuel <;> rfl

theorem read_listing (hname : (Utf8.encode m.name).length < 65536)
    (hdata : m.data.length < 0x100000000) (hn : n < 0x100000000) (b : Bytes) :
    Catalogue.listing (m.listing n ++ b) 0 = .ok (m.listed n, (m.listing n).length) := by
  obtain ⟨h6, h8, h10, h16, h20, h24, h28, h30, h32, h42⟩ := listing_fields m n b
  have hl := length_listing m n
  have hflags := flags_lt m
  have hmethod : m.method < 65536 := by unfold method; split_ifs <;> omega
  have hsize := length_le_data m
  have hcrc : (Checksum.crc32 m.bytes).toNat < 0x100000000 := UInt32.toNat_lt _
  have hsig : Catalogue.listingSignature.isPrefixOf (m.listing n ++ b) = true := rfl
  rw [Nat.mod_eq_of_lt (by omega)] at h8 h10 h16 h20 h24 h28 h42
  unfold Catalogue.listing
  simp only [h6, h8, h10, h16, h20, h24, h28, h30, h32, h42, hsig, drop_listing, List.take_left',
    nameOf_encode, hl, List.take_zero]
  have hlen : 46 ≤ (m.listing n ++ b).length := by
    rw [List.length_append, hl]
    omega
  rw [if_neg (by simpa using hlen)]
  simp only [bind, Except.bind]
  rw [if_neg (by decide), readExtra_nil]
  simp only [pure, Except.pure, Int.add_zero, Nat.add_zero, listed]

/-- The records of members one after the other. -/
def records (ms : List Member) : Bytes := ms.flatMap record

theorem records_cons (m : Member) (ms : List Member) :
    records (m :: ms) = m.record ++ records ms := rfl

theorem records_append (p q : List Member) : records (p ++ q) = records p ++ records q :=
  List.flatMap_append

/-- The listings of members whose records start at a position. -/
def listings : Nat → List Member → List Listing
  | _, [] => []
  | n, m :: ms => m.listed n :: listings (n + m.record.length) ms

theorem read_listings : ∀ {ms : List Member} {n fuel : Nat},
    (∀ m ∈ ms, (Utf8.encode m.name).length < 65536) → n + (records ms).length < 0x100000000 →
    (catalogue n ms).length < 46 * fuel →
    Catalogue.listings 0 fuel (catalogue n ms).length (catalogue n ms) = .ok (listings n ms)
  | _, n, 0, _, _, hf => by omega
  | [], n, fuel + 1, _, _, _ => rfl
  | m :: ms, n, fuel + 1, hname, hn, hf => by
    have hl := length_listing m n
    have hr := length_record m
    rw [records_cons, List.length_append] at hn
    rw [catalogue, List.length_append] at hf ⊢
    have ih := @read_listings ms (n + m.record.length) fuel
      (fun k hk => hname k (List.mem_cons_of_mem m hk)) (by omega) (by omega)
    have h := read_listing (m := m) (n := n) (hname m List.mem_cons_self) (by omega) (by omega)
      (catalogue (n + m.record.length) ms)
    rw [Catalogue.listings, if_neg (by omega), h]
    simp only [bind, Except.bind, Nat.add_sub_cancel_left, List.drop_left, ih]
    rfl

/-! ## A whole archive -/

/-- The end record of an archive. -/
def ending (ms : List Member) : Bytes :=
  [0x50, 0x4B, 0x05, 0x06] ++ (Number.write 2 0 ++ (Number.write 2 0 ++ (Number.write 2 ms.length ++
    (Number.write 2 ms.length ++ (Number.write 4 (catalogue 0 ms).length ++
      (Number.write 4 (records ms).length ++ Number.write 2 0))))))

theorem archive_eq (ms : List Member) :
    archive ms = records ms ++ catalogue 0 ms ++ ending ms := by
  simp only [archive, ending, records, List.append_assoc]

theorem length_ending (ms : List Member) : (ending ms).length = 22 := by
  simp only [ending, List.length_append, Number.length_write, List.length_cons, List.length_nil]

theorem ending_fields (ms : List Member) :
    Number.field (ending ms) 12 4 = (catalogue 0 ms).length % 0x100000000 ∧
      Number.field (ending ms) 16 4 = (records ms).length % 0x100000000 := by
  refine ⟨?_, ?_⟩ <;>
    simp only [ending, Number.field_append, Number.length_write, List.length_cons, List.length_nil,
      Nat.reduceAdd, Nat.reduceLeDiff, Nat.reduceSub, Number.field_write, Number.count,
      Nat.reduceMul]

theorem endPosition?_archive (ms : List Member) :
    Catalogue.endPosition? (archive ms) = some ((records ms).length + (catalogue 0 ms).length) := by
  have hl : (archive ms).length = (records ms ++ catalogue 0 ms).length + 22 := by
    rw [archive_eq, List.length_append, length_ending]
  have hd : (archive ms).drop ((archive ms).length - 22) = ending ms := by
    rw [hl, Nat.add_sub_cancel, archive_eq, List.drop_left]
  unfold Catalogue.endPosition?
  simp only [hd]
  rw [if_neg (by omega), if_pos, hl, Nat.add_sub_cancel, List.length_append]
  rw [Bool.and_eq_true]
  exact ⟨rfl, rfl⟩

/-- Whether the locator of a record for large archives stands in front of the end record. -/
def HasLocator (b : Bytes) : Prop :=
  42 ≤ b.length ∧ Catalogue.locatorSignature <+: b.drop (b.length - 42)

instance (b : Bytes) : Decidable (HasLocator b) := inferInstanceAs (Decidable (_ ∧ _))

/-- The archive of the members as it is read. -/
def opened (ms : List Member) : Archive := ⟨archive ms, (records ms).length, listings 0 ms⟩

/-- What can be packed into one archive of plain size and found there again. -/
structure Storable (ms : List Member) : Prop where
  names : ∀ m ∈ ms, (Utf8.encode m.name).length < 65536 ∧ '\x00' ∉ m.name
  short : (archive ms).length < 0x100000000
  plain : ¬ HasLocator (archive ms)

variable {ms : List Member}

theorem length_archive (ms : List Member) : (archive ms).length =
    (records ms).length + (catalogue 0 ms).length + 22 := by
  rw [archive_eq, List.length_append, List.length_append, length_ending]

theorem extent_archive (h : Storable ms) :
    Catalogue.extent (archive ms) ((records ms).length + (catalogue 0 ms).length) =
      .ok ⟨(catalogue 0 ms).length, (records ms).length, 0⟩ := by
  have hl := length_archive ms
  have hs := h.short
  have hp := h.plain
  obtain ⟨h12, h16⟩ := ending_fields ms
  rw [Nat.mod_eq_of_lt (by omega)] at h12 h16
  have hfield : ∀ k, Number.field (archive ms)
      ((records ms).length + (catalogue 0 ms).length + k) 4 = Number.field (ending ms) k 4 := by
    intro k
    rw [archive_eq, Number.field_append (by rw [List.length_append]; omega), List.length_append,
      Nat.add_sub_cancel_left]
  unfold Catalogue.extent
  simp only [hfield, h12, h16]
  rw [if_pos]
  rw [HasLocator, hl] at hp
  by_cases hn : (records ms).length + (catalogue 0 ms).length < 20
  · rw [decide_eq_true hn]
    rfl
  · have he : (records ms).length + (catalogue 0 ms).length + 22 - 42 =
        (records ms).length + (catalogue 0 ms).length - 20 := by omega
    rw [he] at hp
    simp only [Bool.or_eq_true, Bool.not_eq_true', Bool.eq_false_iff, ne_eq,
      List.isPrefixOf_iff_prefix]
    exact .inr fun e => hp ⟨by omega, e⟩

theorem ofBytes_archive (h : Storable ms) : Archive.ofBytes (archive ms) = .ok (opened ms) := by
  have hs := h.short
  have hl := length_archive ms
  have hc : ((archive ms).drop (records ms).length).take (catalogue 0 ms).length =
      catalogue 0 ms := by
    rw [archive_eq, List.append_assoc, List.drop_left, List.take_left]
  have hr := @read_listings ms 0 ((catalogue 0 ms).length / 46 + 1)
    (fun m hm => (h.names m hm).1) (by omega) (by omega)
  unfold Archive.ofBytes
  simp only [endPosition?_archive, extent_archive h, bind, Except.bind, Nat.add_sub_cancel,
    Nat.sub_zero, hc, Int.sub_self, hr]
  rw [if_neg (by omega)]
  rfl

end Member

end FileShell
