import FileShell.Archive.Handle
import FileShell.Proofs.Archive.Layout
import Mathlib.Data.List.TakeWhile
import Mathlib.Data.Option.Basic

/-!
# Reading an archive back

A reader of a written archive has the entries of its members (`Reader.entries_ofMembers`), finds a
member by its name unless a later one has it too (`Reader.contents_ofMembers`), and what it holds
comes out in one piece (`drain_contents`). The positions in the catalogue go up, so the data of a
member ends in front of the next record.
-/

namespace FileShell

/-! ## Readable contents -/

namespace Contents

/-- What may be decoded on its own: all data, and with the slower codings, which take it in pieces,
every beginning of it. -/
def IsDecoded (c : Contents) (b : Bytes) : Prop :=
  b = c.packed ∨ (c.method = .bzip ∨ c.method = .lzma) ∧ b <+: c.packed

/-- All data is there, nothing in it is found corrupt, and the checksum is right. -/
structure IsReadable (c : Contents) : Prop where
  whole : c.isWhole = true
  sound : ∀ b, c.IsDecoded b → (c.method.decode b).2 ≠ .corrupt
  checksum : (Checksum.crc32 c.bytes).toNat = c.checksum

variable {c : Contents}

theorem IsReadable.checked? (h : c.IsReadable) (before : Nat) : c.checked? before = none :=
  if_pos h.checksum

theorem IsReadable.flawGoingIn? (h : c.IsReadable) (hm : c.method = .bzip ∨ c.method = .lzma)
    (piece : Nat) : ∀ left used, c.flawGoingIn? piece left used = none
  | 0, _ => rfl
  | left + 1, used => by
    have ih := flawGoingIn? h hm piece left (used + piece)
    have hsound := h.sound _ (.inr ⟨hm, List.take_prefix (used + piece) c.packed⟩)
    unfold Contents.flawGoingIn?
    simp only [if_neg hsound, h.checked?, h.whole, if_true, ih, ite_self]

/-- Readable contents are read without a flaw in pieces of any size. -/
theorem IsReadable.flaw? (h : c.IsReadable) (piece : Nat) : c.flaw? piece = none := by
  have hsound := h.sound _ (.inl rfl)
  unfold Contents.flaw?
  rw [h.whole, Bool.not_true, Bool.and_false, if_neg Bool.false_ne_true]
  split
  · simp [Contents.flawComingOut?, Contents.comingOut, h.whole, hsound, h.checked?]
  · simp [Contents.flawComingOut?, Contents.comingOut, h.whole, hsound, h.checked?]
  · exact h.flawGoingIn? (.inl ‹_›) _ _ _
  · exact h.flawGoingIn? (.inr ‹_›) _ _ _

/-- Readable contents come out as their bytes, if requests for a chunk size are served. -/
theorem IsReadable.drain (h : c.IsReadable) (n : Nat) :
    c.stream.drain n = if c.isServed n then (c.bytes, true) else ([], false) := by
  have hr := Stream.request_lt_iff (show Stream.usualRequest < Stream.wordLimit by decide) n
  have hserved : c.isServed (Stream.request n) = c.isServed n := by
    simp only [isServed, hr]
  split_ifs with hn
  · rw [Stream.drain_of_holds]
    · rfl
    · simp only [stream, hserved, hn, if_true, h.flaw?, Option.map_none]
  · rw [Stream.drain_of_fails]
    simp only [stream, hserved, hn, Bool.false_eq_true, if_false]

end Contents

/-- The last listing of a name is found by it. -/
theorem Archive.indexOf?_eq {a : Archive} {p q : List Listing} {l : Listing}
    (h : a.listings = p ++ l :: q) (hq : ∀ k ∈ q, k.name ≠ l.name) :
    a.indexOf? l.name = some p.length := by
  have hrest : (q.zipIdx (p.length + 1)).filter (fun e => e.1.name == l.name) = [] := by
    rw [List.filter_eq_nil_iff]
    rintro ⟨k, i⟩ hk
    simpa using hq k (List.fst_mem_of_mem_zipIdx hk)
  unfold Archive.indexOf?
  rw [h, List.zipIdx_append, List.zipIdx_cons, Nat.zero_add, List.filter_append,
    List.filter_cons_of_pos (by simp), hrest, List.getLast?_concat]
  rfl

/-! ## Members -/

namespace Member

variable {m : Member} {ms p q : List Member}

theorem listings_append (p q : List Member) (n : Nat) :
    listings n (p ++ q) = listings n p ++ listings (n + (records p).length) q := by
  induction p generalizing n with
  | nil => rfl
  | cons m p ih =>
    rw [List.cons_append, listings, ih, listings, List.cons_append, records_cons,
      List.length_append, Nat.add_assoc]

theorem position_of_mem_listings {l : Listing} : ∀ {ms : List Member} {n : Nat}, l ∈ listings n ms →
    (n : Int) ≤ l.position ∧ l.position < (n + (records ms).length : Nat)
  | [], _, h => absurd h List.not_mem_nil
  | m :: ms, n, h => by
    have hr := length_record m
    rw [records_cons, List.length_append]
    rcases List.mem_cons.1 h with rfl | h
    · simp only [listed]
      omega
    · obtain ⟨h₁, h₂⟩ := position_of_mem_listings h
      omega

theorem length_listings : ∀ (ms : List Member) (n : Nat), (listings n ms).length = ms.length
  | [], _ => rfl
  | m :: ms, n => congrArg Nat.succ (length_listings ms (n + m.record.length))

theorem listings_split (p q : List Member) (m : Member) : (opened (p ++ m :: q)).listings =
    listings 0 p ++ m.listed (records p).length ::
      listings ((records p).length + m.record.length) q := by
  rw [opened, listings_append, Nat.zero_add, listings]

/-- The data of a member ends in front of the next record and of the catalogue. -/
theorem le_limit (p q : List Member) (m : Member) :
    (((records p).length + m.record.length : Nat) : Int) ≤
      (opened (p ++ m :: q)).limit p.length (records p).length := by
  have hr := length_record m
  have hstart : (opened (p ++ m :: q)).start =
      (records p).length + (m.record.length + (records q).length) := by
    rw [opened, records_append, records_cons, List.length_append, List.length_append]
  unfold Archive.limit
  rw [listings_split, List.map_append, List.map_cons]
  dsimp only
  rw [List.take_left' (by rw [List.length_map, length_listings])]
  rw [if_neg]
  · split
    · omega
    · rename_i next hnext
      have hmem := List.min?_mem hnext
      rw [List.mem_filter, List.mem_append, List.mem_cons, decide_eq_true_eq] at hmem
      obtain ⟨(hp | rfl | hq), hlt⟩ := hmem
      · obtain ⟨l, hl, rfl⟩ := List.mem_map.1 hp
        have := position_of_mem_listings hl
        omega
      · simp [listed] at hlt
      · obtain ⟨l, hl, rfl⟩ := List.mem_map.1 hq
        exact (position_of_mem_listings hl).1
  · rw [List.contains_iff_mem]
    intro hmem
    obtain ⟨l, hl, he⟩ := List.mem_map.1 hmem
    have := position_of_mem_listings hl
    omega

theorem guard_pos {c : Prop} [Decidable c] (h : c) : (guard c : Option Unit) = some () := if_pos h

theorem packed?_opened (h : Storable (p ++ m :: q)) :
    (opened (p ++ m :: q)).packed? p.length (m.listed (records p).length) = some m.data := by
  have hlim := le_limit p q m
  have hr := length_record m
  have hname := (h.names m (by simp)).1
  obtain ⟨rest, hrest⟩ : ∃ rest, (archive (p ++ m :: q)) = records p ++ (m.record ++ rest) := by
    refine ⟨records q ++ (catalogue 0 (p ++ m :: q) ++ ending (p ++ m :: q)), ?_⟩
    simp only [archive_eq, records_append, records_cons, List.append_assoc]
  obtain ⟨h6, h26, h28⟩ := record_fields m rest
  have hflags := flags_lt m
  rw [Nat.mod_eq_of_lt (by omega)] at h6 h26
  have hb : (opened (p ++ m :: q)).bytes = records p ++ (m.record ++ rest) := hrest
  have hguard : (decide (30 ≤ (m.record ++ rest).length) &&
      Archive.recordSignature.isPrefixOf (m.record ++ rest)) = true := by
    rw [Bool.and_eq_true, decide_eq_true_eq, List.length_append]
    exact ⟨by omega, rfl⟩
  have hreadable : Archive.readableFlags m.flags = true := by
    unfold flags
    split_ifs <;> rfl
  have hdata : (records p ++ (m.record ++ rest)).drop
      ((records p).length + 30 + (Utf8.encode m.name).length) = m.data ++ rest := by
    rw [Nat.add_assoc, ← List.drop_drop, List.drop_left, ← List.drop_drop, drop_record,
      List.drop_left]
  unfold Archive.packed?
  rw [if_neg (by simp [listed])]
  simp only [Option.bind_eq_bind, Option.bind_some, listed, Int.toNat_natCast, hb, List.drop_left,
    hguard, h6, h26, h28, drop_record, List.take_left, nameOf_encode, Except.toOption, guard_pos,
    hreadable, beq_self_eq_true, List.take_zero, List.length_nil, Nat.add_zero, hdata]
  rw [guard_pos (by omega)]
  rfl

/-- The contents of a member as they are read. -/
def contents (m : Member) : Contents where
  method := if m.isDir then .stored else .deflated
  packed := m.data
  isWhole := true
  size := m.bytes.length
  checksum := (Checksum.crc32 m.bytes).toNat

theorem contents?_opened (h : Storable (p ++ m :: q)) :
    (opened (p ++ m :: q)).contents? p.length = some m.contents := by
  have hl : (opened (p ++ m :: q)).listings[p.length]? = some (m.listed (records p).length) := by
    rw [listings_split, List.getElem?_append_right (by rw [length_listings]), length_listings,
      Nat.sub_self]
    rfl
  have hm : Method.ofNumber? m.method = some (if m.isDir then .stored else .deflated) := by
    unfold method
    split_ifs <;> rfl
  unfold Archive.contents?
  simp only [hl, Option.bind_eq_bind, Option.bind_some, packed?_opened h]
  rw [show (m.listed (records p).length).method = m.method from rfl, hm]
  simp [contents, listed]

theorem decode_contents (m : Member) : ∃ e, e ≠ .corrupt ∧
    m.contents.method.decode m.contents.packed = (m.bytes, e) := by
  unfold contents data
  rcases m.isDir
  · exact ⟨.finished, by simp, Coding.Inflate.inflate_deflate m.bytes⟩
  · exact ⟨.cutShort, by simp, rfl⟩

theorem bytes_contents (m : Member) : m.contents.bytes = m.bytes := by
  obtain ⟨e, -, hd⟩ := decode_contents m
  rw [Contents.bytes, hd]
  exact List.take_length

theorem isReadable_contents (m : Member) : m.contents.IsReadable := by
  obtain ⟨e, he, hd⟩ := decode_contents m
  refine ⟨rfl, fun b hb => ?_, ?_⟩
  · obtain rfl : b = m.contents.packed := by
      refine hb.resolve_right fun h => ?_
      unfold contents at h
      rcases hdir : m.isDir <;> simp [hdir] at h
    rw [hd]
    exact he
  · rw [bytes_contents]
    rfl

/-- The contents of a member come out as its bytes. -/
theorem drain_contents (m : Member) {n : Nat} (hn : n < Stream.wordLimit) :
    m.contents.stream.drain n = (m.bytes, true) := by
  have hserved : m.contents.isServed n = true := by
    rw [Contents.isServed, decide_eq_true hn, Bool.or_true]
  rw [(isReadable_contents m).drain, if_pos hserved, bytes_contents]

/-! ## Reading an archive -/

theorem name_listed (hm : '\x00' ∉ m.name) (n : Nat) : (m.listed n).name = m.name := by
  refine List.takeWhile_eq_self_iff.2 fun c hc => ?_
  rw [bne_iff_ne]
  rintro rfl
  exact hm hc

theorem map_listings {α : Type} {f : Listing → α} {g : Member → α} :
    ∀ {ms : List Member} {n : Nat}, (∀ m ∈ ms, ∀ n, f (m.listed n) = g m) →
      (listings n ms).map f = ms.map g
  | [], _, _ => rfl
  | m :: ms, n, h => by
    rw [listings, List.map_cons, List.map_cons, h m List.mem_cons_self,
      map_listings fun k hk => h k (List.mem_cons_of_mem m hk)]

theorem indexOf?_opened (h : Storable (p ++ m :: q)) (hm : ∀ k ∈ q, k.name ≠ m.name) :
    (opened (p ++ m :: q)).indexOf? m.name = some p.length := by
  have hnull : ∀ k ∈ p ++ m :: q, '\x00' ∉ k.name := fun k hk => (h.names k hk).2
  have hname := name_listed (hnull m (by simp)) (records p).length
  rw [← hname, Archive.indexOf?_eq (listings_split p q m), length_listings]
  intro k hk
  have hk : k.name ∈ q.map (·.name) := by
    rw [← map_listings fun k hk n => name_listed (hnull k (by simp [hk])) n]
    exact List.mem_map_of_mem hk
  obtain ⟨k', hk', he⟩ := List.mem_map.1 hk
  rw [hname, ← he]
  exact hm k' hk'

end Member

/-- The reader of an archive with the given members. -/
def Reader.ofMembers (ms : List Member) : Reader := ⟨Member.opened ms, false⟩

/-- The entry that stands for a member. -/
def Member.entry (m : Member) : Entry := ⟨m.name, m.name.getLast? == some '/', m.bytes.length⟩

theorem Reader.entries_ofMembers {ms : List Member} (h : Member.Storable ms) :
    (Reader.ofMembers ms).entries = ms.map Member.entry := by
  refine Member.map_listings fun m hm n => ?_
  rw [Member.entry, ← Member.name_listed (h.names m hm).2 n]
  rfl

theorem Reader.contents_ofMembers {s : Storage} {p q : List Member} {m : Member}
    (hr : ∀ t, s.refuses .openEntry t = false) (h : Member.Storable (p ++ m :: q))
    (hm : ∀ k ∈ q, k.name ≠ m.name) :
    (Reader.ofMembers (p ++ m :: q)).contents s m.name = .ok m.contents := by
  unfold Reader.contents Reader.ofMembers
  simp only [hr, Bool.false_eq_true, if_false, Member.indexOf?_opened h hm, Option.bind_eq_bind,
    Option.bind_some, Member.contents?_opened h]

end FileShell
