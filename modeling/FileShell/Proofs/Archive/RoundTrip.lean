import FileShell.Proofs.Archive.Packed
import FileShell.Proofs.Archive.Unpacked
import FileShell.Proofs.Disk.Vacant

/-!
# There and back

What is packed comes out again below a place where nothing stands: every directory and every file
with its bytes, under the base names of the items, without the archive itself (`unpack_packed`).
-/

namespace FileShell

namespace Path

theorem joined_suffix_foldl_join {a : List Text} (ha : ∀ x ∈ a, '/' ∉ x ∧ x ≠ []) (p : Path) :
    Text.join ['/'] a <:+ a.foldl join p := by
  induction a using List.reverseRecOn with
  | nil => exact List.nil_suffix
  | append_singleton b x ih =>
    have hb := fun y hy => ha y (List.mem_append_left [x] hy)
    have hx := ha x (by simp)
    rw [List.foldl_append, List.foldl_cons, List.foldl_nil]
    rcases eq_or_ne b [] with rfl | hn
    · obtain ⟨t, ht, -⟩ := exists_join_eq p hx.1
      exact ⟨p ++ t, ht.symm⟩
    · obtain ⟨h₁, h₂⟩ := foldl_join_ne_nil hb hn p
      obtain ⟨t, ht⟩ := ih hb
      refine ⟨t, ?_⟩
      rw [join_eq_of_relative (isAbsolute_of_not_mem hx.1), if_neg (by simp [h₁, h₂]),
        Text.join_concat _ _ hn, ← ht]
      simp

end Path

namespace Packing

/-- What it takes to pack items into the archive at `p`, which goes to the place `out`, and to
unpack them below `q`. -/
structure Portable (s : Storage) (d : Disk) (p q : Path) (out : Loc) (items : List PackItem)
    (place : PackItem → Loc) : Prop where
  calm : ∀ k t, s.refuses k t = false
  serves : s.Serves
  sound : d.Sound
  fit : d.LinksFit
  archive : d.locateWrite p = .ok out
  absolute : ∀ i ∈ items, i.path.isAbsolute = true
  packable : ∀ i ∈ items, Packable d i.path (place i)
  distinct : (items.map PackItem.base).Nodup
  short : ∀ i ∈ items, ∀ r, (d.get? (place i ++ r)).isSome → place i ++ r ≠ out →
    (r.foldl Path.join i.path).fits = true ∧ ((i.base :: r).foldl Path.join q).fits = true
  nests : ∀ i ∈ items, d.NestsBelow i.path s.nests

namespace Portable

variable {s : Storage} {d : Disk} {p q : Path} {out l : Loc} {items : List PackItem}
  {place : PackItem → Loc} {i : PackItem} {k : Loc}

theorem get?_ne (h : Portable s d p q out items place) (b : Bytes) (hk : k ≠ out) :
    (d.write out b).get? k = d.get? k := by
  rw [Disk.get?_write b (h.sound.of_locateWrite h.archive).1, if_neg fun e => hk e.1]

theorem fair (h : Portable s d p q out items place) : Fair ⟨s, d.write out [], p⟩ out :=
  .of_locateWrite h.calm h.serves h.sound h.fit h.archive

theorem isName (h : Portable s d p q out items place) (hi : i ∈ items) : IsName i.base :=
  (h.packable i hi).isName h.sound (h.absolute i hi)

theorem packable_write (h : Portable s d p q out items place) (hi : i ∈ items) :
    Packable (d.write out []) i.path (place i) := by
  have hp := h.packable i hi
  have hk := h.sound.keeps_write h.archive []
  obtain ⟨hc, -⟩ := Disk.locate_eq_ok_iff.1 hp.located
  refine ⟨?_, hp.linkFree.of_keeps hk, ?_⟩
  · refine ((Disk.at_of_locate hp.located).of_keeps hk).locate hc ?_
    rcases hp.kind with ⟨hd, -⟩ | ⟨b, hb⟩
    · exact .inl (hk.directory hd)
    · exact .inr (Disk.locate_getLast? hp.located (by simp [Disk.isDirectory, hb]))
  · rcases hp.kind with ⟨hd, hn⟩ | ⟨b, hb⟩
    · exact .inl ⟨hk.directory hd, hn⟩
    · refine .inr ?_
      rw [Disk.get?_write [] (h.sound.of_locateWrite h.archive).1]
      split_ifs
      · exact ⟨[], rfl⟩
      · exact ⟨b, hb⟩

theorem spelled (h : Portable s d p q out items place) (hi : i ∈ items) {r : Loc}
    (hr : (d.get? (place i ++ r)).isSome) : ∀ x ∈ i.base :: r, IsName x :=
  List.forall_mem_cons.2 ⟨h.isName hi, h.sound.isName_of_mem hr⟩

/-- All nodes that are packed, item by item. -/
def allNodes (d : Disk) (out : Loc) (place : PackItem → Loc) (items : List PackItem) :
    List (Loc × Item) :=
  items.flatMap fun i => d.nodes out depth (place i) [i.base]

theorem linkFree_write (h : Portable s d p q out items place) (hi : i ∈ items)
    (hl : (d.write out []).locate true i.path = .ok l) : (d.write out []).LinkFree l := by
  have hp := h.packable_write hi
  obtain rfl := Except.ok.inj (hp.located.symm.trans hl)
  exact hp.linkFree

/-- All items are packed. -/
theorem run_packItems (h : Portable s d p q out items place) (k : Packing) :
    (items.forM (packItem ⟨s, d.write out [], p⟩ true)).run k =
      (.ok (), items.foldl (addItem ⟨s, d.write out [], p⟩ true) k) :=
  h.fair.run_packItems (fun _ hi _ hl => h.linkFree_write hi hl)
    (fun i hi _ => (h.nests i hi).of_keeps (h.sound.keeps_of_write h.archive [])) k

theorem packs (h : Portable s d p q out items place) :
    Packs ⟨⟨out, [], false⟩, [], []⟩
      (items.foldl (addItem ⟨s, d.write out [], p⟩ true) ⟨⟨out, [], false⟩, [], []⟩)
      ((allNodes (d.write out []) out place items).map Member.ofNode) [] := by
  have hitem : ∀ i ∈ items, ∀ k : Packing, k.writer.closed = false →
      Packs k (addItem ⟨s, d.write out [], p⟩ true k i)
        (((d.write out []).nodes out depth (place i) [i.base]).map Member.ofNode) [] := by
    intro i hi k hk
    have hitem : Packs k (addItem ⟨s, d.write out [], p⟩ true k i) _ _ :=
      addItem_packs h.fair (h.absolute i hi) (fun _ hl => h.linkFree_write hi hl) hk
    obtain ⟨hm, hl⟩ := (h.packable_write hi).stored_eq h.fair.sound (h.absolute i hi)
      h.fair.notDirectory fun r hr ho => (h.short i hi r (by rwa [h.get?_ne [] ho] at hr) ho).1
    rwa [hm, hl] at hitem
  have hfold := Packs.foldl (k := ⟨⟨out, [], false⟩, [], []⟩) rfl hitem
  rwa [← List.map_flatMap, List.flatMap_eq_nil_iff.2 fun _ _ => rfl] at hfold

theorem mem_allNodes (h : Portable s d p q out items place) {e : Loc × Item} :
    e ∈ allNodes (d.write out []) out place items ↔ ∃ i ∈ items, ∃ r, e.1 = i.base :: r ∧
      place i ++ r ≠ out ∧ (d.get? (place i ++ r)).map Item.packed = some e.2 := by
  rw [allNodes, List.mem_flatMap]
  refine exists_congr fun i => and_congr_right fun hi => ?_
  rw [Disk.mem_nodes h.fair.sound h.fair.notDirectory]
  constructor
  · rintro ⟨r, -, hr, ho, hj⟩
    rw [h.get?_ne [] ho] at hj
    exact ⟨r, hr, ho, hj⟩
  · rintro ⟨r, hr, ho, hj⟩
    refine ⟨r, ?_, hr, ho, by rwa [h.get?_ne [] ho]⟩
    have hsome : (d.get? (place i ++ r)).isSome := by
      rw [← Option.isSome_map (f := Item.packed), hj]
      rfl
    have hf := (h.short i hi r hsome ho).1
    have hnames := h.sound.isName_of_mem hsome
    have hle := Path.length_le_byteSize_foldl_join
      (fun x hx => ⟨(hnames x hx).noSlash, (hnames x hx).plain.1⟩) i.path
    simp only [Path.fits, decide_eq_true_eq] at hf
    rw [depth]
    omega

theorem mem_allNodes_iff (h : Portable s d p q out items place) (hi : i ∈ items) {r : Loc}
    {j : Item} : (i.base :: r, j) ∈ allNodes (d.write out []) out place items ↔
      place i ++ r ≠ out ∧ (d.get? (place i ++ r)).map Item.packed = some j := by
  rw [h.mem_allNodes]
  constructor
  · rintro ⟨i', hi', r', hr, hj⟩
    obtain ⟨hb, rfl⟩ := List.cons.inj hr
    obtain rfl := List.inj_on_of_nodup_map h.distinct hi hi' hb
    exact hj
  · exact fun hj => ⟨i, hi, r, rfl, hj⟩

theorem pairwise_allNodes (h : Portable s d p q out items place) :
    (allNodes (d.write out []) out place items).Pairwise fun e f => e.1 ≠ f.1 := by
  refine List.pairwise_flatMap.2 ⟨fun i _ => Disk.pairwise_nodes h.fair.sound, ?_⟩
  refine (List.pairwise_map.1 h.distinct).imp fun hne e he f hf hef => hne ?_
  have he := Disk.prefix_of_mem_nodes he
  have hf := Disk.prefix_of_mem_nodes hf
  rw [← hef] at hf
  simpa using List.prefix_of_prefix_length_le he hf (by simp)

theorem parentsFirst_allNodes (h : Portable s d p q out items place) :
    ParentsFirst [[]] (allNodes (d.write out []) out place items) :=
  .flatMap fun _ hi => Disk.parentsFirst_nodes (b := []) h.fair.sound (List.mem_singleton_self [])
    (h.isName hi)

/-! ## The archive that is written -/

/-- The members of the archive of all items. -/
def members (d : Disk) (out : Loc) (place : PackItem → Loc) (items : List PackItem) : List Member :=
  (allNodes d out place items).map Member.ofNode

theorem nameable (h : Portable s d p q out items place) {e : Loc × Item}
    (he : e ∈ allNodes (d.write out []) out place items) : Writer.Nameable e.1 := by
  obtain ⟨i, hi, r, hr, ho, hj⟩ := h.mem_allNodes.1 he
  have hsome : (d.get? (place i ++ r)).isSome := by
    rw [← Option.isSome_map (f := Item.packed), hj]
    rfl
  have hspell : ∀ x ∈ i.base :: r, '/' ∉ x ∧ x ≠ [] := fun x hx =>
    ⟨(h.spelled hi hsome x hx).noSlash, (h.spelled hi hsome x hx).plain.1⟩
  have hle := Text.byteSize_le_of_sublist (Path.joined_suffix_foldl_join hspell q).sublist
  have hf := (h.short i hi r hsome ho).2
  simp only [Path.fits, decide_eq_true_eq] at hf
  rw [hr]
  refine ⟨h.spelled hi hsome, ?_⟩
  rw [Writer.maxName]
  rw [Disk.maxPath] at hf
  omega

theorem storable (h : Portable s d p q out items place)
    (hl : (Member.archive (members (d.write out []) out place items)).length < 0x100000000)
    (hn : ¬ Member.HasLocator (Member.archive (members (d.write out []) out place items))) :
    Member.Storable (members (d.write out []) out place items) where
  names m hm := by
    obtain ⟨⟨a, j⟩, he, rfl⟩ := List.mem_map.1 hm
    exact (h.nameable he).name_ofNode j
  short := hl
  plain := hn

/-- The reader has the bytes of every file that was packed. -/
theorem held (h : Portable s d p q out items place)
    (hm : Member.Storable (members (d.write out []) out place items)) {e : Loc × Item}
    (he : e ∈ allNodes (d.write out []) out place items) {c : Bytes} (hc : e.2 = .file c) :
    ∃ t, (Reader.ofMembers (members (d.write out []) out place items)).contents s
      (Member.ofNode e).name = .ok t ∧ t.stream.drain s.chunk = (c, true) := by
  obtain ⟨a, j⟩ := e
  obtain rfl : j = .file c := hc
  have hpair := h.pairwise_allNodes
  have hname := fun {f : Loc × Item} (hf : f ∈ allNodes (d.write out []) out place items) =>
    (h.nameable hf).spelled
  rw [members] at hm ⊢
  obtain ⟨p', q', hsplit⟩ := List.append_of_mem he
  rw [hsplit] at hpair hm hname ⊢
  rw [List.map_append, List.map_cons] at hm ⊢
  refine ⟨_, Reader.contents_ofMembers (h.calm _) hm fun m hmq => ?_, ?_⟩
  · obtain ⟨⟨b, i⟩, hf, rfl⟩ := List.mem_map.1 hmq
    intro heq
    have hab := (List.pairwise_cons.1 (List.pairwise_append.1 hpair).2.1).1 _ hf
    exact hab (Member.eq_of_name_ofNode (hname (by simp)) (hname (by simp [hf])) heq.symm)
  · exact Member.drain_contents _ ((Stream.request_lt_iff (by decide) _).1 h.serves.2)

end Portable

end Packing

namespace Reader

theorem run_openAt_ofMembers {s : Storage} {p : Path} {w : World} {ms : List Member}
    (hr : s.refuses .openReader p = false) (hf : w.disk.isFile p = true)
    (hp : w.disk.read p = .ok (Member.archive ms)) (hm : Member.Storable ms) :
    (openAt s p).run w = (.ok (ofMembers ms), w) := by
  unfold openAt
  simp only [Act.run_bind, Storage.run_allow, hr, Bool.false_eq_true, if_false, Act.run_get,
    hf, Bool.not_true, Storage.run_ask, hp, Act.mapError_ok, Member.ofBytes_archive hm]
  rfl

end Reader

section RoundTrip

open Packing Portable

variable {s : Storage} {d : Disk} {w w' : World} {p q : Path} {out ld : Loc}
  {items : List PackItem} {place : PackItem → Loc}

/-- Below an empty place, the nodes of the items are their trees without the archive. -/
theorem Packing.Portable.get?_of_leaves (h : Portable s d p q out items place)
    (hl : Unpacking.Leaves ld (allNodes (d.write out []) out place items) w w')
    (he : ∀ k, ld <+: k → k ≠ ld → w.disk.get? k = none) {i : PackItem} (hi : i ∈ items) (r : Loc) :
    w'.disk.get? (ld ++ i.base :: r) =
      if place i ++ r = out then none else (d.get? (place i ++ r)).map Item.packed := by
  have hmem := fun j => h.mem_allNodes_iff hi (r := r) (j := j)
  generalize hv : (if place i ++ r = out then none
    else (d.get? (place i ++ r)).map Item.packed) = v
  rcases v with _ | j
  · rw [hl.elsewhere, he _ (List.prefix_append _ _) (by simp)]
    rintro ⟨a, j⟩ hn heq
    obtain rfl := List.append_cancel_left heq
    obtain ⟨ho, hj⟩ := (hmem j).1 hn
    rw [if_neg ho, hj] at hv
    cases hv
  · refine hl.there (i.base :: r, j) ((hmem j).2 ?_)
    split_ifs at hv with ho
    exact ⟨ho, hv⟩

/-- What was packed comes out below a place where nothing stands. -/
theorem unpack_packed (h : Portable s d p q out items place)
    (hm : Member.Storable (members (d.write out []) out place items))
    (hf : w.disk.isFile p = true)
    (hp : w.disk.read p = .ok (Member.archive (members (d.write out []) out place items)))
    (hs : w.disk.Sound) (hq : w.disk.Vacant q ld) (hl : Path.leadingSlashes q = 1) :
    ∃ es w', (unpack s p q).run w = (.ok es, w') ∧ w'.shown = w.shown ∧
      (∀ i ∈ items, ∀ r, w'.disk.get? (ld ++ i.base :: r) =
        if place i ++ r = out then none else (d.get? (place i ++ r)).map Item.packed) ∧
      ∀ k, (∀ i ∈ items, ¬ ld ++ [i.base] <+: k) → w'.disk.get? k = w.disk.get? k := by
  generalize hr : Reader.ofMembers (members (d.write out []) out place items) = reader
  have hpend :
      Unpacking.Pending s reader q ld (allNodes (d.write out []) out place items) w.disk := by
    refine ⟨fun e hn => ?_, fun e hn => ?_, h.pairwise_allNodes, fun e hn c hc => ?_⟩
    · obtain ⟨i, hi, r, hr, ho, hj⟩ := h.mem_allNodes.1 hn
      rw [hr]
      refine (h.short i hi r ?_ ho).2
      rw [← Option.isSome_map (f := Item.packed), hj]
      rfl
    · obtain ⟨i, -, r, hr, -⟩ := h.mem_allNodes.1 hn
      exact hq.empty _ (List.prefix_append _ _) (by simp [hr])
    · rw [← hr]
      exact h.held hm hn hc
  have hentries : reader.entries = (allNodes (d.write out []) out place items).map
      fun e => (Member.ofNode e).entry := by
    rw [← hr, Reader.entries_ofMembers hm, members, List.map_map]
    rfl
  have hleaves := Unpacking.unpackAll_nodes h.calm hl h.parentsFirst_allNodes (w := w) (l := ld)
    (by simpa using hq.directory) hs hq.root hpend
  rw [← hentries] at hleaves
  rcases hrun : Unpacking.unpackAll s reader q reader.entries w with ⟨es, w'⟩
  rw [hrun] at hleaves
  refine ⟨es, w', ?_, hleaves.shown,
    fun i hi r => h.get?_of_leaves hleaves hq.empty hi r, fun k hk => ?_⟩
  · unfold unpack
    rw [Act.run_bind, Reader.run_openAt_ofMembers (h.calm _ _) hf hp hm, hr]
    simp only [Act.run_lift, hrun]
  · refine hleaves.elsewhere k fun e hn heq => ?_
    obtain ⟨i, hi, r, hr, -, -⟩ := h.mem_allNodes.1 hn
    refine hk i hi ?_
    rw [heq, hr]
    exact ⟨r, by simp⟩

end RoundTrip

end FileShell
