import FileShell.Program.Settings
import FileShell.Proofs.Archive.Additions

/-!
# Bytes on their way

Three calls move bytes in chunks: copying a file, adding one to an archive, and writing out what an
entry holds. Each of them gives exactly what it was given, in chunks of any size that a request can
have, so the size does not matter (`bytes_arrive`). A size for which there is no buffer makes the
call fail, and what it was to write is left empty; the settings accept such sizes all the same
(`chunk_too_large`).
-/

namespace FileShell

/-- The place has come to hold the bytes, and nothing else has changed. -/
structure World.Fills (w : World) (m : Loc) (b : Bytes) (w' : World) : Prop where
  held : w'.disk.get? m = some (.file b)
  rest : ∀ k, k ≠ m → w'.disk.get? k = w.disk.get? k
  shown : w'.shown = w.shown

namespace Storage

variable {s : Storage} {w : World} {p q : Path} {l m : Loc} {b : Bytes} {c : Contents} {n : Nat}

/-! ## Files -/

/-- A place that is opened for writing comes to hold what is written, unless a device is there. -/
theorem fills_write_write (w : World) (hm : m ≠ []) (hd : w.disk.get? m ≠ some .device)
    (b : Bytes) : w.Fills m b { w with disk := (w.disk.write m []).write m b } where
  held := by
    rw [get?_write_write [] b hm, if_pos rfl]
    exact Overlay.placed_of_ne_device hd
  rest k hk := by rw [get?_write_write [] b hm, if_neg hk]
  shown := rfl

theorem run_copy_fills (hr : s.refuses .copy p = false) (hl : w.disk.locate true p = .ok l)
    (hb : w.disk.bytesAt l = .ok b) (hm : w.disk.locateWrite q = .ok m) (hne : l ≠ m)
    (hd : w.disk.get? m ≠ some .device) :
    ∃ w', (s.copy p q).run w =
        (if s.Serves then .ok () else .error (.copy p q), w') ∧
      w.Fills m (if s.Serves then b else []) w' := by
  have hb' : (w.disk.write m []).bytesAt l = .ok b := by
    unfold Disk.bytesAt
    rw [Disk.get?_write [] (Disk.ne_nil_of_locateWrite hm), if_neg fun h => hne h.1]
    exact hb
  refine ⟨_, ?_, fills_write_write w (Disk.ne_nil_of_locateWrite hm) hd _⟩
  rw [run_copy, hr, if_neg Bool.false_ne_true, hl]
  simp only [Except.bind, hb, Except.map, hm, hb', drain_ofFile]
  by_cases hn : s.Serves
  · simp only [if_pos hn, if_true]
  · simp only [if_neg hn, Bool.false_eq_true, if_false]

theorem run_writeStream_fills (hr : s.refuses .writeStream q = false)
    (hm : w.disk.locateWrite q = .ok m) (hd : w.disk.get? m ≠ some .device) (hc : c.IsReadable) :
    ∃ w', (s.writeStream q c.stream).run w =
        (if c.isServed s.chunk then .ok () else .error (.write q), w') ∧
      w.Fills m (if c.isServed s.chunk then c.bytes else []) w' := by
  refine ⟨_, ?_, fills_write_write w (Disk.ne_nil_of_locateWrite hm) hd _⟩
  rw [run_writeStream, hr, if_neg Bool.false_ne_true, hm, hc.drain]
  by_cases hn : c.isServed s.chunk = true
  · simp only [if_pos hn, if_true]
  · simp only [if_neg hn, Bool.false_eq_true, if_false]

/-! ## The chunk size -/

theorem drain_chunk (h : { s with chunk := n }.Serves ↔ s.Serves) (b : Bytes) :
    (Stream.ofFile s.memory b).drain n = (Stream.ofFile s.memory b).drain s.chunk := by
  rw [drain_ofFile s]
  exact (drain_ofFile { s with chunk := n } b).trans (by simp only [h])

theorem copy_chunk (h : { s with chunk := n }.Serves ↔ s.Serves) :
    { s with chunk := n }.copy = s.copy := by
  unfold copy
  simp only [drain_chunk h]
  rfl

theorem addFile_chunk (h : { s with chunk := n }.Serves ↔ s.Serves) :
    Writer.addFile { s with chunk := n } = Writer.addFile s := by
  unfold Writer.addFile
  simp only [drain_chunk h]

theorem writeStream_chunk (hc : c.IsReadable) (h : c.isServed n = c.isServed s.chunk) (p : Path) :
    { s with chunk := n }.writeStream p c.stream = s.writeStream p c.stream := by
  unfold writeStream
  simp only [hc.drain, h]
  rfl

end Storage

/-! ## Archives -/

namespace Writer

variable {s : Storage} {k : Writer} {d : Disk} {v : World} {p q : Path} {b c : Bytes} {name : Text}
  {ms : List Member} {m : Member}

/-- What a file is filed under if it is added with a name. A NUL ends what is stored of it. -/
def filed (name : Text) : Text := Text.trimStart (· == '/') (Path.normalize name)

theorem addFile_filed (hk : k.closed = false) (hr : s.refuses .addFile p = false)
    (hb : d.read p = .ok b) (hn : filed name ≠ [])
    (hl : (storedName (filed name)).byteSize ≤ maxName) :
    k.addFile s d p name =
      (if s.Serves then .ok ⟨name, false, b.length⟩ else .error (.addFile p name),
        { k with members := k.members ++ [⟨storedName (filed name), false,
          if s.Serves then b else []⟩] }) := by
  have hempty : (filed name).isEmpty = false := by simpa using hn
  have hlong : ¬ maxName < (storedName (filed name)).byteSize := Nat.not_lt.2 hl
  unfold filed at hempty hlong
  unfold addFile
  simp only [hr, Bool.false_eq_true, if_false, hb, hk, hempty, hlong, decide_false, Bool.or_false,
    Storage.drain_ofFile]
  by_cases hc : s.Serves
  · simp only [if_pos hc, if_true]
    rfl
  · simp only [if_neg hc, Bool.false_eq_true, if_false]
    rfl

/-- The last member of an archive is read under its name once the archive is closed. -/
theorem close_last (hk : k.closed = false) (hs : v.disk.Sound)
    (hv : v.disk.locate true q = .ok k.place) (hf : v.disk.get? k.place = some (.file c))
    (hr : s.refuses .openReader q = false) (he : ∀ t, s.refuses .openEntry t = false)
    (hm : k.members = ms ++ [m]) (hms : Member.Storable (ms ++ [m])) :
    ∃ reader, (Reader.openAt s q).run (k.close v).2 = (.ok reader, (k.close v).2) ∧
      reader.entries = ms.map Member.entry ++ [m.entry] ∧
      ∃ c, reader.contents s m.name = .ok c ∧ c.IsReadable ∧ c.bytes = m.bytes := by
  obtain ⟨hfile, hread⟩ := read_close k v hs hv hf hk
  rw [hm] at hread
  refine ⟨.ofMembers (ms ++ [m]), Reader.run_openAt_ofMembers hr hfile hread hms, ?_,
    m.contents, ?_, m.isReadable_contents, m.bytes_contents⟩
  · rw [Reader.entries_ofMembers hms, List.map_append, List.map_singleton]
  · exact Reader.contents_ofMembers he hms (fun _ h => absurd h List.not_mem_nil)

end Writer

/-! ## All three ways -/

/-- Bytes arrive as they were, by each of the three ways, as long as the chunk size is one that
requests can have; and then it does not matter which. A chunk size that is too large gives a failure
and nothing in place of the bytes. -/
theorem bytes_arrive (s : Storage) :
    (∀ (w : World) (p q : Path) (l m : Loc) (b : Bytes), s.refuses .copy p = false →
      w.disk.locate true p = .ok l → w.disk.bytesAt l = .ok b →
      w.disk.locateWrite q = .ok m → l ≠ m → w.disk.get? m ≠ some .device →
      ∃ w', (s.copy p q).run w =
          (if s.Serves then .ok () else .error (.copy p q), w') ∧
        w.Fills m (if s.Serves then b else []) w') ∧
    (∀ (w : World) (q : Path) (m : Loc) (c : Contents), c.IsReadable →
      s.refuses .writeStream q = false → w.disk.locateWrite q = .ok m →
      w.disk.get? m ≠ some .device →
      ∃ w', (s.writeStream q c.stream).run w =
          (if c.isServed s.chunk then .ok () else .error (.write q), w') ∧
        w.Fills m (if c.isServed s.chunk then c.bytes else []) w') ∧
    (∀ (k : Writer) (d : Disk) (v : World) (p q : Path) (name : Text) (b old : Bytes),
      let held := if s.Serves then b else []
      let m : Member := ⟨Writer.storedName (Writer.filed name), false, held⟩
      let added := k.addFile s d p name
      let v' := (added.2.close v).2
      k.closed = false → s.refuses .addFile p = false → d.read p = .ok b →
      Writer.filed name ≠ [] → m.name.byteSize ≤ Writer.maxName →
      v.disk.Sound → v.disk.locate true q = .ok k.place →
      v.disk.get? k.place = some (.file old) → Member.Storable (k.members ++ [m]) →
      s.refuses .openReader q = false → (∀ t, s.refuses .openEntry t = false) →
      added.1 = (if s.Serves then .ok ⟨name, false, b.length⟩
        else .error (.addFile p name)) ∧
      ∃ reader, (Reader.openAt s q).run v' = (.ok reader, v') ∧
        reader.entries = k.members.map Member.entry ++
          [⟨m.name, m.name.getLast? == some '/', held.length⟩] ∧
        ∃ c, reader.contents s m.name = .ok c ∧ c.IsReadable ∧ c.bytes = held) ∧
    (∀ n, ({ s with chunk := n }.Serves ↔ s.Serves) →
      { s with chunk := n }.copy = s.copy ∧
      Writer.addFile { s with chunk := n } = Writer.addFile s) ∧
    (∀ (n : Nat) (q : Path) (c : Contents), c.IsReadable → c.isServed n = c.isServed s.chunk →
      { s with chunk := n }.writeStream q c.stream = s.writeStream q c.stream) := by
  refine ⟨fun w p q l m b => Storage.run_copy_fills,
    fun w q m c hc hr hm hd => Storage.run_writeStream_fills hr hm hd hc, ?_,
    fun n h => ⟨Storage.copy_chunk h, Storage.addFile_chunk h⟩,
    fun n q c hc h => Storage.writeStream_chunk hc h q⟩
  intro k d v p q name b old held m added v' hk ha hb hn hl hs hv hf hms hr he
  have hadded : added = (_, { k with members := k.members ++ [m] }) :=
    Writer.addFile_filed hk ha hb hn hl
  obtain ⟨reader, hopen, hentries, hread⟩ :=
    Writer.close_last (k := { k with members := k.members ++ [m] }) hk hs hv hf hr he rfl hms
  refine ⟨congrArg Prod.fst hadded, reader, ?_, hentries, hread⟩
  have hv' : v' = ({ k with members := k.members ++ [m] }.close v).2 :=
    congrArg (fun a => (a.2.close v).2) hadded
  rw [hv']
  exact hopen

theorem bytes_arrive_drawer :
    let s : Storage := { chunk := 2 }
    let added := drawerWriter.addFile s drawer "/g".toList "./d//x".toList
    let v := (added.2.close ⟨drawer, []⟩).2
    (∃ w, (s.copy "/g".toList "/f".toList).run ⟨drawer, []⟩ = (.ok (), w) ∧
      World.Fills ⟨drawer, []⟩ ["f".toList] [2, 3] w) ∧
    (∃ w, (s.writeStream "/h".toList
        (Member.contents ⟨"x".toList, false, [2, 3]⟩).stream).run ⟨drawer, []⟩ = (.ok (), w) ∧
      World.Fills ⟨drawer, []⟩ ["h".toList] [2, 3] w) ∧
    added.1 = .ok ⟨"./d//x".toList, false, 2⟩ ∧
    (∃ reader c, (Reader.openAt s "/a.zip".toList).run v = (.ok reader, v) ∧
      reader.entries = [⟨"d/x".toList, false, 2⟩] ∧
      reader.contents s "d/x".toList = .ok c ∧ c.bytes = [2, 3]) ∧
    ({ chunk := 1 } : Storage).copy = s.copy ∧
    Writer.addFile { chunk := 1 } = Writer.addFile s ∧
    ({ chunk := 1 } : Storage).writeStream "/h".toList
        (Member.contents ⟨"x".toList, false, [2, 3]⟩).stream =
      s.writeStream "/h".toList (Member.contents ⟨"x".toList, false, [2, 3]⟩).stream := by
  intro s added v
  have hbytes : (Member.contents ⟨"x".toList, false, [2, 3]⟩).bytes = [2, 3] :=
    Member.bytes_contents _
  have hread := Member.isReadable_contents ⟨"x".toList, false, [2, 3]⟩
  obtain ⟨hcopy, hwrite, hadd, hchunk, hstream⟩ := bytes_arrive s
  obtain ⟨w, hw, hfills⟩ := hcopy ⟨drawer, []⟩ "/g".toList "/f".toList ["g".toList] ["f".toList]
    [2, 3] rfl (by decide) rfl (by decide) (by decide) (by decide)
  obtain ⟨w₂, hw₂, hfills₂⟩ := hwrite ⟨drawer, []⟩ "/h".toList ["h".toList] _ hread rfl (by decide)
    (by decide)
  obtain ⟨hok, reader, hopen, hentries, c, hc, -, hb⟩ := hadd drawerWriter drawer ⟨drawer, []⟩
    "/g".toList "/a.zip".toList "./d//x".toList [2, 3] [] rfl rfl (by decide) (by decide)
    (by decide) sound_drawer (by decide) (by decide)
    ⟨by decide +kernel, by decide +kernel, by decide +kernel⟩ rfl (fun _ => rfl)
  refine ⟨⟨w, hw, hfills⟩, ⟨w₂, hw₂, ?_⟩, hok, ⟨reader, c, hopen, hentries.trans (by decide +kernel),
    hc, hb⟩, (hchunk 1 (by decide)).1, (hchunk 1 (by decide)).2, hstream 1 _ _ hread rfl⟩
  exact hbytes ▸ hfills₂

/-- The settings accept a chunk size of 2 to the 63rd. With it a copy fails and leaves nothing, so
does writing out an entry, and a file that is added has no bytes in the archive. -/
theorem chunk_too_large :
    let n := 9223372036854775808
    let s : Storage := { chunk := n }
    Settings.readChunk [(Settings.chunkKey.toList, "9223372036854775808".toList)] = .ok n ∧
    (∃ w, (s.copy "/g".toList "/f".toList).run ⟨drawer, []⟩ =
        (.error (.copy "/g".toList "/f".toList), w) ∧
      w.disk.get? ["g".toList] = some (.file [2, 3]) ∧
      w.disk.get? ["f".toList] = some (.file [])) ∧
    (∃ w, (s.writeStream "/f".toList
        (Member.contents ⟨"x".toList, false, [2, 3]⟩).stream).run ⟨drawer, []⟩ =
        (.error (.write "/f".toList), w) ∧ w.disk.get? ["f".toList] = some (.file [])) ∧
    drawerWriter.addFile s drawer "/g".toList "x".toList =
      (.error (.addFile "/g".toList "x".toList),
        { drawerWriter with members := [⟨"x".toList, false, []⟩] }) := by
  intro n s
  obtain ⟨w, hw, hfills⟩ := Storage.run_copy_fills (s := s) (w := ⟨drawer, []⟩) (p := "/g".toList)
    (q := "/f".toList) (l := ["g".toList]) (m := ["f".toList]) (b := [2, 3]) rfl (by decide) rfl
    (by decide) (by decide) (by decide)
  obtain ⟨w₂, hw₂, hfills₂⟩ := Storage.run_writeStream_fills (s := s) (w := ⟨drawer, []⟩)
    (q := "/f".toList) (m := ["f".toList]) rfl (by decide) (by decide)
    (Member.isReadable_contents ⟨"x".toList, false, [2, 3]⟩)
  have hread : drawer.read "/g".toList = .ok [2, 3] := rfl
  exact ⟨rfl, ⟨w, hw, hfills.rest _ (by decide), hfills.held⟩, ⟨w₂, hw₂, hfills₂.held⟩,
    Writer.addFile_filed rfl rfl hread (by decide) (by decide)⟩

end FileShell
