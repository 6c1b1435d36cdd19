import FileShell.Proofs.Archive.Effects
import FileShell.Proofs.Archive.Locator
import FileShell.Proofs.Archive.RoundTrip

/-!
# Whatever is added is read back

A writer takes calls that add a directory or a file, and some of them fail. A call that fails
leaves the archive as it was; one that succeeds appends the member it gives the entry of
(`Addition.on_cases`). So once the writer is closed a reader has the entries of the calls that
succeeded, in their order, and under the name of a file what the last of these calls put there.
That holds unless the last name looks like the locator of a record for large archives; then the
archive cannot be opened (`Writer.read_back`).
-/

namespace FileShell

/-- One plain name or more, joined by slashes, without a NUL. -/
def Text.IsEntryName (t : Text) : Prop :=
  ∃ a : List Text, a ≠ [] ∧ (∀ x ∈ a, IsPlain x ∧ '/' ∉ x ∧ '\x00' ∉ x) ∧ t = join ['/'] a

/-- A call that adds to an archive. A file is read on the disk as it is at the time. -/
inductive Addition
  | directory (name : Text)
  | file (disk : Disk) (source : Path) (name : Text)

namespace Addition

def name : Addition → Text
  | directory n => n
  | file _ _ n => n

/-- The call as a writer takes it. -/
def on (s : Storage) (w : Writer) : Addition → Except ArchiveError Entry × Writer
  | directory n => w.addDirectory s n
  | file d p n => w.addFile s d p n

/-- The source of the call does not fail once its reading has begun. -/
def IsWhole (s : Storage) : Addition → Prop
  | directory _ => True
  | file d p _ => ∀ b, d.read p = .ok b → ((Stream.ofFile s.memory b).drain s.chunk).2 = true

/-- What the call puts into the archive if it succeeds. -/
def member? : Addition → Option Member
  | directory n => some ⟨n ++ ['/'], true, []⟩
  | file d p n => (d.read p).toOption.map fun b => ⟨n, false, b⟩

end Addition

/-- Calls with their outcomes. -/
abbrev AdditionLog := List (Addition × Except ArchiveError Entry)

namespace AdditionLog

/-- The entries of the calls that succeeded. -/
def entries (log : AdditionLog) : List Entry := log.filterMap (·.2.toOption)

/-- What a call that succeeded put into a file of the name. -/
def heldBy (name : Text) : Addition × Except ArchiveError Entry → Option Bytes
  | (.file d p n, .ok _) => if n = name then (d.read p).toOption else none
  | _ => none

/-- What the last call that succeeded in adding a file of the name put into it. -/
def lastHeld? (log : AdditionLog) (name : Text) : Option Bytes :=
  (log.filterMap (heldBy name)).getLast?

end AdditionLog

/-- A row of calls: what came of each, and the writer afterwards. -/
def Writer.addAll (s : Storage) : Writer → List Addition → AdditionLog × Writer
  | w, [] => ([], w)
  | w, c :: cs =>
    let (r, w) := c.on s w
    let (log, w) := addAll s w cs
    ((c, r) :: log, w)

/-! ## One call -/

namespace Text

variable {t : Text}

theorem IsEntryName.ne_nil (h : t.IsEntryName) : t ≠ [] ∧ t.getLast? ≠ some '/' := by
  obtain ⟨a, hn, ha, rfl⟩ := h
  exact Path.joined_ne_nil (fun x hx => ⟨(ha x hx).2.1, (ha x hx).1.1⟩) hn

theorem IsEntryName.head? (h : t.IsEntryName) : t.head? ≠ some '/' := by
  obtain ⟨a, hn, ha, rfl⟩ := h
  exact Path.head?_joined fun x hx => ⟨(ha x hx).2.1, (ha x hx).1.1⟩

theorem IsEntryName.noNull (h : t.IsEntryName) : '\x00' ∉ t := by
  obtain ⟨a, hn, ha, rfl⟩ := h
  intro hc
  obtain ⟨x, hx, hc⟩ := mem_join (by decide) hc
  exact (ha x hx).2.2 hc

theorem IsEntryName.normalize (h : t.IsEntryName) : Path.normalize t = t := by
  obtain ⟨a, hn, ha, rfl⟩ := h
  exact Path.normalize_joined (fun x hx => ⟨(ha x hx).2.1, (ha x hx).1.1⟩)
    (fun x hx => (ha x hx).1) hn

end Text

namespace Addition

variable {s : Storage} {w : Writer} {c : Addition} {m : Member}

theorem noNull_of_member? (hn : c.name.IsEntryName) (hm : c.member? = some m) :
    '\x00' ∉ m.name := by
  have hnull := hn.noNull
  cases c with
  | directory n =>
    obtain rfl := Option.some.inj hm
    simpa [name] using hnull
  | file d p n =>
    obtain ⟨b, -, rfl⟩ := Option.map_eq_some_iff.1 hm
    exact hnull

/-- A call changes nothing, or it appends what it gives the entry of. -/
theorem on_cases (hn : c.name.IsEntryName) (hc : c.IsWhole s) (hw : w.closed = false) :
    (∃ e, c.on s w = (.error e, w)) ∨ ∃ m, c.member? = some m ∧
      m.name.byteSize ≤ Writer.maxName ∧
      c.on s w = (.ok m.entry, { w with members := w.members ++ [m] }) := by
  cases c with
  | directory n =>
    replace hn : n.IsEntryName := hn
    have hnull := hn.noNull
    have hstored : Writer.storedName (n ++ ['/']) = n ++ ['/'] :=
      Writer.storedName_eq (by simpa using hnull)
    simp only [on, Writer.addDirectory, Text.trimEnd_eq_self hn.ne_nil.2, hstored, hw,
      Bool.false_or]
    split_ifs with hr hl
    · exact .inl ⟨_, rfl⟩
    · exact .inl ⟨_, rfl⟩
    · exact .inr ⟨_, rfl, by simpa using hl, by simp [Member.entry]⟩
  | file d p n =>
    replace hn : n.IsEntryName := hn
    have hempty : n.isEmpty = false := by simpa using hn.ne_nil.1
    simp only [on, Writer.addFile, hn.normalize, Text.trimStart_eq_self hn.head?, hw, hempty,
      Writer.storedName_eq hn.noNull, Bool.false_or]
    rcases hb : d.read p with e | b
    · split_ifs <;> exact .inl ⟨_, rfl⟩
    · have hheld := hc b hb
      rw [Storage.drain_ofFile] at hheld
      split_ifs at hheld with ht
      · simp only [Storage.drain_ofFile, if_pos ht]
        split_ifs with hr hl
        · exact .inl ⟨_, rfl⟩
        · exact .inl ⟨_, rfl⟩
        · refine .inr ⟨⟨n, false, b⟩, by simp [member?, hb, Except.toOption], by simpa using hl, ?_⟩
          simp [Member.entry, hn.ne_nil.2]

end Addition

/-! ## A row of calls -/

namespace AdditionLog

variable {log : AdditionLog} {ms : List Member} {c : Addition} {m : Member} {e : Entry}

/-- The members that calls with these outcomes append to an archive. -/
structure Leaves (log : AdditionLog) (ms : List Member) : Prop where
  entries : ms.map Member.entry = log.entries
  names : ∀ m ∈ ms, m.name.byteSize ≤ Writer.maxName ∧ '\x00' ∉ m.name
  held : ∀ name : Text, name.getLast? ≠ some '/' →
    (ms.filter (·.name = name)).map (·.bytes) = log.filterMap (heldBy name)

theorem Leaves.nil : Leaves [] [] := ⟨rfl, by simp, fun _ _ => rfl⟩

theorem Leaves.failed (h : Leaves log ms) (c : Addition) (e : ArchiveError) :
    Leaves ((c, .error e) :: log) ms where
  entries := h.entries
  names := h.names
  held name hl := by
    rw [h.held name hl]
    cases c <;> rfl

theorem Leaves.added (h : Leaves log ms) (hm : c.member? = some m)
    (hsize : m.name.byteSize ≤ Writer.maxName) (hnull : '\x00' ∉ m.name) :
    Leaves ((c, .ok m.entry) :: log) (m :: ms) where
  entries := congrArg (m.entry :: ·) h.entries
  names := List.forall_mem_cons.2 ⟨⟨hsize, hnull⟩, h.names⟩
  held name hl := by
    have hrest := h.held name hl
    cases c with
    | directory n =>
      -- the name of a directory ends in a slash
      obtain rfl := Option.some.inj hm
      have hne : n ++ ['/'] ≠ name := by
        rintro rfl
        simp at hl
      have hnone : ∀ r, heldBy name (.directory n, r) = none := fun _ => rfl
      simp [hnone, hne, hrest]
    | file d p n =>
      obtain ⟨b, hb, rfl⟩ := Option.map_eq_some_iff.1 hm
      by_cases hne : n = name <;> simp [heldBy, hne, hb, hrest]

/-- What the last file of a name holds is what the last call of that name put there. -/
theorem Leaves.exists_last (h : Leaves log ms) (he : e ∈ log.entries) (hd : e.isDir = false) :
    ∃ p m q, ms = p ++ m :: q ∧ m.name = e.name ∧ (∀ k ∈ q, k.name ≠ m.name) ∧
      log.lastHeld? e.name = some m.bytes := by
  rw [← h.entries] at he
  obtain ⟨k, hk, rfl⟩ := List.mem_map.1 he
  have hlast : k.name.getLast? ≠ some '/' := by simpa [Member.entry] using hd
  obtain ⟨m, hm⟩ := Option.isSome_iff_exists.1
    (List.find?_isSome.2 ⟨k, List.mem_reverse.2 hk, decide_eq_true rfl⟩ :
      (ms.reverse.find? (·.name = k.name)).isSome)
  obtain ⟨hname, q, p, hsplit, hq⟩ := List.find?_eq_some_iff_append.1 hm
  have hname : m.name = k.name := of_decide_eq_true hname
  have hms : ms = p.reverse ++ m :: q.reverse := by
    rw [← List.reverse_reverse ms, hsplit]
    simp
  have hq : ∀ j ∈ q.reverse, j.name ≠ k.name := fun j hj => by
    simpa using hq j (List.mem_reverse.1 hj)
  refine ⟨_, m, _, hms, hname, fun j hj => hname ▸ hq j hj, ?_⟩
  have hfilter : q.reverse.filter (·.name = k.name) = [] := by simpa using hq
  rw [lastHeld?, show k.entry.name = k.name from rfl, ← h.held k.name hlast, hms,
    List.filter_append, List.filter_cons, hfilter]
  simp [hname]

end AdditionLog

namespace Writer

variable {s : Storage} {p : Path} {w w' v : World} {writer : Writer}

/-- A row of calls leaves the writer where it was, with the members of those that succeeded. -/
theorem addAll_leaves : ∀ {cs : List Addition} {writer : Writer}, writer.closed = false →
    (∀ c ∈ cs, c.name.IsEntryName ∧ c.IsWhole s) → ∃ ms,
      (writer.addAll s cs).2 = { writer with members := writer.members ++ ms } ∧
      (writer.addAll s cs).1.Leaves ms
  | [], writer, _, _ => ⟨[], by simp [addAll], .nil⟩
  | c :: cs, writer, hw, hc => by
    obtain ⟨⟨hn, hwhole⟩, hcs⟩ := List.forall_mem_cons.1 hc
    rcases c.on_cases hn hwhole hw with ⟨e, he⟩ | ⟨m, hm, hsize, he⟩
    · obtain ⟨ms, hms, hlog⟩ := addAll_leaves hw hcs
      exact ⟨ms, by simp [addAll, he, hms], by simpa [addAll, he] using hlog.failed c e⟩
    · obtain ⟨ms, hms, hlog⟩ :=
        @addAll_leaves cs { writer with members := writer.members ++ [m] } hw hcs
      refine ⟨m :: ms, by simp [addAll, he, hms], ?_⟩
      simpa [addAll, he] using hlog.added hm hsize (c.noNull_of_member? hn hm)

end Writer

/-! ## Reading back -/

theorem Reader.run_openAt_damaged {s : Storage} {p : Path} {w : World} {b : Bytes}
    (hr : s.refuses .openReader p = false) (hf : w.disk.isFile p = true)
    (hp : w.disk.read p = .ok b) (hb : Archive.ofBytes b = .error .damaged) :
    (openAt s p).run w = (.error (.damaged p), w) := by
  unfold openAt
  simp only [Act.run_bind, Storage.run_allow, hr, Bool.false_eq_true, if_false, Act.run_get,
    hf, Bool.not_true, Storage.run_ask, hp, Act.mapError_ok, hb]
  rfl

namespace Writer

variable {s : Storage} {p : Path} {w w' v : World} {writer writer' : Writer}
  {log : AdditionLog} {calls : List Addition} {b : Bytes}

/-- A writer starts open and with nothing in it. -/
theorem eq_of_openAt (h : (openAt s p).run w = (.ok writer, w')) :
    writer.members = [] ∧ writer.closed = false := by
  rw [run_openAt] at h
  split_ifs at h
  · cases h
  · rcases hl : w.disk.locateWrite p with e | l <;> rw [hl] at h <;> cases h
    exact ⟨rfl, rfl⟩

/-- Where a file is, closing a writer puts the archive. -/
theorem read_close (writer : Writer) (v : World) (hs : v.disk.Sound)
    (hv : v.disk.locate true p = .ok writer.place) (hf : v.disk.get? writer.place = some (.file b))
    (hw : writer.closed = false) :
    (writer.close v).2.disk.isFile p = true ∧
      (writer.close v).2.disk.read p = .ok (Member.archive writer.members) := by
  have hd : v.disk.isDirectory writer.place = false := by simp [Disk.isDirectory, hf]
  have hlw : v.disk.locateWrite p = .ok writer.place :=
    Disk.locateWrite_eq_ok_iff.2 ⟨Disk.locate_getLast? hv hd, hv, hd⟩
  have hdisk := writer.disk_close v
  rw [hw, if_neg Bool.false_ne_true] at hdisk
  obtain ⟨-, hloc, -⟩ := Disk.locateWrite_eq_ok_iff.1
    (hs.locateWrite_write hlw (Member.archive writer.members))
  have hget := Disk.get?_write (d := v.disk) (Member.archive writer.members)
    (hs.of_locateWrite hlw).1 writer.place
  rw [if_pos ⟨rfl, by simp [hf]⟩] at hget
  rw [hdisk]
  refine ⟨Disk.isFile_iff.2 ⟨_, _, hloc, hget⟩, ?_⟩
  simp only [Disk.read, hloc, bind, Except.bind, Disk.bytesAt, hget]

/-- What a writer added is read back once it is closed. -/
theorem read_back (ho : (openAt s p).run w = (.ok writer, w'))
    (hc : ∀ c ∈ calls, c.name.IsEntryName ∧ c.IsWhole s)
    (ha : writer.addAll s calls = (log, writer')) (hs : v.disk.Sound)
    (hv : v.disk.locate true p = .ok writer.place)
    (hf : v.disk.get? writer.place = some (.file b))
    (hl : (Member.archive writer'.members).length < 0x100000000)
    (hr : s.refuses .openReader p = false) (he : ∀ n, s.refuses .openEntry n = false) :
    let v' := (writer'.close v).2
    (Member.HasLocator (Member.archive writer'.members) →
      (Reader.openAt s p).run v' = (.error (.damaged p), v')) ∧
    (¬ Member.HasLocator (Member.archive writer'.members) → ∃ reader,
      (Reader.openAt s p).run v' = (.ok reader, v') ∧ reader.entries = log.entries ∧
      ∀ e ∈ log.entries, e.isDir = false → ∃ b c, log.lastHeld? e.name = some b ∧
        reader.contents s e.name = .ok c ∧ ∀ n < Stream.wordLimit, c.stream.drain n = (b, true)) := by
  intro v'
  obtain ⟨hnil, hopen⟩ := eq_of_openAt ho
  obtain ⟨ms, hms, hlog⟩ := addAll_leaves hopen hc
  rw [ha] at hms hlog
  rw [hnil, List.nil_append] at hms
  obtain rfl : writer' = { writer with members := ms } := hms
  obtain ⟨hfile, hread⟩ := read_close { writer with members := ms } v hs hv hf hopen
  refine ⟨fun hloc => Reader.run_openAt_damaged hr hfile hread
    (Member.ofBytes_of_hasLocator (fun m hm => (hlog.names m hm).2) hloc), fun hloc => ?_⟩
  have hm : Member.Storable ms := by
    refine ⟨fun m hm => ?_, hl, hloc⟩
    obtain ⟨hsize, hnull⟩ := hlog.names m hm
    exact ⟨Nat.lt_succ_of_le hsize, hnull⟩
  refine ⟨.ofMembers ms, Reader.run_openAt_ofMembers hr hfile hread hm,
    (Reader.entries_ofMembers hm).trans hlog.entries, fun e hmem hd => ?_⟩
  obtain ⟨q, m, q', rfl, hname, hlast, hheld⟩ := hlog.exists_last hmem hd
  exact ⟨_, m.contents, hheld, hname ▸ Reader.contents_ofMembers he hm hlast,
    fun n hn => m.drain_contents hn⟩

end Writer

/-- Two files and an archive that has just been opened for writing. -/
def drawer : Disk where
  items := [
    (["a.zip".toList], .file []),
    (["f".toList], .file [1]),
    (["g".toList], .file [2, 3])]

theorem sound_drawer : drawer.Sound :=
  Disk.sound_of_items (by decide) (by decide) (by simp [drawer])

/-- A directory, a file of a name, a file that is missing, and another file of the same name. -/
def fillings : List Addition := [
  .directory "d".toList, .file drawer "/f".toList "d/x".toList,
  .file drawer "/none".toList "y".toList, .file drawer "/g".toList "d/x".toList]

/-- The writer of the archive in the drawer. -/
def drawerWriter : Writer := ⟨["a.zip".toList], [], false⟩

theorem Writer.read_back_fillings :
    let v' := ((drawerWriter.addAll { chunk := 512 } fillings).2.close ⟨drawer, []⟩).2
    ∃ reader, (Reader.openAt { chunk := 512 } "/a.zip".toList).run v' = (.ok reader, v') ∧
      reader.entries =
        [⟨"d/".toList, true, 0⟩, ⟨"d/x".toList, false, 1⟩, ⟨"d/x".toList, false, 2⟩] ∧
      ∃ c, reader.contents { chunk := 512 } "d/x".toList = .ok c ∧
        c.stream.drain 512 = ([2, 3], true) := by
  have drain (b : Bytes) : ((Stream.ofFile 0x10000000000 b).drain 512).2 = true := by
    rw [Stream.drain_of_holds rfl]
  have hc : ∀ c ∈ fillings, c.name.IsEntryName ∧ c.IsWhole { chunk := 512 } := by
    simp only [fillings, List.forall_mem_cons, List.not_mem_nil, false_implies, implies_true,
      and_true]
    exact ⟨⟨⟨["d".toList], by decide, by decide, rfl⟩, trivial⟩,
      ⟨⟨["d".toList, "x".toList], by decide, by decide, rfl⟩, fun _ _ => drain _⟩,
      ⟨⟨["y".toList], by decide, by decide, rfl⟩, fun _ _ => drain _⟩,
      ⟨⟨["d".toList, "x".toList], by decide, by decide, rfl⟩, fun _ _ => drain _⟩⟩
  have ho : (Writer.openAt { chunk := 512 } "/a.zip".toList).run ⟨drawer, []⟩ =
    (.ok drawerWriter, ⟨drawer, []⟩) := rfl
  obtain ⟨-, h⟩ := Writer.read_back ho hc Prod.mk.eta.symm (v := ⟨drawer, []⟩) (b := []) sound_drawer
    (by decide) (by decide) (by decide +kernel) rfl (fun _ => rfl)
  intro v'
  obtain ⟨reader, hr, he, hheld⟩ := h (by decide +kernel)
  obtain ⟨b, c, hb, hc, hd⟩ := hheld ⟨"d/x".toList, false, 2⟩ (by decide +kernel) rfl
  obtain rfl : b = [2, 3] := Option.some.inj (hb.symm.trans (by decide +kernel))
  exact ⟨reader, hr, he.trans (by decide +kernel), c, hc, hd 512 (by decide)⟩

/-- A name that begins with the signature of a locator and is as long as one. -/
def lookalike : Text := 'P' :: 'K' :: '\x06' :: '\x07' :: List.replicate 15 'x'

/-- An archive whose last entry has such a name is not opened again. -/
theorem Writer.lookalike_damaged :
    let added := drawerWriter.addAll { chunk := 512 } [.directory lookalike]
    let v' := (added.2.close ⟨drawer, []⟩).2
    (Writer.openAt { chunk := 512 } "/a.zip".toList).run ⟨drawer, []⟩ =
        (.ok drawerWriter, ⟨drawer, []⟩) ∧
      lookalike.IsEntryName ∧ added.1.entries = [⟨lookalike ++ ['/'], true, 0⟩] ∧
      (Member.archive added.2.members).length < 0x100000000 ∧
      (Reader.openAt { chunk := 512 } "/a.zip".toList).run v' =
        (.error (.damaged "/a.zip".toList), v') := by
  intro added v'
  obtain ⟨hfile, hread⟩ := Writer.read_close (p := "/a.zip".toList) (b := []) added.2 ⟨drawer, []⟩
    sound_drawer (by decide) (by decide) rfl
  exact ⟨rfl, ⟨[lookalike], by decide, by decide, rfl⟩, by decide +kernel, by decide +kernel,
    Reader.run_openAt_damaged rfl hfile hread
      (Member.ofBytes_of_hasLocator (by decide +kernel) (by decide +kernel))⟩

end FileShell
