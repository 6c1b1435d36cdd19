import FileShell.Proofs.Archive.Effects
import FileShell.Proofs.Archive.RoundTrip
import FileShell.Proofs.Archive.Turns
import FileShell.Proofs.Disk.Kinds
import FileShell.Proofs.Disk.Making

/-!
# The last entry of a place

Entries of an archive can share a place: their names are the same, or they differ in slashes and
single dots only. While the entries have their turns each of them is skipped, or fails, or comes
out, and in the end the last one of a place that came out stands there (`unpack_log`). Two things
make it so. What an entry makes stands once it has come out (`unpackEntry_stands`), and an entry of
another place leaves it alone (`Stands.entry`), whether it comes out or fails. Entries are opened
by their names, which finds the last one of a name; the last one of a place is the last one of its
name.
-/

namespace FileShell

/-- Where an entry goes below a destination: down its components, single dots aside. -/
def Entry.place (e : Entry) : Loc := (Entry.parts e.name).filter (IsPlain ·)

/-- What came of an entry. -/
inductive Fate
  | skipped
  | failed
  | unpacked
  deriving DecidableEq

/-- The line that an entry of a name gets. -/
def Fate.line? (name : Text) : Fate → Option Text
  | skipped => some ("Warning: Skipping unsafe entry ".toList ++ name)
  | failed => some ("Error: Cannot extract ".toList ++ name)
  | unpacked => none

/-- Entries with what came of them. -/
abbrev UnpackLog := List (Entry × Fate)

namespace UnpackLog

def unpacked (log : UnpackLog) : List Entry := (log.filter (·.2 = .unpacked)).map (·.1)

def lines (log : UnpackLog) : List Text := log.filterMap fun f => f.2.line? f.1.name

end UnpackLog

namespace Unpacking

/-! ## One entry -/

/-- An entry stands in its place below a location: a directory, or a file with the bytes that are
read under its name, unless a device is there that takes them. -/
def Stands (s : Storage) (r : Reader) (l : Loc) (e : Entry) (d d' : Disk) : Prop :=
  if e.isDir then d'.isDirectory (l ++ e.place) = true
  else d.get? (l ++ e.place) ≠ some .device →
    ∃ c, r.contents s e.name = .ok c ∧ d'.get? (l ++ e.place) = some (.file c.bytes)

variable {s : Storage} {r : Reader} {w w' : World} {p target : Path} {l : Loc} {e e' : Entry}
  {d : Disk}

theorem shown_makeDirs (s : Storage) (p : Path) (w : World) :
    ((s.makeDirs p true).run w).2.shown = w.shown := by
  rw [Storage.run_makeDirs]
  split_ifs <;> rfl

theorem shown_writeStream (s : Storage) (p : Path) (c : Stream) (w : World) :
    ((s.writeStream p c).run w).2.shown = w.shown := by
  rw [Storage.run_writeStream]
  split
  · rfl
  · split <;> rfl

theorem shown_unpackEntry (s : Storage) (r : Reader) (e : Entry) (target : Path) (w : World) :
    ((unpackEntry s r e target).run w).2.shown = w.shown := by
  unfold unpackEntry
  split_ifs
  · exact shown_makeDirs s target w
  · have hm := shown_makeDirs s (Path.parent target) w
    rw [Act.run_bind, Act.run_failingWith]
    generalize (s.makeDirs (Path.parent target) true).run w = m at hm ⊢
    obtain ⟨_ | ⟨⟩, w'⟩ := m
    · exact hm
    rcases r.contents s e.name with _ | c
    · exact hm
    · exact (shown_writeStream s target c.stream w').trans hm

theorem makeDirs_eq_ok (h : (s.makeDirs target true).run w = (.ok (), w')) :
    (w.disk.makeDirs true target).1 = .ok () ∧ w'.disk = (w.disk.makeDirs true target).2 := by
  rcases Storage.run_makeDirs_or s target true w with ⟨e, -, he⟩ | hmade
  · rw [he] at h
    cases h
  · rw [hmade] at h
    rcases hm : w.disk.makeDirs true target with ⟨_ | ⟨⟩, d'⟩ <;> rw [hm] at h <;> cases h
    exact ⟨rfl, rfl⟩

/-- A stream is written out as a whole, or the call fails. -/
theorem writeStream_eq_ok {c : Stream} (h : (s.writeStream target c).run w = (.ok (), w')) :
    ∃ m, w.disk.locateWrite target = .ok m ∧
      w'.disk = (w.disk.write m []).write m c.bytes := by
  rw [Storage.run_writeStream] at h
  split at h
  · cases h
  rcases hl : w.disk.locateWrite target with x | m <;> rw [hl] at h
  · cases h
  by_cases hheld : (c.drain s.chunk).2 = true
  · simp only [hheld, if_true, Stream.drain_held hheld] at h
    cases h
    exact ⟨m, rfl, rfl⟩
  · simp only [if_neg hheld] at h
    cases h

/-- A file that comes out is written with all the bytes that are read under its name. -/
theorem unpackEntry_eq_ok (hdir : e.isDir = false)
    (h : (unpackEntry s r e target).run w = (.ok (), w')) :
    ∃ w₁ c m, (s.makeDirs (Path.parent target) true).run w = (.ok (), w₁) ∧
      r.contents s e.name = .ok c ∧ w₁.disk.locateWrite target = .ok m ∧
      w'.disk = (w₁.disk.write m []).write m c.bytes := by
  unfold unpackEntry at h
  rw [hdir, if_neg Bool.false_ne_true, Act.run_bind, Act.run_failingWith] at h
  rcases hm : (s.makeDirs (Path.parent target) true).run w with ⟨_ | ⟨⟩, w₁⟩ <;> rw [hm] at h
  · cases h
  rcases hc : r.contents s e.name with x | c <;> rw [hc] at h
  · cases h
  simp only [Act.mapError_ok, Act.run_failingWith] at h
  rcases hw : (s.writeStream target c.stream).run w₁ with ⟨_ | ⟨⟩, w₂⟩ <;> rw [hw] at h <;> cases h
  obtain ⟨m, hl, hd⟩ := writeStream_eq_ok hw
  exact ⟨w₁, c, m, rfl, rfl, hl, hd⟩

/-- A path that an entry is written to leads to its place. -/
theorem eq_place_of_locate {m : Loc} (h : d.Root p l) (ht : target? p e.name = some target)
    (hm : d.locate true target = .ok m) : m = l ++ e.place := by
  obtain ⟨a, x, hparts, ha, rfl⟩ := exists_of_target? ht
  rw [h.eq_append ha hm, Entry.place, hparts]

theorem eq_place_of_locateWrite {x : Except StorageError Unit} {m : Loc} (h : w.disk.Root p l)
    (ht : target? p e.name = some target)
    (hm : (s.makeDirs (Path.parent target) true).run w = (x, w'))
    (hl : w'.disk.locateWrite target = .ok m) : m = l ++ e.place := by
  have hmore := moreDirectories_makeDirs s w (Path.parent target)
  rw [hm] at hmore
  exact eq_place_of_locate (h.of_keeps hmore.keeps) ht (Disk.locateWrite_eq_ok_iff.1 hl).2.1

/-- What comes out stands in its place. -/
theorem unpackEntry_stands (hs : w.disk.Sound) (h : w.disk.Root p l)
    (ht : target? p e.name = some target)
    (hok : (unpackEntry s r e target).run w = (.ok (), w')) : Stands s r l e w.disk w'.disk := by
  unfold Stands
  split_ifs with hdir
  · obtain ⟨a, x, hparts, ha, rfl⟩ := exists_of_target? ht
    unfold unpackEntry at hok
    rw [if_pos hdir, Act.run_failingWith] at hok
    rcases hm : (s.makeDirs ((a ++ [x]).foldl Path.join p) true).run w with ⟨_ | ⟨⟩, w₁⟩ <;>
      rw [hm] at hok <;> cases hok
    obtain ⟨hmade, hd⟩ := makeDirs_eq_ok hm
    rw [hd, Entry.place, hparts]
    exact h.isDirectory_of_makeDirs hs ha hmade
  · intro hdev
    obtain ⟨w₁, c, m, hm, hc, hl, hd⟩ := unpackEntry_eq_ok (by simpa using hdir) hok
    have hmore := moreDirectories_makeDirs s w (Path.parent target)
    rw [hm] at hmore
    obtain rfl := eq_place_of_locateWrite h ht hm hl
    refine ⟨c, hc, ?_⟩
    rw [hd, Storage.get?_write_write [] c.bytes (Disk.ne_nil_of_locateWrite hl), if_pos rfl]
    exact Overlay.placed_of_ne_device ((hmore.get?_iff (by simp)).not.2 hdev)

/-- An entry is written where its place is and nowhere else. -/
theorem eq_place_of_written {x : Loc × Bytes} (h : w.disk.Root p l)
    (ht : target? p e.name = some target) (hx : written? s r e target w = some x) :
    x.1 = l ++ e.place := by
  unfold written? at hx
  split at hx
  · cases hx
  rcases hm : (s.makeDirs (Path.parent target) true).run w with ⟨_ | ⟨⟩, w₁⟩ <;> rw [hm] at hx
  · cases hx
  rcases hc : r.contents s e.name with _ | c <;> rw [hc] at hx
  · cases hx
  dsimp only at hx
  split at hx
  · cases hx
  rcases hl : w₁.disk.locateWrite target with _ | m <;> rw [hl] at hx <;> cases hx
  exact eq_place_of_locateWrite h ht hm hl

/-- What stands in a place is left alone by an entry of another place. -/
theorem Stands.entry (hst : Stands s r l e d w.disk) (h : w.disk.Root p l)
    (ht : target? p e'.name = some target) (hne : e'.place ≠ e.place) :
    Stands s r l e d ((unpackEntry s r e' target).run w).2.disk := by
  unfold Stands at hst ⊢
  split_ifs at hst ⊢
  · exact (unpackEntry_filledBelow s r e' h ht).keeps.directory hst
  · intro hdev
    obtain ⟨c, hc, hheld⟩ := hst hdev
    refine ⟨c, hc, ?_⟩
    have hnone : Writes.lastAt (l ++ e.place) (written? s r e' target w).toList = none := by
      rcases hx : written? s r e' target w with _ | ⟨m, b⟩
      · rfl
      · rw [Option.toList_some, Writes.lastAt_singleton, if_neg]
        rintro rfl
        exact hne (List.append_cancel_left (eq_place_of_written h ht hx)).symm
    rw [get?_unpackEntry s r e' target hheld, hnone, Option.getD_none]

theorem Stands.of_later {d₁ d' : Disk} (hst : Stands s r l e d₁ d')
    (hd : d.get? (l ++ e.place) ≠ some .device → d₁.get? (l ++ e.place) ≠ some .device) :
    Stands s r l e d d' := by
  unfold Stands at hst ⊢
  split_ifs at hst ⊢
  · exact hst
  · exact fun hdev => hst (hd hdev)

/-- The turn of an entry: what comes of it, and the world it leaves. -/
structure Turn (s : Storage) (r : Reader) (p : Path) (l : Loc) (e : Entry) (w : World) (f : Fate)
    (w' : World) : Prop where
  skipped : f = .skipped ↔ target? p e.name = none
  shown : w'.shown = w.shown ++ Text.unlines (f.line? e.name).toList
  sound : w'.disk.Sound
  filled : Disk.FilledBelow l w.disk w'.disk
  stands : f = .unpacked → Stands s r l e w.disk w'.disk
  keeps : ∀ e' d, (f ≠ .skipped → e.place ≠ e'.place) → Stands s r l e' d w.disk →
    Stands s r l e' d w'.disk

/-- An entry has its turn, and the others go on in the world it leaves. -/
theorem exists_turn (hs : w.disk.Sound) (h : w.disk.Root p l) (e : Entry) (es : List Entry) :
    ∃ f w', Turn s r p l e w f w' ∧ unpackAll s r p (e :: es) w =
      ((if f = .unpacked then [e] else []) ++ (unpackAll s r p es w').1,
        (unpackAll s r p es w').2) := by
  rw [unpackAll]
  rcases ht : target? p e.name with _ | target
  · refine ⟨.skipped, (showLine ("Warning: Skipping unsafe entry ".toList ++ e.name) w).2,
      ⟨by simp [ht], ?_, hs, .refl l _, by simp, fun _ _ _ h => h⟩, rfl⟩
    simp [Fate.line?, Text.unlines, run_showLine]
  · have hshown := shown_unpackEntry s r e target w
    have hfilled := unpackEntry_filledBelow s r e h ht
    have hsound := hs.of_changes ((only_unpackEntry s r e target).mono (fun _ _ => .inl) w)
    have hkeeps := fun e' d (hne : e.place ≠ e'.place) (hst : Stands s r l e' d w.disk) =>
      hst.entry h ht hne
    have hstands : ∀ w', (unpackEntry s r e target).run w = (.ok (), w') →
        Stands s r l e w.disk w'.disk := fun w' => unpackEntry_stands hs h ht
    simp only [run_bind]
    generalize (unpackEntry s r e target).run w = m at hshown hfilled hsound hkeeps hstands ⊢
    obtain ⟨_ | ⟨⟩, w'⟩ := m
    · refine ⟨.failed, (showLine ("Error: Cannot extract ".toList ++ e.name) w').2,
        ⟨by simp [ht], ?_, hsound, hfilled, by simp, fun e' d hne => ?_⟩, rfl⟩
      · simpa [Fate.line?, Text.unlines, run_showLine] using hshown
      · exact hkeeps e' d (hne (by simp))
    · refine ⟨.unpacked, w', ⟨by simp [ht], ?_, hsound, hfilled, fun _ => hstands w' rfl,
        fun e' d hne => ?_⟩, rfl⟩
      · simpa [Fate.line?, Text.unlines] using hshown
      · exact hkeeps e' d (hne (by simp))

/-! ## All entries -/

/-- A log of the entries of a run, with what the run gives and leaves. -/
structure Logged (s : Storage) (r : Reader) (p : Path) (l : Loc) (w : World) (log : UnpackLog)
    (v : List Entry × World) : Prop where
  returned : v.1 = log.unpacked
  shown : v.2.shown = w.shown ++ Text.unlines log.lines
  skipped : ∀ f ∈ log, f.2 = .skipped ↔ target? p f.1.name = none
  filled : Disk.FilledBelow l w.disk v.2.disk
  stands : ∀ before e after, log = before ++ (e, .unpacked) :: after →
    (∀ f ∈ after, f.2 ≠ .skipped → f.1.place ≠ e.place) → Stands s r l e w.disk v.2.disk
  keeps : ∀ e d, (∀ f ∈ log, f.2 ≠ .skipped → f.1.place ≠ e.place) →
    Stands s r l e d w.disk → Stands s r l e d v.2.disk

theorem Logged.nil (s : Storage) (r : Reader) (p : Path) (l : Loc) (w : World) :
    Logged s r p l w [] ([], w) where
  returned := rfl
  shown := (List.append_nil _).symm
  skipped := by simp
  filled := .refl l _
  stands before e after h := by simp at h
  keeps _ _ _ h := h

theorem Logged.cons {log : UnpackLog} {f : Fate} {v : List Entry × World}
    (ht : Turn s r p l e w f w') (h : Logged s r p l w' log v) :
    Logged s r p l w ((e, f) :: log) ((if f = .unpacked then [e] else []) ++ v.1, v.2) where
  returned := by
    rw [h.returned]
    cases f <;> simp [UnpackLog.unpacked]
  shown := by
    rw [h.shown, ht.shown]
    cases f <;> simp [UnpackLog.lines, Fate.line?, Text.unlines]
  skipped := List.forall_mem_cons.2 ⟨ht.skipped, h.skipped⟩
  filled := ht.filled.trans h.filled
  stands before e' after hlog hlast := by
    rcases before with _ | ⟨g, before⟩
    · obtain ⟨he, rfl⟩ := List.cons.inj hlog
      obtain ⟨rfl, rfl⟩ := Prod.mk.inj he
      exact h.keeps e w.disk hlast (ht.stands rfl)
    · -- a device that stands there later stood there before
      obtain ⟨-, hlog⟩ := List.cons.inj hlog
      exact (h.stands before e' after hlog hlast).of_later
        (((ht.filled.grows _).device_iff).not.2)
  keeps e' d hne hst :=
    h.keeps e' d (List.forall_mem_cons.1 hne).2
      (ht.keeps e' d ((List.forall_mem_cons.1 hne).1) hst)

theorem exists_log : ∀ (es : List Entry) {w : World}, w.disk.Sound → w.disk.Root p l →
    ∃ log : UnpackLog, log.map (·.1) = es ∧ Logged s r p l w log (unpackAll s r p es w)
  | [], w, _, _ => ⟨[], rfl, .nil s r p l w⟩
  | e :: es, w, hs, h => by
    obtain ⟨f, w', ht, hrun⟩ := exists_turn (s := s) (r := r) hs h e es
    obtain ⟨log, hentries, hlog⟩ := exists_log es ht.sound (h.of_keeps ht.filled.keeps)
    exact ⟨(e, f) :: log, congrArg (e :: ·) hentries, hrun ▸ hlog.cons ht⟩

end Unpacking

/-! ## Archives -/

/-- The last entry of a name is read when it is opened by the name. -/
theorem Reader.contents_last {s : Storage} {r : Reader} {before after : List Entry} {e : Entry}
    {c : Contents} (h : r.entries = before ++ e :: after) (hlast : ∀ f ∈ after, f.name ≠ e.name)
    (hc : r.contents s e.name = .ok c) : r.archive.contents? before.length = some c := by
  obtain ⟨p, t, hsplit, rfl, ht⟩ := List.map_eq_append_iff.1 h
  obtain ⟨k, q, rfl, rfl, rfl⟩ := List.map_eq_cons_iff.1 ht
  have hindex : r.archive.indexOf? k.name = some p.length :=
    Archive.indexOf?_eq hsplit fun j hj => hlast _ (List.mem_map_of_mem hj)
  unfold contents at hc
  rw [hindex] at hc
  split_ifs at hc
  rw [List.length_map]
  rcases hb : r.archive.contents? p.length with _ | b
  · simp [hb] at hc
  · simpa [hb] using hc

theorem run_unpack_of_openAt {s : Storage} {archive p : Path} {w : World} {r : Reader}
    (hr : ((Reader.openAt s archive).run w).1 = .ok r) : (unpack s archive p).run w =
      (.ok (Unpacking.unpackAll s r p r.entries w).1,
        (Unpacking.unpackAll s r p r.entries w).2) := by
  have hw := Reader.run_openAt s archive w
  unfold unpack
  rw [Act.run_bind]
  generalize (Reader.openAt s archive).run w = m at hr hw
  obtain ⟨_ | r', w'⟩ := m
  · cases hr
  · obtain rfl : w' = w := hw
    obtain rfl := Except.ok.inj hr
    rfl

/-- Unpacking goes through the entries in the order of the archive. Those whose names stray are
skipped, the others come out or get a line each. In the end the last entry of a place stands there
if it came out: a directory, or a file with the bytes of just this entry, though entries are opened
by their names. Where a device is it takes the bytes and stays. -/
theorem unpack_log {s : Storage} {archive p : Path} {w : World} {l : Loc} {r : Reader}
    (hs : w.disk.Sound) (hp : p.isAbsolute = true) (h2 : Path.leadingSlashes p ≠ 2)
    (hl : w.disk.locate true p = .ok l) (hd : w.disk.isDirectory l = true)
    (hf : ∀ k t, l <+: k → k ≠ l → w.disk.get? k ≠ some (.link t))
    (hr : ((Reader.openAt s archive).run w).1 = .ok r) :
    ∃ (log : UnpackLog) (w' : World),
      (unpack s archive p).run w = (.ok log.unpacked, w') ∧ log.map (·.1) = r.entries ∧
      w'.shown = w.shown ++ Text.unlines log.lines ∧
      (∀ f ∈ log, f.2 = .skipped ↔ Entry.Stray f.1.name) ∧
      (∀ f ∈ log, f.2 ≠ .skipped → ∀ k,
        w'.disk.locate true ((Entry.parts f.1.name).foldl Path.join p) = .ok k →
          k = l ++ f.1.place) ∧
      (∀ k, w'.disk.get? k = some .device ↔ w.disk.get? k = some .device) ∧
      ∀ before e after, log = before ++ (e, .unpacked) :: after →
        (∀ f ∈ after, f.2 ≠ .skipped → f.1.place ≠ e.place) →
        (e.isDir = true → w'.disk.isDirectory (l ++ e.place) = true) ∧
        (e.isDir = false → w.disk.get? (l ++ e.place) ≠ some .device →
          ∃ c, r.archive.contents? before.length = some c ∧
            w'.disk.get? (l ++ e.place) = some (.file c.bytes)) := by
  have hroot : w.disk.Root p l := by
    refine ⟨hl, hd, fun k t hk => ?_⟩
    by_cases he : k = l
    · rw [he, Disk.isDirectory_iff.1 hd]
      simp
    · exact hf k t hk he
  obtain ⟨log, hentries, hlog⟩ := Unpacking.exists_log (s := s) (r := r) r.entries hs hroot
  have htarget := fun name : Text => Entry.target?_eq hp name
  simp only [h2, or_false] at htarget
  have hstray : ∀ f ∈ log, f.2 = .skipped ↔ Entry.Stray f.1.name := fun f hf => by
    rw [hlog.skipped f hf, htarget]
    simp
  refine ⟨log, _, ?_, hentries, hlog.shown, hstray, fun f hf hn k hk => ?_,
    fun k => (hlog.filled.grows k).device_iff, ?_⟩
  · rw [run_unpack_of_openAt hr, hlog.returned]
  · refine Unpacking.eq_place_of_locate (hroot.of_keeps hlog.filled.keeps) ?_ hk
    rw [htarget, if_neg ((hstray f hf).not.1 hn)]
  · intro before e after hsplit hlast
    have hstands := hlog.stands before e after hsplit hlast
    unfold Unpacking.Stands at hstands
    refine ⟨fun hdir => by rwa [if_pos hdir] at hstands, fun hdir hdev => ?_⟩
    rw [hdir, if_neg Bool.false_ne_true] at hstands
    obtain ⟨c, hc, hheld⟩ := hstands hdev
    have hsplit' : r.entries = before.map (·.1) ++ e :: after.map (·.1) := by
      rw [← hentries, hsplit, List.map_append, List.map_cons]
    have hlength : (before.map (·.1)).length = before.length := List.length_map _
    refine ⟨c, ?_, hheld⟩
    rw [← hlength]
    refine Reader.contents_last hsplit' (fun g hg hname => ?_) hc
    -- a later entry of the name would be a later one of the place
    obtain ⟨f, hf, rfl⟩ := List.mem_map.1 hg
    have hmem : f ∈ log := by simp [hsplit, hf]
    have hsafe : ¬ Entry.Stray e.name :=
      (hstray (e, .unpacked) (by simp [hsplit])).not.1 (by simp)
    refine hlast f hf (fun hk => hsafe (hname ▸ (hstray f hmem).1 hk)) ?_
    rw [Entry.place, Entry.place, hname]

/-- Members that share places, go through a file, or stray. -/
def jumbled : List Member := [
  ⟨"x".toList, false, [1]⟩, ⟨"d//y".toList, false, [2]⟩, ⟨"./x".toList, false, [3]⟩,
  ⟨"x/z".toList, false, [4]⟩, ⟨"d/./".toList, true, []⟩, ⟨"../n".toList, false, [5]⟩,
  ⟨"x".toList, false, [6]⟩, ⟨"d/y".toList, false, [7]⟩]

/-- A directory with a file in it, beside an archive of the members. -/
def jumble : Disk where
  items := [
    (["a".toList], .file (Member.archive jumbled)),
    (["in".toList], .directory),
    (["in".toList, "x".toList], .file [9])]

theorem storable_jumbled : Member.Storable jumbled :=
  ⟨by decide +kernel, by decide +kernel, by decide +kernel⟩

theorem unpack_log_jumble : ∃ (log : UnpackLog) (w : World),
    (unpack { chunk := 2 } "/a".toList "/in".toList).run ⟨jumble, []⟩ = (.ok log.unpacked, w) ∧
    log.map (·.1) = jumbled.map Member.entry ∧
    w.shown = Text.unlines log.lines ∧
    (∀ before e after, log = before ++ (e, .unpacked) :: after →
      (∀ f ∈ after, f.2 ≠ .skipped → f.1.place ≠ e.place) → e.isDir = false →
      ∃ c, (Reader.ofMembers jumbled).archive.contents? before.length = some c ∧
        w.disk.get? (["in".toList] ++ e.place) = some (.file c.bytes)) ∧
    log.unpacked.map (·.name) =
      ["x".toList, "d//y".toList, "./x".toList, "d/./".toList, "x".toList, "d/y".toList] ∧
    w.shown = ("Error: Cannot extract x/z\n" ++
      "Warning: Skipping unsafe entry ../n\n").toList ∧
    w.disk.get? ["in".toList, "x".toList] = some (.file [6]) ∧
    w.disk.get? ["in".toList, "d".toList, "y".toList] = some (.file [7]) := by
  have hs : jumble.Sound := Disk.sound_of_items (by decide) (by decide) (by simp [jumble])
  have hlink : ∀ k t, jumble.get? k ≠ some (.link t) :=
    Disk.get?_ne_link_of_items (by simp [jumble])
  have hdev : ∀ k, jumble.get? k ≠ some .device :=
    Disk.get?_ne_of_items (by simp) (by simp [jumble])
  have hopen : (Reader.openAt { chunk := 2 } "/a".toList).run ⟨jumble, []⟩ =
      (.ok (.ofMembers jumbled), ⟨jumble, []⟩) :=
    Reader.run_openAt_ofMembers rfl (by decide +kernel) rfl storable_jumbled
  obtain ⟨log, w, hrun, hentries, hshown, -, -, -, hlast⟩ := unpack_log (p := "/in".toList)
    (l := ["in".toList]) hs rfl (by decide) (by decide) (by decide) (fun k t _ _ => hlink k t)
    (congrArg Prod.fst hopen)
  have hrun' : let v := (unpack { chunk := 2 } "/a".toList "/in".toList).run ⟨jumble, []⟩
      v.1.toOption.map (·.map (·.name)) = some ["x".toList, "d//y".toList, "./x".toList,
        "d/./".toList, "x".toList, "d/y".toList] ∧
      v.2.shown = ("Error: Cannot extract x/z\n" ++
        "Warning: Skipping unsafe entry ../n\n").toList ∧
      v.2.disk.get? ["in".toList, "x".toList] = some (.file [6]) ∧
      v.2.disk.get? ["in".toList, "d".toList, "y".toList] = some (.file [7]) := by
    decide +kernel
  rw [hrun] at hrun'
  exact ⟨log, w, hrun, hentries.trans (Reader.entries_ofMembers storable_jumbled), hshown,
    fun before e after hsplit hafter hdir => (hlast before e after hsplit hafter).2 hdir (hdev _),
    Option.some.inj hrun'.1, hrun'.2⟩

/-- A directory with a device in it, beside an archive with an entry of its name. -/
def hollow : Disk where
  items := [
    (["a".toList], .file (Member.archive [⟨"null".toList, false, [1]⟩])),
    (["dev".toList], .directory),
    (["dev".toList, "null".toList], .device)]

/-- An entry that comes out where a device is leaves no file there. -/
theorem unpack_onto_device :
    let e : Entry := ⟨"null".toList, false, 1⟩
    let unpacked := (unpack { chunk := 512 } "/a".toList "/dev".toList).run ⟨hollow, []⟩
    (∀ k t, hollow.get? k ≠ some (.link t)) ∧
    hollow.locate true "/dev".toList = .ok ["dev".toList] ∧
    hollow.isDirectory ["dev".toList] = true ∧
    unpacked.1.toOption = some [e] ∧ unpacked.2.shown = [] ∧
    unpacked.2.disk.get? (["dev".toList] ++ e.place) = some .device := by
  refine ⟨Disk.get?_ne_link_of_items (by simp [hollow]), ?_, ?_, ?_, ?_, ?_⟩ <;> decide +kernel

end FileShell
