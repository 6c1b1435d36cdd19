import FileShell.Proofs.Archive.Additions
import FileShell.Proofs.Archive.Items

/-!
# Packing when calls are refused

A call that is refused costs what it was made for, and no more. A file that cannot be added is
missing from the archive, a directory that cannot be added is missing with all that is below it, and
one that cannot be listed is stored empty. What is left comes in the order it always has, and the
archive is written out in the end (`pack_despite_refusals`). There is one line for each call that
was refused while adding, and none for a directory that could not be listed.
-/

namespace FileShell

namespace Spot

variable {s : Storage} {v : Spot}

/-- Packing gets down to a node if no directory above it is refused or cannot be listed. -/
theorem reaches_iff : ∀ {v : Spot} {r : Loc}, v.reaches s r = true ↔ ∀ q x t, r = q ++ x :: t →
    (v.below q).refused s .directory = false ∧ s.refuses .list (v.below q).path = false
  | v, [] => by simp [reaches]
  | v, y :: r => by
    simp only [reaches, Bool.and_eq_true, Bool.not_eq_true', reaches_iff (v := v.down y)]
    constructor
    · rintro ⟨hv, hr⟩ (_ | ⟨z, q⟩) x t heq
      · exact hv
      · obtain ⟨rfl, rfl⟩ := List.cons.inj heq
        exact hr q x t rfl
    · intro h
      exact ⟨h [] y r rfl, fun q x t heq => h (y :: q) x t (congrArg (y :: ·) heq)⟩

end Spot

namespace Packing

variable {s : Storage} {w : World} {p : Path} {out : Loc} {items : List PackItem} {ms : List Member}

/-- Packing goes through all items, whatever is refused. -/
theorem run_pack_kept {recursive : Bool} (hr : s.refuses .openWriter p = false)
    (hserves : s.Serves) (hs : w.disk.Sound) (hfit : w.disk.LinksFit)
    (hp : w.disk.locateWrite p = .ok out) (ha : ∀ i ∈ items, i.path.isAbsolute = true)
    (hl : ∀ i ∈ items, ∀ l, w.disk.locate true i.path = .ok l → w.disk.LinkFree l)
    (hn : ∀ i ∈ items, recursive = true → w.disk.NestsBelow i.path s.nests)
    (hms : (items.flatMap fun i => i.kept s (w.disk.write out []) out recursive) = ms) :
    (pack s p items recursive).run w = (.ok (ms.map Member.entry),
      ⟨(w.disk.write out []).write out (Member.archive ms), w.shown ++ Text.unlines
        (items.flatMap fun i => i.complaints s (w.disk.write out []) out recursive)⟩) := by
  have hsteady : Steady ⟨s, w.disk.write out [], p⟩ out := .of_locateWrite hserves hs hfit hp
  have hback := hs.keeps_of_write hp []
  have hfree : ∀ i ∈ items, ∀ l, (w.disk.write out []).locate true i.path = .ok l →
      (w.disk.write out []).LinkFree l := fun i hi l h =>
    (hl i hi l (Disk.locate_of_keeps hback h)).of_keeps (hs.keeps_write hp [])
  have hrun := hsteady.run_packItems hfree fun i hi hr => (hn i hi hr).of_keeps hback
  rw [← hms]
  exact run_pack hr hp (hrun _) (.foldl rfl fun i hi k hk =>
    addItem_keeps hsteady (ha i hi) (hfree i hi) hk)

/-- What is kept is stored where nothing is refused. -/
theorem kept_subset {d : Disk} {recursive : Bool} (i : PackItem) :
    i.kept s d out recursive ⊆ i.stored d out recursive := by
  intro m hm
  obtain ⟨e, he, hm⟩ := List.mem_filterMap.1 hm
  exact List.mem_filterMap.2 ⟨e, he, (Option.ite_none_right_eq_some.1 hm).2⟩

/-- A file that a whole archive was written to is opened again, unless its end looks like the
locator of a record for large archives. -/
theorem openAt_written {d : Disk} {shown : Text} (hs : d.Sound)
    (hp : d.locateWrite p = .ok out) (hdev : d.get? out ≠ some .device)
    (hnames : ∀ m ∈ ms, (Utf8.encode m.name).length < 65536 ∧ '\x00' ∉ m.name)
    (hshort : (Member.archive ms).length < 0x100000000) (hr : s.refuses .openReader p = false) :
    let w' : World := ⟨(d.write out []).write out (Member.archive ms), shown⟩
    (Member.HasLocator (Member.archive ms) →
      (Reader.openAt s p).run w' = (.error (.damaged p), w')) ∧
    (¬ Member.HasLocator (Member.archive ms) → ∃ reader,
      (Reader.openAt s p).run w' = (.ok reader, w') ∧ reader.entries = ms.map Member.entry) := by
  intro w'
  have hget := Disk.get?_write (d := d) [] (hs.of_locateWrite hp).1 out
  rw [if_pos ⟨rfl, hdev⟩] at hget
  obtain ⟨-, hloc, -⟩ := Disk.locateWrite_eq_ok_iff.1 (hs.locateWrite_write hp [])
  obtain ⟨hfile, hread⟩ := Writer.read_close ⟨out, ms, false⟩ ⟨d.write out [], shown⟩
    (hs.write_of_locateWrite hp []) hloc hget rfl
  refine ⟨fun hl => Reader.run_openAt_damaged hr hfile hread
    (Member.ofBytes_of_hasLocator (fun m hm => (hnames m hm).2) hl), fun hl => ?_⟩
  have hm : Member.Storable ms := ⟨hnames, hshort, hl⟩
  exact ⟨_, Reader.run_openAt_ofMembers hr hfile hread hm, Reader.entries_ofMembers hm⟩

/-- Packing stores and returns what it does when nothing is refused, in the same order, less what
the refused calls were made for: the files that are refused, the directories that are refused with
all that is below them, and what is below the directories that cannot be listed. A line is shown
for each refused addition that is come by, besides those for what is missing or too far away. The
archive is written out, and is opened again unless its end looks like a locator. -/
theorem pack_despite_refusals (recursive : Bool) (hopen : s.refuses .openWriter p = false)
    (hserves : s.Serves) (hs : w.disk.Sound) (hfit : w.disk.LinksFit)
    (hp : w.disk.locateWrite p = .ok out) (ha : ∀ i ∈ items, i.path.isAbsolute = true)
    (hl : ∀ i ∈ items, ∀ l, w.disk.locate true i.path = .ok l → w.disk.LinkFree l)
    (hn : ∀ i ∈ items, recursive = true → w.disk.NestsBelow i.path s.nests) :
    let d := w.disk.write out []
    let ms := items.flatMap fun i =>
      ((i.nodes d out recursive).filter (i.spot.spares s)).filterMap i.spot.member?
    ∃ w', (pack s p items recursive).run w = (.ok (ms.map Member.entry), w') ∧
      w'.disk = d.write out (Member.archive ms) ∧
      w'.shown = w.shown ++
        Text.unlines (items.flatMap fun i => i.complaints s d out recursive) ∧
      ((pack { s with refuses := fun _ _ => false } p items recursive).run w).1 =
        .ok ((items.flatMap fun i =>
          (i.nodes d out recursive).filterMap i.spot.member?).map Member.entry) ∧
      (w.disk.get? out ≠ some .device → s.refuses .openReader p = false →
        (Member.archive ms).length < 0x100000000 →
          (Member.HasLocator (Member.archive ms) →
            (Reader.openAt s p).run w' = (.error (.damaged p), w')) ∧
          (¬ Member.HasLocator (Member.archive ms) → ∃ reader,
            (Reader.openAt s p).run w' = (.ok reader, w') ∧
              reader.entries = ms.map Member.entry)) := by
  intro d ms
  have hms : (items.flatMap fun i => i.kept s d out recursive) = ms := by
    simp only [ms, List.filterMap_filter]
    rfl
  refine ⟨_, run_pack_kept hopen hserves hs hfit hp ha hl hn hms, rfl, rfl, ?_,
    fun hdev hr hshort => openAt_written hs hp hdev ?_ hshort hr⟩
  · have hcalm (v : Spot) : v.kept? { s with refuses := fun _ _ => false } = v.member? :=
      Spot.kept?_of_calm (fun _ _ => rfl) v
    refine congrArg Prod.fst (run_pack_kept (s := { s with refuses := fun _ _ => false }) rfl
      hserves hs hfit hp ha hl hn ?_)
    simp only [PackItem.kept, hcalm]
    rfl
  · intro m hm
    rw [← hms] at hm
    obtain ⟨i, hi, hm⟩ := List.mem_flatMap.1 hm
    have hsteady : Steady ⟨s, d, p⟩ out := .of_locateWrite hserves hs hfit hp
    exact PackItem.names_stored hsteady.sound hsteady.notDirectory (ha i hi) (fun l h =>
      (hl i hi l (Disk.locate_of_keeps (hs.keeps_of_write hp []) h)).of_keeps
        (hs.keeps_write hp [])) m (kept_subset i hm)

end Packing

/-- A file and three directories, each with something in it. -/
def pantry : Disk where
  items := [
    (["a".toList], .file [1]),
    (["d".toList], .directory),
    (["d".toList, "e".toList], .directory),
    (["d".toList, "e".toList, "b".toList], .file [2]),
    (["g".toList], .directory),
    (["g".toList, "c".toList], .file [3]),
    (["h".toList], .directory),
    (["h".toList, "k".toList], .file [4, 5])]

/-- A storage that refuses to add a file and a directory, and to list a directory. -/
def fussy : Storage :=
  .ofRefusals 512 [(.addFile, "/a".toList), (.addDirectory, "d/e".toList), (.list, "/g".toList)] []

/-- All that is there, and something that is not. -/
def supplies : List PackItem :=
  ["a", "d", "g", "n", "h"].map fun t => ⟨t.toList, ('/' :: t.toList)⟩

theorem pack_despite_refusals_pantry :
    let r := (pack fussy "/j".toList supplies true).run ⟨pantry, []⟩
    r.1 = .ok [⟨"d/".toList, true, 0⟩, ⟨"g/".toList, true, 0⟩, ⟨"h/".toList, true, 0⟩,
        ⟨"h/k".toList, false, 2⟩] ∧
      r.2.shown = ("Error: Cannot add a to zip file\nError: Cannot add d/e to zip file\n" ++
        "Warning: n does not exist, skipping\n").toList ∧
      ∃ reader, (Reader.openAt fussy "/j".toList).run r.2 = (.ok reader, r.2) ∧
        .ok reader.entries = r.1 := by
  intro r
  have hs : pantry.Sound := Disk.sound_of_items (by decide) (by decide) (by simp [pantry])
  have ha : ∀ i ∈ supplies, i.path.isAbsolute = true := by decide
  have hfree : ∀ l, pantry.LinkFree l := fun l k t _ =>
    Disk.get?_ne_link_of_items (by simp [pantry]) k t
  obtain ⟨w', h, -, -, -, hread⟩ := @Packing.pack_despite_refusals fussy ⟨pantry, []⟩ "/j".toList
    ["j".toList] supplies true rfl (by decide) hs (Disk.linksFit_of_items (by simp [pantry])) rfl ha
    (fun _ _ l _ => hfree l) fun i _ _ =>
      Disk.nestsBelow_of_items (hfree []) (by decide) (by decide) i.path
  obtain ⟨reader, hopen, he⟩ := (hread (by decide) (by decide) (by decide +kernel)).2
    (by decide +kernel)
  have hworld : w' = r.2 := congrArg Prod.snd h.symm
  rw [hworld] at hopen
  refine ⟨(congrArg Prod.fst h).trans (congrArg Except.ok ?_), by decide +kernel, reader, hopen, ?_⟩
  · decide +kernel
  · rw [he]
    exact (congrArg Prod.fst h).symm

/-- What packing one item returns, and the entries of the archive if it is opened again. -/
def reread (s : Storage) (d : Disk) (archive item : Path) :
    Option (List Entry) × Option (List Entry) :=
  let (r, w) := (pack s archive [⟨"i".toList, item⟩] true).run ⟨d, []⟩
  (r.toOption, ((Reader.openAt s archive).run w).1.toOption.map Reader.entries)

/-- Nothing is refused here. An archive that ends in a name like a locator is not opened again, and
neither is the null device. A file that is read in requests that cannot be served is stored empty
and not returned. A tree deeper than calls may nest is stored as far as they go, and nothing is
returned. -/
theorem reread_limits :
    reread { chunk := 512 } ⟨[([lookalike], .directory)]⟩ "/j".toList ('/' :: lookalike) =
        (some [⟨lookalike ++ ['/'], true, 0⟩], none) ∧
      reread { chunk := 512 } ⟨[(["f".toList], .file [1]), (["n".toList], .device)]⟩ "/n".toList
        "/f".toList = (some [⟨"f".toList, false, 1⟩], none) ∧
      reread { chunk := 512, memory := 512 } larder "/j".toList "/f".toList =
        (some [], some [⟨"f".toList, false, 0⟩]) ∧
      reread { chunk := 512, nests := 1 } larder "/j".toList "/d".toList =
        (none, some [⟨"d/".toList, true, 0⟩]) := by
  refine ⟨?_, ?_, ?_, ?_⟩ <;> decide +kernel

end FileShell
