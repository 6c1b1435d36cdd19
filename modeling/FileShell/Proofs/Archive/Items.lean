import FileShell.Proofs.Archive.Effects
import FileShell.Proofs.Archive.Stored

/-!
# Items that are packed

Packing takes the items one by one. One that is missing gives a warning and nothing else, a file
gives itself, and a directory its tree, if trees are asked for. So the archive holds the nodes of
all items in their order, as far as their paths fit, and what is returned are their entries
(`pack_stored`). All is judged on the disk as it is once the archive is open. Where the storage
may refuse calls, an item gives what the refusals leave of its nodes (`addItem_keeps`), and the
run without refusals is a case of it.
-/

namespace FileShell

namespace PackItem

/-- The name under which an item is packed. -/
def base (i : PackItem) : Text := Path.baseName i.path.normalize

/-- Where packing an item starts; the root has no name. -/
def spot (i : PackItem) : Spot := ⟨i.path, if i.base = [] then [] else [i.base], i.label⟩

/-- The nodes of an item: a file, or the tree below a directory if it is asked for. -/
def nodes (d : Disk) (out : Loc) (recursive : Bool) (i : PackItem) : List (Loc × Item) :=
  match d.locate true i.path with
  | .error _ => []
  | .ok l =>
    match d.get? l with
    | some .directory => if recursive then d.nodes out Packing.depth l [] else []
    | some (.file _) => d.nodes out Packing.depth l []
    | _ => []

def stored (d : Disk) (out : Loc) (recursive : Bool) (i : PackItem) : List Member :=
  (i.nodes d out recursive).filterMap i.spot.member?

def reported (d : Disk) (out : Loc) (recursive : Bool) (i : PackItem) : List Text :=
  if d.pathExists i.path then (i.nodes d out recursive).filterMap i.spot.miss?
  else ["Warning: ".toList ++ i.label ++ " does not exist, skipping".toList]

/-- What is stored of an item if calls may be refused. -/
def kept (s : Storage) (d : Disk) (out : Loc) (recursive : Bool) (i : PackItem) : List Member :=
  (i.nodes d out recursive).filterMap (i.spot.kept? s)

/-- What is reported of an item if calls may be refused. -/
def complaints (s : Storage) (d : Disk) (out : Loc) (recursive : Bool) (i : PackItem) :
    List Text :=
  if d.pathExists i.path then (i.nodes d out recursive).filterMap (i.spot.report? s)
  else ["Warning: ".toList ++ i.label ++ " does not exist, skipping".toList]

variable {i : PackItem}

@[simp] theorem path_spot (i : PackItem) : i.spot.path = i.path := rfl

@[simp] theorem label_spot (i : PackItem) : i.spot.label = i.label := rfl

theorem good_spot (h : i.base = [] ∨ IsName i.base) : i.spot.Good := by
  unfold spot
  split_ifs with hb
  · exact ⟨by simp, by simp [Text.join, Text.byteSize, Utf8.encode]⟩
  · have hname := h.resolve_left hb
    have hshort := hname.short
    rw [Disk.maxName] at hshort
    refine ⟨by simpa using hname, ?_⟩
    simp only [Text.join]
    omega

theorem join_spot (i : PackItem) : Text.join ['/'] i.spot.names = i.base := by
  unfold spot
  split_ifs with hb
  · exact hb.symm
  · rfl

end PackItem

namespace Packing

variable {c : Setting} {out l : Loc} {k : Packing} {i : PackItem} {recursive : Bool}

theorem stands_spot (hs : c.disk.Sound) (hl : c.disk.locate true i.path = .ok l)
    (hb : i.base = [] ∨ IsName i.base) : Stands c i.spot l where
  good := PackItem.good_spot hb
  leads := Disk.at_of_locate hl
  noNull := (Disk.checkPath_eq_ok_iff.1 (Disk.locate_eq_ok_iff.1 hl).1).2.1
  located := by
    have hc := (Disk.checkPath_eq_ok_iff.1 (Disk.locate_eq_ok_iff.1 hl).1).2.2
    have hf : i.path.fits = true := decide_eq_true hc
    rw [PackItem.spot, if_pos hf, hl]
  notLink := hs.not_link_of_locate hl

/-- The base of a directory or a file is a name, unless it is that of the root. -/
theorem isName_base {d : Disk} (hs : d.Sound) (ha : i.path.isAbsolute = true)
    (hloc : d.locate true i.path = .ok l) (hfree : d.LinkFree l)
    (hi : d.isDirectory l = true ∨ ∃ b, d.get? l = some (.file b)) :
    i.base = [] ∨ IsName i.base := by
  rcases hi with hd | ⟨b, hb⟩
  · exact Disk.Root.isName_baseName ⟨hloc, hd, hfree⟩ ha
  · have hname := hs.isName_baseName hloc (by simp [Disk.isDirectory, hb])
    rw [PackItem.base, Path.baseName_normalize_of_isPlain ha hname.plain]
    exact .inr hname

theorem addItem_keeps (h : Steady c out) (ha : i.path.isAbsolute = true)
    (hl : ∀ l, c.disk.locate true i.path = .ok l → c.disk.LinkFree l)
    (hk : k.writer.closed = false) : Packs k (addItem c recursive k i)
      (i.kept c.storage c.disk out recursive) (i.complaints c.storage c.disk out recursive) := by
  have hnone : Packs k (k.say ("Warning: ".toList ++ i.label ++ " does not exist, skipping".toList))
      [] ["Warning: ".toList ++ i.label ++ " does not exist, skipping".toList] :=
    ⟨by simp [say], by simp [say], rfl⟩
  unfold addItem PackItem.kept PackItem.complaints PackItem.nodes
  rcases hloc : c.disk.locate true i.path with e | l
  · have hex : c.disk.pathExists i.path = false := by simp [Disk.pathExists, Disk.find?, hloc]
    simpa [hex] using hnone
  have hdir : c.disk.isDir i.path = c.disk.isDirectory l := by
    simp [Disk.isDir, Disk.find?, hloc, Disk.isDirectory]
  rw [Disk.pathExists_of_locate hloc, hdir]
  rcases hi : c.disk.get? l with _ | _ | b | t | _
  · simpa [hi] using hnone
  · have hroot : c.disk.Root i.path l := ⟨hloc, Disk.isDirectory_iff.2 hi, hl l hloc⟩
    cases recursive
    · simpa [hi, Disk.isDirectory] using Packs.refl k
    · have hgood := PackItem.good_spot (isName_base h.sound ha hloc (hl l hloc) (.inl hroot.directory))
      have hpos := Text.byteSize_pos hroot.ne_nil
      have hpack := addTree_packs (v := i.spot) (n := depth) h hroot hgood
        (by rw [PackItem.path_spot, depth]; omega) hk
      rw [PackItem.join_spot] at hpack
      simpa [hi, Disk.isDirectory, PackItem.base] using hpack
  · have hdir : c.disk.isDirectory l = false := by simp [Disk.isDirectory, hi]
    have hname := h.sound.isName_baseName hloc hdir
    have hbase : i.base = Path.baseName i.path :=
      Path.baseName_normalize_of_isPlain ha hname.plain
    rw [← hbase] at hname
    have hpack := addFile_packs (n := Disk.maxPath) h
      (stands_spot h.sound hloc (.inr hname)) (by simp [PackItem.spot, hname.plain.1]) hi
      (by simp) hk
    rw [PackItem.join_spot, hbase] at hpack
    have hfile : c.disk.isFile i.path = true := Disk.isFile_iff.2 ⟨l, b, hloc, hi⟩
    simpa [hi, hdir, hfile, depth] using hpack
  · exact absurd hi (h.sound.not_link_of_locate hloc t)
  · have hfile : c.disk.isFile i.path = false := by simp [Disk.isFile, Disk.find?, hloc, hi]
    simpa [hi, Disk.isDirectory, hfile] using Packs.refl k

theorem addItem_packs (h : Fair c out) (ha : i.path.isAbsolute = true)
    (hl : ∀ l, c.disk.locate true i.path = .ok l → c.disk.LinkFree l)
    (hk : k.writer.closed = false) : Packs k (addItem c recursive k i)
      (i.stored c.disk out recursive) (i.reported c.disk out recursive) := by
  have hpacks : Packs k (addItem c recursive k i) _ _ := addItem_keeps h.toSteady ha hl hk
  unfold PackItem.kept PackItem.complaints at hpacks
  rwa [Spot.kept?_of_calm h.calm, Spot.report?_of_calm h.calm] at hpacks

/-- An archive that could be opened. -/
theorem Steady.of_locateWrite {s : Storage} {d : Disk} {p : Path} (hserves : s.Serves)
    (hs : d.Sound) (hfit : d.LinksFit) (hp : d.locateWrite p = .ok out) :
    Steady ⟨s, d.write out [], p⟩ out := by
  obtain ⟨-, hl, hd⟩ := Disk.locateWrite_eq_ok_iff.1 hp
  exact {
    serves := hserves
    sound := hs.write_of_locateWrite hp []
    fit := hfit.of_keeps (hs.keeps_write hp [])
    archive := (Disk.at_of_locate hl).of_keeps (hs.keeps_write hp [])
    noNull := (Disk.checkPath_eq_ok_iff.1 (Disk.locate_eq_ok_iff.1 hl).1).2.1
    notDirectory := by rwa [Disk.isDirectory_write [] (hs.of_locateWrite hp).1 hd] }

theorem Fair.of_locateWrite {s : Storage} {d : Disk} {p : Path}
    (hcalm : ∀ k t, s.refuses k t = false) (hserves : s.Serves) (hs : d.Sound) (hfit : d.LinksFit)
    (hp : d.locateWrite p = .ok out) : Fair ⟨s, d.write out [], p⟩ out :=
  ⟨.of_locateWrite hserves hs hfit hp, hcalm⟩

/-- Items that lead to places without links are packed to their end, if the directories below them
may nest as they do. -/
theorem Steady.run_packItems {items : List PackItem} (h : Steady c out)
    (hl : ∀ i ∈ items, ∀ l, c.disk.locate true i.path = .ok l → c.disk.LinkFree l)
    (hn : ∀ i ∈ items, recursive = true → c.disk.NestsBelow i.path c.storage.nests) (k : Packing) :
    (items.forM (packItem c recursive)).run k = (.ok (), items.foldl (addItem c recursive) k) := by
  refine h.answered.run_packItems (fun i hi hex => ?_) hn (Nat.le_refl _) k
  obtain ⟨l, hloc⟩ := Disk.exists_locate_of_pathExists hex
  exact ⟨Disk.not_mem_of_locate hloc, l, Disk.at_of_locate hloc, hl i hi l hloc⟩

end Packing

/-- What packing leaves once every item is taken in. -/
theorem run_pack {s : Storage} {w : World} {p : Path} {out : Loc} {items : List PackItem}
    {recursive : Bool} {k : Packing} {ms : List Member} {ls : List Text}
    (hr : s.refuses .openWriter p = false) (hp : w.disk.locateWrite p = .ok out)
    (hrun : (items.forM (Packing.packItem ⟨s, w.disk.write out [], p⟩ recursive)).run
      ⟨⟨out, [], false⟩, [], []⟩ = (.ok (), k))
    (h : Packing.Packs ⟨⟨out, [], false⟩, [], []⟩ k ms ls) :
    (pack s p items recursive).run w = (.ok (ms.map Member.entry),
      ⟨(w.disk.write out []).write out (Member.archive ms), w.shown ++ Text.unlines ls⟩) := by
  rw [run_pack_of_locateWrite hr hp, hrun]
  dsimp only
  rw [h.shown, h.writer, h.added]
  rfl

/-! ## The stored entries -/

namespace PackItem

variable {d : Disk} {out l : Loc} {recursive : Bool} {i : PackItem}

/-- An item gives nothing, or the nodes at a place where a directory or a file stands. -/
theorem nodes_cases (d : Disk) (out : Loc) (recursive : Bool) (i : PackItem) :
    i.nodes d out recursive = [] ∨ ∃ l, d.locate true i.path = .ok l ∧
      (d.isDirectory l = true ∨ ∃ b, d.get? l = some (.file b)) ∧
      i.nodes d out recursive = d.nodes out Packing.depth l [] := by
  unfold nodes
  rcases hloc : d.locate true i.path with e | l
  · exact .inl rfl
  rcases hi : d.get? l with _ | _ | b | t | _
  · exact .inl (by simp [hi])
  · cases recursive
    · exact .inl (by simp [hi])
    · exact .inr ⟨l, rfl, .inl (Disk.isDirectory_iff.2 hi), by simp [hi]⟩
  · exact .inr ⟨l, rfl, .inr ⟨b, hi⟩, by simp [hi]⟩
  · exact .inl (by simp [hi])
  · exact .inl (by simp [hi])

theorem spelled_spot (i : PackItem) : ∀ x ∈ i.spot.names, '/' ∉ x ∧ x ≠ [] := by
  intro x hx
  unfold spot at hx
  split_ifs at hx with hb
  · simp at hx
  · obtain rfl := List.mem_singleton.1 hx
    obtain ⟨-, -, hslash, -⟩ := Path.exists_baseName_eq i.path.normalize
    exact ⟨hslash, hb⟩

/-- No name is stored twice for one item. -/
theorem nodup_stored (hs : d.Sound) (ho : d.isDirectory out = false) :
    ((i.stored d out recursive).map (·.name)).Nodup := by
  unfold stored
  rcases nodes_cases d out recursive i with h | ⟨l, -, -, h⟩ <;> rw [h]
  · simp
  have hspell : ∀ e ∈ d.nodes out Packing.depth l [],
      ∀ x ∈ i.spot.names ++ e.1, '/' ∉ x ∧ x ≠ [] := by
    intro e he x hx
    rcases List.mem_append.1 hx with hx | hx
    · exact i.spelled_spot x hx
    · have hname := Disk.isName_of_mem_nodes hs ho he x hx
      exact ⟨hname.noSlash, hname.plain.1⟩
  refine List.pairwise_map.2 (List.Pairwise.filterMap _ ?_
    (List.Pairwise.and_mem.1 (Disk.pairwise_nodes hs)))
  rintro e f ⟨he, hf, hne⟩ m hm k hk heq
  obtain ⟨-, rfl⟩ := Spot.member?_eq_some_iff.1 hm
  obtain ⟨-, rfl⟩ := Spot.member?_eq_some_iff.1 hk
  exact hne (List.append_cancel_left
    (Member.eq_of_name_ofNode (hspell e he) (hspell f hf) heq))

/-- What is stored of an item has a name that can be read back. -/
theorem names_stored (hs : d.Sound) (ho : d.isDirectory out = false)
    (ha : i.path.isAbsolute = true)
    (hl : ∀ l, d.locate true i.path = .ok l → d.LinkFree l) :
    ∀ m ∈ i.stored d out recursive,
      (Utf8.encode m.name).length < 65536 ∧ '\x00' ∉ m.name := by
  unfold stored
  rcases nodes_cases d out recursive i with h | ⟨l, hloc, hi, h⟩ <;> rw [h]
  · simp
  intro m hm
  obtain ⟨e, he, hm⟩ := List.mem_filterMap.1 hm
  obtain ⟨hf, rfl⟩ := Spot.member?_eq_some_iff.1 hm
  have hgood := (good_spot (Packing.isName_base hs ha hloc (hl l hloc) hi)).below
    (Disk.isName_of_mem_nodes hs ho he)
  rw [← Spot.names_below]
  exact (hgood.nameable hf).name_ofNode e.2

end PackItem

/-- What may look different on a disk once a file is written is no link and no directory. -/
theorem Disk.Sound.keeps_of_write {d : Disk} {p : Path} {out : Loc} (hs : d.Sound)
    (hp : d.locateWrite p = .ok out) (b : Bytes) : Keeps (d.write out b) d := by
  obtain ⟨hn, hd, -⟩ := hs.of_locateWrite hp
  refine ⟨fun {k} hk => ?_, (hs.keeps_write hp b).link.symm⟩
  rwa [isDirectory_write b hn (by simpa [isDirectory] using hd)] at hk

section

variable {s : Storage} {w : World} {p : Path} {out : Loc} {items : List PackItem}

/-- An archive holds the nodes of its items in their order, and its entries are what is returned. -/
theorem pack_stored (recursive : Bool) (hcalm : ∀ k t, s.refuses k t = false)
    (hserves : s.Serves) (hs : w.disk.Sound) (hfit : w.disk.LinksFit)
    (hp : w.disk.locateWrite p = .ok out) (ha : ∀ i ∈ items, i.path.isAbsolute = true)
    (hl : ∀ i ∈ items, ∀ l, w.disk.locate true i.path = .ok l → w.disk.LinkFree l)
    (hn : ∀ i ∈ items, recursive = true → w.disk.NestsBelow i.path s.nests) :
    let d := w.disk.write out []
    let ms := items.flatMap fun i => i.stored d out recursive
    (pack s p items recursive).run w = (.ok (ms.map Member.entry),
        ⟨d.write out (Member.archive ms), w.shown ++
          Text.unlines (items.flatMap fun i => i.reported d out recursive)⟩) ∧
      (∀ i ∈ items, ((i.stored d out recursive).map (·.name)).Nodup) ∧
      ((Member.archive ms).length < 0x100000000 → ¬ Member.HasLocator (Member.archive ms) →
        ∃ a, Archive.ofBytes (Member.archive ms) = .ok a ∧
          (Reader.mk a false).entries = ms.map Member.entry) := by
  intro d ms
  have hfair := Packing.Fair.of_locateWrite hcalm hserves hs hfit hp
  have hfree : ∀ i ∈ items, ∀ l, d.locate true i.path = .ok l → d.LinkFree l := fun i hi l h =>
    (hl i hi l (Disk.locate_of_keeps (hs.keeps_of_write hp []) h)).of_keeps (hs.keeps_write hp [])
  have hitem : ∀ i ∈ items, ∀ k : Packing, k.writer.closed = false →
      Packing.Packs k (Packing.addItem ⟨s, d, p⟩ recursive k i) (i.stored d out recursive)
        (i.reported d out recursive) := fun i hi k hk =>
    Packing.addItem_packs hfair (ha i hi) (hfree i hi) hk
  have hrun := hfair.run_packItems hfree fun i hi hr =>
    (hn i hi hr).of_keeps (hs.keeps_of_write hp [])
  refine ⟨run_pack (hcalm _ _) hp (hrun _) (.foldl rfl hitem), fun i _ =>
    PackItem.nodup_stored hfair.sound hfair.notDirectory, fun hshort hplain => ?_⟩
  have hstorable : Member.Storable ms := by
    refine ⟨fun m hm => ?_, hshort, hplain⟩
    obtain ⟨i, hi, hm⟩ := List.mem_flatMap.1 hm
    exact PackItem.names_stored hfair.sound hfair.notDirectory (ha i hi) (hfree i hi) m hm
  exact ⟨_, Member.ofBytes_archive hstorable, Reader.entries_ofMembers hstorable⟩

end

/-- A directory with another in it that holds a file, and a file beside it. -/
def larder : Disk where
  items := [
    (["d".toList], .directory),
    (["d".toList, "e".toList], .directory),
    (["d".toList, "e".toList, "b".toList], .file [1]),
    (["f".toList], .file [2, 3])]

theorem sound_larder : larder.Sound :=
  Disk.sound_of_items (by decide) (by decide) (by simp [larder])

theorem linkFree_larder (l : Loc) : larder.LinkFree l := fun k t _ =>
  Disk.get?_ne_link_of_items (by simp [larder]) k t

/-- A directory, something that is not there, the archive itself and a file. -/
def groceries : List PackItem :=
  [⟨"d".toList, "/d".toList⟩, ⟨"n".toList, "/n".toList⟩, ⟨"j".toList, "/j".toList⟩,
    ⟨"f".toList, "/f".toList⟩]

theorem pack_stored_larder : ∃ ms : List Member,
    (pack { chunk := 512 } "/j".toList groceries true).run ⟨larder, []⟩ =
      (.ok [⟨"d/".toList, true, 0⟩, ⟨"d/e/".toList, true, 0⟩, ⟨"d/e/b".toList, false, 1⟩,
          ⟨"f".toList, false, 2⟩],
        ⟨(larder.write ["j".toList] []).write ["j".toList] (Member.archive ms),
          "Warning: n does not exist, skipping\n".toList⟩) ∧
    ms.map (·.bytes) = [[], [], [1], [2, 3]] := by
  have hp : larder.locateWrite "/j".toList = .ok ["j".toList] := rfl
  have ha : ∀ i ∈ groceries, i.path.isAbsolute = true := by decide
  have hn : ∀ i ∈ groceries, true = true →
      larder.NestsBelow i.path ({ chunk := 512 } : Storage).nests := fun i _ _ =>
    Disk.nestsBelow_of_items (linkFree_larder []) (by decide) (by decide) i.path
  obtain ⟨h, -, -⟩ := pack_stored (s := { chunk := 512 }) (w := ⟨larder, []⟩) true
    (fun _ _ => rfl) (by decide) sound_larder
    (Disk.linksFit_of_items (by simp [larder])) hp ha (fun _ _ l _ => linkFree_larder l) hn
  have hentries : (groceries.flatMap fun i =>
      i.stored (larder.write ["j".toList] []) ["j".toList] true).map Member.entry =
        [⟨"d/".toList, true, 0⟩, ⟨"d/e/".toList, true, 0⟩, ⟨"d/e/b".toList, false, 1⟩,
          ⟨"f".toList, false, 2⟩] := by decide +kernel
  have hlines : groceries.flatMap (fun i =>
      i.reported (larder.write ["j".toList] []) ["j".toList] true) =
        ["Warning: n does not exist, skipping".toList] := by decide +kernel
  rw [hentries, hlines] at h
  exact ⟨_, h, by decide +kernel⟩

/-- A name of nearly the length a name may have. -/
def longName : Text := List.replicate 63 '😀'

/-- A file in a directory with a long name. -/
def attic : Disk where
  items := [
    ([longName], .directory),
    ([longName, "ab".toList], .file [1])]

/-- A path to the directory that comes back to it often. -/
def remote : Path := '/' :: (List.replicate 15 (longName ++ "/../".toList)).flatten ++ longName

/-- What packing one item into an empty archive returns and shows. -/
def packed (s : Storage) (d : Disk) (archive item : Path) : Option (List Entry) × Text :=
  let (r, w) := (pack s archive [⟨"i".toList, item⟩] true).run ⟨d, []⟩
  (r.toOption, w.shown)

/-- A file whose path is too long is reported and not stored, and so is a file that is read in
requests that cannot be served. Two slashes lead to the root, which has no name for the entries in
it. A tree deeper than calls may nest is not packed. -/
theorem pack_limits :
    (attic.get? [longName, "ab".toList] = some (.file [1]) ∧
      packed { chunk := 512 } attic "/j".toList remote =
        (some [⟨longName ++ ['/'], true, 0⟩], "Error: Cannot add i/ab to zip file\n".toList)) ∧
    packed { chunk := 512, memory := 512 } larder "/j".toList "/f".toList =
      (some [], "Error: Cannot add i to zip file\n".toList) ∧
    (Path.normalize "//".toList ≠ ['/'] ∧
      packed { chunk := 512 } ⟨[(["d".toList], .directory)]⟩ "/d/j".toList "//".toList =
        (some [⟨"/".toList, true, 0⟩, ⟨"d/".toList, true, 0⟩], [])) ∧
    packed { chunk := 512, nests := 1 } larder "/j".toList "/d".toList = (none, []) := by
  refine ⟨⟨?_, ?_⟩, ?_, ⟨?_, ?_⟩, ?_⟩ <;> decide +kernel

end FileShell
