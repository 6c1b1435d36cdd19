import FileShell.Proofs.Archive.RoundTrip
import FileShell.Proofs.Shell.Unzipping

/-!
# Zipping and unzipping

A line `zip -r` and a line `unzip` of its archive are a round trip.
-/

namespace FileShell

theorem isSuffixOf_append_slash {t p q : Text} (ht : '/' ∉ t) :
    t.isSuffixOf (p ++ '/' :: q) = t.isSuffixOf q := by
  rw [Bool.eq_iff_iff, List.isSuffixOf_iff_suffix, List.isSuffixOf_iff_suffix]
  constructor
  · intro h
    by_cases hl : t.length ≤ q.length
    · refine List.suffix_of_suffix_length_le h ?_ hl
      exact (List.suffix_cons '/' q).trans (List.suffix_append _ _)
    · have hle : ('/' :: q).length ≤ t.length := by
        rw [List.length_cons]
        omega
      have hs := List.suffix_of_suffix_length_le (List.suffix_append p ('/' :: q)) h hle
      exact absurd (hs.mem List.mem_cons_self) ht
  · exact fun h => h.trans ((List.suffix_cons '/' q).trans (List.suffix_append _ _))

namespace Session

variable {session : Session} {p : Path}

/-- The suffix of an archive is added to the last name, whatever directory the path is seen from. -/
theorem resolve_archivePath (session : Session) (p : Path) :
    session.resolve (archivePath p) = archivePath (session.resolve p) := by
  unfold resolve archivePath
  rcases hp : p.isAbsolute with _ | _
  · have ha : (p ++ ".zip".toList).isAbsolute = false := by
      cases p with
      | nil => rfl
      | cons c p => exact hp
    have hsuf :
        ".zip".toList.isSuffixOf (session.directory ++ '/' :: p) = ".zip".toList.isSuffixOf p :=
      isSuffixOf_append_slash (by decide)
    rw [if_neg Bool.false_ne_true, hsuf]
    rcases ".zip".toList.isSuffixOf p with _ | _
    · simp only [Bool.false_eq_true, if_false, ha, List.append_assoc, List.cons_append]
    · simp only [Bool.false_eq_true, if_false, if_true, hp]
  · have ha : (p ++ ".zip".toList).isAbsolute = true := by
      cases p with
      | nil => cases hp
      | cons c p => exact hp
    rw [if_pos rfl]
    rcases ".zip".toList.isSuffixOf p with _ | _
    · simp only [Bool.false_eq_true, if_false, ha, if_true]
    · simp only [if_true, hp]

theorem leadingSlashes_resolve (hs : Path.leadingSlashes session.directory = 1)
    (hr : session.directory ≠ ['/']) (hp : Path.leadingSlashes p ≠ 2) :
    Path.leadingSlashes (session.resolve p) = 1 := by
  unfold resolve
  split_ifs with ha
  · rcases p with _ | ⟨c, p⟩
    · cases ha
    · obtain rfl : c = '/' := by simpa [Path.isAbsolute] using ha
      unfold Path.leadingSlashes at hp ⊢
      split at hp <;> simp_all
  · exact Path.leadingSlashes_append hs (.inl hr)

/-- What the arguments of `zip` ask to be packed. -/
def packItems (session : Session) (labels : List Text) : List PackItem :=
  labels.map fun label => ⟨label, session.resolve label⟩

end Session

namespace Handler

variable {s : Storage} {session : Session} {w : World} {a b t : Text} {ts : List Text}

theorem run_zipItems (recursive : Bool) : (zipItems s recursive session (a :: t :: ts)).run w =
    match (pack s (archivePath (session.resolve a)) (session.packItems (t :: ts)) recursive).run w with
    | (.ok _, w') => (.ok session, w')
    | (.error e, w') => (.error (CommandError.cannotPack.overArchive e), w') := by
  unfold zipItems Session.packItems
  simp only [Act.run_bind, Act.run_adapt, Act.run_pure]
  rcases (pack s (archivePath (session.resolve a)) _ recursive).run w with ⟨_ | _, w'⟩ <;> rfl

theorem run_zip : ((zip s).run ("-r".toList :: a :: t :: ts) session).run w =
    match (pack s (archivePath (session.resolve a)) (session.packItems (t :: ts)) true).run w with
    | (.ok _, w') => (.ok session, w')
    | (.error e, w') => (.error (CommandError.cannotPack.overArchive e), w') := run_zipItems true

end Handler

open Packing Portable

variable {s : Storage} {session : Session} {w w₁ w₂ : World} {line line' c c' a b : Text}
  {labels : List Text} {out ld : Loc} {q : Path} {place : PackItem → Loc}

/-- A line `zip -r` that can open its archive shows nothing and writes nothing else. -/
theorem zip_line (h : Portable s w.disk (archivePath (session.resolve a)) q out
      (session.packItems labels) place) (hne : labels ≠ [])
    (hl : CommandLine.split line = ⟨c, none⟩)
    (hc : Command.parse? c = some ⟨"zip".toList, "-r".toList :: a :: labels⟩) :
    runLine s line session w = (session, { w with
      disk := (w.disk.write out []).write out (Member.archive
        (members (w.disk.write out []) out place (session.packItems labels))) }) := by
  obtain ⟨t, ts, rfl⟩ := List.exists_cons_of_ne_nil hne
  have hrun := run_pack (h.calm _ _) h.archive (h.run_packItems _) h.packs
  refine runLine_of_ok hl hc (Handler.route_zip _) ?_
  rw [Handler.run_zip, hrun]
  simp [Text.unlines]
  rfl

/-- What a line `unzip` leaves that finds such an archive and an empty directory for it. -/
theorem unzip_line {d d' : Disk} {items : List PackItem}
    (h : Portable s d (archivePath (session.resolve a)) (session.resolve b) out items place)
    (hm : Member.Storable (members (d.write out []) out place items)) (hs : w.disk.Sound)
    (hw : w.disk.locateWrite (archivePath (session.resolve a)) = .ok out)
    (hf : w.disk.get? out =
      some (.file (Member.archive (members (d.write out []) out place items))))
    (hl : CommandLine.split line = ⟨c, none⟩)
    (hc : Command.parse? c = some ⟨"unzip".toList, [archivePath a, "-d".toList, b]⟩)
    (hq : Path.leadingSlashes (session.resolve b) = 1)
    (habove : w.disk.missingAbove (session.resolve b) ≤ s.nests)
    (hmake : w.disk.makeDirs true (session.resolve b) = (.ok (), d'))
    (hd : d'.Vacant (session.resolve b) ld) :
    ∃ w', runLine s line session w = (session, w') ∧ w'.shown = w.shown ∧
      (∀ i ∈ items, ∀ r, w'.disk.get? (ld ++ i.base :: r) =
        if place i ++ r = out then none else (d.get? (place i ++ r)).map Item.packed) ∧
      ∀ k, (∀ i ∈ items, ¬ ld ++ [i.base] <+: k) → w'.disk.get? k = d'.get? k := by
  obtain ⟨hs', hmore⟩ := hs.makeDirs true (session.resolve b)
  rw [hmake] at hs' hmore
  -- making the destination leaves the archive where it was
  have hloc := Disk.locateWrite_of_keeps (Disk.Keeps.refl w.disk) hw
  have hloc' := Disk.locateWrite_of_keeps hmore.keeps hw
  have hf' := hmore.get? hf
  have hfile : w.disk.isFile (archivePath (session.resolve a)) = true := by
    simp [Disk.isFile, Disk.find?, hloc, hf]
  have hfile' : d'.isFile (archivePath (session.resolve a)) = true := by
    simp [Disk.isFile, Disk.find?, hloc', hf']
  have hread : d'.read (archivePath (session.resolve a)) =
      .ok (Member.archive (members (d.write out []) out place items)) := by
    simp [Disk.read, hloc', Disk.bytesAt, hf', bind, Except.bind]
  obtain ⟨es, w', hrun, hshown, hitems, hrest⟩ :=
    unpack_packed (w := ⟨d', w.shown⟩) h hm hfile' hread hs' hd hq
  refine ⟨w', ?_, hshown, hitems, hrest⟩
  refine runLine_of_ok hl hc (Handler.route_unzip _) ?_
  rw [Handler.run_unzip (show Handler.unzipArgs _ = .ok (archivePath a, some b) from rfl),
    Session.resolve_archivePath, if_pos hfile, Handler.reach, Storage.run_makeDirs, h.calm,
    if_neg Bool.false_ne_true, Storage.making_eq habove, hmake]
  simp only [Act.mapError_ok, Session.destination, hrun]

/-- What is zipped and then unzipped into an empty directory is there again, item by item: every
directory, and every file with its bytes, without the archive. Nothing else is there, and nothing
is shown. -/
theorem zip_unzip_lines {session' : Session} {bytes : Bytes} {d : Disk}
    (hdir : Path.leadingSlashes session.directory = 1) (hroot : session.directory ≠ ['/'])
    (h : Portable s w.disk (archivePath (session.resolve a)) (session.resolve b) out
      (session.packItems labels) place) (hne : labels ≠ [])
    (hl : CommandLine.split line = ⟨c, none⟩)
    (hc : Command.parse? c = some ⟨"zip".toList, "-r".toList :: a :: labels⟩)
    (hzip : runLine s line session w = (session', w₁))
    (hbytes : w₁.disk.get? out = some (.file bytes)) (hsize : bytes.length < 0x100000000)
    (hplain : ¬ Member.HasLocator bytes)
    (hl' : CommandLine.split line' = ⟨c', none⟩)
    (hc' : Command.parse? c' = some ⟨"unzip".toList, [archivePath a, "-d".toList, b]⟩)
    (hb : Path.leadingSlashes b ≠ 2)
    (habove : w₁.disk.missingAbove (session.resolve b) ≤ s.nests)
    (hmake : w₁.disk.makeDirs true (session.resolve b) = (.ok (), d))
    (hd : d.Vacant (session.resolve b) ld)
    (hunzip : (runLine s line' session' w₁).2 = w₂) :
    w₁.shown = w.shown ∧ (∀ k ≠ out, w₁.disk.get? k = w.disk.get? k) ∧ w₂.shown = w₁.shown ∧
      (∀ i ∈ session.packItems labels, ∀ r, w₂.disk.get? (ld ++ i.base :: r) =
        if place i ++ r = out then none else (w.disk.get? (place i ++ r)).map Item.packed) ∧
      ∀ k, (∀ i ∈ session.packItems labels, ¬ ld ++ [i.base] <+: k) →
        w₂.disk.get? k = d.get? k := by
  have hs := h.sound.write_of_locateWrite h.archive []
  have hw := h.sound.locateWrite_write h.archive []
  rw [zip_line h hne hl hc] at hzip
  obtain ⟨rfl, rfl⟩ := Prod.mk.inj hzip
  have hget := Storage.get?_write_write (d := w.disk) []
    (Member.archive (members (w.disk.write out []) out place (session.packItems labels)))
    (h.sound.of_locateWrite h.archive).1
  have hplaced := hbytes
  rw [hget, if_pos rfl] at hplaced
  obtain rfl := Overlay.eq_of_placed hplaced
  have hm := h.storable hsize hplain
  have hq := Session.leadingSlashes_resolve hdir hroot hb
  obtain ⟨w', hline, hshown, hitems, hrest⟩ := unzip_line h hm (hs.write_of_locateWrite hw _)
    (hs.locateWrite_write hw _) hbytes hl' hc' hq habove hmake hd
  rw [hline] at hunzip
  subst hunzip
  refine ⟨rfl, fun k hk => ?_, hshown, hitems, hrest⟩
  rw [hget, if_neg hk]

/-- A tree without files beside a file, and an empty directory. -/
def shelf : Disk where
  items := [
    (["w".toList], .directory),
    (["w".toList, "s".toList], .directory),
    (["w".toList, "s".toList, "e".toList], .directory),
    (["w".toList, "g".toList], .file [1, 2]),
    (["w".toList, "d".toList], .directory)]

/-- A session in the directory of the shelf. -/
def atShelf : Session := ⟨"/w".toList, "/".toList, true⟩

/-- The place of an item on the shelf. -/
def onShelf (i : PackItem) : Loc := ["w".toList, i.label]

/-- The place of an archive in the innermost directory of the tree. -/
def bundle : Loc := ["w".toList, "s".toList, "e".toList, "z.zip".toList]

theorem portable_shelf : Portable { chunk := 512 } shelf
    (archivePath (atShelf.resolve "s/e/z".toList)) (atShelf.resolve "d".toList) bundle
    (atShelf.packItems ["s".toList, "g".toList]) onShelf where
  calm _ _ := rfl
  serves := by decide
  sound := Disk.sound_of_items (by decide) (by decide) (by simp [shelf])
  fit := Disk.linksFit_of_items (by simp [shelf])
  archive := rfl
  absolute := by decide
  packable i hi := by
    have hf : shelf.LinkFree (onShelf i) :=
      fun k t _ => Disk.get?_ne_link_of_items (by simp [shelf]) k t
    rcases List.mem_pair.1 hi with rfl | rfl
    · exact ⟨rfl, hf, .inl ⟨by decide, by decide⟩⟩
    · exact ⟨rfl, hf, .inr ⟨[1, 2], by decide⟩⟩
  distinct := by decide
  short i hi r hr ho := by
    have hall : ∀ e ∈ shelf.items, ∀ i ∈ atShelf.packItems ["s".toList, "g".toList],
        ((e.1.drop 2).foldl Path.join i.path).fits = true ∧
          ((i.base :: e.1.drop 2).foldl Path.join (atShelf.resolve "d".toList)).fits = true := by
      decide
    obtain ⟨j, hj⟩ := Option.isSome_iff_exists.1 hr
    exact hall _ (Disk.mem_items_of_get? hj (by simp [onShelf])) i hi
  nests i _ := Disk.nestsBelow_of_items
    (fun k t _ => Disk.get?_ne_link_of_items (by simp [shelf]) k t) (by decide) (by decide) i.path

/-- What the archive of the shelf holds. -/
def bundled : List Member :=
  members (shelf.write bundle []) bundle onShelf (atShelf.packItems ["s".toList, "g".toList])

/-- The world after the shelf was zipped. -/
def zipped : World := (runLine { chunk := 512 } "zip -r s/e/z s g".toList atShelf ⟨shelf, []⟩).2

/-- The world after its archive was unzipped into the empty directory. -/
def unzipped : World := (runLine { chunk := 512 } "unzip s/e/z.zip -d d".toList atShelf zipped).2

theorem zip_shelf : runLine { chunk := 512 } "zip -r s/e/z s g".toList atShelf ⟨shelf, []⟩ =
    (atShelf, ⟨(shelf.write bundle []).write bundle (Member.archive bundled), []⟩) :=
  zip_line (w := ⟨shelf, []⟩) portable_shelf (by decide)
    (show CommandLine.split _ = ⟨"zip -r s/e/z s g".toList, none⟩ by decide) (by decide)

theorem zip_shelf_zipped :
    runLine { chunk := 512 } "zip -r s/e/z s g".toList atShelf ⟨shelf, []⟩ = (atShelf, zipped) := by
  rw [zipped, zip_shelf]

theorem get?_zipped (k : Loc) : zipped.disk.get? k =
    if k = bundle then some (.file (Member.archive bundled)) else shelf.get? k := by
  have hnone : shelf.get? bundle = none := by decide
  have h := Storage.get?_write_write (d := shelf) [] (Member.archive bundled)
    (List.cons_ne_nil "w".toList _) (m := bundle) k
  rw [hnone] at h
  rw [zipped, zip_shelf]
  exact h

theorem vacant_zipped :
    zipped.disk.Vacant (atShelf.resolve "d".toList) ["w".toList, "d".toList] where
  located := by decide +kernel
  directory := by decide +kernel
  empty k hk hne := by
    have hall : ∀ e ∈ shelf.items, ["w".toList, "d".toList] <+: e.1 →
        e.1 = ["w".toList, "d".toList] := by decide
    have hnil : k ≠ [] := by
      rintro rfl
      simp at hk
    have hout : k ≠ bundle := by
      rintro rfl
      revert hk
      decide
    rw [get?_zipped, if_neg hout]
    rcases hi : shelf.get? k with _ | i
    · rfl
    · exact absurd (hall _ (Disk.mem_items_of_get? hi hnil) hk) hne

theorem zip_unzip_lines_shelf :
    zipped.shown = [] ∧ unzipped.shown = [] ∧
      unzipped.disk.get? ["w".toList, "d".toList, "s".toList, "e".toList] = some .directory ∧
      unzipped.disk.get?
        ["w".toList, "d".toList, "s".toList, "e".toList, "z.zip".toList] = none ∧
      unzipped.disk.get? ["w".toList, "d".toList, "g".toList] = some (.file [1, 2]) := by
  have hout : zipped.disk.get? bundle = some (.file (Member.archive bundled)) := by
    rw [get?_zipped, if_pos rfl]
  have hmake : zipped.disk.makeDirs true (atShelf.resolve "d".toList) = (.ok (), zipped.disk) :=
    Disk.makeDirs_of_isDir (by decide +kernel)
  have hunzip : (runLine { chunk := 512 } "unzip s/e/z.zip -d d".toList atShelf zipped).2 =
      unzipped := by
    rw [unzipped]
  obtain ⟨-, -, hshown, hitems, -⟩ := zip_unzip_lines (by decide) (by decide) portable_shelf
    (by decide) (show CommandLine.split _ = ⟨"zip -r s/e/z s g".toList, none⟩ by decide)
    (by decide) zip_shelf_zipped hout (by decide +kernel) (by decide +kernel)
    (show CommandLine.split _ = ⟨"unzip s/e/z.zip -d d".toList, none⟩ by decide) (by decide)
    (by decide) (by rw [Disk.missingAbove_of_isDir (by decide +kernel)]; decide) hmake vacant_zipped
    hunzip
  have hquiet : zipped.shown = [] := by decide +kernel
  have hs := hitems ⟨"s".toList, "/w/s".toList⟩ (.head _)
  have hg := hitems ⟨"g".toList, "/w/g".toList⟩ (.tail _ (.head _))
  exact ⟨hquiet, hshown.trans hquiet, hs ["e".toList], hs ["e".toList, "z.zip".toList], hg []⟩

/-- The world after one directory of the shelf was zipped beside the others. -/
def zippedBeside : World := (runLine { chunk := 512 } "zip -r A s/e".toList atShelf ⟨shelf, []⟩).2

/-- The world after that archive was unzipped to the parent of a directory that was not there. -/
def unzippedBeside : World :=
  (runLine { chunk := 512 } "unzip A.zip -d x/..".toList atShelf zippedBeside).2

/-- A directory with a long name in another one. -/
def longShelf : Disk where
  items := [
    (["w".toList], .directory),
    (["w".toList, longName], .directory),
    (["w".toList, longName, longName], .directory)]

/-- A path to a long name that comes back to it often. -/
def winding : Text := (List.replicate 15 (longName ++ "/../".toList)).flatten ++ longName

/-- The directory of the shelf with nothing in it. -/
def bareShelf : Disk where
  items := [(["w".toList], .directory)]

/-- The world after the root was zipped by a path that has no last component. -/
def zippedRoot : World := (runLine { chunk := 512 } "zip -r A //".toList atShelf ⟨bareShelf, []⟩).2

/-- A path that is not there may lead to a full directory once it is made. What is below an item
whose path is long is too far away, and no file is read in requests that cannot be served. Two
slashes are a normal path to the root, whose entries then have no name to stand under. Directories
that nest deeper than calls may are not zipped, and the line does not come to its end. -/
theorem zip_unzip_limits :
    (zippedBeside.shown = [] ∧
      zippedBeside.disk.pathExists (atShelf.resolve "x/..".toList) = false ∧
      (zippedBeside.disk.makeDirs true (atShelf.resolve "x/..".toList)).1 = .ok () ∧
      unzippedBeside.shown = [] ∧
      unzippedBeside.disk.locate true (atShelf.resolve "x/..".toList) = .ok ["w".toList] ∧
      unzippedBeside.disk.get? ["w".toList, "x".toList] = some .directory) ∧
    (longShelf.isDir (atShelf.resolve winding) = true ∧
      "Error: Cannot add ".toList <+:
        (runLine { chunk := 512 } ("zip -r A ".toList ++ winding) atShelf
          ⟨longShelf, []⟩).2.shown) ∧
    (runLine { chunk := 512, memory := 512 } "zip -r A g".toList atShelf ⟨shelf, []⟩).2.shown =
      "Error: Cannot add g to zip file\n".toList ∧
    (Path.normalize "//".toList ≠ ['/'] ∧ zippedRoot.shown = [] ∧
      (runLine { chunk := 512 } "unzip A.zip -d d".toList atShelf zippedRoot).2.shown =
        "Warning: Skipping unsafe entry /\n".toList) ∧
    (execute { chunk := 512, nests := 1 } "zip -r A s".toList atShelf ⟨shelf, []⟩).1.2 =
      some .recursion := by
  refine ⟨⟨?_, ?_, ?_, ?_, ?_, ?_⟩, ⟨?_, ?_⟩, ?_, ⟨?_, ?_, ?_⟩, ?_⟩ <;> decide +kernel

end FileShell
