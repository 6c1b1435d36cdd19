import FileShell.Proofs.Archive.Containment
import FileShell.Proofs.Archive.Turns
import FileShell.Proofs.Shell.Dispatch

/-!
# Lines that unzip

What a line `unzip` comes to: the destination is made if one is named, the archive is opened, and
its entries have their turns. Which entries are skipped is settled by their names and by how many
slashes begin the destination (`unzip_line_turns`); below two slashes all are, and a session in the
root directory names every destination that way. The archive itself is a file like any other: it
keeps its bytes unless an entry leads to it (`unzip_line_archive`). The entries are those of the bytes
that the archive had when it was opened; once an entry has been written over them, they are what a
reader meets as far as its buffer of 4096 bytes goes, and no more is said here.
-/

namespace FileShell

/-- Where `unzip` unpacks, with or without `-d`. -/
def Session.destination (session : Session) : Option Text → Path
  | none => session.directory
  | some t => session.resolve t

theorem Session.isAbsolute_destination {session : Session}
    (h : session.directory.isAbsolute = true) : ∀ t : Option Text,
    (session.destination t).isAbsolute = true
  | none => h
  | some t => session.isAbsolute_resolve h t

namespace Reader

variable {s : Storage} {p : Path} {w w' : World} {r : Reader}

/-- What comes of opening an archive depends on what the path leads to and nothing else. -/
theorem openAt_eq (s : Storage) (p : Path) (w : World) : ((openAt s p).run w).1 =
    if s.refuses .openReader p then .error .refused
    else if w.disk.isFile p then
      match w.disk.read p with
      | .error _ => .error (.unsupported p)
      | .ok b => match Archive.ofBytes b with
        | .ok a => .ok ⟨a, false⟩
        | .error .damaged => .error (.damaged p)
        | .error .unsupported => .error (.unsupported p)
    else .error (.absent p) := by
  unfold openAt
  rw [Act.run_bind, Storage.run_allow]
  rcases s.refuses .openReader p
  · simp only [Bool.false_eq_true, if_false, Act.run_bind, Act.run_get, Act.run_ite,
      Storage.run_ask]
    rcases w.disk.isFile p
    · rfl
    · simp only [Bool.not_true, Bool.false_eq_true, if_false, if_true]
      rcases w.disk.read p with _ | b
      · rfl
      · simp only [Act.mapError_ok]
        rcases Archive.ofBytes b with (_ | _) | a <;> rfl
  · rfl

theorem isFile_of_openAt (h : ((openAt s p).run w).1 = .ok r) : w.disk.isFile p = true := by
  rw [openAt_eq] at h
  split_ifs at h with _ hf
  exact hf

/-- An archive that opens still opens once directories were made. -/
theorem openAt_of_more (hd : w.disk.MoreDirectories w'.disk)
    (h : ((openAt s p).run w).1 = .ok r) : ((openAt s p).run w').1 = .ok r := by
  have hf := isFile_of_openAt h
  obtain ⟨l, b, hl, hb⟩ := Disk.isFile_iff.1 hf
  have hl' := Disk.locate_of_keeps hd.keeps hl
  have hf' : w'.disk.isFile p = true := Disk.isFile_iff.2 ⟨l, b, hl', hd.get? hb⟩
  have hr : w'.disk.read p = w.disk.read p := by
    simp [Disk.read, hl, hl', Disk.bytesAt, hb, hd.get? hb, bind, Except.bind]
  rw [openAt_eq, hf', hr]
  rw [openAt_eq, hf] at h
  exact h

end Reader

namespace Handler

variable {s : Storage} {session : Session} {w w₁ : World} {args : List Text} {a : Text}
  {t : Option Text} {l : Loc} {b : Bytes} {r : Reader}

/-- Makes the destination if one is named. -/
def reach (s : Storage) (session : Session) : Option Text → Act StorageError Unit
  | none => return ()
  | some t => s.makeDirs (session.resolve t) true

/-- What `unzip` does with arguments that name an archive. -/
theorem run_unzip (h : unzipArgs args = .ok (a, t)) : ((unzip s).run args session).run w =
    if w.disk.isFile (session.resolve a) then
      match (reach s session t).run w with
      | (.error _, w') => (.error .cannotMakeDestination, w')
      | (.ok (), w') => match (unpack s (session.resolve a) (session.destination t)).run w' with
        | (.ok _, w'') => (.ok session, w'')
        | (.error _, w'') => (.error .cannotUnpack, w'')
    else (.error .noArchive, w) := by
  unfold unzip
  dsimp only
  rw [h]
  simp only [Act.run_bind, Act.run_lift, Storage.run_isFile, Act.run_ite, Act.run_throw]
  rcases w.disk.isFile (session.resolve a)
  · rfl
  simp only [Bool.not_true, Bool.false_eq_true, if_false, if_true]
  rcases t with _ | t
  · simp only [Act.run_bind, Act.run_pure, Act.run_failingWith, reach, Session.destination]
    rcases (unpack s (session.resolve a) session.directory).run w with ⟨_ | _, w'⟩ <;> rfl
  · simp only [Act.run_bind, Act.run_failingWith, reach, Session.destination]
    rcases (s.makeDirs (session.resolve t) true).run w with ⟨_ | ⟨⟩, w'⟩
    · rfl
    · simp only [Act.mapError_ok, Act.run_pure]
      rcases (unpack s (session.resolve a) (session.resolve t)).run w' with ⟨_ | _, w''⟩ <;> rfl

theorem moreDirectories_reach (s : Storage) (session : Session) (w : World) : ∀ t : Option Text,
    w.disk.MoreDirectories ((reach s session t).run w).2.disk
  | none => .refl w.disk
  | some t => Unpacking.moreDirectories_makeDirs s w (session.resolve t)

end Handler

/-- Unpacking an archive that opens is the turns of its entries. -/
theorem run_unpack (s : Storage) (p destination : Path) (w : World) :
    (unpack s p destination).run w = match ((Reader.openAt s p).run w).1 with
      | .error e => (.error e, w)
      | .ok r => (.ok (Unpacking.unpackAll s r destination r.entries w).1,
          (r.entries.forM (Unpacking.turn s r (Unpacking.target? destination)) w).2) := by
  have hw := Reader.run_openAt s p w
  unfold unpack
  rw [Act.run_bind]
  generalize (Reader.openAt s p).run w = m at hw ⊢
  obtain ⟨_ | r, w'⟩ := m <;> obtain rfl : w' = w := hw
  · rfl
  · dsimp only
    rw [Act.run_lift, Unpacking.run_unpackAll]

section Line

open Handler (unzipArgs reach)
open Unpacking (turn target? writes)

variable {s : Storage} {session : Session} {w w₁ : World} {line c a : Text} {args : List Text}
  {t : Option Text} {r : Reader} {l : Loc} {b : Bytes}

/-- A line that opens its archive and makes its destination takes the entries in turn. An entry is
skipped with a warning exactly if its name strays or two slashes begin the destination; any other
entry is attempted, at the path of its components below the destination. -/
theorem unzip_line_turns (hl : CommandLine.split line = ⟨c, none⟩)
    (hc : Command.parse? c = some ⟨"unzip".toList, args⟩) (hargs : unzipArgs args = .ok (a, t))
    (habs : session.directory.isAbsolute = true)
    (hr : ((Reader.openAt s (session.resolve a)).run w).1 = .ok r)
    (hm : (reach s session t).run w = (.ok (), w₁)) :
    runLine s line session w = (session, (r.entries.forM (turn s r fun name =>
      if Entry.Stray name ∨ Path.leadingSlashes (session.destination t) = 2 then none
      else some ((Entry.parts name).foldl Path.join (session.destination t))) w₁).2) := by
  have htarget := funext fun name =>
    Entry.target?_eq (session.isAbsolute_destination habs t) name
  -- the archive is opened on the disk with the destination made
  have hmore := Handler.moreDirectories_reach s session w t
  rw [hm] at hmore
  refine runLine_of_ok hl hc (Handler.route_unzip args) ?_
  rw [Handler.run_unzip hargs, if_pos (Reader.isFile_of_openAt hr), hm]
  dsimp only
  rw [run_unpack, Reader.openAt_of_more hmore hr, htarget]

/-- The writes of a line that unzips the archive `a`. -/
def unzipWrites (s : Storage) (session : Session) (a : Text) (t : Option Text) (w : World) :
    Writes :=
  match (reach s session t).run w with
  | (.error _, _) => []
  | (.ok (), w') => match ((Reader.openAt s (session.resolve a)).run w').1 with
    | .error _ => []
    | .ok r => writes s r (target? (session.destination t)) r.entries w'

theorem disk_unzip_line (hl : CommandLine.split line = ⟨c, none⟩)
    (hc : Command.parse? c = some ⟨"unzip".toList, args⟩) (hargs : unzipArgs args = .ok (a, t))
    (hf : w.disk.isFile (session.resolve a) = true) :
    (runLine s line session w).2.disk = match (reach s session t).run w with
      | (.error _, w') => w'.disk
      | (.ok (), w') =>
        ((unpack s (session.resolve a) (session.destination t)).run w').2.disk := by
  rw [runLine_eq hl hc, Handler.run_dispatch (Handler.route_unzip args), Handler.run_unzip hargs,
    if_pos hf]
  rcases (reach s session t).run w with ⟨_ | ⟨⟩, w'⟩
  · rfl
  · dsimp only
    rcases (unpack s (session.resolve a) (session.destination t)).run w' with ⟨_ | _, w''⟩ <;> rfl

theorem get?_unzip_line (hl : CommandLine.split line = ⟨c, none⟩)
    (hc : Command.parse? c = some ⟨"unzip".toList, args⟩) (hargs : unzipArgs args = .ok (a, t))
    (hloc : w.disk.locate true (session.resolve a) = .ok l)
    (hb : w.disk.get? l = some (.file b)) :
    (runLine s line session w).2.disk.get? l =
      some (.file ((Writes.lastAt l (unzipWrites s session a t w)).getD b)) := by
  have hmore := (Handler.moreDirectories_reach s session w t).get? hb
  rw [disk_unzip_line hl hc hargs (Disk.isFile_iff.2 ⟨l, b, hloc, hb⟩), unzipWrites]
  generalize (reach s session t).run w = m at hmore ⊢
  obtain ⟨_ | ⟨⟩, w'⟩ := m
  · exact hmore
  dsimp only
  rw [run_unpack]
  rcases ((Reader.openAt s (session.resolve a)).run w').1 with e | r
  · exact hmore
  · exact Unpacking.get?_turns s r _ r.entries hmore

/-- After a line that unzips it, an archive holds what the line wrote to its place last, or its own
bytes if the line wrote nothing there. What an entry gives once the archive was written over is said
for an archive that the reader's buffer holds. -/
theorem unzip_line_archive (hl : CommandLine.split line = ⟨c, none⟩)
    (hc : Command.parse? c = some ⟨"unzip".toList, args⟩) (hargs : unzipArgs args = .ok (a, t))
    (hloc : w.disk.locate true (session.resolve a) = .ok l)
    (hb : w.disk.get? l = some (.file b)) :
    (runLine s line session w).2.disk.get? l =
        some (.file ((Writes.lastAt l (unzipWrites s session a t w)).getD b)) ∧
      ((runLine s line session w).2.disk.get? l = w.disk.get? l ↔
        ∀ x, Writes.lastAt l (unzipWrites s session a t w) = some x → x = b) := by
  have hheld := get?_unzip_line (s := s) hl hc hargs hloc hb
  refine ⟨hheld, ?_⟩
  rw [hheld, hb, ← Writes.getD_lastAt_eq_iff]
  simp

/-- A session in the directory that is besieged. -/
def inside : Session := ⟨"/in".toList, "/".toList, true⟩

/-- The names in an archive, if it opens. -/
def namesIn? (s : Storage) (p : Path) (w : World) : Option (List Text) :=
  match ((Reader.openAt s p).run w).1 with
  | .error _ => none
  | .ok r => some (r.entries.map (·.name))

theorem exists_of_namesIn? {p : Path} {names : List Text} (h : namesIn? s p w = some names) :
    ∃ r, ((Reader.openAt s p).run w).1 = .ok r ∧ r.entries.map (·.name) = names := by
  unfold namesIn? at h
  rcases hr : ((Reader.openAt s p).run w).1 with e | r
  · rw [hr] at h
    cases h
  · rw [hr] at h
    exact ⟨r, rfl, Option.some.inj h⟩

theorem unzip_line_turns_besieged : ∃ r : Reader,
    r.entries.map (·.name) = ["../near".toList, "/near".toList, "x/../../near".toList,
      "./x//y".toList, "old".toList] ∧
    runLine { chunk := 512 } "unzip /a".toList inside ⟨besieged, []⟩ =
      (inside, (r.entries.forM (turn { chunk := 512 } r fun name =>
        if Entry.Stray name ∨ Path.leadingSlashes "/in".toList = 2 then none
        else some ((Entry.parts name).foldl Path.join "/in".toList)) ⟨besieged, []⟩).2) := by
  have hopen : namesIn? { chunk := 512 } "/a".toList ⟨besieged, []⟩ = some ["../near".toList,
      "/near".toList, "x/../../near".toList, "./x//y".toList, "old".toList] := by
    decide +kernel
  obtain ⟨r, hr, hnames⟩ := exists_of_namesIn? hopen
  exact ⟨r, hnames, unzip_line_turns
    (show CommandLine.split _ = ⟨"unzip /a".toList, none⟩ by decide) (by decide)
    (show Handler.unzipArgs ["/a".toList] = .ok ("/a".toList, none) from rfl) (by decide) hr rfl⟩

theorem unzip_line_archive_besieged :
    besieged.locate true "/a".toList = .ok ["a".toList] ∧
      (runLine { chunk := 512 } "unzip /a".toList inside ⟨besieged, []⟩).2.disk.get? ["a".toList] =
        besieged.get? ["a".toList] := by
  have hloc : besieged.locate true (inside.resolve "/a".toList) = .ok ["a".toList] := rfl
  have hnone : Writes.lastAt ["a".toList]
      (unzipWrites { chunk := 512 } inside "/a".toList none ⟨besieged, []⟩) = none := by
    decide +kernel
  refine ⟨hloc, (unzip_line_archive (w := ⟨besieged, []⟩)
    (show CommandLine.split _ = ⟨"unzip /a".toList, none⟩ by decide) (by decide)
    (show Handler.unzipArgs ["/a".toList] = .ok ("/a".toList, none) from rfl) hloc rfl).2.2 ?_⟩
  intro x hx
  rw [hnone] at hx
  cases hx

/-- A session in the root directory. -/
def atRoot : Session := ⟨['/'], ['/'], true⟩

/-- An archive in the root directory with an entry of its own name. -/
def ouroboros : Disk where
  items := [(["a".toList], .file (Member.archive [⟨"a".toList, false, [3]⟩]))]

/-- In the root directory a destination that is named skips an entry whose name does not stray. -/
theorem unzip_in_root :
    atRoot.directory.isAbsolute = true ∧ ¬ Entry.Stray "a".toList ∧
      namesIn? { chunk := 512 } (atRoot.resolve "a".toList) ⟨ouroboros, []⟩ = some ["a".toList] ∧
      ((reach { chunk := 512 } atRoot (some "d".toList)).run ⟨ouroboros, []⟩).1.isOk = true ∧
      (runLine { chunk := 512 } "unzip a -d d".toList atRoot ⟨ouroboros, []⟩).2.shown =
        "Warning: Skipping unsafe entry a\n".toList := by
  refine ⟨?_, ?_, ?_, ?_, ?_⟩ <;> decide +kernel

/-- An archive is lost, and nothing is said, when it is unzipped over itself. -/
theorem unzip_over_itself :
    ouroboros.locate true (atRoot.resolve "a".toList) = .ok ["a".toList] ∧
      (runLine { chunk := 512 } "unzip a".toList atRoot ⟨ouroboros, []⟩).2.shown = [] ∧
      (runLine { chunk := 512 } "unzip a".toList atRoot ⟨ouroboros, []⟩).2.disk.get? ["a".toList] =
        some (.file [3]) ∧
      ouroboros.get? ["a".toList] ≠ some (.file [3]) := by
  refine ⟨?_, ?_, ?_, ?_⟩ <;> decide +kernel

end Line

end FileShell
