import FileShell.Proofs.Archive.Containment
import FileShell.Proofs.Archive.Packers
import FileShell.Proofs.Storage.Effects

/-!
# What archives do to the disk

Packing writes where its archive is and nowhere else, and takes nothing away (`only_pack`); neither
does unpacking (`only_unpack`). Nothing is assumed of the archive, of the paths, or of the calls
that are refused.
-/

namespace FileShell

open Disk (Gain)

/-! ## Packing -/

namespace Writer

variable (s : Storage) (writer : Writer)

theorem run_openAt (p : Path) (w : World) : (openAt s p).run w =
    if s.refuses .openWriter p then (.error .refused, w)
    else match w.disk.locateWrite p with
      | .ok l => (.ok ⟨l, [], false⟩, { w with disk := w.disk.write l [] })
      | .error _ => (.error (.create p), w) := by
  unfold openAt
  simp only [Act.run_bind, Storage.run_allow, Storage.run_openWrite]
  rcases s.refuses .openWriter p
  · simp only [Bool.false_eq_true, if_false]
    rcases w.disk.locateWrite p with e | l <;> rfl
  · rfl

theorem disk_close (w : World) : (writer.close w).2.disk =
    if writer.closed then w.disk else w.disk.write writer.place (Member.archive writer.members) := by
  unfold close
  rcases writer.closed <;> rfl

end Writer

/-- What packing does once the archive is open: it shows its lines and closes the archive, also if
it was stopped. -/
theorem run_pack_of_locateWrite {s : Storage} {archive : Path} {w : World} {l : Loc}
    (hr : s.refuses .openWriter archive = false) (hl : w.disk.locateWrite archive = .ok l)
    (items : List PackItem) (recursive : Bool) :
    (pack s archive items recursive).run w =
      let r := (items.forM (Packing.packItem ⟨s, w.disk.write l [], archive⟩ recursive)).run
        ⟨⟨l, [], false⟩, [], []⟩
      (match r.1 with
        | .ok () => .ok r.2.added
        | .error e => .error (.stopped e),
        (r.2.writer.close ⟨w.disk.write l [], w.shown ++ Text.unlines r.2.shown⟩).2) := by
  unfold pack
  rw [Act.run_bind, Writer.run_openAt, hr, hl]
  simp only [Bool.false_eq_true, if_false, Act.run_bind, Act.run_get]
  generalize hrun : (items.forM (Packing.packItem ⟨s, w.disk.write l [], archive⟩ recursive)).run
    ⟨⟨l, [], false⟩, [], []⟩ = r
  obtain ⟨e | ⟨⟩, k⟩ := r
  · simp only [StateT.run, hrun, Act.run_forM_lift, run_showLines, Act.run_bind, Act.run_lift]
    rfl
  · simp only [StateT.run, hrun, Act.run_forM_lift, run_showLines, Act.run_bind, Act.run_lift]
    rfl

theorem only_pack (s : Storage) (archive : Path) (items : List PackItem) (recursive : Bool) :
    Only Gain (pack s archive items recursive).run := by
  intro w
  rcases hr : s.refuses .openWriter archive with _ | _
  · rcases hl : w.disk.locateWrite archive with e | l
    · unfold pack
      rw [Act.run_bind, Writer.run_openAt, hr, hl]
      exact .refl
    · have hplace := Packing.place_forM (fun i => Packing.place_packItem
        (c := ⟨s, w.disk.write l [], archive⟩) recursive i) items ⟨⟨l, [], false⟩, [], []⟩
      rw [run_pack_of_locateWrite hr hl]
      dsimp only
      rw [Writer.disk_close, hplace]
      split_ifs
      · exact .single (.write [] hl)
      · exact Disk.gains_write_write hl _ _
  · unfold pack
    rw [Act.run_bind, Writer.run_openAt, hr]
    exact .refl

/-! ## Unpacking -/

namespace Unpacking

variable (s : Storage) (r : Reader)

theorem only_unpackEntry (e : Entry) (target : Path) :
    Only Gain (unpackEntry s r e target).run := by
  unfold unpackEntry
  refine Act.only_ite _ (Act.only_failingWith _ (Storage.only_makeDirs s _ _)) ?_
  refine Act.only_bind (Act.only_failingWith _ (Storage.only_makeDirs s _ _)) fun _ => ?_
  rcases r.contents s e.name with _ | c
  · exact Act.only_throw _
  · exact Act.only_failingWith _ (Storage.only_writeStream s _ _)

theorem only_unpackAll (destination : Path) : ∀ es : List Entry,
    Only Gain (unpackAll s r destination es)
  | [] => only_pure _
  | e :: es => by
    unfold unpackAll
    rcases target? destination e.name with _ | target
    · exact only_bind (only_showLine _) fun _ => only_unpackAll destination es
    · refine only_bind (only_unpackEntry s r e target) fun a => ?_
      rcases a with _ | _
      · exact only_bind (only_showLine _) fun _ => only_unpackAll destination es
      · exact only_bind (only_unpackAll destination es) fun _ => only_pure _

end Unpacking

theorem only_openAt {S : Disk → Disk → Prop} (s : Storage) (p : Path) :
    Only S (Reader.openAt s p).run :=
  only_of_disk fun w => by rw [Reader.run_openAt]

theorem only_unpack (s : Storage) (archive destination : Path) :
    Only Gain (unpack s archive destination).run :=
  Act.only_bind (only_openAt s archive) fun r =>
    Act.only_lift (Unpacking.only_unpackAll s r destination _)

end FileShell
