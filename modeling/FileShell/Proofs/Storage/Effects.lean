import FileShell.Proofs.Disk.Steps
import FileShell.Proofs.Storage.Runs

/-!
# What actions do to the disk

`Only S m` says that all the action `m` ever does to a disk is a row of changes of the kind `S`,
whether it succeeds or fails. It follows the way an action is put together, so it needs an
argument of its own for the calls of a storage only. No call but the two that remove things does
anything but gains.
-/

namespace FileShell

open Relation (ReflTransGen)
open Disk (Gain Loss)

variable {ε ε' α β : Type} {S S' : Disk → Disk → Prop}

/-- Each run of the action takes its disk through changes of the kind only. -/
def Only (S : Disk → Disk → Prop) (m : StateM World α) : Prop :=
  ∀ w, ReflTransGen S w.disk (m w).2.disk

theorem Only.mono {m : StateM World α} (hS : ∀ d d', S d d' → S' d d') (h : Only S m) : Only S' m :=
  fun w => ReflTransGen.mono hS _ _ (h w)

/-! ## Putting actions together -/

theorem only_of_disk {m : StateM World α} (h : ∀ w, (m w).2.disk = w.disk) : Only S m := by
  intro w
  rw [h]

theorem only_pure (a : α) : Only S (pure a : StateM World α) := only_of_disk fun _ => rfl

theorem only_showLine (t : Text) : Only S (showLine t) := only_of_disk fun _ => rfl

theorem only_bind {m : StateM World α} {f : α → StateM World β} (hm : Only S m)
    (hf : ∀ a, Only S (f a)) : Only S (m >>= f) :=
  fun w => (hm w).trans (hf (m w).1 (m w).2)

theorem only_ite (c : Prop) [Decidable c] {m m' : StateM World α} (hm : Only S m)
    (hm' : Only S m') : Only S (if c then m else m') := by
  split_ifs
  · exact hm
  · exact hm'

theorem only_forM {f : α → StateM World PUnit} (hf : ∀ a, Only S (f a)) :
    ∀ l : List α, Only S (l.forM f)
  | [] => only_pure _
  | a :: l => only_bind (hf a) fun _ => only_forM hf l

theorem only_capture {m : StateM World α} (h : Only S m) : Only S (capture m) :=
  fun w => h { w with shown := [] }

namespace Act

theorem only_pure (a : α) : Only S (pure a : Act ε α).run := only_of_disk fun _ => rfl

theorem only_throw (e : ε) : Only S (throw e : Act ε α).run := only_of_disk fun _ => rfl

theorem only_bind {m : Act ε α} {f : α → Act ε β} (hm : Only S m.run)
    (hf : ∀ a, Only S (f a).run) : Only S (m >>= f).run := by
  intro w
  have h := hm w
  rw [Act.run_bind]
  generalize m.run w = r at h
  obtain ⟨e | a, w'⟩ := r
  · exact h
  · exact h.trans (hf a w')

theorem only_lift {m : StateM World α} (h : Only S m) : Only S (liftM m : Act ε α).run := by
  intro w
  rw [Act.run_lift]
  exact h w

theorem only_get : Only S (get : Act ε World).run := only_of_disk fun _ => rfl

theorem only_ite (c : Prop) [Decidable c] {m m' : Act ε α} (hm : Only S m.run)
    (hm' : Only S m'.run) : Only S (if c then m else m').run := by
  split_ifs
  · exact hm
  · exact hm'

theorem only_adapt {m : Act ε α} (f : ε → ε') (h : Only S m.run) :
    Only S (show Act ε' α from m.adapt f).run := by
  intro w
  rw [Act.run_adapt]
  exact h w

theorem only_failingWith {m : Act ε α} (e : ε') (h : Only S m.run) :
    Only S (m.failingWith e).run := only_adapt _ h

theorem only_orShow {m : Act ε Unit} (line : Text) (h : Only S m.run) : Only S (m.orShow line) := by
  intro w
  have h := h w
  rw [run_orShow]
  generalize m.run w = r at h
  obtain ⟨_ | ⟨⟩, w'⟩ := r <;> exact h

theorem only_reporting {m : Act StorageError Unit} (line : Text) (h : Only S m.run) :
    Only S (m.reporting line).run := by
  intro w
  have h := h w
  rw [run_reporting]
  generalize m.run w = r at h
  obtain ⟨e | ⟨⟩, w'⟩ := r
  · cases e <;> exact h
  · exact h

theorem only_forM {f : α → Act ε PUnit} (hf : ∀ a, Only S (f a).run) :
    ∀ l : List α, Only S (l.forM f).run
  | [] => only_pure _
  | a :: l => only_bind (hf a) fun _ => only_forM hf l

end Act

theorem changes_foldl {f : World → α → World} (hf : ∀ w a, ReflTransGen S w.disk (f w a).disk) :
    ∀ (as : List α) (w : World), ReflTransGen S w.disk (as.foldl f w).disk
  | [], _ => .refl
  | a :: as, w => (hf w a).trans (changes_foldl hf as (f w a))

/-! ## The calls of a storage -/

namespace Storage

variable (s : Storage) (p q : Path)

theorem only_allow (c : Call) (e : ε) : Only S (s.allow c p e).run :=
  only_of_disk fun w => by rw [run_allow]

theorem only_ask (f : Disk → Except DiskError α) (e : ε) : Only S (ask f e).run :=
  only_of_disk fun w => by rw [run_ask]

theorem only_change {f : Disk → Except DiskError Disk} (hf : ∀ d d', f d = .ok d' → S d d') (e : ε) :
    Only S (change f e).run := by
  intro w
  unfold change
  rw [Act.run_bind, Act.run_get]
  rcases h : f w.disk with x | d
  · simpa [h] using ReflTransGen.refl
  · simpa [h] using ReflTransGen.single (hf _ _ h)

theorem only_pathExists (p : Path) : Only S (pathExists p) := only_of_disk fun w => by
  rw [run_pathExists]

theorem only_isDir (p : Path) : Only S (isDir p) := only_of_disk fun w => by rw [run_isDir]

theorem only_isFile (p : Path) : Only S (isFile p) := only_of_disk fun w => by rw [run_isFile]

theorem only_samePath (n : Nat) (p q : Path) : Only S (samePath n p q).run :=
  only_of_disk fun w => by rw [run_samePath]

theorem only_list : Only S (s.list p).run :=
  Act.only_bind (only_allow s p .list _) fun _ => only_ask _ _

theorem only_canonicalize : Only S (s.canonicalize p).run :=
  Act.only_bind (only_allow s p .canonicalize _) fun _ => only_ask _ _

theorem only_makeDirs (existOk : Bool) : Only Gain (s.makeDirs p existOk).run := by
  intro w
  rw [run_makeDirs]
  split_ifs
  · exact .refl
  · exact making_disk (P := ReflTransGen Gain w.disk) .refl
      (ReflTransGen.mono (fun _ _ h => Gain.makeDir h) _ _ (Disk.makes_makeDirs existOk w.disk p))

theorem only_removeDir : Only Loss (s.removeDir p).run :=
  Act.only_bind (only_allow s p .removeDir _) fun _ => only_change (fun _ _ => .removeDir) _

theorem only_delete : Only Loss (s.delete p).run :=
  Act.only_bind (only_allow s p .delete _) fun _ => only_change (fun _ _ => .delete) _

theorem only_create : Only Gain (s.create p).run := by
  refine Act.only_bind (only_allow s p .create _) fun _ w => ?_
  rw [Act.run_bind, Act.run_get]
  simp only [Act.run_ite]
  split_ifs
  · exact .refl
  · split
    · exact .single (.create ‹_›)
    · exact .refl
    · exact .refl

theorem only_copy : Only Gain (s.copy p q).run := by
  intro w
  rw [run_copy]
  split_ifs
  · exact .refl
  split
  · exact .refl
  split
  · exact .refl
  rename_i m hm
  split
  · exact .single (.write [] hm)
  · exact Disk.gains_write_write hm _ _

theorem only_writeStream (c : Stream) : Only Gain (s.writeStream p c).run := by
  intro w
  rw [run_writeStream]
  split
  · exact .refl
  split
  · exact .refl
  · exact Disk.gains_write_write ‹_› _ _

theorem only_write (t : Text) (append : Bool) : Only Gain (s.write p t append).run := by
  intro w
  rw [run_write]
  split
  · exact .refl
  split
  · exact .refl
  · exact .single (.write _ ‹_›)

theorem only_readLines : Only S (s.readLines p) := by
  refine only_of_disk fun w => ?_
  unfold readLines
  rw [run_bind, run_get]
  rcases s.cutAfter p with _ | n <;> rcases w.disk.read p with _ | b <;> rfl

theorem only_copyChild (root : Path) (n : Nat) {deeper : Path → Path → Act StorageError Unit}
    (hdeeper : ∀ p q, Only Gain (deeper p q).run) (child : Text) :
    Only Gain (s.copyChild root n deeper p q child).run := by
  refine Act.only_bind (only_samePath _ _ _) fun same => Act.only_ite _ (Act.only_pure _) ?_
  refine Act.only_bind (Act.only_lift (only_isDir _)) fun dir => ?_
  exact Act.only_ite _ (Act.only_reporting _ (hdeeper _ _))
    (Act.only_lift (Act.only_orShow _ (only_copy s _ _)))

/-- Copying what is in a directory takes nothing away, however it ends. -/
theorem only_copyInto (root : Path) : ∀ (n : Nat) (p q : Path),
    Only Gain (s.copyInto root n p q).run
  | 0, _, _ => Act.only_throw _
  | n + 1, p, q =>
    Act.only_bind Act.only_get fun _ => Act.only_bind (only_makeDirs s q true) fun _ =>
      Act.only_forM (only_copyChild s p q root n (only_copyInto root n)) _

theorem only_copyTree : Only Gain (s.copyTree p q).run :=
  Act.only_bind (only_copyInto s _ _ _ _) fun _ => Act.only_pure _

end Storage

end FileShell
