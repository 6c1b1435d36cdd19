import FileShell.Proofs.Archive.Containment
import FileShell.Proofs.Disk.Kinds
import FileShell.Proofs.Shell.Whereabouts

/-!
# What lines take away

No line takes anything away but `rm` the entry it names and `rmdir` directories in which nothing
is (`Shared.taken_away`). Whatever else is there stays with its kind, and no link is new. What a
redirected `rm` or `rmdir` has removed may be where its output is written to; then a file is there
afterwards, whatever was there before (`rm_onto_itself`).
-/

namespace FileShell

open Disk (Gain Loss Change Prunes)
open Relation (ReflTransGen)

/-! ## Actions that change the disk once -/

variable {ε ε' α β : Type} {f : Disk → Except DiskError Disk}

/-- The action changes the disk once, as the function does, or not at all. -/
def Once (f : Disk → Except DiskError Disk) (m : StateM World α) : Prop :=
  ∀ w, (m w).2.disk = w.disk ∨ f w.disk = .ok (m w).2.disk

namespace Act

theorem disk_of_only {m : StateM World α} (h : Only (fun _ _ => False) m) (w : World) :
    (m w).2.disk = w.disk := by
  rcases (h w).cases_tail with h | ⟨_, -, h⟩
  · exact h
  · exact h.elim

theorem once_of_only {m : StateM World α} (h : Only (fun _ _ => False) m) : Once f m :=
  fun w => .inl (disk_of_only h w)

/-- What comes before the change only asks. -/
theorem once_bind {m : Act ε α} {g : α → Act ε β} (hm : Only (fun _ _ => False) m.run)
    (hg : ∀ a, Once f (g a).run) : Once f (m >>= g).run := by
  intro w
  have hd := disk_of_only hm w
  rw [Act.run_bind]
  generalize m.run w = r at hd
  obtain ⟨e | a, w'⟩ := r
  · exact .inl hd
  · exact hd ▸ hg a w'

theorem once_ite (c : Prop) [Decidable c] {m m' : Act ε α} (hm : Once f m.run)
    (hm' : Once f m'.run) : Once f (if c then m else m').run := by
  split_ifs
  · exact hm
  · exact hm'

theorem once_throw (e : ε) : Once f (throw e : Act ε α).run := once_of_only (only_throw e)

theorem once_failingWith {m : Act ε α} (e : ε') (h : Once f m.run) :
    Once f (m.failingWith e).run := fun w => by
  rw [Act.run_failingWith]
  exact h w

/-- Nothing is changed after the change. -/
theorem Once.return {m : Act ε β} (h : Once f m.run) (a : α) :
    Once f (m >>= fun _ => (pure a : Act ε α)).run := by
  intro w
  have h := h w
  rw [Act.run_bind]
  generalize m.run w = r at h
  obtain ⟨_ | _, w'⟩ := r <;> exact h

theorem once_change (e : ε) : Once f (Storage.change f e).run := by
  intro w
  rw [Storage.run_change]
  rcases h : f w.disk with x | d <;> simp

theorem only_forM_of_mem {S : Disk → Disk → Prop} {g : α → StateM World PUnit} :
    ∀ {l : List α}, (∀ a ∈ l, Only S (g a)) → Only S (l.forM g)
  | [], _ => FileShell.only_pure _
  | a :: _, hg => FileShell.only_bind (hg a List.mem_cons_self) fun _ =>
      only_forM_of_mem fun b hb => hg b (List.mem_cons_of_mem a hb)

end Act

/-! ## The two commands that remove -/

/-- What a command may take away: `rm` the entry that its argument names, if that is no directory,
be it a link; `rmdir` the directory that its argument names if nothing is in it, or, with a star,
any such directory in the current one. -/
inductive Removes (d : Disk) (session : Session) : Command → Loc → Prop
  | rm {arg : Text} {m : Loc} {x : Text} {i : Item} :
      d.locateLast (session.resolve arg) = .ok (m, x) → d.get? (m ++ [x]) = some i →
      i ≠ .directory → Removes d session ⟨"rm".toList, [arg]⟩ (m ++ [x])
  | rmdir {arg : Text} {m : Loc} {x : Text} :
      d.locateLast (session.resolve arg) = .ok (m, x) → d.get? (m ++ [x]) = some .directory →
      d.childNames (m ++ [x]) = [] → Removes d session ⟨"rmdir".toList, [arg]⟩ (m ++ [x])
  | rmdirAll {m : Loc} {x : Text} :
      d.locate true session.directory = .ok m → d.get? (m ++ [x]) = some .directory →
      d.childNames (m ++ [x]) = [] → Removes d session ⟨"rmdir".toList, [['*']]⟩ (m ++ [x])

/-- Whatever is gone is what the command may take away, and the rest is as it was. -/
def Taken (d : Disk) (session : Session) (c : Command) (d' : Disk) : Prop :=
  ∀ k, d'.get? k = d.get? k ∨ d'.get? k = none ∧ Removes d session c k

theorem Taken.erase {d : Disk} {session : Session} {c : Command} {l : Loc} {x : Text}
    (h : Removes d session c (l ++ [x])) : Taken d session c (d.erase (l ++ [x])) := by
  intro k
  rw [Disk.get?_append_erase]
  split
  · rename_i hk
    exact .inr ⟨rfl, hk ▸ h⟩
  · exact .inl rfl

namespace Handler

variable (s : Storage) (session : Session) (w : World)

theorem once_rm (arg : Text) :
    Once (·.delete (session.resolve arg)) ((rm s).run [arg] session).run := by
  refine Act.once_bind (Act.only_lift (Storage.only_pathExists _)) fun there => ?_
  refine Act.once_ite _ (Act.once_throw _) ?_
  refine Act.once_bind (Act.only_lift (Storage.only_isDir _)) fun dir => ?_
  refine Act.once_ite _ (Act.once_throw _) (Act.Once.return (Act.once_failingWith _ ?_) session)
  exact Act.once_bind (Storage.only_allow s _ .delete _) fun _ => Act.once_change _

theorem once_removeDir (p : Path) : Once (·.removeDir p) (s.removeDir p).run :=
  Act.once_bind (Storage.only_allow s p .removeDir _) fun _ => Act.once_change _

theorem once_removeOne (p : Path) : Once (·.removeDir p) (removeOne s p).run := by
  refine Act.once_bind (Act.only_lift (Storage.only_pathExists _)) fun there => ?_
  refine Act.once_ite _ (Act.once_throw _) ?_
  refine Act.once_bind (Act.only_lift (Storage.only_isDir _)) fun dir => ?_
  refine Act.once_ite _ (Act.once_throw _) ?_
  refine Act.once_bind (Act.only_failingWith _ (Storage.only_list s _)) fun names => ?_
  exact Act.once_ite _ (Act.once_throw _) (Act.once_failingWith _ (once_removeDir s p))

theorem taken_rm (arg : Text) : Taken w.disk session ⟨"rm".toList, [arg]⟩
    (((rm s).run [arg] session).run w).2.disk := by
  rcases once_rm s session arg w with h | h
  · rw [h]
    exact fun _ => .inl rfl
  · obtain ⟨-, m, x, i, hl, -, hi, hd, he⟩ := Disk.delete_eq_ok_iff.1 h
    rw [he]
    exact .erase (.rm hl hi hd)

theorem taken_removeOne (arg : Text) : Taken w.disk session ⟨"rmdir".toList, [arg]⟩
    ((removeOne s (session.resolve arg)).run w).2.disk := by
  rcases once_removeOne s (session.resolve arg) w with h | h
  · rw [h]
    exact fun _ => .inl rfl
  · obtain ⟨m, x, hl, -, hd, hc, he⟩ := Disk.removeDir_eq_ok_iff.1 h
    rw [he]
    exact .erase (.rmdir hl hd hc)

theorem only_removeIfEmpty_prunes (directory : Path) {name : Text} (hn : '/' ∉ name)
    (hne : name ≠ []) :
    Only (Prunes directory.names) (removeIfEmpty s directory name) := by
  have hnames := Path.names_join_name directory hn hne
  refine only_bind (Storage.only_isDir _) fun dir => only_ite _ (Act.only_orShow _ ?_)
    (only_pure _)
  refine Act.only_bind (Storage.only_list s _) fun names => Act.only_ite _ ?_ (Act.only_pure _)
  exact Act.only_bind (Storage.only_allow s _ .removeDir _) fun _ =>
    Storage.only_change (fun _ _ h => ⟨_, name, hnames, h⟩) _

variable {s session w}

theorem taken_removeAllEmpty (hs : w.disk.Sound) : Taken w.disk session ⟨"rmdir".toList, [['*']]⟩
    ((removeAllEmpty s session.directory).run w).2.disk := by
  unfold removeAllEmpty
  rw [Act.run_bind, Act.run_failingWith, Storage.run_list]
  split_ifs
  · exact fun _ => .inl rfl
  rcases hnames : w.disk.list session.directory with e | names
  · exact fun _ => .inl rfl
  obtain ⟨l, hl, -, rfl⟩ := Disk.list_eq_ok_iff.1 hnames
  have hloop : Only (Prunes session.directory.names) ((w.disk.childNames l).forM fun name =>
      removeIfEmpty s session.directory name) := by
    refine Act.only_forM_of_mem fun name hname => ?_
    have hx := hs.isName (Disk.mem_childNames.1 hname)
    exact only_removeIfEmpty_prunes s _ hx.noSlash hx.plain.1
  intro k
  have hrun := hloop w
  simp only [Act.mapError_ok, Act.run_forM_lift]
  rw [run_forM] at hrun
  rcases Disk.get?_of_prunes (Disk.at_of_locate hl) hrun k with h | ⟨h, hd, hc, x, rfl⟩
  · exact .inl h
  · exact .inr ⟨h, .rmdirAll hl hd hc⟩

theorem taken_rmdir (hs : w.disk.Sound) (args : List Text) :
    Taken w.disk session ⟨"rmdir".toList, args⟩ (((rmdir s).run args session).run w).2.disk := by
  rcases args with _ | ⟨name, _ | ⟨b, args⟩⟩
  · exact fun _ => .inl rfl
  · have hret {m : Act CommandError Unit} :
        ((m >>= fun _ => (pure session : Act CommandError Session)).run w).2 = (m.run w).2 := by
      rw [Act.run_bind]
      rcases m.run w with ⟨_ | _, w'⟩ <;> rfl
    unfold rmdir
    dsimp only
    split_ifs with hstar
    · subst hstar
      rw [hret]
      exact taken_removeAllEmpty hs
    · rw [hret]
      exact taken_removeOne s session w name
  · exact fun _ => .inl rfl

/-- A command lets everything grow that is there, or it is one of the two that remove. -/
theorem dispatch_takes (s : Storage) (session : Session) (c : Command) (hs : w.disk.Sound) :
    ReflTransGen Gain w.disk (dispatch (standard s) c session w).2.disk ∨
      Taken w.disk session c (dispatch (standard s) c session w).2.disk := by
  rcases hr : route (standard s) c with ⟨_ | h, args⟩
  · rw [disk_dispatch_none hr]
    exact .inl .refl
  rw [disk_dispatch_some hr]
  have hargs (name : Text) (hn : h.name = name) (hne : name ≠ "cp".toList)
      (hne' : name ≠ "cp -r".toList) : c = ⟨name, args⟩ := by
    have hname := (mem_of_route hr).2.resolve_right (hn ▸ hne')
    obtain ⟨n, as⟩ := c
    obtain rfl : n = name := hname.symm.trans hn
    rw [route_of_ne hne] at hr
    rw [(Prod.mk.inj hr).2]
  rcases kind_of_mem s (mem_of_route hr).1 with rfl | hd | ⟨rfl | rfl, -⟩
  · exact .inl (only_cd s args session w)
  · exact .inl ((hd args session).only w)
  · obtain rfl := hargs "rm".toList rfl (by decide) (by decide)
    right
    rcases args with _ | ⟨name, _ | ⟨b, args⟩⟩
    · exact fun _ => .inl rfl
    · exact taken_rm s session w name
    · exact fun _ => .inl rfl
  · obtain rfl := hargs "rmdir".toList rfl (by decide) (by decide)
    exact .inr (taken_rmdir hs args)

end Handler

/-! ## Lines -/

/-- The line's command has removed the entry, and the line's output is written there. -/
def Refills (s : Storage) (line : Text) (session : Session) (d : Disk) (k : Loc) (i : Item) : Prop :=
  ∃ c r, Command.parse? (CommandLine.split line).command = some c ∧
    (CommandLine.split line).redirection = some r ∧ Removes d session c k ∧
    ∃ alone, Handler.dispatch (Handler.standard s) c session ⟨d, []⟩ = alone ∧
      alone.2.disk.get? k = none ∧
      s.writesAt? alone.2.disk (alone.1.resolve r.target) = some k ∧
      i = .file (Utf8.encode alone.2.shown)

/-- What a line leaves of a disk: all but what its command may take away, each with its kind unless
it was taken away and written anew; and no link that was not there. -/
structure Leaves (s : Storage) (line : Text) (session : Session) (d d' : Disk) : Prop where
  gone : ∀ k i, d.get? k = some i → d'.get? k = none →
    ∃ c, Command.parse? (CommandLine.split line).command = some c ∧ Removes d session c k
  kept : ∀ k i j, d.get? k = some i → d'.get? k = some j →
    i.SameKind j ∨ Refills s line session d k j
  noNewLink : Disk.NoNewLink d d'

section Line

variable {s : Storage} {line : Text} {session : Session} {d d' : Disk} {c : Command}

theorem Leaves.of_grows (h : ∀ k, Grows (d.get? k) (d'.get? k)) : Leaves s line session d d' where
  gone k i hi hn := by
    cases hi.symm.trans ((h k).eq_none hn)
  kept k i j hi hj := .inl ((h k).sameKind_of_eq hi hj)
  noNewLink k t ht := (h k).link_iff.1 ht

theorem Leaves.of_taken (hc : Command.parse? (CommandLine.split line).command = some c)
    (h : Taken d session c d') : Leaves s line session d d' where
  gone k i hi hn := by
    rcases h k with hk | ⟨-, hk⟩
    · rw [hk, hi] at hn
      cases hn
    · exact ⟨c, hc, hk⟩
  kept k i j hi hj := by
    rcases h k with hk | ⟨hk, -⟩
    · rw [hk, hi] at hj
      exact .inl (Option.some.inj hj ▸ .refl i)
    · rw [hk] at hj
      cases hj
  noNewLink k t ht := by
    rcases h k with hk | ⟨hk, -⟩
    · rwa [← hk]
    · rw [hk] at ht
      cases ht

/-- What stands at a place when something was taken away and a file was written then is what stood
there, or it is the file and what stood there was taken away. -/
theorem kept_or_written {b : Bytes} {k l : Loc} {i j : Item} (h : Taken d session c d')
    (hl : l ≠ []) (hg : Grows (d'.get? k) ((d'.write l b).get? k)) (hi : d.get? k = some i)
    (hj : (d'.write l b).get? k = some j) :
    i.SameKind j ∨ (Removes d session c k ∧ d'.get? k = none ∧ k = l ∧ j = .file b) := by
  rcases h k with hk | ⟨hk, hrem⟩
  · exact .inl (hg.sameKind_of_eq (hk.trans hi) hj)
  · rw [Disk.get?_write _ hl, hk] at hj
    split_ifs at hj with hkl
    exact .inr ⟨hrem, hk, hkl.1, (Option.some.inj hj).symm⟩

/-- A redirected line leaves what its command leaves, and then one file is written. -/
theorem leaves_redirected {r : Redirection} {w : World} (hs : w.disk.Sound)
    (hc : Command.parse? (CommandLine.split line).command = some c)
    (hr : (CommandLine.split line).redirection = some r) :
    Leaves s line session w.disk (executeRedirected s c r session w).2.disk := by
  obtain ⟨m, p⟩ := r
  rcases eq_or_ne p [] with rfl | hp
  · rw [executeRedirected_nil]
    exact .of_grows fun _ => .stays _
  rcases ha : Handler.attempt (Handler.standard s) c session ⟨w.disk, []⟩ with
    ⟨⟨after, stopped⟩, alone⟩
  have hd := Handler.dispatch_of_attempt ha
  have halone : alone.disk.Sound :=
    hs.of_changes (by simpa only [hd] using Handler.only_dispatch s c session ⟨w.disk, []⟩)
  have hdisk := Handler.dispatch_takes s session (w := ⟨w.disk, []⟩) c hs
  rw [hd] at hdisk
  have hunwritten : Leaves s line session w.disk alone.disk :=
    hdisk.elim (fun h => .of_grows (hs.grows_of_gains h)) (.of_taken hc)
  rcases stopped with _ | r
  swap
  · rw [run_executeRedirected_stopped hp ha]
    exact hunwritten
  rw [run_executeRedirected hp ha, Storage.run_write_orShow]
  rcases hl : s.writesAt? alone.disk (after.resolve p) with _ | l
  · exact hunwritten
  obtain ⟨hne, hdir, hlink⟩ := halone.of_locateWrite (Storage.locateWrite_of_writesAt? hl)
  have hgrows := Disk.grows_write (m.kept (alone.disk.heldAt l) ++ Utf8.encode alone.shown)
    hne hdir hlink
  rcases hdisk with h | h
  · exact .of_grows fun k => (hs.grows_of_gains h k).trans (hgrows k)
  have hleaves := Leaves.of_taken (s := s) hc h
  refine ⟨fun k i hi hn => hleaves.gone k i hi ((hgrows k).eq_none hn), fun k i j hi hj => ?_,
    fun k t ht => hleaves.noNewLink k t ((hgrows k).link_iff.1 ht)⟩
  rcases kept_or_written h hne (hgrows k) hi hj with hsame | ⟨hrem, hgone, rfl, rfl⟩
  · exact .inl hsame
  · have hheld : alone.disk.heldAt k = [] := by
      simp only [Disk.heldAt, Disk.bytesAt, hgone]
    refine .inr ⟨c, ⟨m, p⟩, hc, hr, hrem, (after, alone), hd, hgone, hl, ?_⟩
    rw [hheld]
    cases m <;> rfl

theorem leaves_runLine (s : Storage) (line : Text) (session : Session) {w : World}
    (hs : w.disk.Sound) : Leaves s line session w.disk (runLine s line session w).2.disk := by
  unfold runLine execute
  rw [run_bind]
  rcases hc : Command.parse? (CommandLine.split line).command with _ | c
  · exact .of_grows fun _ => .stays _
  rcases hr : (CommandLine.split line).redirection with _ | r
  · rcases Handler.dispatch_takes s session c hs with h | h
    · exact .of_grows (hs.grows_of_gains h)
    · exact .of_taken hc h
  · exact leaves_redirected hs hc hr

end Line

/-! ## Sessions that share a world -/

namespace Shared

variable {ι : Type} [DecidableEq ι]

theorem sound_runAll : ∀ (es : List (Typed ι)) {σ : Shared ι}, σ.world.disk.Sound →
    (σ.runAll es).world.disk.Sound
  | [], _, h => h
  | e :: es, σ, h => sound_runAll es (σ := σ.run e)
      (h.of_changes (only_runLine e.storage e.line (σ.sessions e.who) σ.world))

/-- Whatever was typed before and whichever calls are refused: a line takes nothing away but the
entry that an `rm` names and the empty directories that a `rmdir` names. All that is left keeps its
kind, unless it was taken away and the line's output written in its place; and no link is made. -/
theorem taken_away {σ : Shared ι} (h : σ.world.disk.Sound) (es : List (Typed ι)) (e : Typed ι) :
    Leaves e.storage e.line ((σ.runAll es).sessions e.who) (σ.runAll es).world.disk
      ((σ.runAll es).run e).world.disk :=
  leaves_runLine e.storage e.line _ (sound_runAll es h)

/-- A file, a link to it, and a directory in a directory. -/
def leaflet : Disk where
  items := [
    (["a".toList], .file [104, 105]),
    (["l".toList], .link "a".toList),
    (["d".toList], .directory),
    (["d".toList, "e".toList], .directory)]

theorem sound_leaflet : leaflet.Sound := by
  refine Disk.sound_of_items (by decide) (by decide +kernel) fun e he t ht => ?_
  simp only [leaflet, List.mem_cons, List.not_mem_nil, or_false] at he
  rcases he with rfl | rfl | rfl | rfl <;> cases ht
  decide

/-- Two sessions in the root directory. -/
def pair : Shared Bool := ⟨⟨leaflet, []⟩, fun _ => ⟨"/".toList, "/".toList, true⟩⟩

/-- The inner one of two directories is removed in one session, and the link in the other. -/
theorem taken_away_pair :
    let inner : Typed Bool := ⟨{ chunk := 512 }, true, "rmdir d/e".toList⟩
    let link : Typed Bool := ⟨{ chunk := 512 }, false, "rm l".toList⟩
    pair.world.disk.Sound ∧
      Leaves link.storage link.line ((pair.runAll [inner]).sessions link.who)
        (pair.runAll [inner]).world.disk ((pair.runAll [inner]).run link).world.disk ∧
      ((pair.runAll [inner]).run link).world.disk.get? ["d".toList, "e".toList] = none ∧
      ((pair.runAll [inner]).run link).world.disk.get? ["l".toList] = none ∧
      ((pair.runAll [inner]).run link).world.disk.get? ["a".toList] = some (.file [104, 105]) := by
  refine ⟨sound_leaflet, taken_away sound_leaflet _ _, ?_, ?_, ?_⟩ <;> decide +kernel

end Shared

/-- A link that is removed by a line whose output goes where it stood: a file is there instead. -/
theorem rm_onto_itself :
    let after := (runLine { chunk := 512 } "rm l > l".toList ⟨"/".toList, "/".toList, true⟩
      ⟨Shared.leaflet, []⟩).2.disk
    Shared.leaflet.get? ["l".toList] = some (.link "a".toList) ∧
      after.get? ["l".toList] = some (.file []) ∧
      ¬ (Item.link "a".toList).SameKind (.file []) := by
  refine ⟨?_, ?_, ?_⟩
  · decide +kernel
  · decide +kernel
  · rintro ⟨⟩

end FileShell
