import FileShell.Proofs.Disk.Clearing
import FileShell.Proofs.Shell.Outcomes
import FileShell.Proofs.Shell.Stops
import FileShell.Proofs.Storage.CopyTree

/-!
# Removing directories

`rmdir` with a name removes the empty directory that the name leads to, which is no link, or says
why not. `rmdir *` goes through the names in the current directory as they were at the start. It
removes the empty directories among them, and what it fails on are links: they are followed to see
whether there is a directory, and are none themselves (`rmdir_lines`).
-/

namespace FileShell

open Disk (Without)

/-! ## The commands -/

namespace Handler

variable {s : Storage} {session : Session} {w : World} {d : Disk} {p : Path} {l : Loc} {x : Text}
  {names : List Text}

/-- The ways in which removing one directory fails. -/
def removalErrors : List CommandError :=
  [.noDirectory, .notDirectory, .notEmpty, .cannotRemoveDirectory]

/-- What is shown for a name at which removing fails. -/
def notRemoved (x : Text) : Text := "Error: Failed to remove directory ".toList ++ x

variable (hlist : ∀ p, s.refuses .list p = false) (hremove : ∀ p, s.refuses .removeDir p = false)

include hlist hremove

theorem run_removeIfEmpty {k : Loc} (hk : w.disk.locate true (p.join x) = .ok k)
    (hd : w.disk.isDirectory k = true) : removeIfEmpty s p x w =
      if w.disk.childNames k = [] then match w.disk.removeDir (p.join x) with
        | .ok d => ((), { w with disk := d })
        | .error _ => ((), { w with shown := w.shown ++ notRemoved x ++ ['\n'] })
      else ((), w) := by
  have hdir : w.disk.isDir (p.join x) = true := Disk.isDir_iff.2 ⟨k, hk, hd⟩
  have hnames : w.disk.list (p.join x) = .ok (w.disk.childNames k) :=
    Disk.list_eq_ok_iff.2 ⟨k, hk, Disk.isDirectory_iff.1 hd, rfl⟩
  unfold removeIfEmpty removeWhenEmpty
  simp only [run_bind, Storage.run_isDir, hdir, if_true, run_orShow, Act.run_bind,
    Storage.run_list, hlist, hnames, Act.mapError_ok, Bool.false_eq_true, if_false]
  rcases w.disk.childNames k with _ | ⟨y, ys⟩
  · simp only [List.isEmpty_nil, if_true, Storage.run_removeDir, hremove, Bool.false_eq_true,
      if_false]
    rcases w.disk.removeDir (p.join x) with e | d <;> rfl
  · rfl

omit hlist hremove in
theorem run_removeIfEmpty_of_not_isDir (h : w.disk.isDir (p.join x) = false) :
    removeIfEmpty s p x w = ((), w) := by
  unfold removeIfEmpty
  simp only [run_bind, Storage.run_isDir, h, Bool.false_eq_true, if_false]
  rfl

/-- The directory is removed if it can be. If this is tried in vain a link stands at the name. -/
theorem removeIfEmpty_clears (hcheck : Disk.checkPath p = .ok ())
    (hp : ∀ m, w.disk.At p m → m = l) (hx : IsName x) :
    ((removeIfEmpty s p x w).2.disk = w.disk.clear p l x) ∧
      ((removeIfEmpty s p x w).2.shown = w.shown ∨
        (∃ t, w.disk.get? (l ++ [x]) = some (.link t)) ∧
          (removeIfEmpty s p x w).2.shown = w.shown ++ notRemoved x ++ ['\n']) := by
  by_cases hc : w.disk.isDir p = true ∧ w.disk.clearable p l x = true
  · obtain ⟨hc, hx'⟩ := hc
    obtain ⟨hd, hempty, -⟩ := Disk.clearable_iff.1 hx'
    obtain ⟨hk, hgone⟩ := Disk.removeDir_join_of_clearable hp hx hc hx'
    rw [run_removeIfEmpty hlist hremove hk (Disk.isDirectory_iff.2 hd), if_pos hempty, hgone,
      Disk.clear, hc, hx']
    exact ⟨rfl, .inl rfl⟩
  have hstays : w.disk.clear p l x = w.disk := by
    rw [Disk.clear, if_neg (by simpa using hc)]
  rw [hstays]
  by_cases hdir : w.disk.isDir (p.join x) = true
  case neg =>
    rw [run_removeIfEmpty_of_not_isDir (eq_false_of_ne_true hdir)]
    exact ⟨rfl, .inl rfl⟩
  obtain ⟨k, hk, hkd⟩ := Disk.isDir_iff.1 hdir
  rw [run_removeIfEmpty hlist hremove hk hkd]
  split_ifs with hempty
  swap
  · exact ⟨rfl, .inl rfl⟩
  obtain ⟨t, ht⟩ := Disk.exists_link_of_not_clearable hcheck hp hx hk hkd hempty hc
  obtain ⟨e, he⟩ := Disk.removeDir_join_of_link hp hx ht
  rw [he]
  exact ⟨rfl, .inr ⟨⟨t, ht⟩, rfl⟩⟩

/-- The loop over the names. -/
theorem foldl_removeIfEmpty (hcheck : Disk.checkPath p = .ok ()) (hat : d.At p l) :
    ∀ {names : List Text} {w : World}, (∀ x ∈ names, IsName x) → Disk.Keeps w.disk d →
      let w' := names.foldl (fun w x => (removeIfEmpty s p x w).2) w
      w'.disk = names.foldl (Disk.clear p l) w.disk ∧
        ∃ bad : List Text, bad.Sublist names ∧
          (∀ x ∈ bad, ∃ t, d.get? (l ++ [x]) = some (.link t)) ∧
          w'.shown = w.shown ++ Text.unlines (bad.map notRemoved)
  | [], w, _, _ => ⟨rfl, [], .slnil, by simp, by simp [Text.unlines]⟩
  | x :: names, w, hx, hk => by
    obtain ⟨hx, hnames⟩ := List.forall_mem_cons.1 hx
    obtain ⟨hdisk, hshown⟩ := removeIfEmpty_clears (w := w) hlist hremove hcheck
      (fun m hm => (hm.of_keeps hk).unique hat) hx
    have hk' : Disk.Keeps (removeIfEmpty s p x w).2.disk d := by
      rw [hdisk]
      exact (Disk.keeps_clear p l w.disk x).trans hk
    obtain ⟨hdisk', bad, hsub, hlinks, hshown'⟩ := foldl_removeIfEmpty hcheck hat hnames hk'
    rw [List.foldl_cons, List.foldl_cons, ← hdisk]
    refine ⟨hdisk', ?_⟩
    rcases hshown with hshown | ⟨⟨t, ht⟩, hshown⟩
    · exact ⟨bad, hsub.cons x, hlinks, by rw [hshown', hshown]⟩
    · refine ⟨x :: bad, hsub.cons_cons x, List.forall_mem_cons.2 ⟨⟨t, hk.link.2 ht⟩, hlinks⟩, ?_⟩
      rw [hshown', hshown, List.map_cons, Text.unlines_cons]
      simp

omit hremove in
theorem run_removeAllEmpty (hl : w.disk.locate true p = .ok l)
    (hd : w.disk.isDirectory l = true) : (removeAllEmpty s p).run w =
      (.ok (), (w.disk.childNames l).foldl (fun w x => (removeIfEmpty s p x w).2) w) := by
  have hnames : w.disk.list p = .ok (w.disk.childNames l) :=
    Disk.list_eq_ok_iff.2 ⟨l, hl, Disk.isDirectory_iff.1 hd, rfl⟩
  unfold removeAllEmpty
  simp only [Act.run_bind, Act.run_failingWith, Storage.run_list, hlist, hnames, Act.mapError_ok,
    Bool.false_eq_true, if_false, Act.run_forM_lift]

omit hremove in
theorem run_removeAllEmpty_of_not_isDir (h : w.disk.isDir p = false) :
    (removeAllEmpty s p).run w = (.error .cannotReadCurrent, w) := by
  rcases hnames : w.disk.list p with e | names
  · unfold removeAllEmpty
    simp only [Act.run_bind, Act.run_failingWith, Storage.run_list, hlist, hnames,
      Act.mapError_error, Bool.false_eq_true, if_false]
  · obtain ⟨l, hl, hd, -⟩ := Disk.list_eq_ok_iff.1 hnames
    rw [Disk.isDir_iff.2 ⟨l, hl, Disk.isDirectory_iff.2 hd⟩] at h
    cases h

/-- A directory that can be removed is. -/
theorem run_removeOne (h : w.disk.removeDir p = .ok d) :
    (removeOne s p).run w = (.ok (), { w with disk := d }) := by
  obtain ⟨l, x, hlast, hx, hd, hempty, -⟩ := Disk.removeDir_eq_ok_iff.1 h
  have hl := Disk.locate_of_locateLast hlast hx hd
  have hdir : w.disk.isDir p = true := Disk.isDir_iff.2 ⟨_, hl, Disk.isDirectory_iff.2 hd⟩
  have hnames : w.disk.list p = .ok [] := Disk.list_eq_ok_iff.2 ⟨_, hl, hd, hempty.symm⟩
  unfold removeOne
  simp only [Act.run_bind, Act.run_lift, Storage.run_pathExists, Disk.pathExists_of_isDir hdir,
    Storage.run_isDir, hdir, Act.run_failingWith, Storage.run_list, hlist, hnames,
    Storage.run_removeDir, hremove, h, Act.mapError_ok, Bool.not_true, Bool.false_eq_true, if_false,
    List.isEmpty_nil]

omit hlist hremove in
/-- Where removing fails, nothing is changed or shown. -/
theorem run_removeOne_error {e : DiskError} (h : w.disk.removeDir p = .error e) :
    ∃ e' ∈ removalErrors, (removeOne s p).run w = (.error e', w) := by
  unfold removeOne
  simp only [Act.run_bind, Act.run_lift, Storage.run_pathExists]
  rcases w.disk.pathExists p with _ | _
  · exact ⟨.noDirectory, by decide, rfl⟩
  simp only [Bool.not_true, Bool.false_eq_true, if_false, Act.run_bind, Act.run_lift,
    Storage.run_isDir]
  rcases w.disk.isDir p with _ | _
  · exact ⟨.notDirectory, by decide, rfl⟩
  simp only [Bool.not_true, Bool.false_eq_true, if_false, Act.run_bind, Act.run_failingWith,
    Storage.run_list]
  rcases s.refuses .list p with _ | _
  swap
  · exact ⟨.cannotRemoveDirectory, by decide, rfl⟩
  rcases w.disk.list p with _ | _ | ⟨y, names⟩
  · exact ⟨.cannotRemoveDirectory, by decide, rfl⟩
  · simp only [Bool.false_eq_true, if_false, Act.mapError_ok, List.isEmpty_nil, Bool.not_true,
      Act.run_failingWith, Storage.run_removeDir, h]
    exact ⟨.cannotRemoveDirectory, by decide, by split_ifs <;> rfl⟩
  · exact ⟨.notEmpty, by decide, rfl⟩

omit hlist hremove in
theorem run_rmdir (name : Text) (session : Session) (w : World) :
    attempt (standard s) ⟨"rmdir".toList, [name]⟩ session w =
      match (if name = ['*'] then removeAllEmpty s session.directory
        else removeOne s (session.resolve name)).run w with
      | (.ok (), w') => ((session, none), w')
      | (.error e, w') => ((session, none), { w' with
          shown := w'.shown ++ ("Error: ".toList ++ e.message) ++ ['\n'] }) := by
  have hr : route (standard s) ⟨"rmdir".toList, [name]⟩ = (some (rmdir s), [name]) :=
    route_of_ne (by decide) [name]
  have hrun : ((rmdir s).run [name] session).run w =
      match (if name = ['*'] then removeAllEmpty s session.directory
        else removeOne s (session.resolve name)).run w with
      | (.ok (), w') => (.ok session, w')
      | (.error e, w') => (.error e, w') := by
    unfold rmdir
    dsimp only
    split_ifs
    · rw [Act.run_bind]
      rcases (removeAllEmpty s session.directory).run w with ⟨_ | _, w'⟩ <;> rfl
    · rw [Act.run_bind]
      rcases (removeOne s (session.resolve name)).run w with ⟨_ | _, w'⟩ <;> rfl
  have hend := ends_rmdir s [name] session w
  rw [run_attempt hr, hrun]
  rcases h : (if name = ['*'] then removeAllEmpty s session.directory
    else removeOne s (session.resolve name)).run w with ⟨e | ⟨⟩, w'⟩
  · have hstop : e.stop? = none := hend e w' (by rw [hrun, h])
    simp only [hstop, CommandError.report_of_stop?_eq_none hstop, List.append_assoc]
  · rfl

end Handler

/-! ## The lines -/

section

variable {s : Storage} {session : Session} {d e : Disk} {line x : Text} {l : Loc}
  (hlist : ∀ p, s.refuses .list p = false) (hremove : ∀ p, s.refuses .removeDir p = false)
  (hplain : '>' ∉ line)

include hlist hremove hplain

omit hremove in
/-- A line that goes through the names in the current directory. -/
theorem outcome_rmdir_star (hcmd : Command.parse? line = some ⟨"rmdir".toList, [['*']]⟩)
    (hl : e.locate true session.directory = .ok l) (hd : e.isDirectory l = true) :
    outcome s line session e =
      let w := (e.childNames l).foldl
        (fun w x => (Handler.removeIfEmpty s session.directory x w).2) ⟨e, []⟩
      ⟨w.shown, session, w.disk, none⟩ := by
  refine outcome_plain hplain hcmd ?_
  rw [Handler.run_rmdir, if_pos rfl, Handler.run_removeAllEmpty hlist hl hd]

/-- What such a line shows and leaves on a disk with a part of the directories of another one. -/
theorem outcome_rmdir_all (hcmd : Command.parse? line = some ⟨"rmdir".toList, [['*']]⟩)
    (hl : d.locate true session.directory = .ok l) (hk : Disk.Keeps e d)
    (hnames : ∀ x ∈ e.childNames l, IsName x) (he : e.isDir session.directory = true) :
    ∃ bad : List Text, bad.Sublist (e.childNames l) ∧
      (∀ x ∈ bad, ∃ t, d.get? (l ++ [x]) = some (.link t)) ∧
      outcome s line session e = ⟨Text.unlines (bad.map Handler.notRemoved), session,
        (e.childNames l).foldl (Disk.clear session.directory l) e, none⟩ := by
  obtain ⟨k, hke, hkd⟩ := Disk.isDir_iff.1 he
  obtain rfl := (Disk.at_of_locate hl).unique ((Disk.at_of_locate hke).of_keeps hk)
  obtain ⟨hdisk, bad, hsub, hlinks, hshown⟩ := Handler.foldl_removeIfEmpty hlist hremove
    (Disk.locate_eq_ok_iff.1 hl).1 (Disk.at_of_locate hl) (w := ⟨e, []⟩) hnames hk
  refine ⟨bad, hsub, hlinks, ?_⟩
  simp only [outcome_rmdir_star hlist hplain hcmd hke hkd, hdisk, hshown, List.nil_append]

omit hremove in
/-- The same line where the directory is not found any more. -/
theorem outcome_rmdir_all_of_not_isDir
    (hcmd : Command.parse? line = some ⟨"rmdir".toList, [['*']]⟩)
    (he : e.isDir session.directory = false) :
    (outcome s line session e).disk = e := by
  have h := Handler.run_removeAllEmpty_of_not_isDir hlist (w := ⟨e, []⟩) he
  rw [outcome_plain hplain hcmd (by rw [Handler.run_rmdir, if_pos rfl, h])]

/-- A line that removes one directory. -/
theorem outcome_rmdir (hs : d.Sound) (hx : x ≠ ['*'])
    (hcmd : Command.parse? line = some ⟨"rmdir".toList, [x]⟩) :
    (∃ k, Removes d session ⟨"rmdir".toList, [x]⟩ k ∧
        d.locate true (session.resolve x) = .ok k ∧
        outcome s line session d = ⟨[], session, d.erase k, none⟩) ∨
      (∀ k, ¬ Removes d session ⟨"rmdir".toList, [x]⟩ k) ∧ ∃ e ∈ Handler.removalErrors,
        outcome s line session d = ⟨"Error: ".toList ++ e.message ++ ['\n'], session, d, none⟩ := by
  rcases hr : d.removeDir (session.resolve x) with e | d'
  · right
    constructor
    · intro k hk
      cases hk with
      | @rmdir _ m y hlast hd hempty =>
        have hy := (hs.isName (by rw [hd]; rfl)).plain
        have hok := Disk.removeDir_eq_ok_iff.2
          ⟨m, y, hlast, by simp [Disk.isDots, hy.2.1, hy.2.2], hd, hempty, rfl⟩
        cases hr.symm.trans hok
      | rmdirAll => exact hx rfl
    · obtain ⟨e', he', hrun⟩ := Handler.run_removeOne_error (s := s) (w := ⟨d, []⟩) hr
      refine ⟨e', he', outcome_plain hplain hcmd ?_⟩
      rw [Handler.run_rmdir, if_neg hx, hrun]
      rfl
  · left
    obtain ⟨m, y, hlast, hy, hd, hempty, rfl⟩ := Disk.removeDir_eq_ok_iff.1 hr
    have hrun := Handler.run_removeOne hlist hremove (w := ⟨d, []⟩) hr
    refine ⟨m ++ [y], .rmdir hlast hd hempty, Disk.locate_of_locateLast hlast hy hd,
      outcome_plain hplain hcmd ?_⟩
    rw [Handler.run_rmdir, if_neg hx, hrun]

end

/-- `rmdir` removes empty directories and nothing else.

`rmdir *` removes those in the current directory whose paths are short enough, up to the first that
the path of the current directory leads through; if this path is canonical, all of them. What it
names in errors are links. Typed again, it removes nothing. With another name either the directory
that the name leads to is removed, if it is empty and not reached by a link as the last name, or one
error is shown and nothing is changed. -/
theorem rmdir_lines {s : Storage} {session : Session} {d : Disk} {l : Loc} (hs : d.Sound)
    (hl : d.locate true session.directory = .ok l) (hd : d.isDirectory l = true)
    (hlist : ∀ p, s.refuses .list p = false) (hremove : ∀ p, s.refuses .removeDir p = false) :
    let p := session.directory
    let gone := d.cleared p l (d.childNames l)
    (d.Canonical p → ∀ x, x ∈ gone ↔ d.get? (l ++ [x]) = some .directory ∧
      d.childNames (l ++ [x]) = [] ∧ (p.join x).fits = true) ∧
    (∀ line, '>' ∉ line → Command.parse? line = some ⟨"rmdir".toList, [['*']]⟩ →
      ∃ (d' : Disk) (bad : List Text), outcome s line session d =
          ⟨Text.unlines (bad.map Handler.notRemoved), session, d', none⟩ ∧
        (∀ k, d'.get? k = if ∃ x ∈ gone, k = l ++ [x] then none else d.get? k) ∧
        bad.Sublist (d.childNames l) ∧ (∀ x ∈ bad, ∃ t, d.get? (l ++ [x]) = some (.link t)) ∧
        (outcome s line session d').disk = d') ∧
    ∀ line x, '>' ∉ line → Command.parse? line = some ⟨"rmdir".toList, [x]⟩ → x ≠ ['*'] →
      (∃ k, Removes d session ⟨"rmdir".toList, [x]⟩ k ∧
        d.locate true (session.resolve x) = .ok k ∧
        outcome s line session d = ⟨[], session, d.erase k, none⟩) ∨
      (∀ k, ¬ Removes d session ⟨"rmdir".toList, [x]⟩ k) ∧ ∃ e ∈ Handler.removalErrors,
        outcome s line session d = ⟨"Error: ".toList ++ e.message ++ ['\n'], session, d, none⟩ := by
  intro p gone
  have hp : d.isDir p = true := Disk.isDir_iff.2 ⟨l, hl, hd⟩
  refine ⟨fun hc x => ?_, fun line hplain hcmd => ?_, fun line x hplain hcmd hx =>
    outcome_rmdir hlist hremove hplain hs hx hcmd⟩
  · show x ∈ d.cleared p l (d.childNames l) ↔ _
    rw [Disk.cleared_of_canonical hs hc hl hd, List.mem_filter, Disk.clearable_iff]
    refine and_iff_right_of_imp fun h => Disk.mem_childNames.2 ?_
    rw [h.1]
    rfl
  obtain ⟨hgone, hstill⟩ := hs.clear_clear (l := l) hp
  have hnames : ∀ x ∈ d.childNames l, IsName x := fun x hx => hs.isName (Disk.mem_childNames.1 hx)
  obtain ⟨bad, hsub, hlinks, ho⟩ := outcome_rmdir_all hlist hremove hplain hcmd hl (.refl d) hnames hp
  refine ⟨_, bad, ho, hgone.get?, hsub, hlinks, ?_⟩
  generalize (d.childNames l).foldl (Disk.clear p l) d = e at hgone hstill
  by_cases he : e.isDir p = true
  · obtain ⟨_, -, -, ho'⟩ := outcome_rmdir_all hlist hremove hplain hcmd hl hgone.keeps
      (fun x hx => hnames x (hgone.childNames_subset hx)) he
    rw [ho']
    exact List.foldl_fixed' hstill _
  · exact outcome_rmdir_all_of_not_isDir hlist hplain hcmd (eq_false_of_ne_true he)

/-- A directory in which a link stands before, and another one behind the directory that it is to. -/
def loft : Disk where
  items := [(["a".toList], .directory), (["a".toList, "a".toList], .link "b".toList),
    (["a".toList, "b".toList], .directory), (["a".toList, "c".toList], .link "b".toList),
    (["a".toList, "d".toList], .directory), (["a".toList, "d".toList, "f".toList], .file []),
    (["a".toList, "e".toList], .directory)]

theorem sound_loft : loft.Sound :=
  Disk.sound_of_items (by decide) (by decide) (by simp [loft])

theorem rmdir_lines_loft :
    let s : Storage := { chunk := 512 }
    let session : Session := ⟨"/a".toList, "/".toList, true⟩
    (∃ d', outcome s "rmdir *".toList session loft =
        ⟨"Error: Failed to remove directory a\n".toList, session, d', none⟩ ∧
      (∀ k, d'.get? k = if ∃ x ∈ ["b".toList, "e".toList], k = ["a".toList] ++ [x] then none
        else loft.get? k) ∧
      (outcome s "rmdir *".toList session d').disk = d') ∧
    outcome s "rmdir d/../b/".toList session loft =
      ⟨[], session, loft.erase ["a".toList, "b".toList], none⟩ ∧
    outcome s "rmdir c".toList session loft =
      ⟨"Error: Failed to remove directory\n".toList, session, loft, none⟩ := by
  intro s session
  have hl : loft.locate true session.directory = .ok ["a".toList] :=
    show loft.locate true "/a".toList = .ok ["a".toList] by decide +kernel
  obtain ⟨-, hall, -⟩ := rmdir_lines (s := s) sound_loft hl (by decide) (fun _ => rfl) fun _ => rfl
  obtain ⟨d', bad, ho, hget, -, -, hagain⟩ := hall "rmdir *".toList (by decide) (by decide)
  have hnames : loft.childNames ["a".toList] = ["a", "b", "c", "d", "e"].map String.toList :=
    List.mergeSort_of_pairwise (by decide)
  have hshown : (outcome s "rmdir *".toList session loft).shown =
      "Error: Failed to remove directory a\n".toList := by
    have ho := outcome_rmdir_star (s := s) (fun _ => rfl)
      (show '>' ∉ "rmdir *".toList by decide) (by decide) hl (by decide)
    rw [hnames] at ho
    rw [ho]
    decide +kernel
  have hgone : loft.cleared session.directory ["a".toList] (loft.childNames ["a".toList]) =
      ["b".toList, "e".toList] := by
    rw [hnames]
    decide +kernel
  rw [ho] at hshown
  rw [hgone] at hget
  refine ⟨⟨d', ho.trans (by rw [← hshown]), hget, hagain⟩, ?_, ?_⟩
  · decide +kernel
  · decide +kernel

/-- A directory with two empty ones in it. -/
def nest : Disk where
  items := [(["d".toList], .directory), (["d".toList, "e".toList], .directory),
    (["d".toList, "f".toList], .directory)]

/-- An empty directory stays if the path of the current directory leads through one that is removed
before it, or if there is no path to it that is short enough. -/
theorem rmdir_all_limits :
    let s : Storage := { chunk := 512 }
    let rmdir (directory : Path) := outcome s "rmdir *".toList ⟨directory, "/".toList, true⟩ nest
    nest.childNames ["d".toList, "e".toList] = [] ∧ nest.childNames ["d".toList, "f".toList] = [] ∧
    (rmdir "/d/e/..".toList).disk.get? ["d".toList, "e".toList] = none ∧
    (rmdir "/d/e/..".toList).disk.get? ["d".toList, "f".toList] = some .directory ∧
    nest.isDir (Storage.far 4094) = true ∧ (rmdir (Storage.far 4094)).disk = nest := by
  intro s rmdir
  have hnames : nest.childNames ["d".toList] = ["e", "f"].map String.toList :=
    List.mergeSort_of_pairwise (by decide)
  have hrun (directory : Path) (hl : nest.locate true directory = .ok ["d".toList]) :
      (rmdir directory).disk = (nest.childNames ["d".toList]).foldl
        (Disk.clear directory ["d".toList]) nest := by
    obtain ⟨_, -, -, ho⟩ := outcome_rmdir_all (s := s) (fun _ => rfl) (fun _ => rfl)
      (show '>' ∉ "rmdir *".toList by decide) (by decide)
      (show nest.locate true (Session.mk directory "/".toList true).directory = _ from hl)
      (.refl nest) (by rw [hnames]; decide) (Disk.isDir_iff.2 ⟨_, hl, rfl⟩)
    exact congrArg Outcome.disk ho
  have hfar : nest.locate true (Storage.far 4094) = .ok ["d".toList] :=
    Storage.locate_far (Disk.at_of_locate (by decide +kernel)) rfl (by decide)
  rw [hrun _ (by decide +kernel), hrun _ hfar, hnames]
  refine ⟨by decide +kernel, by decide +kernel, by decide +kernel, by decide +kernel,
    Disk.isDir_iff.2 ⟨_, hfar, rfl⟩, ?_⟩
  have hstays {x : Text} (hx : IsName x) :
      Disk.clear (Storage.far 4094) ["d".toList] nest x = nest := by
    rw [Disk.clear, Disk.clearable, Storage.fits_join_far hx (by decide), Bool.and_false,
      Bool.and_false, if_neg Bool.false_ne_true]
  simp only [List.map_cons, List.map_nil, List.foldl_cons, List.foldl_nil,
    hstays (x := "e".toList) (by decide), hstays (x := "f".toList) (by decide)]

end FileShell
