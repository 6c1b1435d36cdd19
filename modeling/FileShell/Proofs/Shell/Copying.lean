import FileShell.Proofs.Shell.Stops
import FileShell.Proofs.Storage.CopyOnto

/-!
# What a copy reads as

A line `cp a b` that shows nothing has copied. What the target then reads as are the bytes of the
source, unless the two are one file, which is emptied before it is read, or the target is a device
(`copy_reads`). A line `cp -r a b` that shows nothing has put every file of the source below the
target with its bytes, if the target is neither the source nor above it.
-/

namespace FileShell

namespace Storage

variable {s : Storage} {w w' : World} {p q : Path} {l m : Loc}

/-- A copy that succeeds has written what the source held once the target was emptied. -/
theorem copy_ok (h : (s.copy p q).run w = (.ok (), w')) :
    ∃ l m b b', w.disk.locate true p = .ok l ∧ w.disk.bytesAt l = .ok b ∧
      w.disk.locateWrite q = .ok m ∧ (w.disk.write m []).bytesAt l = .ok b' ∧
      w' = { w with disk := (w.disk.write m []).write m b' } := by
  rw [run_copy] at h
  split_ifs at h
  · cases h
  rcases hl : w.disk.locate true p with e | l
  · simp only [hl, Except.bind] at h
    cases h
  rcases hb : w.disk.bytesAt l with e | b
  · simp only [hl, hb, Except.bind, Except.map] at h
    cases h
  rcases hm : w.disk.locateWrite q with e | m
  · simp only [hl, hb, hm, Except.bind, Except.map] at h
    cases h
  rcases hb' : (w.disk.write m []).bytesAt l with e | b'
  · simp only [hl, hb, hm, hb', Except.bind, Except.map] at h
    cases h
  simp only [hl, hb, hm, hb', Except.bind, Except.map, drain_ofFile] at h
  by_cases hc : s.Serves
  · simp only [if_pos hc, if_true] at h
    exact ⟨l, m, b, b', rfl, hb, rfl, hb', (congrArg Prod.snd h).symm⟩
  · simp only [if_neg hc, Bool.false_eq_true, if_false] at h
    cases h

theorem shown_copy (s : Storage) (p q : Path) (w : World) :
    ((s.copy p q).run w).2.shown = w.shown := by
  rw [run_copy]
  split_ifs
  · rfl
  · repeat' split
    all_goals rfl

/-- After a copy the target reads as the bytes of the source, unless both are one file with bytes in
it or the target is a device. -/
theorem copy_reads (hs : w.disk.Sound) (h : (s.copy p q).run w = (.ok (), w')) :
    ∃ l m b, w.disk.locate true p = .ok l ∧ w.disk.bytesAt l = .ok b ∧
      w.disk.locate true q = .ok m ∧
      (w'.disk.read q = .ok b ↔ b = [] ∨ (l ≠ m ∧ w.disk.get? m ≠ some .device)) := by
  obtain ⟨l, m, b, b', hl, hb, hm, hb', rfl⟩ := copy_ok h
  obtain ⟨hne, hd, hlink⟩ := hs.of_locateWrite hm
  have hget := get?_write_write (d := w.disk) (m := m) [] b' hne
  have hk : w.disk.Keeps ((w.disk.write m []).write m b') := by
    refine Disk.FilledBelow.keeps (l := []) fun k => ?_
    rw [hget]
    split_ifs with hkm
    · exact .inr ⟨List.nil_prefix, hkm ▸ hne, by rw [hkm]; exact Overlay.placed_grows hd hlink⟩
    · exact .inl rfl
  have hread : ((w.disk.write m []).write m b').read q = .ok
      (if w.disk.get? m = some .device then [] else b') := by
    rw [Disk.read, Disk.locateWrite_of_keeps hk hm]
    simp only [bind, Except.bind, Disk.bytesAt, hget, if_true]
    rcases w.disk.get? m with _ | i
    · rfl
    · cases i <;> simp [Overlay.placed]
  refine ⟨l, m, b, hl, hb, (Disk.locateWrite_eq_ok_iff.1 hm).2.1, ?_⟩
  rw [hread]
  by_cases hlm : l = m
  · have hb'' : b' = [] := by
      subst hlm
      rw [Disk.bytesAt, Disk.get?_write [] hne] at hb'
      by_cases hdev : w.disk.get? l = some .device <;> simp [hdev] at hb' <;> exact hb'
    simp [hlm, hb'', eq_comm]
  · have hb'' : b' = b := by
      rw [Disk.bytesAt, Disk.get?_write [] hne, if_neg (by simp [hlm])] at hb'
      rw [Disk.bytesAt, hb'] at hb
      exact Except.ok.inj hb
    by_cases hdev : w.disk.get? m = some .device <;> simp [hlm, hb'', hdev, eq_comm]

end Storage

namespace Storage

variable {s : Storage} {w w' : World} {S D : Path} {ls ld : Loc}

/-- A copy of a tree takes back nothing of what was shown. -/
theorem shown_copyTree (hs : w.disk.Sound) (hfit : w.disk.LinksFit) (hS : w.disk.Root S ls)
    (hD : w.disk.Root D ld) (ha : S.isAbsolute = true) (hlt : ¬ copyPlace S ld <+: ls)
    (hrun : ((s.copyTree S D).run w).1 ≠ .error (.stopped .recursion)) :
    w.shown <+: ((s.copyTree S D).run w).2.shown := by
  have h := copyTree_done_of_ne_stopped hs hfit hS hD ha hlt hrun
  split_ifs at h
  · obtain ⟨w', hw, hd⟩ := h
    obtain ⟨t, ht, -⟩ := hd.shown
    rw [hw, ht]
    exact List.prefix_append _ _
  · obtain ⟨e, he⟩ := h
    exact he ▸ List.prefix_rfl

theorem shown_copyTree_onto (hr : ∀ p, s.refuses .list p = false) (hs : w.disk.Sound)
    (hfit : w.disk.LinksFit) (hS : w.disk.Root S ls) (hD : w.disk.Root D ld)
    (ha : S.isAbsolute = true) (hl : copyPlace S ld = ls)
    (hrun : ((s.copyTree S D).run w).1 ≠ .error (.stopped .recursion)) :
    w.shown <+: ((s.copyTree S D).run w).2.shown := by
  obtain ⟨w', hw, he⟩ | ⟨e, hw⟩ := copyTree_onto hr hs hfit hS hD ha hl hrun
  · rw [hw]
    exact he.shown
  · exact hw ▸ List.prefix_rfl

/-- A copy of a tree that reports nothing has every file of the source with its bytes, but for
those that devices have swallowed. -/
theorem copyTree_reads (hr : ∀ p, s.refuses .list p = false) (hs : w.disk.Sound)
    (hfit : w.disk.LinksFit) (hS : w.disk.Root S ls) (hD : w.disk.Root D ld)
    (ha : S.isAbsolute = true) (hlt : ¬ copyPlace S ld <+: ls) {T : Path} (h : (s.copyTree S D).run w = (.ok T, w'))
    (hq : w'.shown = w.shown) {r : Loc} {b : Bytes} (hb : w.disk.get? (ls ++ r) = some (.file b))
    (hn : ¬ copyPlace S ld <+: ls ++ r) :
    w'.disk.get? (copyPlace S ld ++ r) = Overlay.placed b (w.disk.get? (copyPlace S ld ++ r)) := by
  have hdone := copyTree_done_of_ne_stopped (s := s) hs hfit hS hD ha hlt (by rw [h]; exact nofun)
  generalize ho : s.copyOverlay w.disk S D ls ld = o at hdone
  split_ifs at hdone
  case neg =>
    obtain ⟨e, he⟩ := hdone
    rw [he] at h
    cases h
  obtain ⟨w'', hw, hd⟩ := hdone
  obtain rfl : w'' = w' := by
    rw [hw] at h
    exact congrArg Prod.snd h
  obtain ⟨t, ht, hrep⟩ := hd.shown
  obtain rfl : t = [] := by simpa [hq] using ht
  have hfails := hrep.fails_eq_false
  have hsrc : ∀ q, o.source q =
      if copyPlace S ld <+: ls ++ q then none else w.disk.get? (ls ++ q) :=
    fun q => by rw [← ho]; rfl
  have hreach : o.reached r = true := by
    refine Overlay.reached_of_source hfails (fun q => by rw [← ho]; simp [copyOverlay, overlay, hr])
      (fun q r hqr hne hsome => ?_) r (by rw [hsrc, if_neg hn, hb]; rfl)
    obtain ⟨u, rfl⟩ := hqr
    rw [hsrc] at hsome ⊢
    split_ifs at hsome with hc
    · simp at hsome
    rw [← List.append_assoc] at hc hsome
    rw [if_neg fun e => hc (e.trans (List.prefix_append _ _)), ← Disk.isDirectory_iff]
    exact hs.isDirectory_of_prefix (by simpa using hne) hsome
  rw [hd.there r, Overlay.result_of_file (hfails r) hreach (by rw [hsrc, if_neg hn, hb]), ← ho]
  rfl

end Storage

/-! ## The handlers -/

namespace Handler

variable {s : Storage} {session : Session} {w : World} {a b : Text}

theorem run_cp : ((cp s).run [a, b] session).run w =
    if w.disk.pathExists (session.resolve a) && !w.disk.isDir (session.resolve a) then
      match (s.copy (session.resolve a) (session.resolve b)).run w with
        | (.ok (), w') => (.ok session, w')
        | (.error _, w') => (.error .cannotCopy, w')
    else (.error .copyingNoFile, w) := by
  show (do
    if !(← isThere (session.resolve a)) then throw CommandError.copyingNoFile
    (s.copy (session.resolve a) (session.resolve b)).failingWith CommandError.cannotCopy
    return session : Act CommandError Session).run w = _
  simp only [Act.run_bind, Act.run_lift, run_isThere, Act.run_ite, Act.run_throw, Act.run_pure,
    Act.run_failingWith]
  rcases w.disk.pathExists (session.resolve a) && !w.disk.isDir (session.resolve a)
  · rfl
  · rcases (s.copy (session.resolve a) (session.resolve b)).run w with ⟨_ | ⟨⟩, w'⟩ <;> rfl

theorem run_cpTree : ((cpTree s).run [a, b] session).run w =
    if w.disk.isDir (session.resolve a) then
      match (s.makeDirs (session.resolve b) true).run w with
        | (.ok (), w') => match (s.copyTree (session.resolve a) (session.resolve b)).run w' with
          | (.ok _, w'') => (.ok session, w'')
          | (.error e, w'') => (.error (CommandError.cannotCopyDirectory.overStorage e), w'')
        | (.error _, w') => (.error .cannotCopyDirectory, w')
    else (.error .copyingNoDirectory, w) := by
  show (do
    if !(← Storage.isDir (session.resolve a)) then throw CommandError.copyingNoDirectory
    (s.makeDirs (session.resolve b) true).failingWith CommandError.cannotCopyDirectory
    let _ ← (s.copyTree (session.resolve a) (session.resolve b)).adapt
      (CommandError.cannotCopyDirectory.overStorage)
    return session : Act CommandError Session).run w = _
  simp only [Act.run_bind, Act.run_lift, Storage.run_isDir, Act.run_ite, Act.run_throw,
    Act.run_pure, Act.run_failingWith, Act.run_adapt]
  rcases w.disk.isDir (session.resolve a)
  · rfl
  · rcases (s.makeDirs (session.resolve b) true).run w with ⟨_ | ⟨⟩, w'⟩
    · rfl
    · rcases hc : (s.copyTree (session.resolve a) (session.resolve b)).run w' with ⟨_ | _, w''⟩ <;>
        simp [hc]

end Handler

/-! ## Lines -/

variable {s : Storage} {session : Session} {w : World} {line c a b : Text}

/-- A line `cp a b` that shows nothing is a copy that has succeeded. -/
theorem copy_of_cp_line (hl : CommandLine.split line = ⟨c, none⟩)
    (hc : Command.parse? c = some ⟨"cp".toList, [a, b]⟩)
    (hq : (runLine s line session w).2.shown = w.shown) :
    (s.copy (session.resolve a) (session.resolve b)).run w =
      (.ok (), (runLine s line session w).2) := by
  by_cases ha : a = Handler.treeFlag
  · subst ha
    obtain ⟨_, h⟩ := run_of_quiet hl hc (Handler.route_cpTree [b]) List.prefix_rfl
      (fun _ _ h => by cases h; rfl) hq
    cases h
  have hm : w.shown <+: (((Handler.cp s).run [a, b] session).run w).2.shown := by
    rw [Handler.run_cp]
    have hs := Storage.shown_copy s (session.resolve a) (session.resolve b) w
    split_ifs
    · rcases hrun : (s.copy (session.resolve a) (session.resolve b)).run w with ⟨_ | ⟨⟩, w'⟩ <;>
        rw [hrun] at hs <;> exact hs ▸ List.prefix_rfl
    · exact List.prefix_rfl
  obtain ⟨_, h⟩ := run_of_quiet hl hc (Handler.route_cp ha) hm (Handler.ends_cp s _ _ _) hq
  rw [Handler.run_cp] at h
  split_ifs at h
  · rcases hrun : (s.copy (session.resolve a) (session.resolve b)).run w with ⟨_ | ⟨⟩, w'⟩ <;>
      rw [hrun] at h
    · cases h
    · exact congrArg (fun r => (Except.ok (), r.2)) h
  · cases h

/-- A line `cp -r a b` that shows nothing and comes to its end has made the target and copied into
it. -/
theorem copyTree_of_cp_line (hl : CommandLine.split line = ⟨c, none⟩)
    (hc : Command.parse? c = some ⟨"cp".toList, [Handler.treeFlag, a, b]⟩)
    (hend : (execute s line session w).1.2 = none)
    (hq : (runLine s line session w).2.shown = w.shown)
    (hshown : ∀ v, v = { w with disk := (w.disk.makeDirs true (session.resolve b)).2 } →
      ((s.copyTree (session.resolve a) (session.resolve b)).run v).1 ≠
          .error (.stopped .recursion) →
        v.shown <+: ((s.copyTree (session.resolve a) (session.resolve b)).run v).2.shown) :
    ∃ T, (s.copyTree (session.resolve a) (session.resolve b)).run
        { w with disk := (w.disk.makeDirs true (session.resolve b)).2 } =
      (.ok T, (runLine s line session w).2) := by
  have hroute := Handler.route_cpTree (s := s) [a, b]
  have hstop {e : CommandError} {v : World}
      (hrun : ((Handler.cpTree s).run [a, b] session).run w = (.error e, v)) : e.stop? = none :=
    stop?_of_execute hl hc hroute hend hrun
  have hquiet (hm : w.shown <+: (((Handler.cpTree s).run [a, b] session).run w).2.shown) :=
    run_of_quiet hl hc hroute hm (fun _ _ => hstop) hq
  have hrun : ((Handler.cpTree s).run [a, b] session).run w = _ := Handler.run_cpTree
  -- a failure would have been shown
  have fails {e : CommandError} {w' : World} (hle : w.shown <+: w'.shown)
      (h : ((Handler.cpTree s).run [a, b] session).run w = (.error e, w')) : False := by
    obtain ⟨_, h'⟩ := hquiet (by rw [h]; exact hle)
    rw [h] at h'
    cases h'
  split_ifs at hrun with hdir
  swap
  · exact (fails List.prefix_rfl hrun).elim
  obtain ⟨e, -, he⟩ | hmade := Storage.run_makeDirs_or s (session.resolve b) true w
  · rw [he] at hrun
    exact (fails List.prefix_rfl hrun).elim
  rw [hmade] at hrun
  rcases hmk : w.disk.makeDirs true (session.resolve b) with ⟨e | ⟨⟩, d⟩ <;> rw [hmk] at hrun hshown
  · exact (fails (by exact List.prefix_rfl) hrun).elim
  have hcopy := hshown _ rfl
  simp only [Act.mapError_ok] at hrun
  rcases hrun' : (s.copyTree (session.resolve a) (session.resolve b)).run { w with disk := d } with
    ⟨e | T, w'⟩ <;> rw [hrun'] at hrun hcopy
  · have hne : (.error e : Except StorageError Path) ≠ .error (.stopped .recursion) := by
      rintro ⟨⟩
      cases hstop hrun
    exact (fails (hcopy hne) hrun).elim
  · obtain ⟨_, h⟩ := hquiet (by rw [hrun]; exact hcopy nofun)
    rw [hrun] at h
    exact ⟨T, congrArg (fun r => (Except.ok T, r.2)) h⟩

/-- What a copy leaves when its line shows nothing and comes to its end. After `cp a b` the target
reads as the bytes of the source, exactly if there are none or the two are different files and the
target is not the null device. After `cp -r a b`, if no link stands at or below the source and the
target, and the copy goes neither to the source nor above it, every file of the source outside the
copy is in the copy with its bytes, exactly if there are none or the null device does not stand
there. If the copy goes to the source itself, what is left of a file are its bytes exactly if there
are none. -/
theorem copy_lines_read (hr : ∀ p, s.refuses .list p = false)
    (hsess : session.directory.isAbsolute = true) (hs : w.disk.Sound)
    (hl : CommandLine.split line = ⟨c, none⟩)
    (hq : (runLine s line session w).2.shown = w.shown) :
    (Command.parse? c = some ⟨"cp".toList, [a, b]⟩ →
      ∃ l m bytes, w.disk.locate true (session.resolve a) = .ok l ∧
        w.disk.bytesAt l = .ok bytes ∧ w.disk.locate true (session.resolve b) = .ok m ∧
        ((runLine s line session w).2.disk.read (session.resolve b) = .ok bytes ↔
          bytes = [] ∨ (l ≠ m ∧ w.disk.get? m ≠ some .device))) ∧
    (Command.parse? c = some ⟨"cp".toList, [Handler.treeFlag, a, b]⟩ →
      (execute s line session w).1.2 = none → w.disk.LinksFit →
      ∀ ls ld, w.disk.Root (session.resolve a) ls →
        (w.disk.makeDirs true (session.resolve b)).2.Root (session.resolve b) ld →
        (¬ Storage.copyPlace (session.resolve a) ld <+: ls →
          ∀ r bytes, w.disk.get? (ls ++ r) = some (.file bytes) →
            ¬ Storage.copyPlace (session.resolve a) ld <+: ls ++ r →
            ((runLine s line session w).2.disk.bytesAt
                (Storage.copyPlace (session.resolve a) ld ++ r) = .ok bytes ↔
              bytes = [] ∨
                w.disk.get? (Storage.copyPlace (session.resolve a) ld ++ r) ≠ some .device)) ∧
        (Storage.copyPlace (session.resolve a) ld = ls →
          ∀ r bytes, w.disk.get? (ls ++ r) = some (.file bytes) →
            ((runLine s line session w).2.disk.bytesAt (ls ++ r) = .ok bytes ↔ bytes = []))) := by
  refine ⟨fun hc => Storage.copy_reads hs (copy_of_cp_line hl hc hq), ?_⟩
  intro hc hend hfit ls ld hS hD
  have habs := Session.isAbsolute_resolve hsess a
  obtain ⟨hs', hmore⟩ := hs.makeDirs true (session.resolve b)
  have hS' := hS.of_keeps hmore.keeps
  have hfit' := hfit.of_keeps hmore.keeps
  refine ⟨fun hlt r bytes hb hn => ?_, fun honto r bytes hb => ?_⟩
  · obtain ⟨T, hrun⟩ := copyTree_of_cp_line hl hc hend hq fun v hv =>
      by subst hv; exact Storage.shown_copyTree hs' hfit' hS' hD habs hlt
    have hget := Storage.copyTree_reads hr hs' hfit' hS' hD habs hlt hrun hq (hmore.get? hb) hn
    have hdev := hmore.get?_iff (k := Storage.copyPlace (session.resolve a) ld ++ r)
      (i := .device) (by simp)
    simp only [Disk.bytesAt, hget, ne_eq, ← hdev]
    rcases (w.disk.makeDirs true (session.resolve b)).2.get?
      (Storage.copyPlace (session.resolve a) ld ++ r) with _ | i
    · simp [Overlay.placed]
    · cases i <;> simp [Overlay.placed, eq_comm]
  · obtain ⟨T, hrun⟩ := copyTree_of_cp_line hl hc hend hq fun v hv =>
      by subst hv; exact Storage.shown_copyTree_onto hr hs' hfit' hS' hD habs honto
    have hne := Storage.copyTree_onto hr hs' hfit' hS' hD habs honto (by rw [hrun]; rintro ⟨⟩)
    rw [hrun] at hne
    obtain ⟨w', hw, he⟩ | ⟨e, hw⟩ := hne
    · obtain ⟨-, rfl⟩ := Prod.mk.inj hw
      simp [Disk.bytesAt, he.empty hq r bytes (hmore.get? hb), eq_comm]
    · cases hw

/-- A file beside a tree and an empty directory. -/
def besideTree : Disk where
  items := [
    (["a".toList], .file [1]),
    (["s".toList], .directory),
    (["s".toList, "f".toList], .file [2]),
    (["d".toList], .directory)]

theorem copy_lines_read_besideTree :
    (runLine { chunk := 512 } "cp a b".toList ⟨"/".toList, "/".toList, true⟩
        ⟨besideTree, []⟩).2.disk.read "//b".toList = .ok [1] ∧
      (runLine { chunk := 512 } "cp -r s d".toList ⟨"/".toList, "/".toList, true⟩
        ⟨besideTree, []⟩).2.disk.bytesAt ["d".toList, "s".toList, "f".toList] = .ok [2] := by
  have hs : besideTree.Sound := Disk.sound_of_items (by decide) (by decide) (by simp [besideTree])
  have root {d : Disk} {p : Path} {l : Loc} (hk : Disk.Keeps besideTree d)
      (hl : d.locate true p = .ok l) (hd : d.isDirectory l = true) : d.Root p l :=
    ⟨hl, hd, fun k t _ h => Disk.get?_ne_link_of_items (by simp [besideTree]) k t (hk.link.1 h)⟩
  have h₁ := @copy_lines_read { chunk := 512 } ⟨"/".toList, "/".toList, true⟩ ⟨besideTree, []⟩
    "cp a b".toList "cp a b".toList "a".toList "b".toList (fun _ => rfl) rfl hs (by decide)
    (by decide +kernel)
  have h₂ := @copy_lines_read { chunk := 512 } ⟨"/".toList, "/".toList, true⟩ ⟨besideTree, []⟩
    "cp -r s d".toList "cp -r s d".toList "s".toList "d".toList (fun _ => rfl) rfl hs (by decide)
    (by decide +kernel)
  refine ⟨?_, ?_⟩
  · obtain ⟨l, m, bytes, hl, hb, hm, h⟩ := h₁.1 (by decide)
    obtain rfl : ["a".toList] = l := Except.ok.inj hl
    obtain rfl : ["b".toList] = m := Except.ok.inj hm
    obtain rfl : [1] = bytes := Except.ok.inj hb
    exact h.2 (.inr (by decide))
  · have hd : besideTree.makeDirs true (Session.resolve ⟨"/".toList, "/".toList, true⟩ "d".toList) =
        (.ok (), besideTree) := Disk.makeDirs_of_isDir rfl
    refine ((h₂.2 (by decide) (by decide +kernel) (Disk.linksFit_of_items (by simp [besideTree]))
      ["s".toList] ["d".toList] (root (.refl _) rfl rfl) ?_).1 (by decide)
      ["f".toList] [2] (by decide) (by decide)).2 (.inr (by decide))
    rw [hd]
    exact root (.refl _) rfl rfl

/-- A file copied onto itself is lost without a word, and so are the files of a directory that is
copied into the one it stands in. -/
theorem copy_onto_itself :
    (runLine { chunk := 512 } "cp a a".toList ⟨"/".toList, "/".toList, true⟩
        ⟨besideTree, []⟩).2.shown = [] ∧
      besideTree.read "//a".toList = .ok [1] ∧
      (runLine { chunk := 512 } "cp a a".toList ⟨"/".toList, "/".toList, true⟩
        ⟨besideTree, []⟩).2.disk.read "//a".toList = .ok [] ∧
      (runLine { chunk := 512 } "cp -r s .".toList ⟨"/".toList, "/".toList, true⟩
        ⟨besideTree, []⟩).2.shown = [] ∧
      besideTree.bytesAt ["s".toList, "f".toList] = .ok [2] ∧
      (runLine { chunk := 512 } "cp -r s .".toList ⟨"/".toList, "/".toList, true⟩
        ⟨besideTree, []⟩).2.disk.bytesAt ["s".toList, "f".toList] = .ok [] := by
  refine ⟨?_, ?_, ?_, ?_, ?_, ?_⟩ <;> decide +kernel

end FileShell
