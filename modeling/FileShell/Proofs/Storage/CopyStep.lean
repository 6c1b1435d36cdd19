import FileShell.Proofs.Disk.Descent
import FileShell.Proofs.Storage.Overlay
import FileShell.Proofs.Storage.Runs

/-!
# One step of a copy

A tree on a disk and the place it is copied to are an overlay (`overlay`), from which the copy as
a whole is left out. A node is done when the disk holds what comes of the overlay there, nothing
else has changed, and the reports have been shown (`Done`). A node that is skipped, reported, or
copied as a file is done (`copyFile_done`).
-/

namespace FileShell

/-- A world that has become another by an overlay onto what stood at a location. -/
structure Overlay.Done (o : Overlay) (l : Loc) (w w' : World) : Prop where
  sound : w'.disk.Sound
  there : ∀ r, w'.disk.get? (l ++ r) = o.result r
  elsewhere : ∀ k, ¬ l <+: k → w'.disk.get? k = w.disk.get? k
  shown : ∃ t, w'.shown = w.shown ++ t ∧ o.Reports t

/-- A world that has become another by an overlay below some names of a directory. -/
structure Overlay.DoneIn (o : Overlay) (l : Loc) (xs : List Text) (w w' : World) : Prop where
  sound : w'.disk.Sound
  there : ∀ x ∈ xs, ∀ r, w'.disk.get? (l ++ x :: r) = (o.below x).result r
  elsewhere : ∀ k, (∀ x ∈ xs, ¬ l ++ [x] <+: k) → w'.disk.get? k = w.disk.get? k
  shown : ∃ t, w'.shown = w.shown ++ t ∧ o.ReportsIn xs t

theorem Overlay.DoneIn.nil {w : World} (hs : w.disk.Sound) (o : Overlay) (l : Loc) :
    o.DoneIn l [] w w :=
  ⟨hs, by simp, fun _ _ => rfl, [], by simp, .nil o⟩

/-- What is below one name is done, and then what is below later ones. -/
theorem Overlay.DoneIn.cons {o : Overlay} {l : Loc} {x : Text} {xs : List Text} {w w₁ w' : World}
    (hx : ∀ y ∈ xs, Disk.textLe x y = true ∧ x ≠ y) (hd : (o.below x).Done (l ++ [x]) w w₁)
    (h : o.DoneIn l xs w₁ w') : o.DoneIn l (x :: xs) w w' := by
  obtain ⟨t, ht, hr⟩ := hd.shown
  obtain ⟨u, hu, hs⟩ := h.shown
  refine ⟨h.sound, fun y hy r => ?_, fun k hk => ?_, t ++ u, ?_, .cons hx hr hs⟩
  · rcases List.mem_cons.1 hy with rfl | hy
    · rw [h.elsewhere _ fun z hz he => ?_, ← hd.there r]
      · simp
      · rw [List.prefix_append_right_inj, List.cons_prefix_cons] at he
        exact (hx z hz).2 he.1.symm
    · exact h.there y hy r
  · rw [h.elsewhere k fun y hy => hk y (List.mem_cons_of_mem x hy)]
    exact hd.elsewhere k (hk x List.mem_cons_self)
  · rw [hu, ht, List.append_assoc]

theorem Overlay.Done.filledBelow {o : Overlay} {l m : Loc} {w w' : World} (h : o.Done l w w')
    (ht : ∀ r, o.target r = w.disk.get? (l ++ r)) (hl : w.disk.LinkFree l) (hm : m <+: l)
    (hn : l ≠ m) : Disk.FilledBelow m w.disk w'.disk := by
  intro k
  by_cases hk : l <+: k
  · obtain ⟨r, rfl⟩ := hk
    refine .inr ⟨hm.trans (List.prefix_append _ _), fun e => hn ?_, ?_⟩
    · exact (hm.eq_of_length_le (by rw [← e]; simp)).symm
    · rw [h.there r, ← ht r]
      exact Overlay.result_grows fun t => ht r ▸ hl _ t (List.prefix_append _ _)
  · exact .inl (h.elsewhere k hk)

/-! ## The ways to be done with a node -/

namespace Overlay.Done

variable {o : Overlay} {l : Loc} {w w' : World}

/-- A node that is not there is passed over. -/
theorem skip (hs : w.disk.Sound) (ht : ∀ r, o.target r = w.disk.get? (l ++ r))
    (ho : o.source [] = none) : o.Done l w w where
  sound := hs
  there r := by rw [result_of_not_reached (not_reached_of_source ho r), ht]
  elsewhere _ _ := rfl
  shown := by
    have hfails := fails_of_not_reached (not_reached_of_source ho [])
    refine ⟨[], by simp, reports_of_not_opens ?_ hfails⟩
    by_contra h
    simp [opens_source (by simpa using h)] at ho

/-- A node that is not copied is reported. -/
theorem report (hs : w.disk.Sound) (ht : ∀ r, o.target r = w.disk.get? (l ++ r))
    (hr : o.reached [] = true) (ho : o.opens [] = false) (hc : o.copies [] = false) :
    o.Done l w { w with shown := w.shown ++ o.line [] } where
  sound := hs
  there r := by rw [result_of_not_opens ho hc, ht]
  elsewhere _ _ := rfl
  shown := ⟨o.line [], rfl, reports_of_fails (by simp [fails, hr, ho, hc])⟩

/-- A file is put where it is copied to, and is reported if its bytes do not come through. -/
theorem file {t : Text} (hs : w'.disk.Sound) (ht : ∀ r, o.target r = w.disk.get? (l ++ r))
    (hr : o.reached [] = true) (ho : o.opens [] = false) (hc : o.copies [] = true)
    (hd : ∀ k, w'.disk.get? k =
      if k = l then placed (o.bytes []) (o.target []) else w.disk.get? k)
    (hw : w'.shown = w.shown ++ t) (h : t = if o.held then [] else o.line []) : o.Done l w w' where
  sound := hs
  there r := by
    rw [hd]
    cases r with
    | nil => simp [result, ho, hr, hc]
    | cons x r =>
      rw [if_neg (by simp), result_of_not_reached (not_reached_cons (.inl ho) x r), ht]
  elsewhere k hk := by
    rw [hd, if_neg]
    rintro rfl
    exact hk List.prefix_rfl
  shown := by
    refine ⟨t, hw, ?_⟩
    rw [h]
    split_ifs with hh
    · exact reports_of_not_opens ho (by simp [fails, hc, hh])
    · exact reports_of_fails (by simp [fails, hr, ho, hh])

end Overlay.Done

namespace Storage

variable {s : Storage} {d d' : Disk} {w : World} {copy ls lt m : Loc} {root S T : Path} {n : Nat}
  {x : Text}

/-- A tree on a disk and its copy, seen as an overlay. `copy` is where the copy as a whole stands,
which is left out of the source. -/
def overlay (s : Storage) (d : Disk) (copy : Loc) (x : Text) (S : Path) (ls : Loc) (T : Path)
    (lt : Loc) : Overlay where
  name := x
  source r := if copy <+: ls ++ r then none else d.get? (ls ++ r)
  target r := d.get? (lt ++ r)
  found r := (r.foldl Path.join S).fits
  listed r := !s.refuses .list (r.foldl Path.join S)
  made r := !s.refuses .makeDirs (r.foldl Path.join T) && (r.foldl Path.join T).fits
  copied r := !s.refuses .copy (r.foldl Path.join S) && (r.foldl Path.join S).fits &&
    (r.foldl Path.join T).fits
  held := s.Serves

theorem overlay_below (s : Storage) (d : Disk) (copy : Loc) (x : Text) (S : Path) (ls : Loc)
    (T : Path) (lt : Loc) (y : Text) : (s.overlay d copy x S ls T lt).below y =
      s.overlay d copy y (S.join y) (ls ++ [y]) (T.join y) (lt ++ [y]) := by
  simp [overlay, Overlay.below]

/-- Only what is read below a name matters to the overlay there. -/
theorem overlay_below_congr (hs : ∀ k, ¬ copy <+: k → d'.get? k = d.get? k) {y : Text}
    (ht : ∀ r, d'.get? (lt ++ y :: r) = d.get? (lt ++ y :: r)) :
    (s.overlay d' copy x S ls T lt).below y = (s.overlay d copy x S ls T lt).below y := by
  simp only [overlay, Overlay.below, Overlay.mk.injEq, true_and, and_true]
  refine ⟨funext fun r => ?_, funext ht⟩
  split_ifs with h
  · rfl
  · exact hs _ h

/-! ## One name -/

theorem run_copyInto (s : Storage) (root : Path) (n : Nat) (S T : Path) (w : World) :
    (s.copyInto root (n + 1) S T).run w = match (s.makeDirs T true).run w with
      | (.error e, w') => (.error e, w')
      | (.ok (), w') =>
        ((s.namesIn w.disk S).forM (s.copyChild root n (s.copyInto root n) S T)).run w' := by
  rw [copyInto]
  simp only [Act.run_bind, Act.run_get]
  rcases (s.makeDirs T true).run w with ⟨_ | ⟨⟩, w'⟩ <;> rfl

theorem run_copyChild (s : Storage) (root : Path) (n : Nat)
    (deeper : Path → Path → Act StorageError Unit) (S T : Path) (x : Text) (w : World) :
    (s.copyChild root n deeper S T x).run w =
      match w.disk.samePath (linksWithin n) (S.join x) root with
      | .error e => (.error (.stopped (.ofDisk e)), w)
      | .ok same =>
        if same then (.ok (), w)
        else if w.disk.isDir (S.join x) then
          ((deeper (S.join x) (T.join x)).reporting ("Error copying directory: ".toList ++ x)).run w
        else (.ok (), ((s.copy (S.join x) (T.join x)).orShow
          ("Error copying file: ".toList ++ x) w).2) := by
  unfold copyChild
  rw [Act.run_bind, run_samePath]
  rcases w.disk.samePath (linksWithin n) (S.join x) root with e | same
  · rfl
  · simp only [Act.mapError_ok, Act.run_ite, Act.run_bind, Act.run_lift, run_isDir]
    split_ifs <;> rfl

/-- The same if it is known whether the name is the one of the copy as a whole. -/
theorem run_copyChild_of_samePath {same : Bool} {deeper : Path → Path → Act StorageError Unit}
    (h : w.disk.samePath (linksWithin n) (S.join x) root = .ok same) :
    (s.copyChild root n deeper S T x).run w =
      if same then (.ok (), w)
      else if w.disk.isDir (S.join x) then
        ((deeper (S.join x) (T.join x)).reporting ("Error copying directory: ".toList ++ x)).run w
      else (.ok (), ((s.copy (S.join x) (T.join x)).orShow
        ("Error copying file: ".toList ++ x) w).2) := by
  rw [run_copyChild, h]

/-- What a copy needs to know of the disk it works on. -/
structure Copying (d : Disk) (copy : Loc) (root S : Path) (ls lt : Loc) : Prop where
  sound : d.Sound
  fit : d.LinksFit
  source : d.Root S ls
  rootAt : d.At root copy
  noNull : '\x00' ∉ root
  apart : ¬ copy <+: ls
  inside : copy <+: lt

theorem Copying.of_keeps (h : Copying d copy root S ls lt) (hs : d'.Sound) (hk : d.Keeps d') :
    Copying d' copy root S ls lt where
  sound := hs
  fit := h.fit.of_keeps hk
  source := h.source.of_keeps hk
  rootAt := h.rootAt.of_keeps hk
  noNull := h.noNull
  apart := h.apart
  inside := h.inside

/-- The name that is passed over is the one of the copy as a whole. -/
theorem Copying.samePath (h : Copying d copy root S ls lt) (hx : IsName x) (n : Nat) :
    d.samePath (linksWithin n) (S.join x) root = .ok (ls ++ [x] == copy) :=
  Disk.samePath_eq (h.source.child hx).at_join h.rootAt h.sound.links h.fit
    (h.source.child hx).noNull_join h.noNull (Nat.le_add_right _ _)

theorem Copying.prefix_iff (h : Copying d copy root S ls lt) :
    copy <+: ls ++ [x] ↔ ls ++ [x] = copy := by
  rw [List.prefix_concat_iff]
  constructor
  · rintro (rfl | hp)
    · simp
    · exact absurd hp h.apart
  · rintro rfl
    simp

theorem namesIn_of_root (h : d.Root S ls) :
    s.namesIn d S = if s.refuses .list S then [] else d.childNames ls := by
  unfold namesIn
  simp only [Disk.list, h.located, Disk.isDirectory_iff.1 h.directory, bind, Except.bind, pure,
    Except.pure]

/-! ## A file -/

theorem bytesAt_eq {i : Item} (hi : d.get? m = some i) (hd : i ≠ .directory)
    (hl : ∀ t, i ≠ .link t) : d.bytesAt m = .ok i.bytes := by
  unfold Disk.bytesAt
  rw [hi]
  cases i with
  | directory => exact absurd rfl hd
  | file b => rfl
  | link t => exact absurd rfl (hl t)
  | device => rfl

/-- Emptied and then written, a place holds what was written unless it is a device. -/
theorem get?_write_write (a b : Bytes) (hm : m ≠ []) (k : Loc) :
    ((d.write m a).write m b).get? k =
      if k = m then Overlay.placed b (d.get? m) else d.get? k := by
  rw [Disk.get?_write b hm, Disk.get?_write a hm, Disk.get?_write a hm]
  by_cases hk : k = m
  · subst hk
    rcases hi : d.get? k with _ | i
    · simp [Overlay.placed]
    · cases i <;> simp [Overlay.placed]
  · simp [hk]

variable (hx : IsName x) (hS : w.disk.Root S ls) (hT : w.disk.Root T lt)
include hx hS hT

/-- What is copied is what stands at the source once the target has been emptied. -/
theorem run_copy_emptied {i : Item} {b : Bytes} (hr : s.refuses .copy (S.join x) = false)
    (hf : (S.join x).fits = true) (hf' : (T.join x).fits = true)
    (hi : w.disk.get? (ls ++ [x]) = some i) (hd : i ≠ .directory)
    (ht : w.disk.isDirectory (lt ++ [x]) = false)
    (hb : (w.disk.write (lt ++ [x]) []).bytesAt (ls ++ [x]) = .ok b) :
    (s.copy (S.join x) (T.join x)).run w =
      (if s.Serves then .ok () else .error (.copy (S.join x) (T.join x)), { w with
        disk := (w.disk.write (lt ++ [x]) []).write (lt ++ [x])
          (if s.Serves then b else []) }) := by
  have hl : ∀ t, i ≠ .link t := fun t e =>
    hS.linkFree (ls ++ [x]) t (List.prefix_append _ _) (by rw [hi, e])
  rw [run_copy, hr, (hS.child hx).locate_join, (hT.child hx).locateWrite_join]
  simp only [Bool.false_eq_true, if_false, hf, hf', if_true, ht, Except.bind,
    bytesAt_eq hi hd hl, Except.map, hb, drain_ofFile]
  by_cases hc : s.Serves
  · simp only [if_pos hc, if_true]
  · simp only [if_neg hc, Bool.false_eq_true, if_false]

theorem run_copy_join {i : Item} (hn : ls ≠ lt)
    (hr : s.refuses .copy (S.join x) = false) (hf : (S.join x).fits = true)
    (hf' : (T.join x).fits = true) (hi : w.disk.get? (ls ++ [x]) = some i) (hd : i ≠ .directory)
    (ht : w.disk.isDirectory (lt ++ [x]) = false) :
    (s.copy (S.join x) (T.join x)).run w =
      (if s.Serves then .ok () else .error (.copy (S.join x) (T.join x)), { w with
        disk := (w.disk.write (lt ++ [x]) []).write (lt ++ [x])
          (if s.Serves then i.bytes else []) }) := by
  have hne : ls ++ [x] ≠ lt ++ [x] := fun e => hn (List.append_inj' e rfl).1
  refine run_copy_emptied hx hS hT hr hf hf' hi hd ht (bytesAt_eq ?_ hd fun t e => ?_)
  · rw [Disk.get?_write [] (by simp), if_neg (fun h => hne h.1), hi]
  · exact hS.linkFree (ls ++ [x]) t (List.prefix_append _ _) (by rw [hi, e])

theorem run_copy_join_error (h : s.refuses .copy (S.join x) = true ∨ (S.join x).fits = false ∨
    (T.join x).fits = false ∨ w.disk.get? (ls ++ [x]) = some .directory ∨
    w.disk.isDirectory (lt ++ [x]) = true) :
    ∃ e, (s.copy (S.join x) (T.join x)).run w = (.error e, w) := by
  by_cases hr : s.refuses .copy (S.join x) = true
  · exact ⟨.refused, by rw [run_copy, if_pos hr]⟩
  refine ⟨.copy (S.join x) (T.join x), ?_⟩
  rw [run_copy, if_neg hr, (hS.child hx).locate_join]
  by_cases hf : (S.join x).fits = true
  case neg => simp [hf, Except.bind]
  rcases hb : w.disk.bytesAt (ls ++ [x]) with e | b
  · simp [hf, Except.bind, hb, Except.map]
  have hd : w.disk.get? (ls ++ [x]) ≠ some .directory := fun e => by simp [Disk.bytesAt, e] at hb
  simp only [hf, if_true, Except.bind, hb, Except.map, (hT.child hx).locateWrite_join]
  by_cases hf' : (T.join x).fits = true
  · have ht : w.disk.isDirectory (lt ++ [x]) = true := by simpa [hr, hf, hf', hd] using h
    simp [hf', ht]
  · simp [hf']

omit hx hS hT

/-! ## One step -/

variable (h : Copying w.disk copy root S ls lt) (hT : w.disk.Root T lt) (hx : IsName x)
include h hT hx

/-- A name that leads to no directory: its file is copied, or one line is shown. -/
theorem copyFile_done {o : Overlay} {i : Item}
    (ho : o = s.overlay w.disk copy x (S.join x) (ls ++ [x]) (T.join x) (lt ++ [x]))
    (hi : w.disk.get? (ls ++ [x]) = some i) (hs : ls ++ [x] ≠ copy)
    (hd : w.disk.isDir (S.join x) = false) :
    o.Done (lt ++ [x]) w
      ((s.copy (S.join x) (T.join x)).orShow ("Error copying file: ".toList ++ x) w).2 := by
  have htgt : ∀ r, o.target r = w.disk.get? (lt ++ [x] ++ r) := by rw [ho]; exact fun _ => rfl
  have hsrc : o.source [] = some i := by simp [ho, overlay, h.prefix_iff, hs, hi]
  have hfound : o.found [] = (S.join x).fits := by rw [ho]; rfl
  have hcopied : o.copied [] = (!s.refuses .copy (S.join x) && (S.join x).fits &&
      (T.join x).fits) := by rw [ho]; rfl
  have hname : o.name = x := by rw [ho]; rfl
  have hheld : o.held = decide (s.Serves) := by rw [ho]; rfl
  have htree : o.isTree [] = false := by
    rw [(h.source.child hx).isDir_join, Disk.isDirectory, hi] at hd
    rw [Overlay.isTree, hsrc, hfound, Bool.and_comm]
    exact hd
  have hopen : o.opens [] = false := by simp [Overlay.opens, htree]
  have hreach : o.reached [] = true := by simp [Overlay.reached, hsrc]
  have hcp : o.copies [] = (some i != some .directory && (!s.refuses .copy (S.join x) &&
      (S.join x).fits && (T.join x).fits) && w.disk.get? (lt ++ [x]) != some .directory) := by
    rw [Overlay.copies, hsrc, hcopied, htgt, List.append_nil]
  have hne : ls ≠ lt := fun e => h.apart (e ▸ h.inside)
  have hline : o.line [] = "Error copying file: ".toList ++ x ++ ['\n'] := by
    simp [Overlay.line, htree, hname]
  rw [run_orShow]
  rcases hc' : o.copies [] with _ | _ <;> rw [hc'] at hcp
  · have herr : s.refuses .copy (S.join x) = true ∨ (S.join x).fits = false ∨
        (T.join x).fits = false ∨ w.disk.get? (ls ++ [x]) = some .directory ∨
        w.disk.isDirectory (lt ++ [x]) = true := by
      rw [hi, Disk.isDirectory_iff]
      by_contra hno
      simp only [not_or, Bool.not_eq_true, Bool.not_eq_false] at hno
      simp [hno] at hcp
    obtain ⟨e, he⟩ := run_copy_join_error hx h.source hT herr
    rw [he]
    have := Overlay.Done.report h.sound htgt hreach hopen hc'
    rw [hline, ← List.append_assoc] at this
    exact this
  · have hcp := hcp.symm
    simp only [Bool.and_eq_true, bne_iff_ne, Bool.not_eq_true'] at hcp
    obtain ⟨⟨hid, ⟨hr, hf⟩, hf'⟩, htd⟩ := hcp
    have hdir : w.disk.isDirectory (lt ++ [x]) = false := by simpa [Disk.isDirectory] using htd
    rw [run_copy_join hx h.source hT hne hr hf hf' hi (fun e => hid (by rw [e])) hdir]
    have hbytes : o.bytes [] = if s.Serves then i.bytes else [] := by
      simp [Overlay.bytes, hheld, hsrc]
    have hsound := h.sound.write_write hT.directory hx hdir [] (o.bytes [])
    have hget : ∀ k, ((w.disk.write (lt ++ [x]) []).write (lt ++ [x]) (o.bytes [])).get? k =
        if k = lt ++ [x] then Overlay.placed (o.bytes []) (o.target []) else w.disk.get? k := by
      intro k
      rw [get?_write_write [] _ (by simp), htgt, List.append_nil]
    rw [← hbytes]
    by_cases hch : s.Serves
    · rw [if_pos hch]
      exact .file (t := []) hsound htgt hreach hopen hc' hget (by simp)
        (by rw [hheld, decide_eq_true hch]; rfl)
    · rw [if_neg hch]
      exact .file (t := o.line []) hsound htgt hreach hopen hc' hget (by rw [hline]; simp)
        (by rw [hheld, decide_eq_false hch]; rfl)

end Storage

end FileShell
