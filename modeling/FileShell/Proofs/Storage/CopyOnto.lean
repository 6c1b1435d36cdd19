import FileShell.Proofs.Storage.Stops

/-!
# Copying a tree onto itself

A tree that is copied to where it stands is left with empty files: each file is emptied before it
is read (`copyTree_onto`). What the tree looks like otherwise does not change.
-/

namespace FileShell

namespace Disk

/-- A disk on which some files below a location have been emptied. -/
def Drained (l : Loc) (d d' : Disk) : Prop :=
  ∀ k, d'.get? k = d.get? k ∨
    (l <+: k ∧ (∃ b, d.get? k = some (.file b)) ∧ d'.get? k = some (.file []))

namespace Drained

variable {d d' d'' : Disk} {l m k : Loc} {b : Bytes}

theorem refl (l : Loc) (d : Disk) : Drained l d d := fun _ => .inl rfl

theorem of_prefix (h : Drained l d d') (hm : m <+: l) : Drained m d d' := fun k =>
  (h k).imp id fun ⟨hk, hb⟩ => ⟨hm.trans hk, hb⟩

theorem file (h : Drained l d d') (hk : d.get? k = some (.file b)) :
    ∃ b', d'.get? k = some (.file b') := by
  rcases h k with he | ⟨-, -, he⟩
  · exact ⟨b, he.trans hk⟩
  · exact ⟨[], he⟩

theorem empty (h : Drained l d d') (hk : d.get? k = some (.file [])) :
    d'.get? k = some (.file []) := by
  rcases h k with he | ⟨-, -, he⟩
  · exact he.trans hk
  · exact he

theorem trans (h : Drained l d d') (h' : Drained l d' d'') : Drained l d d'' := by
  intro k
  rcases h k with he | ⟨hk, hb, he⟩
  · rw [← he]
    exact h' k
  · exact .inr ⟨hk, hb, h'.empty he⟩

theorem isSome (h : Drained l d d') (hk : (d.get? k).isSome) : (d'.get? k).isSome := by
  rcases h k with he | ⟨-, -, he⟩
  · rwa [he]
  · rw [he]
    rfl

theorem keeps (h : Drained l d d') : Keeps d d' where
  directory {k} hk := by
    rw [isDirectory_iff] at hk ⊢
    rcases h k with he | ⟨-, ⟨b, hb⟩, -⟩
    · exact he.trans hk
    · rw [hk] at hb
      cases hb
  link {k t} := by
    rcases h k with he | ⟨-, ⟨b, hb⟩, he⟩
    · rw [he]
    · rw [hb, he]
      simp

end Drained

end Disk

namespace Storage

/-- A world in which files below a location have been emptied, all of them if nothing was shown. -/
structure Emptied (l : Loc) (w w' : World) : Prop where
  sound : w'.disk.Sound
  drained : Disk.Drained l w.disk w'.disk
  shown : w.shown <+: w'.shown
  empty : w'.shown = w.shown → ∀ r b, w.disk.get? (l ++ r) = some (.file b) →
    w'.disk.get? (l ++ r) = some (.file [])

variable {s : Storage} {w w' : World} {copy l ld : Loc} {root S T D : Path} {n : Nat} {x : Text}

/-- A line that is shown is a report that something may not have been emptied. -/
theorem Emptied.report (hs : w.disk.Sound) (t : Text) :
    Emptied l w { w with shown := w.shown ++ t ++ ['\n'] } where
  sound := hs
  drained := .refl l _
  shown := ⟨t ++ ['\n'], (List.append_assoc _ _ _).symm⟩
  empty h := by
    have := congrArg List.length h
    simp only [List.length_append, List.length_singleton] at this
    omega

/-! ## A file -/

section File

variable (hx : IsName x) (hS : w.disk.Root S l) (hT : w.disk.Root T l)
include hx hS hT

/-- By the time a file is read that is copied onto itself it is empty. -/
theorem run_copy_join_onto {i : Item} (hr : s.refuses .copy (S.join x) = false)
    (hf : (S.join x).fits = true) (hf' : (T.join x).fits = true)
    (hi : w.disk.get? (l ++ [x]) = some i) (hd : i ≠ .directory) :
    (s.copy (S.join x) (T.join x)).run w =
      (if s.Serves then .ok () else .error (.copy (S.join x) (T.join x)), { w with
        disk := (w.disk.write (l ++ [x]) []).write (l ++ [x]) [] }) := by
  have hb : (w.disk.write (l ++ [x]) []).bytesAt (l ++ [x]) = .ok [] := by
    have hl : ∀ t, i ≠ .link t := fun t e =>
      hS.linkFree (l ++ [x]) t (List.prefix_append _ _) (by rw [hi, e])
    rw [Disk.bytesAt, Disk.get?_write [] (by simp), hi]
    cases i <;> simp_all
  rw [run_copy_emptied hx hS hT hr hf hf' hi hd (by simpa [Disk.isDirectory, hi] using hd) hb,
    ite_self]

theorem copyFile_emptied (hs : w.disk.Sound) {i : Item} (hi : w.disk.get? (l ++ [x]) = some i)
    (t : Text) :
    Emptied (l ++ [x]) w ((s.copy (S.join x) (T.join x)).orShow t w).2 := by
  rw [run_orShow]
  by_cases herr : s.refuses .copy (S.join x) = true ∨ (S.join x).fits = false ∨
      (T.join x).fits = false ∨ w.disk.get? (l ++ [x]) = some .directory ∨
      w.disk.isDirectory (l ++ [x]) = true
  · obtain ⟨e, he⟩ := run_copy_join_error hx hS hT herr
    rw [he]
    exact .report hs t
  · simp only [not_or, Bool.not_eq_true, Bool.not_eq_false] at herr
    obtain ⟨hr, hf, hf', hid, hdir⟩ := herr
    have hi' : i ≠ .directory := fun e => hid (by rw [hi, e])
    rw [run_copy_join_onto hx hS hT hr hf hf' hi hi']
    have hsound := hs.write_write hS.directory hx hdir [] []
    have hget := get?_write_write (d := w.disk) (m := l ++ [x]) [] [] (by simp)
    rw [hi] at hget
    have hdrain : Disk.Drained (l ++ [x]) w.disk
        ((w.disk.write (l ++ [x]) []).write (l ++ [x]) []) := by
      intro k
      rw [hget]
      split_ifs with hk
      · subst hk
        cases i with
        | directory => exact absurd rfl hi'
        | file b => exact .inr ⟨List.prefix_rfl, ⟨b, hi⟩, rfl⟩
        | link t => exact absurd hi (hS.linkFree _ t (List.prefix_append _ _))
        | device => exact .inl hi.symm
      · exact .inl rfl
    have hempty : ∀ r b, w.disk.get? (l ++ [x] ++ r) = some (.file b) →
        ((w.disk.write (l ++ [x]) []).write (l ++ [x]) []).get? (l ++ [x] ++ r) =
          some (.file []) := by
      intro r b hb
      rcases eq_or_ne r [] with rfl | hne
      · rw [List.append_nil] at hb ⊢
        obtain rfl : i = .file b := Option.some.inj (hi.symm.trans hb)
        rw [hget, if_pos rfl]
        rfl
      · have habove := hs.isDirectory_of_prefix hne (by rw [hb]; rfl)
        rw [hdir] at habove
        cases habove
    by_cases hc : s.Serves
    · rw [if_pos hc]
      exact ⟨hsound, hdrain, List.prefix_rfl, fun _ => hempty⟩
    · rw [if_neg hc]
      have hreport := Emptied.report (l := l ++ [x]) (w := { w with
        disk := (w.disk.write (l ++ [x]) []).write (l ++ [x]) [] }) hsound t
      exact ⟨hsound, hdrain, hreport.shown, fun _ => hempty⟩

end File

/-! ## The names of a directory -/

/-- What a copy of a tree onto itself needs to know of the disk it works on. -/
structure Onto (d : Disk) (copy : Loc) (root S T : Path) (l : Loc) : Prop where
  sound : d.Sound
  fit : d.LinksFit
  source : d.Root S l
  target : d.Root T l
  rootAt : d.At root copy
  noNull : '\x00' ∉ root
  inside : copy <+: l

theorem Onto.of_keeps {d d' : Disk} (h : Onto d copy root S T l) (hs : d'.Sound)
    (hk : d.Keeps d') : Onto d' copy root S T l where
  sound := hs
  fit := h.fit.of_keeps hk
  source := h.source.of_keeps hk
  target := h.target.of_keeps hk
  rootAt := h.rootAt.of_keeps hk
  noNull := h.noNull
  inside := h.inside

/-- A world in which files below some names of a directory have been emptied. -/
structure EmptiedIn (l : Loc) (xs : List Text) (w w' : World) : Prop where
  sound : w'.disk.Sound
  drained : Disk.Drained l w.disk w'.disk
  shown : w.shown <+: w'.shown
  empty : w'.shown = w.shown → ∀ x ∈ xs, ∀ r b, w.disk.get? (l ++ x :: r) = some (.file b) →
    w'.disk.get? (l ++ x :: r) = some (.file [])

theorem EmptiedIn.cons {xs : List Text} {w₁ : World} (hd : Emptied (l ++ [x]) w w₁)
    (h : EmptiedIn l xs w₁ w') : EmptiedIn l (x :: xs) w w' where
  sound := h.sound
  drained :=
    have hfirst := hd.drained.of_prefix (List.prefix_append l [x])
    hfirst.trans h.drained
  shown := hd.shown.trans h.shown
  empty hq y hy r b hb := by
    -- nothing was shown in the end, so nothing was shown on the way
    have hq₁ : w₁.shown = w.shown :=
      (hd.shown.eq_of_length_le (hq ▸ h.shown.length_le)).symm
    rcases List.mem_cons.1 hy with rfl | hy
    · rw [List.append_cons] at hb ⊢
      exact h.drained.empty (hd.empty hq₁ r b hb)
    · have hdrain := hd.drained.of_prefix (List.prefix_append l [x])
      obtain ⟨b', hb'⟩ := hdrain.file hb
      exact h.empty (hq.trans hq₁.symm) y hy r b' hb'

/-- The files below the names of a directory are emptied, name by name. -/
theorem copyChildren_emptied
    (step : ∀ {w : World} {x : Text}, Onto w.disk copy root S T l → IsName x →
      (w.disk.get? (l ++ [x])).isSome →
      ∃ w', (s.copyChild root n (s.copyInto root n) S T x).run w = (.ok (), w') ∧
        Emptied (l ++ [x]) w w') :
    ∀ {xs : List Text} {w : World}, Onto w.disk copy root S T l →
      (∀ x ∈ xs, IsName x ∧ (w.disk.get? (l ++ [x])).isSome) →
      ∃ w', (xs.forM (s.copyChild root n (s.copyInto root n) S T)).run w = (.ok (), w') ∧
        EmptiedIn l xs w w'
  | [], w, h, _ => ⟨w, rfl, h.sound, .refl l _, List.prefix_rfl, by simp⟩
  | x :: xs, w, h, hxs => by
    obtain ⟨hx, hsome⟩ := hxs x List.mem_cons_self
    obtain ⟨w₁, hrun, hd⟩ := step h hx hsome
    have hdrain := hd.drained.of_prefix (List.prefix_append l [x])
    have hxs' : ∀ y ∈ xs, IsName y ∧ (w₁.disk.get? (l ++ [y])).isSome := fun y hy =>
      (hxs y (List.mem_cons_of_mem x hy)).imp id hdrain.isSome
    obtain ⟨w', hrest, hin⟩ :=
      copyChildren_emptied step (h.of_keeps hd.sound hdrain.keeps) hxs'
    refine ⟨w', ?_, .cons hd hin⟩
    rw [Act.run_forM_cons, hrun]
    exact hrest

/-! ## A directory -/

/-- What a call of the copy does to a directory: its files are emptied, or the call fails at
once. -/
def Empties (s : Storage) (root : Path) (n : Nat) (S T : Path) (l : Loc) (w : World) : Prop :=
  (∃ w', (s.copyInto root n S T).run w = (.ok (), w') ∧ Emptied l w w') ∨
    ∃ e, (∀ r, e ≠ .stopped r) ∧ (s.copyInto root n S T).run w = (.error e, w)

/-- What every call one name down does, with room for the longest path. -/
def EmptiesBelow (s : Storage) (copy : Loc) (root : Path) (n : Nat) : Prop :=
  ∀ ⦃w : World⦄ ⦃S T : Path⦄ ⦃l : Loc⦄ ⦃x : Text⦄, Onto w.disk copy root S T l → IsName x →
    (S.join x).fits = true → w.disk.isDirectory (l ++ [x]) = true →
    Disk.maxPath < n + (S.join x).byteSize →
    Empties s root n (S.join x) (T.join x) (l ++ [x]) w

theorem copyChild_emptied (ih : EmptiesBelow s copy root n)
    (hn : Disk.maxPath < n + 1 + S.byteSize) (h : Onto w.disk copy root S T l) (hx : IsName x)
    (hsome : (w.disk.get? (l ++ [x])).isSome) :
    ∃ w', (s.copyChild root n (s.copyInto root n) S T x).run w = (.ok (), w') ∧
      Emptied (l ++ [x]) w w' := by
  have hsame : w.disk.samePath (linksWithin n) (S.join x) root = .ok (l ++ [x] == copy) :=
    Disk.samePath_eq (h.source.child hx).at_join h.rootAt h.sound.links h.fit
      (h.source.child hx).noNull_join h.noNull (Nat.le_add_right _ _)
  have hne : (l ++ [x] == copy) = false := by
    rw [beq_eq_false_iff_ne]
    rintro rfl
    exact absurd h.inside.length_le (by simp)
  obtain ⟨i, hi⟩ := Option.isSome_iff_exists.1 hsome
  rw [run_copyChild_of_samePath hsame, hne, if_neg Bool.false_ne_true]
  split_ifs with hd
  · rw [(h.source.child hx).isDir_join, Bool.and_eq_true] at hd
    have hlt := Path.byteSize_join_lt S hx.noSlash hx.plain.1
    rcases ih h hx hd.1 hd.2 (by omega) with ⟨w', hw, hempty⟩ | ⟨e, he, hw⟩
    · exact ⟨w', by rw [run_reporting, hw], hempty⟩
    · exact ⟨_, run_reporting_error hw he _, .report h.sound _⟩
  · exact ⟨_, rfl, copyFile_emptied hx h.source h.target h.sound hi _⟩

/-- A call empties what is below a directory, or fails, as making the directory does. -/
theorem empties_of_makeDirs (hr : ∀ p, s.refuses .list p = false)
    (ih : EmptiesBelow s copy root n) (hn : Disk.maxPath < n + 1 + S.byteSize)
    (above : w.disk.missingAbove T = 0) (made : T.fits = true → Onto w.disk copy root S T l)
    (refused : T.fits = false → ∃ e, w.disk.makeDirs true T = (.error e, w.disk)) :
    Empties s root (n + 1) S T l w := by
  unfold Empties
  rw [run_copyInto, run_makeDirs, making_eq (by omega)]
  rcases hm : s.refuses .makeDirs T with _ | _
  case true => exact .inr ⟨.refused, nofun, rfl⟩
  rw [if_neg Bool.false_ne_true]
  rcases hf : T.fits with _ | _
  · obtain ⟨e, he⟩ := refused hf
    rw [he]
    exact .inr ⟨.makeDir T, nofun, rfl⟩
  have h := made hf
  have hdir : w.disk.isDir T = true := Disk.isDir_iff.2 ⟨l, h.target.located, h.target.directory⟩
  rw [Disk.makeDirs_of_isDir hdir, namesIn_of_root h.source, hr, if_neg Bool.false_ne_true]
  obtain ⟨w', hrun, hs, hdrain, hp, he⟩ := copyChildren_emptied (s := s) (n := n)
    (fun h hx hsome => copyChild_emptied ih hn h hx hsome) h
    fun x (hx : x ∈ w.disk.childNames l) => by
      have hsome := Disk.mem_childNames.1 hx
      exact ⟨h.sound.isName hsome, hsome⟩
  refine .inl ⟨w', hrun, hs, hdrain, hp, fun hq r b hb => ?_⟩
  rcases r with _ | ⟨x, r⟩
  · rw [List.append_nil, Disk.isDirectory_iff.1 h.source.directory] at hb
    cases hb
  · have hsome : (w.disk.get? (l ++ [x])).isSome := by
      rcases eq_or_ne r [] with rfl | hne
      · rw [hb]
        rfl
      · rw [List.append_cons] at hb
        rw [Disk.isDirectory_iff.1 (h.sound.isDirectory_of_prefix hne (by rw [hb]; rfl))]
        rfl
    exact he hq x (Disk.mem_childNames.2 hsome) r b hb

theorem emptiesBelow (hr : ∀ p, s.refuses .list p = false) : ∀ n, EmptiesBelow s copy root n
  | 0 => by
    intro w S T l x _ _ hf _ hn
    simp only [Path.fits, decide_eq_true_eq] at hf
    omega
  | n + 1 => by
    intro w S T l x h hx hf hd hn
    refine empties_of_makeDirs hr (emptiesBelow hr n) hn (h.target.child hx).missingAbove_join
      (fun hf' => ?_) fun hf' => (h.target.child hx).makeDirs_join_error (.inl hf')
    exact ⟨h.sound, h.fit, h.source.join hx hf hd, h.target.join hx hf' hd, h.rootAt, h.noNull,
      h.inside.trans (List.prefix_append _ _)⟩

/-! ## The copy as a whole -/

/-- A tree that is copied to where it stands is left with empty files, or the copy fails at once,
if it does not stop for want of room. -/
theorem copyTree_onto (hr : ∀ p, s.refuses .list p = false) (hs : w.disk.Sound)
    (hfit : w.disk.LinksFit) (hS : w.disk.Root S l) (hD : w.disk.Root D ld)
    (ha : S.isAbsolute = true) (hl : copyPlace S ld = l)
    (hrun : ((s.copyTree S D).run w).1 ≠ .error (.stopped .recursion)) :
    (∃ w', (s.copyTree S D).run w = (.ok (copyPath S D), w') ∧ Emptied l w w') ∨
      ∃ e, (s.copyTree S D).run w = (.error e, w) := by
  have hat := at_copyPath hS hD ha
  have h0 := noNull_copyPath hS hD ha
  have habove := missingAbove_copyPath hS hD ha
  have h (n : Nat) : Empties s (copyPath S D) (Disk.maxPath + n + 1) S (copyPath S D) l w := by
    refine empties_of_makeDirs hr (emptiesBelow hr (Disk.maxPath + n)) (by omega) habove
      (fun hf => ⟨hs, hfit, hS, ?_, hat, h0, hl ▸ List.prefix_rfl⟩) fun hf => ?_
    · have hroot := root_copyPath hS hD ha hf (hl ▸ hS.directory)
      rwa [hl] at hroot
    · rcases hS.isName_baseName ha with hb | hb
      · have hm := hD.makeDirs_join_nil
        rw [copyPath, hb] at hf ⊢
        rwa [hf, if_neg Bool.false_ne_true] at hm
      · exact (hD.child hb).makeDirs_join_error (.inl hf)
  rw [run_copyTree_of_ne_stopped hrun (by omega : s.nests ≤ Disk.maxPath + s.nests + 1)]
  rcases h s.nests with ⟨w', hw, he⟩ | ⟨e, -, hw⟩
  · exact .inl ⟨w', by rw [hw], he⟩
  · exact .inr ⟨e, by rw [hw]⟩

end Storage

end FileShell
