import FileShell.Proofs.Disk.Kinds
import FileShell.Proofs.Disk.Nesting
import FileShell.Proofs.Storage.CopyTree
import FileShell.Proofs.Storage.Effects

/-!
# Where a copy stops

A copy that comes to its end with room for some calls does the same with room for more
(`copyInto_mono`). It does come to its end if there is room for the directories that lie one inside
the other once it is over, and for the links that nest (`copyTree_ne_stopped`): no directory is
taken away on the way, so what the copy went into is still there to be counted.
-/

namespace FileShell

namespace Storage

variable {s : Storage} {w w' : World} {root S T D : Path} {n m links levels : Nat} {x : Text}
  {line : Text}

/-! ## Reports -/

theorem run_reporting_congr {a b : Act StorageError Unit}
    (h : (a.run w).1 ≠ .error (.stopped .recursion) → b.run w = a.run w)
    (ha : ((a.reporting line).run w).1 ≠ .error (.stopped .recursion)) :
    (b.reporting line).run w = (a.reporting line).run w := by
  rw [run_reporting, run_reporting, h]
  intro he
  rw [run_reporting] at ha
  rcases hr : a.run w with ⟨r, v⟩
  rw [hr] at he ha
  obtain rfl : r = .error (.stopped .recursion) := he
  exact ha rfl

theorem disk_reporting (a : Act StorageError Unit) (line : Text) (w : World) :
    ((a.reporting line).run w).2.disk = (a.run w).2.disk := by
  rw [run_reporting]
  rcases a.run w with ⟨e | ⟨⟩, v⟩
  · cases e <;> rfl
  · rfl

/-- What is reported is stopped by nothing but what stops it. -/
theorem reporting_ne_stopped {a : Act StorageError Unit}
    (h : ∀ r, (a.run w).1 ≠ .error (.stopped r)) (r : Stop) :
    ((a.reporting line).run w).1 ≠ .error (.stopped r) := by
  rw [run_reporting]
  rcases hr : a.run w with ⟨e | ⟨⟩, v⟩
  · cases e with
    | stopped r => exact absurd (by rw [hr]) (h r)
    | _ => exact nofun
  · exact nofun

/-! ## Room for more calls -/

theorem copyChild_mono {deeper deeper' : Path → Path → Act StorageError Unit} (hn : n ≤ m)
    (hdeeper : ∀ p q, ((deeper p q).run w).1 ≠ .error (.stopped .recursion) →
      (deeper' p q).run w = (deeper p q).run w)
    (h : ((s.copyChild root n deeper S T x).run w).1 ≠ .error (.stopped .recursion)) :
    (s.copyChild root m deeper' S T x).run w = (s.copyChild root n deeper S T x).run w := by
  rw [run_copyChild] at h ⊢
  have hsame : w.disk.samePath (linksWithin n) (S.join x) root ≠ .error .tooDeep := fun he => by
    rw [he] at h
    exact h rfl
  rw [run_copyChild, Disk.samePath_mono (linksWithin_mono hn) hsame]
  rcases hr : w.disk.samePath (linksWithin n) (S.join x) root with e | _ | _
  · rfl
  · rw [hr] at h
    simp only [Bool.false_eq_true, if_false] at h ⊢
    split_ifs at h ⊢
    · exact run_reporting_congr (hdeeper _ _) h
    · rfl
  · rfl

theorem copyInto_mono : ∀ {n m : Nat} {S T : Path} {w : World}, n ≤ m →
    ((s.copyInto root n S T).run w).1 ≠ .error (.stopped .recursion) →
    (s.copyInto root m S T).run w = (s.copyInto root n S T).run w
  | 0, _, _, _, _, _, h => absurd rfl h
  | n + 1, m + 1, S, T, w, hn, h => by
    have hn := Nat.le_of_succ_le_succ hn
    rw [run_copyInto] at h ⊢
    rw [run_copyInto]
    rcases hm : (s.makeDirs T true).run w with ⟨e | ⟨⟩, w₁⟩
    · rfl
    · rw [hm] at h
      exact Act.run_forM_congr
        (fun x v hx => copyChild_mono hn (fun _ _ => copyInto_mono hn) hx) _ w₁ h

/-- A copy that does not stop for want of room is the one with room for more calls. -/
theorem run_copyTree_of_ne_stopped
    (h : ((s.copyTree S D).run w).1 ≠ .error (.stopped .recursion)) (hn : s.nests ≤ n) :
    (s.copyTree S D).run w =
      match (s.copyInto (copyPath S D) n S (copyPath S D)).run w with
        | (.ok (), w') => (.ok (copyPath S D), w')
        | (.error e, w') => (.error e, w') := by
  rw [run_copyTree] at h ⊢
  have hinto : ((s.copyInto (copyPath S D) s.nests S (copyPath S D)).run w).1 ≠
      .error (.stopped .recursion) := by
    generalize (s.copyInto (copyPath S D) s.nests S (copyPath S D)).run w = r at h
    obtain ⟨r, v⟩ := r
    rintro rfl
    exact h rfl
  have hmore := copyInto_mono hn hinto
  generalize (s.copyInto (copyPath S D) s.nests S (copyPath S D)).run w = r at hmore ⊢
  subst hmore
  rcases (s.copyInto (copyPath S D) n S (copyPath S D)).run w with ⟨_ | ⟨⟩, v⟩ <;> rfl

/-- No walk goes deeper than a path can be long. -/
theorem shallow_of_maxPath {d : Disk} {ls ld : Loc} (hs : d.Sound) (hn : Disk.maxPath < n) :
    (s.copyOverlay d S D ls ld).Shallow n := fun r hr ht => by
  obtain ⟨i, hi⟩ := Option.isSome_iff_exists.1 (Overlay.reached_iff.1 hr).1
  simp only [copyOverlay, overlay] at hi
  split_ifs at hi
  have hname := hs.isName_of_mem (a := r) (by rw [hi]; rfl)
  have hlong := Path.length_le_byteSize_foldl_join
    (fun x hx => ⟨(hname x hx).noSlash, (hname x hx).plain.1⟩) S
  have hfits : (r.foldl Path.join S).fits = true := (Bool.and_eq_true _ _ ▸ ht).2
  have := Path.fits_iff.1 hfits
  omega

/-- A copy that does not stop for want of room is the overlay, or fails at once. -/
theorem copyTree_done_of_ne_stopped {ls ld : Loc} (hs : w.disk.Sound) (hfit : w.disk.LinksFit)
    (hS : w.disk.Root S ls) (hD : w.disk.Root D ld) (ha : S.isAbsolute = true)
    (hlt : ¬ copyPlace S ld <+: ls)
    (hrun : ((s.copyTree S D).run w).1 ≠ .error (.stopped .recursion)) :
    if (s.copyOverlay w.disk S D ls ld).opens [] = true then
      ∃ w', (s.copyTree S D).run w = (.ok (copyPath S D), w') ∧
        (s.copyOverlay w.disk S D ls ld).Done (copyPlace S ld) w w'
    else ∃ e, (s.copyTree S D).run w = (.error e, w) := by
  obtain ⟨hopen, hclosed⟩ := copies_whole (n := s.nests + Disk.maxPath + 1) hs hfit hS hD ha hlt
    (shallow_of_maxPath hs (by omega))
  rw [run_copyTree_of_ne_stopped hrun (by omega : s.nests ≤ s.nests + Disk.maxPath + 1)]
  split_ifs with hop
  · obtain ⟨w', hw, hdone⟩ := hopen hop
    exact ⟨w', by rw [hw], hdone⟩
  · obtain ⟨e, -, hw⟩ := hclosed (by simpa using hop)
    exact ⟨e, by rw [hw]⟩

/-! ## Room for what is there -/

/-- What is done for one name does not stop if going into a directory does not. -/
theorem copyChild_ne_stopped {deeper : Path → Path → Act StorageError Unit} (hs : w.disk.Sound)
    (hl : w.disk.LinksNest links) (hn : links ≤ n) (hp : '\x00' ∉ S.join x) (hroot : '\x00' ∉ root)
    (hdeeper : w.disk.isDir (S.join x) = true →
      ((s.copyChild root n deeper S T x).run w).2.disk =
        ((deeper (S.join x) (T.join x)).run w).2.disk →
      ∀ r, ((deeper (S.join x) (T.join x)).run w).1 ≠ .error (.stopped r)) (r : Stop) :
    ((s.copyChild root n deeper S T x).run w).1 ≠ .error (.stopped r) := by
  have hsame := (hl.mono (hn.trans (le_linksWithin n))).samePath_eq hs.links hp hroot
  rw [run_copyChild_of_samePath hsame] at hdeeper ⊢
  split_ifs at hdeeper ⊢ with hpass hdir
  · exact nofun
  · exact reporting_ne_stopped (hdeeper hdir (disk_reporting _ _ w)) r
  · exact nofun

/-- Nothing stops the names of a directory if nothing stops one of them, on any disk on the way to
the last one. -/
theorem copyChildren_ne_stopped {deeper : Path → Path → Act StorageError Unit}
    (hgain : ∀ p q, Only Disk.Gain (deeper p q).run)
    (step : ∀ {x : Text} {w : World}, IsName x → w.disk.Sound → w.disk.LinksNest links →
      ((s.copyChild root n deeper S T x).run w).2.disk.NestsBelow S levels →
      ∀ r, ((s.copyChild root n deeper S T x).run w).1 ≠ .error (.stopped r)) :
    ∀ {xs : List Text} {w : World}, (∀ x ∈ xs, IsName x) → w.disk.Sound → w.disk.LinksNest links →
      ((xs.forM (s.copyChild root n deeper S T)).run w).2.disk.NestsBelow S levels →
      ∀ r, ((xs.forM (s.copyChild root n deeper S T)).run w).1 ≠ .error (.stopped r)
  | [], _, _, _, _, _, _ => nofun
  | x :: xs, w, hxs, hs, hl, hbelow, r => by
    have hgains := only_copyChild s S T root n hgain x w
    have hrest := Act.only_forM (fun y => only_copyChild s S T root n hgain y) xs
    have hx := step (hxs x List.mem_cons_self) hs hl
    rw [Act.run_forM_cons] at hbelow ⊢
    rcases hrun : (s.copyChild root n deeper S T x).run w with ⟨e | _, v⟩ <;>
      rw [hrun] at hbelow hgains hx
    · exact hx hbelow r
    · have hv := hs.of_gains hgains
      exact copyChildren_ne_stopped hgain step (fun y hy => hxs y (List.mem_cons_of_mem x hy)) hv
        (hl.of_keeps (hs.keeps_of_gains hgains)) hbelow r

/-- A copy of what is in a directory comes to its end if there is room for the directories that lie
one inside the other when it is over, and for the links below the last of them. -/
theorem copyInto_ne_stopped : ∀ {n levels : Nat} {S T : Path} {w : World}, w.disk.Sound →
    w.disk.LinksNest links → '\x00' ∉ root → w.disk.isDir S = true →
    ((s.copyInto root n S T).run w).2.disk.NestsBelow S levels → levels + links ≤ n →
    ∀ r, ((s.copyInto root n S T).run w).1 ≠ .error (.stopped r)
  | 0, levels, S, T, w, _, _, _, hS, hbelow, hn, r => by
    have := hbelow.pos hS
    omega
  | n + 1, levels, S, T, w, hs, hl, hroot, hS, hbelow, hn, r => by
    have hmake := only_makeDirs s T true w
    have hs₁ := hs.of_gains hmake
    have hk := hs.keeps_of_gains hmake
    rw [run_copyInto] at hbelow ⊢
    rcases hm : (s.makeDirs T true).run w with ⟨e | ⟨⟩, w₁⟩ <;> rw [hm] at hbelow hs₁ hk
    · rw [run_makeDirs] at hm
      split_ifs at hm
      · cases hm
        exact nofun
      · rcases hmade : s.making true w.disk T with ⟨e' | ⟨⟩, d⟩ <;> rw [hmade] at hm <;> cases hm
        exact nofun
    · have hall := Act.only_forM (only_copyChild s S T root n (only_copyInto s root n))
        (s.namesIn w.disk S) w₁
      have hpos := hbelow.pos
        (Disk.isDir_of_keeps (hs₁.keeps_of_gains hall) (Disk.isDir_of_keeps hk hS))
      obtain ⟨k, rfl⟩ := Nat.exists_eq_add_one.2 hpos
      refine copyChildren_ne_stopped (only_copyInto s root n) ?_
        (fun x hx => hs.isName_of_mem_namesIn hx) hs₁ (hl.of_keeps hk) hbelow r
      intro x v hx hv hlv hbelow' r
      have hjoin := Path.not_mem_join hx.noSlash (Disk.not_mem_of_isDir hS) hx.noNull (by decide)
      refine copyChild_ne_stopped hv hlv (by omega) hjoin hroot (fun hdir hdisk r => ?_) r
      rw [hdisk] at hbelow'
      exact copyInto_ne_stopped hv hlv hroot hdir (hbelow'.down hx) (by omega) r

theorem copyTree_ne_stopped (hs : w.disk.Sound) (hl : w.disk.LinksNest links)
    (hroot : '\x00' ∉ copyPath S D) (hS : w.disk.isDir S = true)
    (hbelow : ((s.copyTree S D).run w).2.disk.NestsBelow S levels) (hn : levels + links ≤ s.nests)
    (r : Stop) : ((s.copyTree S D).run w).1 ≠ .error (.stopped r) := by
  rw [run_copyTree] at hbelow ⊢
  have hinto (hbelow : Disk.NestsBelow
      ((s.copyInto (copyPath S D) s.nests S (copyPath S D)).run w).2.disk S levels) :=
    copyInto_ne_stopped hs hl hroot hS hbelow hn
  rcases hr : (s.copyInto (copyPath S D) s.nests S (copyPath S D)).run w with ⟨e | ⟨⟩, v⟩
  · rw [hr] at hbelow hinto
    exact fun he => hinto hbelow r (by simpa using he)
  · exact nofun

end Storage

end FileShell
