import FileShell.Proofs.Disk.Nulls
import FileShell.Proofs.Disk.Vacant

/-!
# Directories that were made

Making directories can come back without an error and without a directory: a single dot at the end
of a path is passed over, whatever stands in the way of the name before it. Below a place without
links that does not happen. What stands in the way is seen by looking, so the name is not made
again, and a directory that was just made is empty. Along a path that goes down, success means that
the directory is there (`Root.isDirectory_of_makeDirs`).
-/

namespace FileShell

namespace Disk

variable {d d' : Disk} {p : Path} {l : Loc} {a : List Text} {x : Text}

theorem walkWith_ne_occupied (d : Disk) (follow : Bool)
    {onLink : Loc → List Text → Except DiskError Loc}
    (h : ∀ here a, onLink here a ≠ .error .occupied) : ∀ (a : List Text) (here : Loc),
    d.walkWith follow onLink here a ≠ .error .occupied
  | [], _ => by simp [walkWith]
  | s :: rest, here => by
    have ih := walkWith_ne_occupied d follow h rest
    unfold walkWith
    split
    · split_ifs <;> simp
    split
    · exact ih here
    split
    · exact ih here.dropLast
    split
    · simp
    split
    · split
      · exact h _ _
      · exact ih _
    · exact ih _

/-- A walk does not fail because something stands where it goes. -/
theorem walk_ne_occupied (d : Disk) (follow : Bool) : ∀ (n : Nat) (here : Loc) (a : List Text),
    d.walk follow n here a ≠ .error .occupied
  | 0, here, a => walkWith_ne_occupied d follow (fun _ _ => by simp) a here
  | n + 1, here, a => walkWith_ne_occupied d follow (walk_ne_occupied d follow n) a here

/-- What stands in the way of a new directory is seen by looking. -/
theorem Root.pathExists_of_occupied (h : Root d p l) (ha : GoDown (a ++ [x]))
    (ho : d.makeDir ((a ++ [x]).foldl Path.join p) = .error .occupied) :
    d.pathExists ((a ++ [x]).foldl Path.join p) = true := by
  have hx := ha x (by simp)
  have hp := checkPath_of_makeDir (.inr ho)
  have hn : ((a ++ [x]).foldl Path.join p).names = (p.names ++ a) ++ [x] := by
    rw [Path.names_foldl_join (fun y hy => (ha y hy).1), List.append_assoc]
  have hl := (Path.foldl_join_ne_nil (fun y hy => (ha y hy).1) (by simp) p).2
  generalize (a ++ [x]).foldl Path.join p = t at ho hp hn hl ⊢
  rcases hw : d.walk true maxLinks [] (p.names ++ a ++ [[]]) with e | m
  · rw [makeDir, locateLast_eq hp hn, hw] at ho
    obtain rfl : e = .occupied := Except.error.inj ho
    exact absurd hw (walk_ne_occupied d true maxLinks [] _)
  obtain ⟨hm, c, hc, hlead⟩ := walk_into_eq_ok_iff.1 hw
  have hat : d.At (a.foldl Path.join p) m :=
    ⟨c, hc, Path.names_foldl_join (fun y hy => (ha.init y hy).1) p ▸ hlead⟩
  have hbelow := (at_of_locate h.located).eq_append h.linkFree (fun hd => (ha.init _ hd).2 rfl)
    (Path.names_foldl_join (fun y hy => (ha.init y hy).1) p) hat
  by_cases hb : maxName < x.byteSize
  · rw [makeDir, locateLast_eq hp hn, hw] at ho
    simp [hb, bind, Except.bind] at ho
  by_cases hdot : x = ['.']
  · -- the dot stands for the directory it is in
    have hat' : d.At t m := ⟨c, hc, hn ▸ hlead.append (.stay hm (.inr hdot) .done)⟩
    exact pathExists_of_isDir (hat'.isDir hp hm)
  · have hplain : IsPlain x := ⟨hx.1.2, hdot, hx.2⟩
    have hsome : (d.get? (m ++ [x])).isSome = true := by
      by_contra hnone
      rw [makeDir, locateLast_eq hp hn, hw] at ho
      simp [hb, isDots, hdot, hx.2, hnone, bind, Except.bind, pure, Except.pure] at ho
    have hlink : ∀ u, d.get? (m ++ [x]) ≠ some (.link u) := fun u =>
      h.linkFree _ u (hbelow ▸ (List.prefix_append _ _).trans (List.prefix_append _ _))
    have hat' : d.At t (m ++ [x]) :=
      ⟨c, hc, hn ▸ hlead.append (.name hm hplain (Nat.le_of_not_lt hb) hlink .done)⟩
    rw [pathExists_of_locate (hat'.locate hp (.inr hl)), hsome]

theorem Root.isDirectory_of_isDir (h : Root d p l) (ha : GoDown a)
    (hd : d.isDir (a.foldl Path.join p) = true) :
    d.isDirectory (l ++ a.filter (IsPlain ·)) = true := by
  obtain ⟨k, hk, hkd⟩ := isDir_iff.1 hd
  rwa [h.eq_append ha hk] at hkd

theorem Root.pathExists_eq_false (h : Root d p l) (ha : GoDown a)
    (hn : d.get? (l ++ a.filter (IsPlain ·)) = none) :
    d.pathExists (a.foldl Path.join p) = false := by
  rcases hk : d.locate true (a.foldl Path.join p) with e | k
  · simp [pathExists, find?, hk]
  · rw [pathExists_of_locate hk, h.eq_append ha hk, hn]
    rfl

/-- What comes of making directories along a path that goes down. If that succeeds the directory is
there, and it is empty if it was not there before; only what was there stands in the way. -/
structure Made (d : Disk) (p : Path) (l : Loc) (a : List Text)
    (r : Except DiskError Unit × Disk) : Prop where
  directory : r.1 = .ok () → r.2.isDirectory (l ++ a.filter (IsPlain ·)) = true
  empty : d.pathExists (a.foldl Path.join p) = false → r.1 = .ok () →
    ∀ k, l ++ a.filter (IsPlain ·) <+: k → k ≠ l ++ a.filter (IsPlain ·) → r.2.get? k = none
  occupied : r.1 = .error .occupied → d.pathExists (a.foldl Path.join p) = true

theorem Root.made_makeLastDir (h : Root d p l) (hs : d.Sound) (ha : GoDown (a ++ [x])) :
    Made d p l (a ++ [x]) (d.makeLastDir true ((a ++ [x]).foldl Path.join p)) := by
  unfold makeLastDir
  rcases hm : d.makeDir ((a ++ [x]).foldl Path.join p) with e | d'
  · dsimp only
    rw [Bool.true_and]
    split_ifs with hd
    · refine ⟨fun _ => h.isDirectory_of_isDir ha hd, fun hn => ?_, by simp⟩
      rw [pathExists_of_isDir hd] at hn
      cases hn
    · refine ⟨by simp, by simp, fun he => h.pathExists_of_occupied ha ?_⟩
      obtain rfl : e = .occupied := Except.error.inj he
      exact hm
  · obtain ⟨k, hk⟩ := hs.vacant_of_makeDir hm
    obtain rfl := (h.of_keeps (hs.makeDir hm).2.keeps).eq_append ha hk.located
    exact ⟨fun _ => hk.directory, fun _ _ => hk.empty, by simp⟩

/-- The last directory is made after those above it, which were not there. -/
theorem Root.made_concat {y : Text} (h : Root d' p l) (hs : d'.Sound)
    (ha : GoDown (a ++ [y] ++ [x]))
    (hn : d.pathExists ((a ++ [y]).foldl Path.join p) = false)
    (hr : Made d p l (a ++ [y]) (.ok (), d')) : Made d p l (a ++ [y] ++ [x])
      (if x = ['.'] then (.ok (), d')
        else d'.makeLastDir true ((a ++ [y] ++ [x]).foldl Path.join p)) := by
  split_ifs with hdot
  · have hsame : (a ++ [y] ++ [x]).filter (IsPlain ·) = (a ++ [y]).filter (IsPlain ·) := by
      rw [List.filter_append, hdot]
      exact List.append_nil _
    refine ⟨fun _ => ?_, fun _ _ => ?_, by simp⟩
    · rw [hsame]
      exact hr.directory rfl
    · rw [hsame]
      exact hr.empty hn rfl
  · have hplain : IsPlain x := ⟨(ha x (by simp)).1.2, hdot, (ha x (by simp)).2⟩
    have hname : (a ++ [y] ++ [x]).filter (IsPlain ·) = (a ++ [y]).filter (IsPlain ·) ++ [x] := by
      rw [List.filter_append, List.filter_cons_of_pos (by simpa using hplain), List.filter_nil]
    have hfree : d'.pathExists ((a ++ [y] ++ [x]).foldl Path.join p) = false := by
      refine h.pathExists_eq_false ha ?_
      rw [hname, ← List.append_assoc]
      exact hr.empty hn rfl _ (List.prefix_append _ _) (by simp)
    have hlast := h.made_makeLastDir hs ha
    refine ⟨hlast.directory, fun _ => hlast.empty hfree, fun ho => ?_⟩
    rw [hlast.occupied ho] at hfree
    cases hfree

theorem Root.made_makeDirs (h : Root d p l) (hs : d.Sound) : ∀ {a : List Text} {x : Text},
    GoDown (a ++ [x]) → Made d p l (a ++ [x]) (d.makeDirs true ((a ++ [x]).foldl Path.join p)) := by
  intro a
  induction a using List.reverseRecOn with
  | nil =>
    intro x ha
    have hx := ha x (by simp)
    rw [makeDirs]
    simp only [List.nil_append, List.foldl_cons, List.foldl_nil,
      Path.splitLast_join p hx.1.1 hx.1.2,
      pathExists_of_isDir (isDir_parent_join h.located h.directory hx.1.1), Bool.true_eq_false,
      and_false, dite_false]
    exact h.made_makeLastDir (a := []) hs ha
  | append_singleton a y ih =>
    intro x ha
    have hx := ha x (by simp)
    have hnames : ∀ z ∈ a ++ [y], '/' ∉ z ∧ z ≠ [] := fun z hz => (ha.init z hz).1
    obtain ⟨hn, hl⟩ := Path.foldl_join_ne_nil hnames (by simp) p
    have hj : (a ++ [y] ++ [x]).foldl Path.join p = ((a ++ [y]).foldl Path.join p).join x := by simp
    have hroot := h.of_keeps (makeDirs_filledBelow true h ha.init).keeps
    have hs' := (hs.makeDirs true ((a ++ [y]).foldl Path.join p)).1
    have hlast := h.made_makeLastDir hs ha
    have ih := ih ha.init
    rw [makeDirs]
    rw [hj] at hlast ⊢
    simp only [Path.splitLast_join _ hx.1.1 hx.1.2, Path.parent_join hn hl hx.1.1]
    split
    · rename_i habove
      generalize d.makeDirs true ((a ++ [y]).foldl Path.join p) = r at ih hroot hs' ⊢
      obtain ⟨e | ⟨⟩, d'⟩ := r
      · have hne : e ≠ .occupied := by
          rintro rfl
          rw [ih.occupied rfl] at habove
          cases habove.2.2
        cases e <;> first | exact absurd rfl hne | exact ⟨by simp, by simp, by simp⟩
      · exact hj ▸ hroot.made_concat hs' ha habove.2.2 ih
    · exact hlast

/-- If making directories along a path that goes down succeeds, the last of them is there. -/
theorem Root.isDirectory_of_makeDirs (h : Root d p l) (hs : d.Sound) (ha : GoDown (a ++ [x]))
    (hok : (d.makeDirs true ((a ++ [x]).foldl Path.join p)).1 = .ok ()) :
    (d.makeDirs true ((a ++ [x]).foldl Path.join p)).2.isDirectory
      (l ++ (a ++ [x]).filter (IsPlain ·)) = true :=
  (h.made_makeDirs hs ha).directory hok

end Disk

end FileShell
