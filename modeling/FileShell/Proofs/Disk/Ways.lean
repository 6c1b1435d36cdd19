import FileShell.Proofs.Disk.Vacant

/-!
# On the way

Making a directory with the missing ones above it makes nothing but directories on the way: where
the path leads, or where a path leads that goes along the first of its names, through whatever
links (`Sound.makeDirs_madeWhere`, `Sound.makeDirs_onWay`). If it succeeds, a directory is at the
end, unless the last name is a single dot (`Sound.isDir_of_makeDirs`).
-/

namespace FileShell

namespace Disk

variable {d d' d'' : Disk} {p q : Path} {k l : Loc} {x : Text} {P Q : Loc → Prop}

/-- The second disk has more directories, at locations of the kind where nothing stood, and no other
difference. -/
def MadeWhere (P : Loc → Prop) (d d' : Disk) : Prop :=
  ∀ k, d'.get? k = d.get? k ∨ d.get? k = none ∧ d'.get? k = some .directory ∧ P k

theorem MadeWhere.mono (h : MadeWhere P d d') (hP : ∀ k, P k → Q k) : MadeWhere Q d d' := fun k =>
  (h k).imp_right fun ⟨hn, hd, hk⟩ => ⟨hn, hd, hP k hk⟩

theorem MadeWhere.trans (h : MadeWhere P d d') (h' : MadeWhere P d' d'') :
    MadeWhere P d d'' := by
  intro k
  rcases h' k with h₂ | ⟨h₂, h₃, hP⟩
  · rw [h₂]
    exact h k
  · rcases h k with h₁ | ⟨-, h₁, -⟩
    · exact .inr ⟨h₁ ▸ h₂, h₃, hP⟩
    · simp [h₁] at h₂

/-- The location is where a path leads that goes along the first names of this one, or along all
of them. -/
def OnWay (d : Disk) (p : Path) (k : Loc) : Prop :=
  ∃ q : Path, q.names <+: p.names ∧ d.locate true q = .ok k

theorem OnWay.of_keeps (hk : Keeps d d') (h : d.OnWay p k) : d'.OnWay p k := by
  obtain ⟨q, hq, hl⟩ := h
  exact ⟨q, hq, locate_of_keeps hk hl⟩

theorem OnWay.of_prefix (hp : p.names <+: q.names) (h : d.OnWay p k) : d.OnWay q k := by
  obtain ⟨r, hr, hl⟩ := h
  exact ⟨r, hr.trans hp, hl⟩

/-! ## Making directories -/

theorem keeps_makeLastDir (existOk : Bool) (d : Disk) (p : Path) :
    Keeps d (d.makeLastDir existOk p).2 :=
  (moreDirectories_of_makes (makes_makeLastDir existOk d p)).keeps

theorem Sound.makeLastDir_madeWhere (hs : d.Sound) (existOk : Bool) (p : Path) :
    MadeWhere (fun k => (d.makeLastDir existOk p).2.locate true p = .ok k) d
      (d.makeLastDir existOk p).2 := by
  unfold Disk.makeLastDir
  rcases hm : d.makeDir p with e | d'
  · dsimp only
    split_ifs <;> exact fun _ => .inl rfl
  · obtain ⟨l, hl, hn, helse⟩ := hs.made_of_makeDir hm
    intro k
    by_cases hk : k = l
    · subst hk
      exact .inr ⟨hn, isDirectory_iff.1 hl.directory, hl.located⟩
    · exact .inl (helse k hk)

/-- Whatever is made is made at the end of the path or on the way there. -/
theorem Sound.makeDirs_madeWhere (existOk : Bool) (p : Path) (hs : d.Sound) :
    MadeWhere (fun k => (d.makeDirs existOk p).2.locate true p = .ok k ∨
      p.splitLast.2 ≠ [] ∧ (d.makeDirs existOk p).2.OnWay p.splitLast.1 k) d
      (d.makeDirs existOk p).2 := by
  rw [Disk.makeDirs]
  split
  · rename_i ha
    have hs' := (hs.makeDirs existOk p.splitLast.1).1
    have ih := Sound.makeDirs_madeWhere existOk p.splitLast.1 hs
    generalize d.makeDirs existOk p.splitLast.1 = r at hs' ih
    have above : MadeWhere (r.2.OnWay p.splitLast.1) d r.2 := by
      refine ih.mono fun k hk => ?_
      rcases hk with hk | ⟨hne, hk⟩
      · exact ⟨_, List.prefix_rfl, hk⟩
      · exact hk.of_prefix (Path.names_splitLast hne ▸ List.prefix_append _ _)
    have stay : MadeWhere (fun k => r.2.locate true p = .ok k ∨
        p.splitLast.2 ≠ [] ∧ r.2.OnWay p.splitLast.1 k) d r.2 :=
      above.mono fun k hk => .inr ⟨ha.1, hk⟩
    have last : MadeWhere (fun k => (r.2.makeLastDir existOk p).2.locate true p = .ok k ∨
        p.splitLast.2 ≠ [] ∧ (r.2.makeLastDir existOk p).2.OnWay p.splitLast.1 k) d
        (r.2.makeLastDir existOk p).2 :=
      (above.mono fun k hk => .inr ⟨ha.1, hk.of_keeps (keeps_makeLastDir existOk r.2 p)⟩).trans
        ((hs'.makeLastDir_madeWhere existOk p).mono fun k hk => .inl hk)
    split
    · split_ifs
      · exact stay
      · exact last
    · split_ifs
      · exact stay
      · exact last
    · exact stay
  · exact (hs.makeLastDir_madeWhere existOk p).mono fun k hk => .inl hk
termination_by p.length
decreasing_by
  rename_i ha
  exact Path.length_splitLast_lt ha.1

theorem Sound.makeDirs_onWay (hs : d.Sound) (existOk : Bool) (p : Path) :
    MadeWhere ((d.makeDirs existOk p).2.OnWay p) d (d.makeDirs existOk p).2 := by
  refine (hs.makeDirs_madeWhere existOk p).mono fun k hk => ?_
  rcases hk with hk | ⟨hne, hk⟩
  · exact ⟨p, List.prefix_rfl, hk⟩
  · exact hk.of_prefix (Path.names_splitLast hne ▸ List.prefix_append _ _)

theorem Sound.isDir_of_makeLastDir (hs : d.Sound) (h : (d.makeLastDir true p).1 = .ok ()) :
    (d.makeLastDir true p).2.isDir p = true := by
  unfold Disk.makeLastDir at h ⊢
  rcases hm : d.makeDir p with e | d'
  · rw [hm] at h
    simp only [Bool.true_and] at h ⊢
    split_ifs at h ⊢ with hd
    exact hd
  · obtain ⟨l, hl⟩ := hs.vacant_of_makeDir hm
    exact isDir_iff.2 ⟨l, hl.located, hl.directory⟩

/-- A directory is there once one was made, if no dot stands for it. -/
theorem Sound.isDir_of_makeDirs (hs : d.Sound) (hx : p.splitLast.2 ≠ ['.'])
    (h : (d.makeDirs true p).1 = .ok ()) : (d.makeDirs true p).2.isDir p = true := by
  rw [Disk.makeDirs] at h ⊢
  split at h
  · rename_i ha
    have hs' := (hs.makeDirs true p.splitLast.1).1
    rw [dif_pos ha]
    generalize d.makeDirs true p.splitLast.1 = r at h hs' ⊢
    obtain ⟨e | ⟨⟩, d'⟩ := r
    · cases e with
      | occupied =>
        simp only [if_neg hx] at h ⊢
        exact hs'.isDir_of_makeLastDir h
      | _ => cases h
    · simp only [if_neg hx] at h ⊢
      exact hs'.isDir_of_makeLastDir h
  · rename_i ha
    rw [dif_neg ha]
    exact hs.isDir_of_makeLastDir h

end Disk

end FileShell
