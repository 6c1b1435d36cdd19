import FileShell.Proofs.Disk.Sound

/-!
# Empty directories

An empty directory that a path leads to. Making a directory leaves one where nothing was, and all
else as it was (`Sound.made_of_makeDir`).
-/

namespace FileShell

namespace Disk

/-- An empty directory that a path leads to. -/
structure Vacant (d : Disk) (p : Path) (l : Loc) : Prop where
  located : d.locate true p = .ok l
  directory : d.isDirectory l = true
  empty : ∀ k, l <+: k → k ≠ l → d.get? k = none

variable {d d' : Disk} {p : Path} {l : Loc}

theorem Vacant.linkFree (h : d.Vacant p l) : d.LinkFree l := by
  intro k t hk
  by_cases hkl : k = l
  · rw [hkl, isDirectory_iff.1 h.directory]
    simp
  · rw [h.empty k hk hkl]
    simp

theorem Vacant.root (h : d.Vacant p l) : d.Root p l := ⟨h.located, h.directory, h.linkFree⟩

/-- A directory that was just made is empty, and nothing else has changed. -/
theorem Sound.made_of_makeDir (hs : d.Sound) (h : d.makeDir p = .ok d') :
    ∃ l, d'.Vacant p l ∧ d.get? l = none ∧ ∀ k, k ≠ l → d'.get? k = d.get? k := by
  obtain ⟨-, hmore⟩ := hs.makeDir h
  obtain ⟨m, x, hl, hx, hn, rfl⟩ := makeDir_eq_ok_iff.1 h
  obtain ⟨hp, hd, hb, a, ha, c, hc, hm⟩ := locateLast_eq_ok_iff.1 hl
  have hxn : x ≠ [] := Path.ne_nil_of_mem_names (p := p) (by simp [ha])
  have hdir : (d.insert (m ++ [x]) .directory).isDirectory (m ++ [x]) = true := by
    rw [isDirectory_iff, get?_append_insert, if_pos rfl]
  have hlast : Leads (d.insert (m ++ [x]) .directory) m [x] 0 (m ++ [x]) :=
    .name (hmore.keeps.directory hd) (isPlain_of_isDots hx hxn) hb
      (fun t ht => by simp [isDirectory_iff.1 hdir] at ht) .done
  have hat : (d.insert (m ++ [x]) .directory).At p (m ++ [x]) :=
    ⟨c, hc, ha ▸ (hm.of_keeps hmore.keeps).append hlast⟩
  have helse (k : Loc) (hk : k ≠ m ++ [x]) :
      (d.insert (m ++ [x]) .directory).get? k = d.get? k := by
    rw [get?_append_insert, if_neg hk]
  refine ⟨m ++ [x], ⟨hat.locate hp (.inl hdir), hdir, fun k hk hne => ?_⟩, hn, helse⟩
  obtain ⟨r, rfl⟩ := hk
  rw [helse _ hne]
  by_contra hsome
  have habove := hs.isDirectory_of_prefix (fun e => hne (by simp [e]))
    (Option.isSome_iff_ne_none.2 hsome)
  rw [isDirectory_iff, hn] at habove
  cases habove

theorem Sound.vacant_of_makeDir (hs : d.Sound) (h : d.makeDir p = .ok d') : ∃ l, d'.Vacant p l :=
  (hs.made_of_makeDir h).imp fun _ => And.left

end Disk

end FileShell
