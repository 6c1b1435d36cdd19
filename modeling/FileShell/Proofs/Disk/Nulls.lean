import FileShell.Proofs.Disk.Sound

/-!
# Null characters

No path with a null character in it can be looked up, so none leads anywhere and none is made. The
lenient real path is the one question about a path that is refused for such a character, or because
links nest too deep, and for nothing else. On a disk whose links hold no such character only the
second can happen to a path without one (`eq_tooDeep_of_trace`).
-/

namespace FileShell

namespace Path

/-- Every character but the slashes stands in a name. -/
theorem exists_mem_names {c : Char} (hc : c ≠ '/') :
    ∀ {p : Path}, c ∈ p → ∃ x ∈ names p, c ∈ x := by
  intro p hp
  by_cases hs : '/' ∈ p
  · obtain ⟨a, b, rfl⟩ := List.append_of_mem hs
    rw [names_append_slash]
    rcases List.mem_append.1 hp with hp | hp
    · obtain ⟨x, hx, hcx⟩ := exists_mem_names hc hp
      exact ⟨x, List.mem_append_left _ hx, hcx⟩
    · obtain ⟨x, hx, hcx⟩ := exists_mem_names hc ((List.mem_cons.1 hp).resolve_left hc)
      exact ⟨x, List.mem_append_right _ hx, hcx⟩
  · rw [names_of_not_mem hs (List.ne_nil_of_mem hp)]
    exact ⟨p, List.mem_singleton_self p, hp⟩
termination_by p => p.length

end Path

namespace Disk

variable {d : Disk} {p q : Path} {l : Loc} {n : Nat} {active : List Loc}

/-! ## Paths that are looked up -/

theorem not_mem_of_checkPath (h : checkPath p = .ok ()) : '\x00' ∉ p := (checkPath_eq_ok_iff.1 h).2.1

theorem not_mem_of_locate (h : d.locate true p = .ok l) : '\x00' ∉ p :=
  not_mem_of_checkPath (locate_eq_ok_iff.1 h).1

theorem not_mem_of_isDir (h : d.isDir p = true) : '\x00' ∉ p := by
  obtain ⟨l, hl, -⟩ := isDir_iff.1 h
  exact not_mem_of_locate hl

/-- A directory that something stands in the way of has a path that can be looked up. -/
theorem checkPath_of_makeDir (h : (∃ d', d.makeDir p = .ok d') ∨ d.makeDir p = .error .occupied) :
    checkPath p = .ok () := by
  rcases hc : checkPath p with e | ⟨⟩
  · have hm : d.makeDir p = .error e := by rw [makeDir, locateLast, hc]; rfl
    rw [hm] at h
    simp only [reduceCtorEq, exists_false, Except.error.injEq, false_or] at h
    subst h
    unfold checkPath at hc
    split_ifs at hc <;> cases hc
  · rfl

/-- What was made, or found, or stood in the way. -/
def IsMet (r : Except DiskError Unit) : Prop := r = .ok () ∨ r = .error .occupied

theorem not_mem_of_makeLastDir {existOk : Bool} (h : IsMet (d.makeLastDir existOk p).1) :
    '\x00' ∉ p := by
  unfold makeLastDir at h
  rcases hm : d.makeDir p with e | d'
  · rw [hm] at h
    simp only at h
    split_ifs at h with hd
    · exact not_mem_of_isDir (Bool.and_eq_true _ _ ▸ hd).2
    · obtain rfl : e = .occupied := by simpa [IsMet] using h
      exact not_mem_of_checkPath (checkPath_of_makeDir (.inr hm))
  · exact not_mem_of_checkPath (checkPath_of_makeDir (.inl ⟨d', hm⟩))

theorem not_mem_of_splitLast (h : '\x00' ∉ p.splitLast.1) (h2 : p.splitLast.2 = ['.']) :
    '\x00' ∉ p := by
  intro hp
  obtain ⟨x, hx, hc⟩ := Path.exists_mem_names (by decide) hp
  rw [Path.names_splitLast (by simp [h2]), h2, List.mem_append, List.mem_singleton] at hx
  rcases hx with hx | rfl
  · exact h (Path.mem_of_mem_names hx hc)
  · simp at hc

/-- Directories that were made have a path without a null character. -/
theorem not_mem_of_makeDirs (existOk : Bool) (d : Disk) (p : Path)
    (h : IsMet (d.makeDirs existOk p).1) : '\x00' ∉ p := by
  rw [makeDirs] at h
  split at h
  · rename_i ha
    have ih := not_mem_of_makeDirs existOk d p.splitLast.1
    generalize d.makeDirs existOk p.splitLast.1 = r at h ih
    split at h
    · split_ifs at h with h2
      · exact not_mem_of_splitLast (ih (.inr rfl)) h2
      · exact not_mem_of_makeLastDir h
    · split_ifs at h with h2
      · exact not_mem_of_splitLast (ih (.inl rfl)) h2
      · exact not_mem_of_makeLastDir h
    · rename_i hne
      rcases h with h | h
      · cases h
      · cases h
        exact absurd rfl hne
  · exact not_mem_of_makeLastDir h
termination_by p.length
decreasing_by
  rename_i ha
  exact Path.length_splitLast_lt ha.1

/-! ## Lenient real paths -/

theorem eq_tooDeep_of_traceWith {onLink : Loc → Loc → Path → Except DiskError Trace}
    (h : ∀ k here t e, d.get? k = some (.link t) → onLink k here t = .error e → e = .tooDeep) :
    ∀ (a : List Text) {here : Loc} {e : DiskError}, (∀ x ∈ a, '\x00' ∉ x) →
      d.traceWith false onLink here a = .error e → e = .tooDeep
  | [], _, _, _, he => by cases he
  | s :: rest, here, e, ha, he => by
    have ih {here : Loc} (he : d.traceWith false onLink here rest = .error e) :=
      eq_tooDeep_of_traceWith h rest (fun x hx => ha x (List.mem_cons_of_mem s hx)) he
    have hs : s.contains '\x00' = false := by simpa using ha s List.mem_cons_self
    unfold traceWith at he
    simp only [hs, Bool.false_eq_true, if_false] at he
    split_ifs at he
    · exact ih he
    · exact ih he
    · exact ih he
    · split at he
      · split at he
        · cases he
          exact h _ _ _ _ ‹_› ‹_›
        · cases he
        · exact ih he
      · exact ih he
      · exact ih he

theorem eq_tooDeep_of_trace (hd : LinksClean d) : ∀ (n : Nat) (active : List Loc) {here : Loc}
    {a : List Text} {e : DiskError}, (∀ x ∈ a, '\x00' ∉ x) →
      d.trace false n active here a = .error e → e = .tooDeep
  | 0, active, _, a, _, ha, he => by
    refine eq_tooDeep_of_traceWith (fun k here t e _ he => ?_) a ha he
    split_ifs at he
    · cases he
    · cases he
      rfl
  | n + 1, active, _, a, _, ha, he => by
    refine eq_tooDeep_of_traceWith (fun k here t e ht he => ?_) a ha he
    split at he
    · cases he
    · exact eq_tooDeep_of_trace hd n _ (fun x hx hc => hd k t ht (Text.mem_of_mem_split hx hc)) he

end Disk

end FileShell
