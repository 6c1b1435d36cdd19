import FileShell.Proofs.Disk.Filling
import Mathlib.Logic.Relation

/-!
# Single changes

What the single changes of a disk can do, one equivalence each, and the rows of them that longer
operations are made of. A `Gain` takes nothing away: it makes a directory, creates a file, or
writes bytes. A `Loss` removes an empty directory or deletes a file or a link. No change makes a
link (`Change.noNewLink`), so no row of changes does (`noNewLink_of_changes`).
-/

namespace FileShell

namespace Disk

variable {d d' : Disk} {p : Path} {l k : Loc}

/-! ## Changes and their conditions -/

/-- A file is created where nothing stands, in a directory. -/
theorem create_eq_ok_iff : d.create p = .ok d' ↔ p.getLast? ≠ some '/' ∧
    ∃ m x, d.locateLast p = .ok (m, x) ∧ isDots x = false ∧ d.get? (m ++ [x]) = none ∧
      d' = d.insert (m ++ [x]) (.file []) := by
  unfold create endsInSlash
  by_cases hp : p.getLast? = some '/'
  · simp [hp, bind, Except.bind]
  simp only [beq_iff_eq, hp, if_false, ne_eq, not_false_eq_true, true_and]
  rcases d.locateLast p with e | ⟨m, x⟩
  · simp [bind, Except.bind]
  simp only [bind, Except.bind, Except.ok.injEq, Prod.mk.injEq]
  constructor
  · intro h
    split_ifs at h with hx
    rw [Bool.or_eq_true, not_or] at hx
    refine ⟨m, x, ⟨rfl, rfl⟩, by simpa using hx.1, by simpa using hx.2, ?_⟩
    simpa [pure, Except.pure, eq_comm] using h
  · rintro ⟨_, _, ⟨rfl, rfl⟩, hx, hn, rfl⟩
    simp [hx, hn, pure, Except.pure]

/-- A directory is removed if no name is in it. -/
theorem removeDir_eq_ok_iff : d.removeDir p = .ok d' ↔
    ∃ m x, d.locateLast p = .ok (m, x) ∧ isDots x = false ∧
      d.get? (m ++ [x]) = some .directory ∧ d.childNames (m ++ [x]) = [] ∧
      d' = d.erase (m ++ [x]) := by
  unfold removeDir
  rcases d.locateLast p with e | ⟨m, x⟩
  · simp [bind, Except.bind]
  simp only [bind, Except.bind, Except.ok.injEq, Prod.mk.injEq]
  constructor
  · intro h
    rcases hx : isDots x with _ | _
    · simp only [hx, Bool.false_eq_true, if_false] at h
      split at h
      · cases h
      · rename_i hd
        split_ifs at h with hc
        refine ⟨m, x, ⟨rfl, rfl⟩, hx, hd, by simpa using hc, ?_⟩
        simpa [pure, Except.pure, eq_comm] using h
      · cases h
    · simp [hx] at h
  · rintro ⟨_, _, ⟨rfl, rfl⟩, hx, hd, hc, rfl⟩
    simp [hx, hd, hc, pure, Except.pure]

/-- What is deleted is no directory. -/
theorem delete_eq_ok_iff : d.delete p = .ok d' ↔ p.getLast? ≠ some '/' ∧
    ∃ m x i, d.locateLast p = .ok (m, x) ∧ isDots x = false ∧ d.get? (m ++ [x]) = some i ∧
      i ≠ .directory ∧ d' = d.erase (m ++ [x]) := by
  unfold delete endsInSlash
  by_cases hp : p.getLast? = some '/'
  · simp [hp, bind, Except.bind]
  simp only [beq_iff_eq, hp, if_false, ne_eq, not_false_eq_true, true_and]
  rcases d.locateLast p with e | ⟨m, x⟩
  · simp [bind, Except.bind]
  simp only [bind, Except.bind, Except.ok.injEq, Prod.mk.injEq]
  constructor
  · intro h
    split_ifs at h with hx
    split at h
    · cases h
    · cases h
    · rename_i i hi hd
      refine ⟨m, x, i, ⟨rfl, rfl⟩, by simpa using hx, hd, hi, ?_⟩
      simpa [pure, Except.pure, eq_comm] using h
  · rintro ⟨_, _, i, ⟨rfl, rfl⟩, hx, hi, hd, rfl⟩
    cases i <;> simp_all [pure, Except.pure]

/-- Bytes can be put there without a name to be made. -/
def TakesBytes (d : Disk) (l : Loc) : Prop := (∃ b, d.get? l = some (.file b)) ∨ d.get? l = some .device

theorem ne_nil_of_isDirectory (h : d.isDirectory l = false) : l ≠ [] := by
  rintro rfl
  cases h

theorem ne_nil_of_locateWrite (h : d.locateWrite p = .ok l) : l ≠ [] :=
  ne_nil_of_isDirectory (locateWrite_eq_ok_iff.1 h).2.2

theorem TakesBytes.ne_nil (h : d.TakesBytes l) : l ≠ [] := by
  rintro rfl
  simp [TakesBytes, get?] at h

theorem takesBytes_write (b : Bytes) (hl : l ≠ []) : (d.write l b).TakesBytes l := by
  unfold TakesBytes
  rw [get?_write b hl]
  by_cases hd : d.get? l = some .device
  · exact .inr (by simp [hd])
  · exact .inl ⟨b, by simp [hd]⟩

/-! ## Rows of changes -/

open Relation (ReflTransGen)

/-- A directory is made. -/
def Makes (d d' : Disk) : Prop := ∃ p, d.makeDir p = .ok d'

/-- A single change that takes nothing away. -/
inductive Gain : Disk → Disk → Prop
  | makeDir {d d' : Disk} : Makes d d' → Gain d d'
  | create {d d' : Disk} {p : Path} : d.create p = .ok d' → Gain d d'
  | write {d : Disk} {p : Path} {l : Loc} (b : Bytes) :
      d.locateWrite p = .ok l → Gain d (d.write l b)
  | rewrite {d : Disk} {l : Loc} (b : Bytes) : d.TakesBytes l → Gain d (d.write l b)

/-- A single change that takes something away. -/
inductive Loss : Disk → Disk → Prop
  | removeDir {d d' : Disk} {p : Path} : d.removeDir p = .ok d' → Loss d d'
  | delete {d d' : Disk} {p : Path} : d.delete p = .ok d' → Loss d d'

def Change (d d' : Disk) : Prop := Gain d d' ∨ Loss d d'

theorem makes_makeLastDir (existOk : Bool) (d : Disk) (p : Path) :
    ReflTransGen Makes d (d.makeLastDir existOk p).2 := by
  unfold makeLastDir
  split
  · exact .single ⟨p, ‹_›⟩
  · split_ifs <;> exact .refl

/-- Making a directory with those above it makes directories one by one. -/
theorem makes_makeDirs (existOk : Bool) (d : Disk) (p : Path) :
    ReflTransGen Makes d (d.makeDirs existOk p).2 := by
  rw [makeDirs]
  split
  · rename_i ha
    have ih := makes_makeDirs existOk d p.splitLast.1
    have last {d' : Disk} (h : ReflTransGen Makes d d') :
        ReflTransGen Makes d (d'.makeLastDir existOk p).2 :=
      h.trans (makes_makeLastDir existOk d' p)
    generalize d.makeDirs existOk p.splitLast.1 = r at ih
    split
    · split
      · exact ih
      · exact last ih
    · split
      · exact ih
      · exact last ih
    · exact ih
  · exact makes_makeLastDir existOk d p
termination_by p.length
decreasing_by
  rename_i ha
  exact Path.length_splitLast_lt ha.1

/-- A file that is emptied and then filled was written twice. -/
theorem gains_write_write (h : d.locateWrite p = .ok l) (a b : Bytes) :
    ReflTransGen Gain d ((d.write l a).write l b) :=
  .tail (.single (.write a h)) (.rewrite b (takesBytes_write a (ne_nil_of_locateWrite h)))

/-! ## Links -/

/-- Every link was there before. -/
def NoNewLink (d d' : Disk) : Prop :=
  ∀ k t, d'.get? k = some (.link t) → d.get? k = some (.link t)

theorem noNewLink_insert {x : Text} {i : Item} (hi : ∀ t, i ≠ .link t) :
    NoNewLink d (d.insert (l ++ [x]) i) := by
  intro k t h
  rw [get?_append_insert] at h
  split_ifs at h
  · exact absurd (Option.some.inj h) (hi t)
  · exact h

theorem noNewLink_write (b : Bytes) (hl : l ≠ []) : NoNewLink d (d.write l b) := by
  intro k t h
  rw [get?_write b hl] at h
  split_ifs at h
  · cases h
  · exact h

theorem noNewLink_erase (d : Disk) (l : Loc) : NoNewLink d (d.erase l) := by
  intro k t h
  by_cases hk : k = []
  · subst hk
    cases h
  · rw [get?_erase d l k hk] at h
    split_ifs at h
    exact h

theorem Change.noNewLink (h : Change d d') : NoNewLink d d' := by
  rcases h with h | h
  · cases h with
    | makeDir h =>
      obtain ⟨p, h⟩ := h
      obtain ⟨m, x, -, -, -, rfl⟩ := makeDir_eq_ok_iff.1 h
      exact noNewLink_insert (by simp)
    | create h =>
      obtain ⟨-, m, x, -, -, -, rfl⟩ := create_eq_ok_iff.1 h
      exact noNewLink_insert (by simp)
    | write b h => exact noNewLink_write b (ne_nil_of_locateWrite h)
    | rewrite b h => exact noNewLink_write b h.ne_nil
  · cases h with
    | removeDir h =>
      obtain ⟨m, x, -, -, -, -, rfl⟩ := removeDir_eq_ok_iff.1 h
      exact noNewLink_erase d _
    | delete h =>
      obtain ⟨-, m, x, i, -, -, -, -, rfl⟩ := delete_eq_ok_iff.1 h
      exact noNewLink_erase d _

theorem noNewLink_of_changes (h : ReflTransGen Change d d') : NoNewLink d d' := by
  induction h with
  | refl => exact fun _ _ h => h
  | tail _ hc ih => exact fun k t ht => ih k t (hc.noNewLink k t ht)

end Disk

end FileShell
