import FileShell.Proofs.Path.Names
import Mathlib.Data.List.Induction

/-!
# Normal forms of absolute paths

The names of a normal form are names of the path, and none of them is made of dots alone
(`mem_normalNames`). Its base name is the last of them, or empty if there is none
(`baseName_normalize`).
-/

namespace FileShell

namespace Path

variable {p : Path} {x : Text}

/-- The names of the normal form of an absolute path. -/
def normalNames (p : Path) : List Text := ((names p).foldl (climb true) []).reverse

theorem forall_mem_climb {P : Text → Prop} {done : List Text} (hd : ∀ y ∈ done, P y)
    (hx : x ≠ ['.'] → x ≠ ['.', '.'] → P x) (h2 : ∀ y ∈ done, y ≠ ['.', '.']) :
    ∀ y ∈ climb true done x, P y ∧ y ≠ ['.', '.'] := by
  intro y hy
  simp only [climb, if_true] at hy
  split_ifs at hy with h1 h3
  · exact ⟨hd y hy, h2 y hy⟩
  · rcases List.mem_cons.1 hy with rfl | hy
    · exact ⟨hx h1 h3, h3⟩
    · exact ⟨hd y hy, h2 y hy⟩
  · rcases done with _ | ⟨z, rest⟩
    · simp at hy
    · simp only [h2 z List.mem_cons_self, if_false] at hy
      exact ⟨hd y (List.mem_cons_of_mem z hy), h2 y (List.mem_cons_of_mem z hy)⟩

theorem forall_mem_foldl_climb {P : Text → Prop} :
    ∀ {ns done : List Text}, (∀ y ∈ done, P y) → (∀ y ∈ done, y ≠ ['.', '.']) →
      (∀ x ∈ ns, x ≠ ['.'] → x ≠ ['.', '.'] → P x) →
      ∀ y ∈ ns.foldl (climb true) done, P y ∧ y ≠ ['.', '.']
  | [], _, hd, h2, _, y, hy => ⟨hd y hy, h2 y hy⟩
  | x :: ns, done, hd, h2, hns, y, hy => by
    have h := forall_mem_climb hd (hns x List.mem_cons_self) h2
    exact forall_mem_foldl_climb (fun z hz => (h z hz).1) (fun z hz => (h z hz).2)
      (fun z hz => hns z (List.mem_cons_of_mem x hz)) y hy

theorem mem_normalNames (h : x ∈ normalNames p) :
    x ∈ names p ∧ x ≠ ['.'] ∧ x ≠ ['.', '.'] := by
  have hf : (x ∈ names p ∧ x ≠ ['.']) ∧ x ≠ ['.', '.'] :=
    forall_mem_foldl_climb (P := fun y => y ∈ names p ∧ y ≠ ['.']) (by simp) (by simp)
      (fun y hy h1 _ => ⟨hy, h1⟩) x (List.mem_reverse.1 h)
  exact ⟨hf.1.1, hf.1.2, hf.2⟩

theorem normalize_of_isAbsolute (h : p.isAbsolute = true) :
    ∃ s : Path, s ≠ [] ∧ (∀ c ∈ s, c = '/') ∧
      p.normalize = s ++ Text.join ['/'] (normalNames p) := by
  have hl : 0 < leadingSlashes p := by
    rcases p with _ | ⟨c, p⟩
    · simp [isAbsolute] at h
    · obtain rfl : c = '/' := by simpa [isAbsolute] using h
      unfold leadingSlashes
      split <;> simp_all
  refine ⟨List.replicate (leadingSlashes p) '/', by simpa using hl.ne', fun c hc => ?_, ?_⟩
  · exact List.eq_of_mem_replicate hc
  · have hne : List.replicate (leadingSlashes p) '/' ≠ [] := by simpa using hl.ne'
    simp [normalize, normalNames, h, hne]

theorem getLast?_slashes {s : Path} (h : ∀ c ∈ s, c = '/') (hn : s ≠ []) :
    s.getLast? = some '/' := by
  rw [List.getLast?_eq_some_getLast hn, h _ (List.getLast_mem hn)]

/-- The base name of a normal form is the last of its names, if there is one. -/
theorem baseName_normalize (h : p.isAbsolute = true) :
    baseName p.normalize = (normalNames p).getLastD [] := by
  obtain ⟨s, hs, hsl, hp⟩ := normalize_of_isAbsolute h
  have hlast := getLast?_slashes hsl hs
  rw [hp]
  rcases List.eq_nil_or_concat (normalNames p) with hn | ⟨a, x, hn⟩
  · rw [hn]
    exact baseName_append (x := []) (by simp) (.inr hlast)
  · rw [List.concat_eq_append] at hn
    have hx : '/' ∉ x := not_mem_of_mem_names (mem_normalNames (p := p) (by simp [hn])).1
    rw [hn, List.getLastD_concat]
    by_cases ha : a = []
    · subst ha
      exact baseName_append hx (.inr hlast)
    · rw [Text.join_concat _ _ ha, ← List.append_assoc, ← List.append_assoc]
      exact baseName_append hx (.inr (by simp))

end Path

end FileShell
