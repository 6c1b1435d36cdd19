import FileShell.Proofs.Text.Pieces
import FileShell.Text.Blank
import FileShell.Text.Lines

/-!
# Ends of lines

What can be counted in a text as a whole without cutting it into lines: its ends of lines
(`endCount`), its words (`runCount`), and the characters that belong to no end. The lines give the
same numbers (`length_lines`, `length_words_lines`, `length_flatten_lines`): every end is blank, so
none is part of a word, and a carriage return with a line feed behind it is no end of its own.
-/

namespace FileShell

namespace Text

variable {p : Char → Bool} {t : Text}

/-- Whether the character belongs to an end of a line wherever it stands. -/
def isEnd (c : Char) : Bool := c == '\n' || c == '\r'

/-- How many ends of lines there are. Each counts at its last character, so a carriage return
counts unless a line feed follows. -/
def endCount : Text → Nat
  | [] => 0
  | c :: t => (if c = '\n' ∨ c = '\r' ∧ t.head? ≠ some '\n' then 1 else 0) + endCount t

/-- How many maximal runs of characters fail the test. Each counts at its last character. -/
def runCount (p : Char → Bool) : Text → Nat
  | [] => 0
  | c :: t => (if !p c && t.head?.all p then 1 else 0) + runCount p t

/-! ## Unified ends -/

theorem not_mem_unifyEnds (t : Text) : '\r' ∉ unifyEnds t := by
  fun_induction unifyEnds t with
  | case1 => simp
  | case2 t ih => simpa using ih
  | case3 c t _ ih =>
    by_cases hc : c = '\r'
    · simpa [hc] using ih
    · simpa [hc, eq_comm] using ih

theorem count_unifyEnds (t : Text) : (unifyEnds t).count '\n' = endCount t := by
  fun_induction unifyEnds t with
  | case1 => rfl
  | case2 t ih => simp [endCount, ih, Nat.add_comm]
  | case3 c t hpair ih =>
    have hhead : c = '\r' → t.head? ≠ some '\n' := fun hc ht => by
      obtain ⟨u, rfl⟩ := List.head?_eq_some_iff.1 ht
      exact hpair u hc rfl
    rw [endCount, ← ih, List.count_cons, Nat.add_comm]
    by_cases hc : c = '\r'
    · simp [hc, hhead]
    · simp [hc]

theorem filter_unifyEnds (t : Text) :
    (unifyEnds t).filter (· != '\n') = t.filter (!isEnd ·) := by
  fun_induction unifyEnds t with
  | case1 => rfl
  | case2 t ih => simp [isEnd, ih]
  | case3 c t _ ih =>
    by_cases hc : c = '\r'
    · simp [isEnd, hc, ih]
    · simp [isEnd, hc, List.filter_cons, ih]

theorem head?_unifyEnds (hn : p '\n' = true) (hr : p '\r' = true) (t : Text) :
    (unifyEnds t).head?.all p = t.head?.all p := by
  fun_cases unifyEnds t with
  | case1 => rfl
  | case2 t => simp [hn, hr]
  | case3 c t _ =>
    by_cases hc : c = '\r'
    · simp [hc, hn, hr]
    · simp [hc]

theorem runCount_unifyEnds (hn : p '\n' = true) (hr : p '\r' = true) (t : Text) :
    runCount p (unifyEnds t) = runCount p t := by
  fun_induction unifyEnds t with
  | case1 => rfl
  | case2 t ih => simp [runCount, hn, hr, ih]
  | case3 c t _ ih =>
    rw [runCount, runCount, ih, head?_unifyEnds hn hr]
    by_cases hc : c = '\r'
    · simp [hc, hn, hr]
    · simp [hc]

theorem all_getLast?_cons {c : Char} (hc : p c = true) (t : Text) :
    (c :: t).getLast?.all p = t.getLast?.all p := by
  rw [List.getLast?_cons]
  rcases t.getLast? with _ | x
  · exact hc
  · rfl

theorem getLast?_unifyEnds (t : Text) :
    (unifyEnds t).getLast?.all (· == '\n') = t.getLast?.all isEnd := by
  fun_induction unifyEnds t with
  | case1 => rfl
  | case2 t ih =>
    rw [all_getLast?_cons rfl, all_getLast?_cons rfl, all_getLast?_cons rfl, ih]
  | case3 c t _ ih =>
    by_cases hc : c = '\r'
    · rw [if_pos hc, hc, all_getLast?_cons rfl, all_getLast?_cons rfl, ih]
    rw [if_neg hc]
    rcases t with _ | ⟨e, t⟩
    · simp [unifyEnds, isEnd, hc]
    · have hne : unifyEnds (e :: t) ≠ [] := by
        unfold unifyEnds
        split <;> simp_all
      obtain ⟨x, xs, hx⟩ := List.exists_cons_of_ne_nil hne
      rw [hx] at ih ⊢
      rw [List.getLast?_cons_cons, List.getLast?_cons_cons, ih]

/-! ## Runs -/

theorem isEmpty_head_split {x : Text} {xs : List Text} (h : split p t = x :: xs) :
    x.isEmpty = t.head?.all p := by
  rcases t with _ | ⟨c, t⟩
  · cases h
    rfl
  · unfold split at h
    split_ifs at h with hc
    · cases h
      simp [hc]
    · split at h <;> cases h <;> simp [hc]

theorem length_fields (p : Char → Bool) : ∀ t : Text, (fields p t).length = runCount p t
  | [] => rfl
  | c :: t => by
    have ih := length_fields p t
    rcases hc : p c with _ | _
    · obtain ⟨x, xs, hx⟩ := List.exists_cons_of_ne_nil (split_ne_nil p t)
      have hhead := isEmpty_head_split hx
      unfold fields at ih ⊢
      rw [hx] at ih
      simp only [split, hc, hx, runCount, ← ih, ← hhead]
      rcases x <;> simp [Nat.add_comm]
    · rw [fields_cons hc, ih, runCount, hc]
      simp

/-! ## The lines of a text -/

theorem split_eq_feedLines (t : Text) : split (· == '\n') t =
    feedLines t ++ if t.getLast?.all (· == '\n') then [[]] else [] := by
  unfold feedLines
  simp only [getLast?_split]
  split_ifs with h
  · rw [← getLast?_split] at h
    exact (List.dropLast_append_getLast? [] h).symm
  · rw [List.append_nil]

theorem not_mem_lines {l : Text} (h : l ∈ lines t) : '\n' ∉ l ∧ '\r' ∉ l := by
  have hsplit : l ∈ split (· == '\n') (unifyEnds t) := by
    rw [split_eq_feedLines]
    exact List.mem_append_left _ h
  constructor
  · intro hn
    simpa using not_of_mem_split hsplit hn
  · exact fun hr => not_mem_unifyEnds t (mem_of_mem_split hsplit hr)

theorem not_mem_unlines_lines (t : Text) : '\r' ∉ unlines (lines t) := by
  intro hr
  obtain ⟨l, hl, hc⟩ := List.mem_flatMap.1 hr
  rcases List.mem_append.1 hc with hc | hc
  · exact (not_mem_lines hl).2 hc
  · simp at hc

/-- There is a line for each end, and one more if anything stands behind the last end. -/
theorem length_lines (t : Text) :
    (lines t).length = endCount t + if t.getLast?.any (!isEnd ·) then 1 else 0 := by
  have h := congrArg List.length (split_eq_feedLines (unifyEnds t))
  rw [length_split, count_unifyEnds, getLast?_unifyEnds, List.length_append] at h
  have hany : t.getLast?.any (!isEnd ·) = !t.getLast?.all isEnd := by
    rcases t.getLast? <;> rfl
  rw [lines, hany]
  rcases hall : t.getLast?.all isEnd <;> simp [hall] at h ⊢ <;> omega

theorem length_words_lines (t : Text) :
    ((lines t).flatMap fun l => l.words).length = runCount isBlank t := by
  have hn : isBlank '\n' = true := by decide
  have hr : isBlank '\r' = true := by decide
  rw [← runCount_unifyEnds hn hr, ← length_fields, ← flatMap_fields_split hn, split_eq_feedLines,
    List.flatMap_append]
  split_ifs <;> simp [lines, words, fields, split]

theorem length_flatten_lines (t : Text) :
    (lines t).flatten.length = t.length - t.countP isEnd := by
  have hflat : (lines t).flatten = t.filter (!isEnd ·) := by
    rw [← filter_unifyEnds, ← flatten_split, split_eq_feedLines, List.flatten_append]
    split_ifs <;> simp [lines]
  have hsum := List.length_eq_countP_add_countP isEnd (l := t)
  rw [hflat, ← List.countP_eq_length_filter]
  simp only [Bool.not_eq_true, Bool.decide_eq_false] at hsum ⊢
  omega

theorem getLast?_unlines : ∀ ls : List Text, unlines ls = [] ∨ (unlines ls).getLast? = some '\n' := by
  intro ls
  rcases List.eq_nil_or_concat ls with rfl | ⟨ls, l, rfl⟩
  · exact .inl rfl
  · right
    simp [unlines]

end Text

end FileShell
