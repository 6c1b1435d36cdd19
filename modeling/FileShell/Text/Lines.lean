import FileShell.Text.Basic

/-!
# Lines

A line ends at a line feed, a carriage return, or the two together, and at nothing else. The last
line need not be ended; what follows the last end is a line only if it holds anything. Lines that
were ended by line feeds are found again.
-/

namespace FileShell

namespace Text

/-- Every line end written as one line feed. -/
def unifyEnds : Text → Text
  | [] => []
  | '\r' :: '\n' :: t => '\n' :: unifyEnds t
  | c :: t => (if c = '\r' then '\n' else c) :: unifyEnds t

/-- The pieces around the line feeds, less the empty one after a last line feed. -/
def feedLines (t : Text) : List Text :=
  let pieces := split (· == '\n') t
  if pieces.getLast? = some [] then pieces.dropLast else pieces

def lines (t : Text) : List Text := feedLines (unifyEnds t)

/-- Each line followed by a line feed. -/
def unlines (ls : List Text) : Text := ls.flatMap (· ++ ['\n'])

theorem unifyEnds_of_not_mem : ∀ {t : Text}, '\r' ∉ t → unifyEnds t = t
  | [], _ => rfl
  | [c], h => by
    have hc : c ≠ '\r' := fun e => h (e ▸ List.mem_cons_self)
    unfold unifyEnds
    split <;> simp_all [unifyEnds]
  | c :: d :: t, h => by
    have hc : c ≠ '\r' := fun e => h (e ▸ List.mem_cons_self)
    have ih := unifyEnds_of_not_mem fun m => h (List.mem_cons_of_mem c m)
    unfold unifyEnds
    split <;> simp_all

theorem unlines_cons (l : Text) (ls : List Text) : unlines (l :: ls) = l ++ '\n' :: unlines ls := by
  simp [unlines]

theorem split_unlines : ∀ {ls : List Text}, (∀ l ∈ ls, '\n' ∉ l) →
    split (· == '\n') (unlines ls) = ls ++ [[]]
  | [], _ => rfl
  | l :: ls, h => by
    have ih := split_unlines fun k hk => h k (List.mem_cons_of_mem l hk)
    have hl : ∀ c ∈ l, (c == '\n') = false := fun c hc => beq_false_of_ne fun e =>
      h l List.mem_cons_self (e ▸ hc)
    rw [unlines_cons, split_append_cons rfl _ hl, ih, List.cons_append]

/-- Ended lines are found again if none holds an end. -/
theorem lines_unlines {ls : List Text} (h : ∀ l ∈ ls, '\n' ∉ l ∧ '\r' ∉ l) :
    lines (unlines ls) = ls := by
  have hr : '\r' ∉ unlines ls := by
    intro hm
    obtain ⟨l, hl, hc⟩ := List.mem_flatMap.1 hm
    rcases List.mem_append.1 hc with hc | hc
    · exact (h l hl).2 hc
    · simp at hc
  simp [lines, unifyEnds_of_not_mem hr, feedLines, split_unlines fun l hl => (h l hl).1]

end Text

end FileShell
