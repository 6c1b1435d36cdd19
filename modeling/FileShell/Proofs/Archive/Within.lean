import FileShell.Proofs.Archive.EntryNames

/-!
# Paths within paths

What two lists of names have in common at their front is the longest list that begins both
(`prefix_commonPrefix_iff`). So one path is within another exactly if the names of its normal form
go on from those of the other, unless two slashes begin the other one (`isWithin_iff`).

The components that are put below a destination need be no names for that. They may hold slashes,
begin at the root again, be empty or hide two dots between slashes: if there is a path for them at
all, its normal form goes on from that of the destination (`stays_within`).
-/

namespace FileShell

namespace Path

variable {p root : Path} {a b c : List Text}

/-! ## Common paths -/

theorem prefix_commonPrefix_iff : c <+: commonPrefix a b ↔ c <+: a ∧ c <+: b := by
  induction c generalizing a b with
  | nil => simp
  | cons z c ih =>
    rcases a with _ | ⟨x, a⟩
    · simp [commonPrefix]
    rcases b with _ | ⟨y, b⟩
    · simp [commonPrefix]
    rw [commonPrefix]
    split_ifs with hxy
    · subst hxy
      simp only [List.cons_prefix_cons, ih]
      tauto
    · simp only [List.cons_prefix_cons, List.prefix_nil, reduceCtorEq, false_iff]
      rintro ⟨⟨rfl, -⟩, rfl, -⟩
      exact hxy rfl

theorem commonPrefix_eq_left_iff : commonPrefix a b = a ↔ a <+: b := by
  have hge : commonPrefix a b <+: a := (prefix_commonPrefix_iff.1 List.prefix_rfl).1
  constructor
  · intro h
    rw [← h]
    exact (prefix_commonPrefix_iff.1 List.prefix_rfl).2
  · intro h
    have hle : a <+: commonPrefix a b := prefix_commonPrefix_iff.2 ⟨List.prefix_rfl, h⟩
    exact hge.eq_of_length_le hle.length_le

theorem names_common (p q : Path) : names (common p q) = commonPrefix (names p) (names q) := by
  have hs : ∀ x ∈ commonPrefix (names p) (names q), '/' ∉ x ∧ x ≠ [] := fun x hx => by
    have hx := commonPrefix_subset _ _ hx
    exact ⟨not_mem_of_mem_names hx, ne_nil_of_mem_names hx⟩
  exact (names_append_slash [] _).trans (names_joined hs)

/-! ## Normal forms -/

theorem leadingSlashes_join_root (p : Path) :
    leadingSlashes (join ['/'] p) = if leadingSlashes p = 2 then 2 else 1 := by
  rcases hp : p.isAbsolute with _ | _
  · have hh : p.head? ≠ some '/' := by simpa [isAbsolute] using hp
    have h0 : leadingSlashes p ≠ 2 := fun h => by
      rw [isAbsolute_of_leadingSlashes (p := p) (by omega)] at hp
      cases hp
    rw [join_eq_of_relative hp, if_pos (by simp), leadingSlashes_append rfl (.inr hh), if_neg h0]
  · rw [join, if_pos hp]
    rcases leadingSlashes_eq_one_or_two hp with h | h <;> simp [h]

theorem absolute_join_root (p : Path) : absolute (join ['/'] p) = absolute p := by
  have hroot : (join ['/'] p).isAbsolute = true := by
    refine isAbsolute_of_leadingSlashes ?_
    rw [leadingSlashes_join_root]
    split_ifs <;> decide
  rw [absolute, absolute, join.eq_1 ['/'] (join ['/'] p), if_pos hroot]

/-- Behind one slash, a normal form is spelled by its names. -/
theorem path_names_absolute (hp : leadingSlashes p ≠ 2) :
    Loc.path (names (absolute p)) = absolute p := by
  have hl : leadingSlashes (join ['/'] p) = 1 := by rw [leadingSlashes_join_root, if_neg hp]
  rw [← absolute_join_root, absolute_eq hl, (spellable_normalNames _).names_path]

/-- A path is within another if its names go on from those of the other one. -/
theorem isWithin_iff : isWithin root p = true ↔
    leadingSlashes root ≠ 2 ∧ names (absolute root) <+: names (absolute p) := by
  rw [isWithin, beq_iff_eq]
  constructor
  · intro h
    refine ⟨fun hl => ?_, ?_⟩
    · -- a common path begins with one slash
      have hnot := isWithin_of_two_slashes hl p
      rw [isWithin, h, beq_self_eq_true] at hnot
      cases hnot
    · rw [← commonPrefix_eq_left_iff, ← names_common, h]
  · rintro ⟨hl, h⟩
    rw [common, commonPrefix_eq_left_iff.2 h]
    exact path_names_absolute hl

/-- A path for components below a destination stays there, whatever the components hold. There is
one exactly if there are components, none of them is two dots, the destination does not begin with
two slashes and no third one, and the normal form of the path that joins them all has, first of all,
the names that the normal form of the destination has. -/
theorem stays_within (destination target : Path) (parts : List Text) :
    below? destination parts = some target ↔
      (parts ≠ [] ∧ ['.', '.'] ∉ parts ∧ parts.foldl join destination = target) ∧
        leadingSlashes destination ≠ 2 ∧
        names (absolute destination) <+: names (absolute target) := by
  by_cases hsafe : parts ≠ [] ∧ ['.', '.'] ∉ parts
  · have hgo : (parts.isEmpty || parts.contains ['.', '.']) = false := by simpa using hsafe
    simp only [below?, hgo, Bool.false_eq_true, if_false, Option.ite_none_right_eq_some,
      Option.some.injEq, isWithin_iff]
    constructor
    · rintro ⟨hin, rfl⟩
      exact ⟨⟨hsafe.1, hsafe.2, rfl⟩, hin⟩
    · rintro ⟨⟨-, -, rfl⟩, hin⟩
      exact ⟨hin, rfl⟩
  · have hstop : (parts.isEmpty || parts.contains ['.', '.']) = true := by
      simpa [or_iff_not_imp_left] using hsafe
    simp only [below?, hstop, if_true, reduceCtorEq, false_iff]
    exact fun h => hsafe ⟨h.1.1, h.1.2.1⟩

/-- The components climb out of the destination and come back to it from the root. -/
theorem stays_within_roundabout :
    let parts := ["x/../../b".toList, "".toList, "/a//b/./c".toList, "../d".toList]
    let target := "/a//b/./c/../d".toList
    below? "/a/b".toList parts = some target ∧
      names (absolute target) = ["a".toList, "b".toList, "d".toList] ∧
      names (absolute "/a/b".toList) <+: names (absolute target) := by
  intro parts target
  have htarget : below? "/a/b".toList parts = some target := by decide
  exact ⟨htarget, by decide, ((stays_within "/a/b".toList target parts).1 htarget).2.2⟩

end Path

end FileShell
