import FileShell.Text.Blank
import Mathlib.Data.List.DropRight
import Mathlib.Data.List.TakeWhile

/-!
# Pieces of texts

A text with a separator in it has the pieces in front of it and then those behind it
(`split_append`). The pieces around one character hold all else that the text holds
(`flatten_split`), and the fields of the text if that character is no part of a field
(`flatMap_fields_split`). Fields that are joined are found again (`fields_join`), and trimming takes
off what is no part of a field (`fields_trim`). A word is cut out where it first occurs, which is
not before its first character does (`cut?_append`).
-/

namespace FileShell

namespace Text

variable {p : Char → Bool} {a t z word : Text} {c s : Char}

/-! ## Splitting -/

theorem split_append (hs : p s = true) (b : Text) :
    ∀ a : Text, split p (a ++ s :: b) = split p a ++ split p b
  | [] => by simp [split, hs]
  | c :: a => by
    have ih := split_append hs b a
    rcases hc : p c with _ | _
    · obtain ⟨x, xs, hx⟩ := List.exists_cons_of_ne_nil (split_ne_nil p a)
      simp [split, hc, ih, hx]
    · simp [split, hc, ih]

theorem fields_append (hs : p s = true) (a b : Text) :
    fields p (a ++ s :: b) = fields p a ++ fields p b := by
  simp [fields, split_append hs]

theorem fields_cons (hc : p c = true) (t : Text) : fields p (c :: t) = fields p t :=
  fields_append hc [] t

/-- Separators at the end belong to no field. -/
theorem fields_append_of_forall (a : Text) :
    ∀ {z : Text}, (∀ c ∈ z, p c = true) → fields p (a ++ z) = fields p a
  | [], _ => by rw [List.append_nil]
  | c :: z, h => by
    have ih := fields_append_of_forall [] fun d hd => h d (List.mem_cons_of_mem c hd)
    rw [fields_append (h c List.mem_cons_self), ← List.nil_append z, ih]
    simp [fields, split]

/-! ## Joining -/

theorem mem_join (hc : c ≠ s) : ∀ {a : List Text}, c ∈ join [s] a → ∃ x ∈ a, c ∈ x
  | [], h => absurd h List.not_mem_nil
  | [x], h => ⟨x, List.mem_singleton_self x, h⟩
  | x :: y :: a, h => by
    rw [join, List.mem_append, List.mem_append, List.mem_singleton] at h
    rcases h with (h | h) | h
    · exact ⟨x, List.mem_cons_self, h⟩
    · exact absurd h hc
    · obtain ⟨z, hz, hcz⟩ := mem_join hc h
      exact ⟨z, List.mem_cons_of_mem x hz, hcz⟩

theorem join_concat (s : Text) (x : Text) :
    ∀ {a : List Text}, a ≠ [] → join s (a ++ [x]) = join s a ++ s ++ x
  | [], h => absurd rfl h
  | [y], _ => rfl
  | y :: z :: a, _ => by
    have ih := join_concat s x (List.cons_ne_nil z a)
    rw [List.cons_append, join_cons_of_ne_nil s y (by simp), ih,
      join_cons_of_ne_nil s y (List.cons_ne_nil z a)]
    simp

/-- The fields of texts that are joined by a separator. -/
theorem fields_join_eq (hs : p s = true) :
    ∀ xs : List Text, fields p (join [s] xs) = xs.flatMap (fields p)
  | [] => rfl
  | [x] => (List.append_nil _).symm
  | x :: y :: xs => by
    rw [join, List.append_assoc, List.singleton_append, fields_append hs, fields_join_eq hs]
    rfl

/-- Fields are found again if none is empty or holds a separator. -/
theorem fields_join (hs : p s = true) : ∀ {xs : List Text},
    (∀ x ∈ xs, x ≠ [] ∧ ∀ c ∈ x, p c = false) → fields p (join [s] xs) = xs
  | [], _ => rfl
  | [x], h => by
    obtain ⟨hne, hx⟩ := h x List.mem_cons_self
    simp [join, fields, split_of_forall hx, hne]
  | x :: y :: xs, h => by
    obtain ⟨hx, hxs⟩ := List.forall_mem_cons.1 h
    have hone : fields p x = [x] := by simp [fields, split_of_forall hx.2, hx.1]
    rw [join, List.append_assoc, List.singleton_append, fields_append hs, hone, fields_join hs hxs]
    rfl

/-! ## The pieces around one character -/

theorem flatten_split (s : Char) : ∀ t : Text, (split (· == s) t).flatten = t.filter (· != s)
  | [] => rfl
  | c :: t => by
    have ih := flatten_split s t
    obtain ⟨x, xs, hx⟩ := List.exists_cons_of_ne_nil (split_ne_nil (· == s) t)
    rw [hx] at ih
    by_cases hc : c = s
    · simp [split, hc, hx, ih]
    · simp [split, hc, hx, ← ih]

theorem mem_of_mem_split {x : Text} (hx : x ∈ split (· == s) t) (hc : c ∈ x) : c ∈ t := by
  have hflat : c ∈ (split (· == s) t).flatten := List.mem_flatten.2 ⟨x, hx, hc⟩
  rw [flatten_split] at hflat
  exact (List.mem_filter.1 hflat).1

theorem length_split (s : Char) : ∀ t : Text, (split (· == s) t).length = t.count s + 1
  | [] => rfl
  | c :: t => by
    have ih := length_split s t
    obtain ⟨x, xs, hx⟩ := List.exists_cons_of_ne_nil (split_ne_nil (· == s) t)
    rw [hx] at ih
    by_cases hc : c = s
    · simp [split, hc, hx, ih]
    · simpa [split, hc, hx] using ih

/-- The last piece is empty if nothing stands behind the last separator. -/
theorem getLast?_split (s : Char) (t : Text) :
    (split (· == s) t).getLast? = some [] ↔ t.getLast?.all (· == s) = true := by
  obtain ⟨a, z, ha⟩ := (List.eq_nil_or_concat _).resolve_left (split_ne_nil (· == s) t)
  rw [List.concat_eq_append] at ha
  have hz : ∀ c ∈ z, (c == s) = false := fun c hc =>
    not_of_mem_split (p := (· == s)) (t := t) (by rw [ha]; simp) hc
  have ht : t = join [s] (a ++ [z]) := by rw [← ha, join_split]
  rw [ha, List.getLast?_concat, Option.some_inj, ht]
  rcases List.eq_nil_or_concat z with rfl | ⟨z, c, rfl⟩
  · rcases eq_or_ne a [] with rfl | hne
    · simp [join]
    · simp [join_concat _ _ hne]
  · have hc : (c == s) = false := hz c (by simp)
    rcases eq_or_ne a [] with rfl | hne
    · simp [join, hc]
    · rw [join_concat _ _ hne, List.concat_eq_append, ← List.append_assoc, List.getLast?_concat]
      simp [hc]

theorem flatMap_fields_split (hs : p s = true) (t : Text) :
    (split (· == s) t).flatMap (fields p) = fields p t := by
  rw [← fields_join_eq hs, join_split]

/-! ## Trimming -/

theorem trimStart_eq_self (h : t.head? ≠ some c) : trimStart (· == c) t = t := by
  rcases t with _ | ⟨a, t⟩
  · rfl
  · rw [trimStart, List.dropWhile_cons_of_neg]
    simpa using h

theorem trimEnd_eq_self (h : t.getLast? ≠ some c) : trimEnd (· == c) t = t := by
  have hr : trimStart (· == c) t.reverse = t.reverse :=
    trimStart_eq_self (by rwa [List.head?_reverse])
  rw [trimStart] at hr
  rw [trimEnd, hr, List.reverse_reverse]

theorem trim_eq_self (hh : t.head? ≠ some c) (hl : t.getLast? ≠ some c) :
    trim (· == c) t = t := by
  rw [trim, trimStart_eq_self hh, trimEnd_eq_self hl]

theorem trimStart_append (hs : p s = false) (a b : Text) :
    trimStart p (a ++ s :: b) = trimStart p a ++ s :: b := by
  unfold trimStart
  rw [List.dropWhile_append]
  split_ifs with h
  · rw [List.isEmpty_iff.1 h, List.dropWhile_cons_of_neg (by simp [hs])]
    rfl
  · rfl

theorem trimEnd_append (hs : p s = false) (a b : Text) :
    trimEnd p (a ++ s :: b) = a ++ s :: trimEnd p b := by
  have h := trimStart_append hs b.reverse a.reverse
  unfold trimStart at h
  unfold trimEnd
  rw [List.reverse_append, List.reverse_cons, List.append_assoc, List.singleton_append, h]
  simp

/-- A character that stays keeps the trimming of the two sides apart. -/
theorem trim_append (hs : p s = false) (a b : Text) :
    trim p (a ++ s :: b) = trimStart p a ++ s :: trimEnd p b := by
  rw [trim, trimStart_append hs, trimEnd_append hs]

theorem exists_trimEnd (p : Char → Bool) (t : Text) :
    ∃ z, t = trimEnd p t ++ z ∧ ∀ c ∈ z, p c = true := by
  have h := congrArg List.reverse (List.takeWhile_append_dropWhile (p := p) (l := t.reverse))
  rw [List.reverse_append, List.reverse_reverse] at h
  exact ⟨_, h.symm, fun c hc => List.mem_takeWhile_imp (List.mem_reverse.1 hc)⟩

theorem trimEnd_append_of_forall (hz : ∀ c ∈ z, p c = true) (a : Text) :
    trimEnd p (a ++ z) = trimEnd p a := by
  unfold trimEnd
  rw [List.reverse_append, List.dropWhile_append_of_pos (by simpa using hz)]

/-- What is trimmed at its end already is trimmed as the whole is. -/
theorem trim_trimEnd (t : Text) : trim p (trimEnd p t) = trim p t := by
  obtain ⟨z, ht, hz⟩ := exists_trimEnd p t
  conv_rhs => rw [ht]
  unfold trim trimStart
  rw [List.dropWhile_append]
  split_ifs with h
  · rw [List.isEmpty_iff.1 h, List.dropWhile_eq_nil_iff.2 hz]
  · rw [trimEnd_append_of_forall hz]

theorem trim_trimStart (t : Text) : trim p (trimStart p t) = trim p t := by
  rw [trim, trimStart, trimStart, List.dropWhile_idempotent, trim, trimStart]

theorem exists_trim (p : Char → Bool) (t : Text) :
    ∃ a z, t = a ++ trim p t ++ z ∧ (∀ c ∈ a, p c = true) ∧ ∀ c ∈ z, p c = true := by
  obtain ⟨z, hz, hp⟩ := exists_trimEnd p (trimStart p t)
  refine ⟨t.takeWhile p, z, ?_, fun c hc => List.mem_takeWhile_imp hc, hp⟩
  rw [List.append_assoc, trim, ← hz, trimStart, List.takeWhile_append_dropWhile]

/-- What passes the test at the two ends does not count. -/
theorem trim_append_of_forall (ha : ∀ c ∈ a, p c = true) (hz : ∀ c ∈ z, p c = true) (t : Text) :
    trim p (a ++ t ++ z) = trim p t := by
  have hstart : trimStart p (a ++ t) = trimStart p t := List.dropWhile_append_of_pos ha
  rw [← trim_trimEnd, trimEnd_append_of_forall hz, trim_trimEnd, trim, hstart, trim]

theorem length_trim_le (p : Char → Bool) (t : Text) : (trim p t).length ≤ t.length := by
  obtain ⟨a, z, ht, -⟩ := exists_trim p t
  have := congrArg List.length ht
  simp only [List.length_append] at this
  omega

/-- What is trimmed has nothing at its ends that passes the test. -/
theorem ends_eq_nil (h : trim p (a ++ t ++ z) = a ++ t ++ z) (ha : ∀ c ∈ a, p c = true)
    (hz : ∀ c ∈ z, p c = true) : a = [] ∧ z = [] := by
  have hle := length_trim_le p t
  rw [← trim_append_of_forall ha hz, h] at hle
  simp only [List.length_append] at hle
  exact ⟨List.eq_nil_of_length_eq_zero (by omega), List.eq_nil_of_length_eq_zero (by omega)⟩

theorem trim_trim (p : Char → Bool) (t : Text) : trim p (trim p t) = trim p t :=
  (trim_trimEnd (trimStart p t)).trans (trim_trimStart t)

theorem mem_of_mem_trim (h : c ∈ trim p t) : c ∈ t := by
  obtain ⟨a, z, ht, -⟩ := exists_trim p t
  rw [ht]
  exact List.mem_append_left z (List.mem_append_right a h)

theorem fields_trimStart : ∀ t : Text, fields p (trimStart p t) = fields p t
  | [] => rfl
  | c :: t => by
    rcases hc : p c with _ | _
    · rw [trimStart, List.dropWhile_cons_of_neg (by simp [hc])]
    · rw [trimStart, List.dropWhile_cons_of_pos hc, fields_cons hc]
      exact fields_trimStart t

theorem fields_trimEnd (t : Text) : fields p (trimEnd p t) = fields p t := by
  obtain ⟨z, hz, hp⟩ := exists_trimEnd p t
  conv_rhs => rw [hz, fields_append_of_forall _ hp]

theorem fields_trim (t : Text) : fields p (trim p t) = fields p t := by
  rw [trim, fields_trimEnd, fields_trimStart]

theorem words_strip (t : Text) : t.strip.words = t.words := fields_trim t

/-! ## Cutting -/

/-- A word is not found before its first character. -/
theorem cut?_append (h : c ∉ a) (t : Text) :
    cut? (c :: word) (a ++ t) = (cut? (c :: word) t).map fun x => (a ++ x.1, x.2) := by
  induction a with
  | nil => simp
  | cons d a ih =>
    rw [List.mem_cons, not_or] at h
    have hd : (c == d) = false := by simpa using h.1
    rw [List.cons_append, cut?]
    simp [List.isPrefixOf, hd, ih h.2, Function.comp_def]

theorem cut?_self (c : Char) (word b : Text) :
    cut? (c :: word) (c :: word ++ b) = some ([], b) := by
  have hp : (c :: word).isPrefixOf (c :: word ++ b) = true :=
    List.isPrefixOf_iff_prefix.2 (List.prefix_append _ _)
  rw [List.cons_append, cut?, ← List.cons_append, if_pos hp]
  simp

theorem cut?_eq_none_iff (hw : word ≠ []) : ∀ {t : Text}, cut? word t = none ↔ ¬ word <:+: t
  | [] => by simp [cut?, hw]
  | c :: t => by
    rw [List.infix_cons_iff, not_or, ← cut?_eq_none_iff hw, ← List.isPrefixOf_iff_prefix, cut?]
    split_ifs with hp <;> simp [hp]

/-- What is found is a first occurrence: none ends before it does. -/
theorem cut?_eq_some (hw : word ≠ []) : ∀ {t a b : Text}, cut? word t = some (a, b) →
    t = a ++ word ++ b ∧ ¬ word <:+: a ++ word.dropLast
  | [], a, b, h => by simp [cut?, hw] at h
  | c :: t, a, b, h => by
    rw [cut?] at h
    split_ifs at h with hp
    · obtain ⟨rfl, rfl⟩ := Prod.mk.inj (Option.some.inj h)
      refine ⟨(List.prefix_iff_eq_append.1 (List.isPrefixOf_iff_prefix.1 hp)).symm, fun hi => ?_⟩
      have := hi.length_le
      rw [List.nil_append, List.length_dropLast] at this
      exact hw (List.eq_nil_of_length_eq_zero (by omega))
    · obtain ⟨⟨a, b⟩, hab, he⟩ := Option.map_eq_some_iff.1 h
      obtain ⟨rfl, rfl⟩ := Prod.mk.inj he
      obtain ⟨rfl, hfirst⟩ := cut?_eq_some hw hab
      refine ⟨rfl, fun hi => (List.infix_cons_iff.1 hi).elim (fun hc => hp ?_) hfirst⟩
      -- the word would stand at the front of the whole text
      refine List.isPrefixOf_iff_prefix.2 (hc.trans (List.cons_prefix_cons.2 ⟨rfl, ?_⟩))
      rw [List.append_assoc]
      exact (List.prefix_append_right_inj a).2
        ((List.dropLast_prefix word).trans (List.prefix_append word b))

theorem infix_of_infix_append (h : c ∉ a) (hi : c :: word <:+: a ++ t) : c :: word <:+: t := by
  induction a with
  | nil => exact hi
  | cons d a ih =>
    rw [List.mem_cons, not_or] at h
    refine ih h.2 ((List.infix_cons_iff.1 hi).resolve_left fun hp => ?_)
    exact h.1 (List.cons_prefix_cons.1 hp).1

theorem cut?_eq_none_of_not_mem (h : c ∉ t) : cut? (c :: word) t = none :=
  (cut?_eq_none_iff (List.cons_ne_nil c word)).2 fun hi => h (hi.mem List.mem_cons_self)

end Text

end FileShell
