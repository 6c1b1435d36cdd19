import FileShell.Disk.Change
import FileShell.Proofs.Text.Pieces
import Mathlib.Data.List.Sort

/-!
# The names of a path

A path is cut at its slashes, so the names of two paths with a slash between them are the names
of the one and then those of the other (`names_append_slash`). Joining puts names behind names,
and going to the parent takes the last one off unless a slash ends the path (`names_parent`).
-/

namespace FileShell

namespace Text

theorem byteSize_append (a b : Text) : (a ++ b).byteSize = a.byteSize + b.byteSize := by
  simp only [byteSize, Utf8.encode, List.flatMap_append, List.length_append]

theorem byteSize_cons (c : Char) (t : Text) :
    byteSize (c :: t) = (Utf8.encodeChar c).length + t.byteSize := by
  simp only [byteSize, Utf8.encode, List.flatMap_cons, List.length_append]

theorem byteSize_le_of_sublist {a b : Text} (h : a.Sublist b) : a.byteSize ≤ b.byteSize := by
  induction h with
  | slnil => exact le_rfl
  | cons c _ ih => simp only [byteSize_cons] at ih ⊢; omega
  | cons_cons c _ ih => simp only [byteSize_cons] at ih ⊢; omega

end Text

namespace Path

theorem names_nil : names [] = [] := rfl

theorem names_append_slash (a b : Path) : names (a ++ '/' :: b) = names a ++ names b :=
  Text.fields_append (by simp) a b

theorem names_of_not_mem {x : Text} (h : '/' ∉ x) (hx : x ≠ []) : names x = [x] := by
  have hs : Text.split (· == '/') x = [x] := Text.split_of_forall fun c hc =>
    beq_false_of_ne fun e => h (e ▸ hc)
  simp [names, Text.fields, hs, hx]

theorem not_mem_of_mem_names {p : Path} {x : Text} (h : x ∈ names p) : '/' ∉ x := by
  intro hc
  have := Text.not_of_mem_split (List.mem_filter.1 h).1 hc
  simp at this

theorem ne_nil_of_mem_names {p : Path} {x : Text} (h : x ∈ names p) : x ≠ [] :=
  Text.fields_ne_nil h

theorem mem_of_mem_names {p : Path} {x : Text} {c : Char} (h : x ∈ names p) (hc : c ∈ x) : c ∈ p :=
  Text.mem_of_mem_split (List.mem_filter.1 h).1 hc

theorem names_append_slashes (p : Path) {q : Path} (h : ∀ c ∈ q, c = '/') :
    names (p ++ q) = names p :=
  Text.fields_append_of_forall p fun c hc => by simpa using h c hc

/-! ## Joining -/

theorem join_eq_of_relative {p q : Path} (h : q.isAbsolute = false) :
    join p q = if p.isEmpty || p.getLast? == some '/' then p ++ q else p ++ '/' :: q := by
  simp [join, h]

theorem names_join (p : Path) {q : Path} (h : q.isAbsolute = false) :
    names (join p q) = names p ++ names q := by
  rw [join_eq_of_relative h]
  split
  · rename_i hp
    rcases List.eq_nil_or_concat p with rfl | ⟨p, c, rfl⟩
    · simp [names_nil]
    · simp at hp
      subst hp
      rw [List.concat_eq_append, List.append_assoc, List.singleton_append, names_append_slash,
        names_append_slash, names_nil, List.append_nil]
  · rw [names_append_slash]

theorem isAbsolute_of_not_mem {x : Text} (h : '/' ∉ x) : isAbsolute x = false := by
  cases x with
  | nil => rfl
  | cons c x =>
    have hc : c ≠ '/' := fun e => h (e ▸ List.mem_cons_self)
    simpa [isAbsolute] using hc

theorem names_join_name (p : Path) {x : Text} (h : '/' ∉ x) (hx : x ≠ []) :
    names (join p x) = names p ++ [x] := by
  rw [names_join p (isAbsolute_of_not_mem h), names_of_not_mem h hx]

theorem join_ne_nil (p : Path) {x : Text} (hx : x ≠ []) : join p x ≠ [] := by
  unfold join
  split_ifs <;> simp [hx]

/-- A path joined with a name is the path, at most one slash, and the name. -/
theorem exists_join_eq (p : Path) {x : Text} (h : '/' ∉ x) :
    ∃ s : Path, join p x = p ++ s ++ x ∧ (∀ c ∈ s, c = '/') ∧ s.length ≤ 1
      ∧ (p ++ s = [] ∨ (p ++ s).getLast? = some '/') := by
  rw [join_eq_of_relative (isAbsolute_of_not_mem h)]
  split
  · rename_i hp
    refine ⟨[], by simp, by simp, by simp, ?_⟩
    simpa using hp
  · exact ⟨['/'], by simp, by simp, by simp, by simp⟩

theorem getLast?_join (p : Path) {x : Text} (h : '/' ∉ x) (hx : x ≠ []) :
    (join p x).getLast? ≠ some '/' := by
  obtain ⟨s, hs, -, -, -⟩ := exists_join_eq p h
  intro hl
  rw [hs, List.getLast?_append_of_ne_nil _ hx] at hl
  exact h (List.mem_of_getLast? hl)

/-! ## The parent -/

theorem baseName_append {f x : Path} (h : '/' ∉ x) (hf : f = [] ∨ f.getLast? = some '/') :
    baseName (f ++ x) = x := by
  have hx : ∀ c ∈ x.reverse, (c != '/') = true := fun c hc => by
    simpa using fun e : c = '/' => h (e ▸ List.mem_reverse.1 hc)
  unfold baseName
  rw [List.reverse_append, List.takeWhile_append_of_pos hx]
  rcases List.eq_nil_or_concat f with rfl | ⟨g, c, rfl⟩
  · simp
  · obtain rfl : c = '/' := by simpa using hf
    simp

theorem names_trimEnd (p : Path) : names (Text.trimEnd (· == '/') p) = names p :=
  Text.fields_trimEnd p

/-- The parent has the names that stand in front of the last slash. -/
theorem names_parent_append {f x : Path} (h : '/' ∉ x) (hf : f = [] ∨ f.getLast? = some '/') :
    names (parent (f ++ x)) = names f := by
  unfold parent
  simp only [baseName_append h hf, List.length_append, Nat.add_sub_cancel, List.take_left]
  split
  · rfl
  · exact names_trimEnd f

theorem exists_baseName_eq (p : Path) :
    ∃ f : Path, p = f ++ baseName p ∧ '/' ∉ baseName p ∧ (f = [] ∨ f.getLast? = some '/') := by
  have h := congrArg List.reverse
    (List.takeWhile_append_dropWhile (p := (· != '/')) (l := p.reverse))
  rw [List.reverse_append, List.reverse_reverse] at h
  refine ⟨_, h.symm, fun hc => ?_, ?_⟩
  · simpa using List.mem_takeWhile_imp (List.mem_reverse.1 hc)
  · rcases hd : p.reverse.dropWhile (· != '/') with _ | ⟨c, r⟩
    · simp
    · right
      have := List.head?_dropWhile_not (· != '/') p.reverse
      simpa [hd] using this

/-- The parent of a path that does not end in a slash has all names but the last. -/
theorem names_parent {p : Path} (h : baseName p ≠ []) :
    names p = names (parent p) ++ [baseName p] := by
  obtain ⟨f, hp, hb, hf⟩ := exists_baseName_eq p
  have hn : names (parent p) = names f := by rw [hp]; exact names_parent_append hb hf
  rw [hn]
  conv_lhs => rw [hp]
  rcases List.eq_nil_or_concat f with rfl | ⟨g, c, rfl⟩
  · simpa [names_nil] using names_of_not_mem hb h
  · obtain rfl : c = '/' := by simpa using hf
    rw [List.concat_eq_append, List.append_assoc, List.singleton_append, names_append_slash,
      names_append_slash, names_nil, List.append_nil, names_of_not_mem hb h]

theorem baseName_join (p : Path) {x : Text} (h : '/' ∉ x) : baseName (join p x) = x := by
  obtain ⟨s, hs, -, -, hf⟩ := exists_join_eq p h
  rw [hs]
  exact baseName_append h hf

theorem names_parent_join (p : Path) {x : Text} (h : '/' ∉ x) :
    names (parent (join p x)) = names p := by
  obtain ⟨s, hs, hsl, -, hf⟩ := exists_join_eq p h
  rw [hs, names_parent_append h hf, names_append_slashes p hsl]

theorem parent_append {f x : Path} (h : '/' ∉ x) (hf : f = [] ∨ f.getLast? = some '/') :
    parent (f ++ x) = if f.all (· == '/') then f else Text.trimEnd (· == '/') f := by
  unfold parent
  simp only [baseName_append h hf, List.length_append, Nat.add_sub_cancel, List.take_left]

theorem parent_sublist (p : Path) : (parent p).Sublist p := by
  obtain ⟨f, hp, hx, hf⟩ := exists_baseName_eq p
  have hs : (parent p).Sublist f := by
    rw [hp, parent_append hx hf]
    split
    · exact List.Sublist.refl f
    · simpa [Text.trimEnd] using (List.dropWhile_sublist (· == '/') (l := f.reverse)).reverse
  refine hs.trans ?_
  conv_rhs => rw [hp]
  exact List.sublist_append_left f _

/-- A path that does not end in a slash is the parent of what it is joined to. -/
theorem parent_join {p : Path} {x : Text} (hp : p ≠ []) (hl : p.getLast? ≠ some '/') (h : '/' ∉ x) :
    parent (join p x) = p := by
  obtain ⟨q, c, rfl⟩ := (List.eq_nil_or_concat p).resolve_left hp
  have hc : c ≠ '/' := by simpa using hl
  rw [join_eq_of_relative (isAbsolute_of_not_mem h), if_neg (by simpa using hc),
    List.append_cons, parent_append h (by simp)]
  simp [Text.trimEnd, hc]

theorem parent_join_sublist {p : Path} {x : Text} (hp : p ≠ []) (h : '/' ∉ x) :
    (parent (join p x)).Sublist p ∧ parent (join p x) ≠ [] := by
  by_cases hl : p.getLast? = some '/'
  · obtain ⟨q, c, rfl⟩ := (List.eq_nil_or_concat p).resolve_left hp
    rw [join_eq_of_relative (isAbsolute_of_not_mem h), if_pos (by simpa using hl),
      parent_append h (.inr hl)]
    split
    · exact ⟨List.Sublist.refl _, hp⟩
    · rename_i hs
      refine ⟨by simpa [Text.trimEnd] using
        (List.dropWhile_sublist (· == '/') (l := (q.concat c).reverse)).reverse, fun he => hs ?_⟩
      have := List.dropWhile_eq_nil_iff.1 (List.reverse_eq_nil_iff.1 he)
      simpa [and_comm] using this
  · rw [parent_join hp hl h]
    exact ⟨List.Sublist.refl _, hp⟩

theorem splitLast_join (p : Path) {x : Text} (h : '/' ∉ x) (hx : x ≠ []) :
    splitLast (join p x) = (parent (join p x), x) := by
  simp [splitLast, baseName_join p h, hx]

/-- Whatever slashes stand at its end, a path has the names above its last one and that one. -/
theorem names_splitLast {p : Path} (h : (splitLast p).2 ≠ []) :
    names p = names (splitLast p).1 ++ [(splitLast p).2] := by
  rcases hb : baseName p with _ | ⟨c, x⟩
  · have hs : splitLast p = (parent (parent p), baseName (parent p)) := by simp [splitLast, hb]
    have hn : names p = names (parent p) := by
      obtain ⟨f, hp, hx, hf⟩ := exists_baseName_eq p
      have := names_parent_append hx hf
      rw [← hp] at this
      rw [this]
      conv_lhs => rw [hp, hb, List.append_nil]
    simp only [hs] at h ⊢
    rw [hn]
    exact names_parent (p := parent p) h
  · have hs : splitLast p = (parent p, baseName p) := by simp [splitLast, hb]
    simp only [hs] at h ⊢
    exact names_parent (p := p) h

/-- A path without a last name is made of slashes. -/
theorem names_eq_nil_of_splitLast {p : Path} (h : (splitLast p).2 = []) : names p = [] := by
  rcases hb : baseName p with _ | ⟨c, x⟩
  swap
  · simp [splitLast, hb] at h
  have hup : baseName (parent p) = [] := by simpa [splitLast, hb] using h
  have hparent : parent p = if p.all (· == '/') then p else Text.trimEnd (· == '/') p := by
    obtain ⟨f, hp, -, hf⟩ := exists_baseName_eq p
    rw [hb, List.append_nil] at hp
    subst hp
    simpa using parent_append (f := p) (x := []) List.not_mem_nil hf
  split_ifs at hparent with hslash
  · exact names_append_slashes [] fun c hc => by simpa using List.all_eq_true.1 hslash c hc
  -- the slashes at its end are gone, so the parent ends in a name
  obtain ⟨f, hq, -, hf⟩ := exists_baseName_eq (parent p)
  rw [hup, List.append_nil] at hq
  rw [← hq, hparent, Text.trimEnd, List.reverse_eq_nil_iff, List.getLast?_reverse] at hf
  rcases hf with hf | hf
  · refine absurd (List.all_eq_true.2 fun c hc => ?_) hslash
    exact List.dropWhile_eq_nil_iff.1 hf c (List.mem_reverse.2 hc)
  · have hnot := List.head?_dropWhile_not (· == '/') p.reverse
    simp [hf] at hnot

theorem splitLast_sublist (p : Path) : (splitLast p).1.Sublist p := by
  unfold splitLast
  split <;> simp only
  · exact (parent_sublist (parent p)).trans (parent_sublist p)
  · exact parent_sublist p

/-! ## Joining with several names -/

theorem names_foldl_join {a : List Text} (ha : ∀ x ∈ a, '/' ∉ x ∧ x ≠ []) :
    ∀ p : Path, names (a.foldl join p) = names p ++ a := by
  induction a with
  | nil => simp
  | cons x a ih =>
    intro p
    have hx := ha x List.mem_cons_self
    rw [List.foldl_cons, ih (fun y hy => ha y (List.mem_cons_of_mem x hy)),
      names_join_name p hx.1 hx.2]
    simp

theorem foldl_join_ne_nil {a : List Text} (ha : ∀ x ∈ a, '/' ∉ x ∧ x ≠ []) (hn : a ≠ [])
    (p : Path) :
    a.foldl join p ≠ [] ∧ (a.foldl join p).getLast? ≠ some '/' := by
  obtain ⟨b, x, rfl⟩ := (List.eq_nil_or_concat a).resolve_left hn
  rw [List.concat_eq_append] at ha ⊢
  have hx := ha x (by simp)
  rw [List.foldl_append, List.foldl_cons, List.foldl_nil]
  exact ⟨join_ne_nil _ hx.2, getLast?_join _ hx.1 hx.2⟩

end Path

end FileShell
