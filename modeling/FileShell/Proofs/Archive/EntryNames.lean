import FileShell.Archive.Unpacking
import FileShell.Proofs.Disk.Descent
import FileShell.Proofs.Disk.RealPath

/-!
# Names of entries

The names of a place below a destination, joined by slashes, name its entry. The components of
such a name are the names again (`parts_joined`), and its normal form is itself
(`normalize_joined`). The target of an entry is the path that joins its components to the
destination one by one. There is none for a name that strays, and below a destination that two
slashes begin there is none at all: the common path that is compared with it begins with one
(`target?_eq`).
-/

namespace FileShell

namespace Path

variable {p q : Path} {a : List Text} {x : Text}

theorem foldl_join_nil (ha : ∀ x ∈ a, '/' ∉ x ∧ x ≠ []) : a.foldl join [] = Text.join ['/'] a := by
  induction a using List.reverseRecOn with
  | nil => rfl
  | append_singleton b x ih =>
    have hb := fun y hy => ha y (List.mem_append_left [x] hy)
    have hx := ha x (by simp)
    rw [List.foldl_append, List.foldl_cons, List.foldl_nil, ih hb]
    rcases eq_or_ne b [] with rfl | hn
    · simp [join, Text.join, isAbsolute_of_not_mem hx.1]
    · obtain ⟨h₁, h₂⟩ := foldl_join_ne_nil hb hn []
      rw [ih hb] at h₁ h₂
      rw [join_eq_of_relative (isAbsolute_of_not_mem hx.1), Text.join_concat _ _ hn, if_neg]
      · simp
      · simp [h₁, h₂]

theorem names_joined (ha : ∀ x ∈ a, '/' ∉ x ∧ x ≠ []) : names (Text.join ['/'] a) = a := by
  rw [← foldl_join_nil ha, names_foldl_join ha, names_nil, List.nil_append]

theorem joined_ne_nil (ha : ∀ x ∈ a, '/' ∉ x ∧ x ≠ []) (hn : a ≠ []) :
    Text.join ['/'] a ≠ [] ∧ (Text.join ['/'] a).getLast? ≠ some '/' := by
  rw [← foldl_join_nil ha]
  exact foldl_join_ne_nil ha hn []

theorem head?_joined (ha : ∀ x ∈ a, '/' ∉ x ∧ x ≠ []) : (Text.join ['/'] a).head? ≠ some '/' := by
  rcases a with _ | ⟨x, a⟩
  · simp [Text.join]
  · obtain ⟨hs, hx⟩ := ha x List.mem_cons_self
    obtain ⟨c, x, rfl⟩ := List.exists_cons_of_ne_nil hx
    have hc : c ≠ '/' := fun e => hs (e ▸ List.mem_cons_self)
    cases a <;> simpa [Text.join] using hc

theorem isAbsolute_joined (ha : ∀ x ∈ a, '/' ∉ x ∧ x ≠ []) :
    isAbsolute (Text.join ['/'] a) = false := by
  simpa [isAbsolute] using head?_joined ha

/-! ## Normal forms -/

/-- Names that are not two dots are put on one by one, less the single dots. -/
theorem foldl_climb {absolute : Bool} (ha : ∀ x ∈ a, x ≠ []) (hd : ['.', '.'] ∉ a)
    (done : List Text) : a.foldl (climb absolute) done = (a.filter (IsPlain ·)).reverse ++ done := by
  induction a generalizing done with
  | nil => rfl
  | cons x a ih =>
    rw [List.mem_cons, not_or] at hd
    rw [List.foldl_cons, ih (fun y hy => ha y (List.mem_cons_of_mem x hy)) hd.2]
    by_cases hx : x = ['.']
    · simp [climb, hx, IsPlain]
    · have hp : IsPlain x := ⟨ha x List.mem_cons_self, hx, Ne.symm hd.1⟩
      simp [climb, hx, Ne.symm hd.1, hp]

theorem filter_isPlain (hp : ∀ x ∈ a, IsPlain x) : a.filter (IsPlain ·) = a := by
  simpa [List.filter_eq_self] using hp

theorem not_dots_of_isPlain (hp : ∀ x ∈ a, IsPlain x) : ['.', '.'] ∉ a := fun h => (hp _ h).2.2 rfl

/-- Names joined by slashes are a path in normal form. -/
theorem normalize_joined (ha : ∀ x ∈ a, '/' ∉ x ∧ x ≠ []) (hp : ∀ x ∈ a, IsPlain x) (hn : a ≠ []) :
    normalize (Text.join ['/'] a) = Text.join ['/'] a := by
  have hh := head?_joined ha
  have hl : leadingSlashes (Text.join ['/'] a) = 0 := by
    unfold leadingSlashes
    split <;> simp_all
  unfold normalize
  rw [hl, isAbsolute_joined ha, names_joined ha,
    foldl_climb (fun x hx => (ha x hx).2) (not_dots_of_isPlain hp), filter_isPlain hp]
  simp [(joined_ne_nil ha hn).1]

theorem leadingSlashes_append (hp : leadingSlashes p = 1) (h : p ≠ ['/'] ∨ q.head? ≠ some '/') :
    leadingSlashes (p ++ q) = 1 := by
  unfold leadingSlashes at hp
  split at hp
  · rfl
  · simp at hp
  · rename_i t h₁ h₂
    rcases t with _ | ⟨c, t⟩
    · have hq : q.head? ≠ some '/' := h.resolve_left fun hne => hne rfl
      rcases q with _ | ⟨c, q⟩
      · rfl
      · have hc : c ≠ '/' := by simpa using hq
        unfold leadingSlashes
        split <;> simp_all
    · have hc : c ≠ '/' := fun e => h₂ t (by rw [e])
      unfold leadingSlashes
      split <;> simp_all
  · simp at hp

theorem leadingSlashes_join (hp : leadingSlashes p = 1) (hs : '/' ∉ x) :
    leadingSlashes (p.join x) = 1 := by
  have hh : x.head? ≠ some '/' := fun e => hs (List.mem_of_head? e)
  rw [join_eq_of_relative (isAbsolute_of_not_mem hs)]
  split_ifs with h
  · exact leadingSlashes_append hp (.inr hh)
  · refine leadingSlashes_append hp (.inl ?_)
    rintro rfl
    simp at h

theorem leadingSlashes_foldl_join (ha : ∀ x ∈ a, '/' ∉ x ∧ x ≠ []) (hp : leadingSlashes p = 1) :
    leadingSlashes (a.foldl join p) = 1 := by
  induction a generalizing p with
  | nil => exact hp
  | cons x a ih =>
    have hx := ha x List.mem_cons_self
    exact ih (fun y hy => ha y (List.mem_cons_of_mem x hy)) (leadingSlashes_join hp hx.1)

theorem isAbsolute_of_leadingSlashes (hp : leadingSlashes p ≠ 0) : p.isAbsolute = true := by
  rcases p with _ | ⟨c, p⟩
  · simp [leadingSlashes] at hp
  · unfold leadingSlashes at hp
    split at hp <;> simp_all [isAbsolute]

/-- The normal form of an absolute path begins with one slash or with two. -/
theorem leadingSlashes_eq_one_or_two (hp : p.isAbsolute = true) :
    leadingSlashes p = 1 ∨ leadingSlashes p = 2 := by
  rcases p with _ | ⟨c, p⟩
  · cases hp
  · obtain rfl : c = '/' := by simpa [isAbsolute] using hp
    unfold leadingSlashes
    split <;> simp_all

theorem absolute_of_isAbsolute (hp : p.isAbsolute = true) :
    absolute p = List.replicate (leadingSlashes p) '/' ++ Text.join ['/'] (normalNames p) := by
  have hl : leadingSlashes p ≠ 0 := by
    rcases leadingSlashes_eq_one_or_two hp with h | h <;> omega
  rw [absolute, join, if_pos hp, normalize, hp, normalNames]
  simp [hl]

/-- A path with one slash in front is made absolute by spelling out its names. -/
theorem absolute_eq (hp : leadingSlashes p = 1) : absolute p = Loc.path (normalNames p) := by
  rw [absolute_of_isAbsolute (isAbsolute_of_leadingSlashes (by omega)), hp]
  rfl

theorem spellable_normalNames (p : Path) : Disk.Spellable (normalNames p) := fun _ hx =>
  ⟨not_mem_of_mem_names (mem_normalNames hx).1, ne_nil_of_mem_names (mem_normalNames hx).1⟩

theorem normalNames_foldl_join (ha : ∀ x ∈ a, '/' ∉ x ∧ x ≠ []) (hd : ['.', '.'] ∉ a) :
    normalNames (a.foldl join p) = normalNames p ++ a.filter (IsPlain ·) := by
  rw [normalNames, names_foldl_join ha, List.foldl_append, foldl_climb (fun x hx => (ha x hx).2) hd,
    List.reverse_append, List.reverse_reverse]
  rfl

theorem commonPrefix_append (a b : List Text) : commonPrefix a (a ++ b) = a := by
  induction a with
  | nil => rfl
  | cons x a ih => rw [List.cons_append, commonPrefix, if_pos rfl, ih]

theorem commonPrefix_subset : ∀ a b : List Text, commonPrefix a b ⊆ a
  | [], _ => List.nil_subset _
  | x :: a, [] => List.nil_subset _
  | x :: a, y :: b => by
    rw [commonPrefix]
    split_ifs
    · exact List.cons_subset_cons x (commonPrefix_subset a b)
    · exact List.nil_subset _

/-- A path that goes down from another is within it. -/
theorem isWithin_foldl_join (ha : ∀ x ∈ a, '/' ∉ x ∧ x ≠ []) (hd : ['.', '.'] ∉ a)
    (hl : leadingSlashes p = 1) : isWithin p (a.foldl join p) = true := by
  have hna : Disk.Spellable (normalNames p ++ a.filter (IsPlain ·)) := by
    intro x hx
    rcases List.mem_append.1 hx with hx | hx
    · exact spellable_normalNames p x hx
    · exact ha x (List.mem_filter.1 hx).1
  rw [isWithin, absolute_eq hl, absolute_eq (leadingSlashes_foldl_join ha hl),
    normalNames_foldl_join ha hd, beq_iff_eq, common, (spellable_normalNames p).names_path,
    hna.names_path, commonPrefix_append]
  rfl

/-- Nothing is within a path that two slashes begin: a common path begins with one. -/
theorem isWithin_of_two_slashes (hl : leadingSlashes p = 2) (q : Path) : isWithin p q = false := by
  have hs : ∀ x ∈ commonPrefix (names (absolute p)) (names (absolute q)), '/' ∉ x ∧ x ≠ [] := by
    intro x hx
    have hx := commonPrefix_subset _ _ hx
    exact ⟨not_mem_of_mem_names hx, ne_nil_of_mem_names hx⟩
  have ha : absolute p = '/' :: '/' :: Text.join ['/'] (normalNames p) := by
    rw [absolute_of_isAbsolute (isAbsolute_of_leadingSlashes (by omega)), hl]
    rfl
  rw [isWithin, beq_eq_false_iff_ne]
  intro he
  -- what follows the first slash of a common path are names, joined
  have ht := (List.cons.inj (he.trans ha)).2
  refine head?_joined hs ?_
  rw [ht]
  rfl

end Path

namespace Entry

variable {p : Path} {a : List Text} {x : Text}

theorem parts_joined (ha : ∀ x ∈ a, '/' ∉ x ∧ x ≠ []) : parts (Text.join ['/'] a) = a :=
  Path.names_joined ha

theorem parts_joined_slash (ha : ∀ x ∈ a, '/' ∉ x ∧ x ≠ []) :
    parts (Text.join ['/'] a ++ ['/']) = a :=
  (Path.names_append_slashes _ (by simp)).trans (Path.names_joined ha)

/-- A name and what stands one name further down. -/
theorem joinParts_joined (ha : ∀ x ∈ a, '/' ∉ x ∧ x ≠ []) (hn : a ≠ []) (hs : '/' ∉ x)
    (hx : x ≠ []) :
    joinParts [Text.join ['/'] a, x] = Text.join ['/'] (a ++ [x]) := by
  obtain ⟨h₁, h₂⟩ := Path.joined_ne_nil ha hn
  have ht := Text.trim_eq_self (Path.head?_joined ha) h₂
  have hx' : Text.trim (· == '/') x = x := Text.trim_eq_self (fun e => hs (List.mem_of_head? e))
    fun e => hs (List.mem_of_getLast? e)
  rw [Text.join_concat _ _ hn]
  simp [joinParts, h₁, hx, ht, hx', Text.join]

/-- The name leads out of a destination or nowhere. -/
def Stray (name : Text) : Prop :=
  name.head? = some '/' ∨ ['.', '.'] ∈ parts name ∨ parts name = []

instance (name : Text) : Decidable (Stray name) := inferInstanceAs (Decidable (_ ∨ _ ∨ _))

/-- Below an absolute destination an entry is left out exactly if its name strays or two slashes
begin the destination. -/
theorem target?_eq (hp : p.isAbsolute = true) (name : Text) : Unpacking.target? p name =
    if Stray name ∨ Path.leadingSlashes p = 2 then none else some ((parts name).foldl Path.join p) := by
  have ha : ∀ x ∈ parts name, '/' ∉ x ∧ x ≠ [] := fun x hx =>
    ⟨Path.not_mem_of_mem_names hx, Path.ne_nil_of_mem_names hx⟩
  unfold Unpacking.target? Path.below?
  by_cases hs : Stray name
  · rw [if_pos (Or.inl hs)]
    rcases hs with h | h | h
    · simp [Path.isAbsolute, h]
    · simp [h]
    · simp [h]
  have hn : name.head? ≠ some '/' ∧ ['.', '.'] ∉ parts name ∧ parts name ≠ [] := by
    simpa only [Stray, not_or] using hs
  have habs : Path.isAbsolute name = false := by simpa [Path.isAbsolute] using hn.1
  have hsafe : ((parts name).isEmpty || (parts name).contains ['.', '.']) = false := by simp [hn]
  simp only [habs, hsafe, Bool.false_eq_true, if_false, hs, false_or]
  rcases Path.leadingSlashes_eq_one_or_two hp with hl | hl
  · rw [Path.isWithin_foldl_join ha hn.2.1 hl, if_pos rfl, if_neg (by omega)]
  · rw [Path.isWithin_of_two_slashes hl, if_neg Bool.false_ne_true, if_pos hl]

/-- An entry that is named for a place below the destination goes there. -/
theorem target?_joined (hp : ∀ x ∈ a, IsPlain x) (hn : a ≠ [])
    (hl : Path.leadingSlashes p = 1) {name : Text} (habs : name.head? ≠ some '/')
    (hname : parts name = a) : Unpacking.target? p name = some (a.foldl Path.join p) := by
  have hs : ¬ (Stray name ∨ Path.leadingSlashes p = 2) := by
    rintro ((h | h | h) | h)
    · exact habs h
    · exact Path.not_dots_of_isPlain hp (hname ▸ h)
    · exact hn (hname ▸ h)
    · omega
  rw [target?_eq (Path.isAbsolute_of_leadingSlashes (by omega)), if_neg hs, hname]

end Entry

end FileShell
