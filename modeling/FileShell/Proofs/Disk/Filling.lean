import FileShell.Proofs.Disk.Places
import Mathlib.Data.List.Induction

/-!
# Filling a place

`FilledBelow l d d'` says that the second disk is the first with directories and files put where
nothing was, and files rewritten, all of them strictly below `l`. It is what making directories
and writing files does through paths that go down from `l` (`makeDirs_filledBelow`,
`write_filledBelow`), and it adds up (`FilledBelow.trans`). The directories and the links stay
as they are, so what leads somewhere before leads there afterwards (`FilledBelow.keeps`).
-/

namespace FileShell

/-- What may become of what stands at a location: it stays, a directory or a file comes where
nothing was, or a file gets other bytes. -/
inductive Grows : Option Item → Option Item → Prop
  | stays (i : Option Item) : Grows i i
  | directory : Grows none (some .directory)
  | file (b : Bytes) : Grows none (some (.file b))
  | rewritten (b b' : Bytes) : Grows (some (.file b)) (some (.file b'))

theorem Grows.trans {i j k : Option Item} (h : Grows i j) (h' : Grows j k) : Grows i k := by
  cases h with
  | stays => exact h'
  | directory => cases h'; exact .directory
  | file b =>
    cases h' with
    | stays => exact .file b
    | rewritten _ b' => exact .file b'
  | rewritten b c =>
    cases h' with
    | stays => exact .rewritten b c
    | rewritten _ c' => exact .rewritten b c'

theorem Grows.of_directory {j : Option Item} (h : Grows (some .directory) j) :
    j = some .directory := by
  cases h
  rfl

theorem Grows.eq_none {i j : Option Item} (h : Grows i j) (hj : j = none) : i = none := by
  subst hj
  cases h
  rfl

theorem Grows.link_iff {i j : Option Item} {t : Path} (h : Grows i j) :
    j = some (.link t) ↔ i = some (.link t) := by
  cases h <;> simp

theorem Grows.device_iff {i j : Option Item} (h : Grows i j) :
    j = some .device ↔ i = some .device := by
  cases h <;> simp

namespace Disk

variable {d d' d'' : Disk} {p q : Path} {l k : Loc} {x : Text}

def FilledBelow (l : Loc) (d d' : Disk) : Prop :=
  ∀ k, d'.get? k = d.get? k ∨ (l <+: k ∧ k ≠ l ∧ Grows (d.get? k) (d'.get? k))

theorem FilledBelow.refl (l : Loc) (d : Disk) : FilledBelow l d d := fun _ => .inl rfl

theorem FilledBelow.grows (h : FilledBelow l d d') (k : Loc) : Grows (d.get? k) (d'.get? k) := by
  rcases h k with h | ⟨-, -, h⟩
  · rw [h]; exact .stays _
  · exact h

theorem FilledBelow.trans (h : FilledBelow l d d') (h' : FilledBelow l d' d'') :
    FilledBelow l d d'' := by
  intro k
  rcases h k with h₁ | ⟨hp, hn, -⟩
  · rw [← h₁]
    exact h' k
  · exact .inr ⟨hp, hn, (h.grows k).trans (h'.grows k)⟩

theorem keeps_of_grows (h : ∀ k, Grows (d.get? k) (d'.get? k)) : Keeps d d' where
  directory {k} hk := by
    have hg := h k
    rw [isDirectory_iff.1 hk] at hg
    exact isDirectory_iff.2 hg.of_directory
  link {k t} := (h k).link_iff

theorem FilledBelow.keeps (h : FilledBelow l d d') : Keeps d d' := keeps_of_grows h.grows

/-! ## Single changes -/

theorem get?_append_insert (i : Item) :
    (d.insert (l ++ [x]) i).get? k = if k = l ++ [x] then some i else d.get? k :=
  get?_insert d _ _ i (by simp)

theorem insert_filledBelow {m : Loc} {i : Item} (hm : l <+: m)
    (hg : Grows (d.get? (m ++ [x])) (some i)) : FilledBelow l d (d.insert (m ++ [x]) i) := by
  intro k
  rw [get?_append_insert]
  split
  · rename_i hk
    refine .inr ⟨hk ▸ hm.trans (List.prefix_append _ _), ?_, hk ▸ hg⟩
    rintro rfl
    exact absurd (hk ▸ hm).length_le (by simp)
  · exact .inl rfl

/-- A directory is made where nothing stands, in a directory. -/
theorem makeDir_eq_ok_iff : d.makeDir p = .ok d' ↔ ∃ m x, d.locateLast p = .ok (m, x) ∧
    isDots x = false ∧ d.get? (m ++ [x]) = none ∧ d' = d.insert (m ++ [x]) .directory := by
  unfold makeDir
  rcases d.locateLast p with e | ⟨m, x⟩
  · simp [bind, Except.bind]
  · simp only [bind, Except.bind, Except.ok.injEq, Prod.mk.injEq]
    constructor
    · intro h
      split_ifs at h with hx
      rw [Bool.or_eq_true, not_or] at hx
      refine ⟨m, x, ⟨rfl, rfl⟩, by simpa using hx.1, by simpa using hx.2, ?_⟩
      simpa [pure, Except.pure, eq_comm] using h
    · rintro ⟨_, _, ⟨rfl, rfl⟩, hx, hn, rfl⟩
      simp [hx, hn, pure, Except.pure]

theorem isPlain_of_isDots (h : isDots x = false) (hx : x ≠ []) : IsPlain x := by
  simp only [isDots, Bool.or_eq_false_iff, beq_eq_false_iff_ne] at h
  exact ⟨hx, h.1, h.2⟩

/-- A disk with a place from which paths go down: a directory that `p` leads to, with no link at
it or below it. -/
structure Root (d : Disk) (p : Path) (l : Loc) : Prop where
  located : d.locate true p = .ok l
  directory : d.isDirectory l = true
  linkFree : LinkFree d l

/-- Names that go down from a place. -/
def GoDown (a : List Text) : Prop := ∀ x ∈ a, ('/' ∉ x ∧ x ≠ []) ∧ x ≠ ['.', '.']

theorem GoDown.init {a : List Text} (h : GoDown (a ++ [x])) : GoDown a :=
  fun y hy => h y (List.mem_append_left _ hy)

theorem Root.of_keeps (h : Root d p l) (hk : Keeps d d') : Root d' p l where
  located := by
    obtain ⟨hp, -⟩ := locate_eq_ok_iff.1 h.located
    exact ((at_of_locate h.located).of_keeps hk).locate hp (.inl (hk.directory h.directory))
  directory := hk.directory h.directory
  linkFree := h.linkFree.of_keeps hk

theorem Root.ne_nil (h : Root d p l) : p ≠ [] :=
  (checkPath_eq_ok_iff.1 (locate_eq_ok_iff.1 h.located).1).1

theorem Root.eq_append (h : Root d p l) {a : List Text} (ha : GoDown a)
    (hk : d.locate true (a.foldl Path.join p) = .ok k) : k = l ++ a.filter (IsPlain ·) :=
  (at_of_locate h.located).eq_append h.linkFree (fun hd => (ha _ hd).2 rfl)
    (Path.names_foldl_join (fun x hx => (ha x hx).1) p) (at_of_locate hk)

/-- The parent of a path just below a directory names the directory. -/
theorem isDir_parent_join (hl : d.locate true p = .ok l) (hd : d.isDirectory l = true)
    (hs : '/' ∉ x) : d.isDir (Path.parent (p.join x)) = true := by
  obtain ⟨hp, -⟩ := locate_eq_ok_iff.1 hl
  obtain ⟨hsub, hn⟩ := Path.parent_join_sublist (checkPath_eq_ok_iff.1 hp).1 hs
  exact ((at_of_locate hl).of_names (Path.names_parent_join p hs)).isDir
    (checkPath_of_sublist hp hsub hn) hd

theorem makeDir_filledBelow (h : Root d p l) {a : List Text} (ha : GoDown (a ++ [x]))
    (hd : d.makeDir ((a ++ [x]).foldl Path.join p) = .ok d') : FilledBelow l d d' := by
  obtain ⟨m, y, hl, hy, hn, rfl⟩ := makeDir_eq_ok_iff.1 hd
  obtain ⟨-, -, -, b, hb, hm⟩ := locateLast_eq_ok_iff.1 hl
  rw [Path.names_foldl_join (fun x hx => (ha x hx).1), ← List.append_assoc] at hb
  obtain ⟨rfl, hyx⟩ := List.append_inj' hb rfl
  have hm : d.At (a.foldl Path.join p) m := by
    unfold At
    rwa [Path.names_foldl_join (fun x hx => (ha.init x hx).1)]
  refine insert_filledBelow ?_ (hn ▸ .directory)
  rw [(at_of_locate h.located).eq_append h.linkFree (fun hd => (ha.init _ hd).2 rfl)
    (Path.names_foldl_join (fun x hx => (ha.init x hx).1) p) hm]
  exact List.prefix_append _ _

theorem makeLastDir_filledBelow (h : Root d p l) (existOk : Bool) {a : List Text}
    (ha : GoDown (a ++ [x])) :
    FilledBelow l d (d.makeLastDir existOk ((a ++ [x]).foldl Path.join p)).2 := by
  unfold makeLastDir
  split
  · exact makeDir_filledBelow h ha ‹_›
  · split_ifs <;> exact .refl l d

/-- Directories made through a path that goes down from a place stand below it. -/
theorem makeDirs_filledBelow (existOk : Bool) {a : List Text} : ∀ {x : Text} {d : Disk},
    Root d p l → GoDown (a ++ [x]) →
      FilledBelow l d (d.makeDirs existOk ((a ++ [x]).foldl Path.join p)).2 := by
  induction a using List.reverseRecOn with
  | nil =>
    intro x d h ha
    have hx := ha x (by simp)
    rw [makeDirs]
    simp only [List.nil_append, List.foldl_cons, List.foldl_nil,
      Path.splitLast_join p hx.1.1 hx.1.2,
      pathExists_of_isDir (isDir_parent_join h.located h.directory hx.1.1), Bool.true_eq_false,
      and_false, dite_false]
    exact makeLastDir_filledBelow (a := []) h existOk ha
  | append_singleton a y ih =>
    intro x d h ha
    have hx := ha x (by simp)
    obtain ⟨hn, hl⟩ := Path.foldl_join_ne_nil (a := a ++ [y]) (fun z hz => (ha.init z hz).1)
      (by simp) p
    have ih := ih h ha.init
    have hj : (a ++ [y] ++ [x]).foldl Path.join p = ((a ++ [y]).foldl Path.join p).join x := by simp
    have last {d' : Disk} (hf : FilledBelow l d d') :
        FilledBelow l d (d'.makeLastDir existOk (((a ++ [y]).foldl Path.join p).join x)).2 :=
      hf.trans (hj ▸ makeLastDir_filledBelow (h.of_keeps hf.keeps) existOk ha)
    rw [makeDirs]
    simp only [hj, Path.splitLast_join _ hx.1.1 hx.1.2, Path.parent_join hn hl hx.1.1]
    split
    · generalize d.makeDirs existOk ((a ++ [y]).foldl Path.join p) = r at ih
      split
      · split
        · exact ih
        · exact last ih
      · split
        · exact ih
        · exact last ih
      · exact ih
    · exact last (.refl l d)

/-! ## Directories that are there -/

theorem makeDir_of_isDir (h : d.isDir p = true) : ∃ e, d.makeDir p = .error e := by
  rcases hm : d.makeDir p with e | d'
  · exact ⟨e, rfl⟩
  · exfalso
    obtain ⟨m, x, hl, hx, hn, -⟩ := makeDir_eq_ok_iff.1 hm
    obtain ⟨-, hd, hb, a, hp, c, -, ha⟩ := locateLast_eq_ok_iff.1 hl
    obtain ⟨k, hk, hkd⟩ := isDir_iff.1 h
    obtain ⟨c', -, hk⟩ := at_of_locate hk
    rw [hp] at hk
    obtain ⟨c₁, c₂, m', -, h₁, h₂⟩ := leads_append.1 hk
    obtain rfl := (ha.unique h₁).2
    have hxn : x ≠ [] := Path.ne_nil_of_mem_names (p := p) (by simp [hp])
    have h₂' := h₂.unique (.name hd (isPlain_of_isDots hx hxn) hb (by simp [hn]) .done)
    rw [h₂'.2, isDirectory_iff, hn] at hkd
    simp at hkd

theorem makeLastDir_of_isDir (h : d.isDir p = true) : d.makeLastDir true p = (.ok (), d) := by
  obtain ⟨e, he⟩ := makeDir_of_isDir h
  simp [makeLastDir, he, h]

theorem isDir_above (h : d.isDir p = true) (hx : (Path.splitLast p).2 ≠ [])
    (hn : (Path.splitLast p).1 ≠ []) : d.isDir (Path.splitLast p).1 = true := by
  obtain ⟨k, hk, -⟩ := isDir_iff.1 h
  obtain ⟨m, hm, hq⟩ := (at_of_locate hk).init (Path.names_splitLast hx)
  exact (hq _ rfl).isDir (checkPath_of_sublist (locate_eq_ok_iff.1 hk).1
    (Path.splitLast_sublist p) hn) hm

theorem missingAbove_of_exists (h : d.pathExists p.splitLast.1 = true) : d.missingAbove p = 0 := by
  rw [missingAbove, dif_neg (by simp [h])]

/-- Above what is a directory nothing is missing. -/
theorem missingAbove_of_isDir (h : d.isDir p = true) : d.missingAbove p = 0 := by
  rw [missingAbove, dif_neg]
  rintro ⟨h2, h1, he⟩
  rw [pathExists_of_isDir (isDir_above h h2 h1)] at he
  cases he

theorem missingAbove_le_length_names (d : Disk) (p : Path) :
    d.missingAbove p ≤ p.names.length := by
  by_cases hx : p.splitLast.2 = []
  · rw [missingAbove, dif_neg (by simp [hx])]
    exact Nat.zero_le _
  rw [missingAbove, Path.names_splitLast hx, List.length_append]
  split
  · exact Nat.succ_le_succ (missingAbove_le_length_names d p.splitLast.1)
  · exact Nat.zero_le _
  termination_by p.length
  decreasing_by exact Path.length_splitLast_lt hx

/-- Nothing is made where there is a directory. -/
theorem makeDirs_of_isDir (h : d.isDir p = true) : d.makeDirs true p = (.ok (), d) := by
  rw [makeDirs]
  split
  · rename_i ha
    rw [pathExists_of_isDir (isDir_above h ha.1 ha.2.1)] at ha
    simp at ha
  · exact makeLastDir_of_isDir h

/-! ## Writing -/

theorem locateWrite_eq_ok_iff : d.locateWrite p = .ok k ↔
    p.getLast? ≠ some '/' ∧ d.locate true p = .ok k ∧ d.isDirectory k = false := by
  unfold locateWrite endsInSlash
  by_cases hp : p.getLast? = some '/'
  · simp [hp, bind, Except.bind]
  · simp only [beq_iff_eq, hp, if_false, ne_eq, not_false_eq_true, true_and]
    rcases d.locate true p with e | m
    · simp [bind, Except.bind]
    · simp only [bind, Except.bind, pure, Except.pure, Except.ok.injEq]
      split_ifs with hm
      · simp only [false_iff, not_and]
        rintro rfl
        simp [hm]
      · simp only [Except.ok.injEq]
        constructor
        · rintro rfl
          exact ⟨rfl, by simpa using hm⟩
        · exact fun h => h.1

theorem get?_write (b : Bytes) (hk : k ≠ []) (m : Loc) : (d.write k b).get? m =
    if m = k ∧ d.get? k ≠ some .device then some (.file b) else d.get? m := by
  unfold write
  split
  · rename_i h
    simp [h]
  · rename_i h
    rw [get?_insert _ _ _ _ hk]
    have : d.get? k ≠ some .device := fun e => h e
    simp [this]

/-- Where there is no directory, writing makes none and takes none away. -/
theorem isDirectory_write (b : Bytes) (hk : k ≠ []) (hd : d.isDirectory k = false) (m : Loc) :
    (d.write k b).isDirectory m = d.isDirectory m := by
  unfold isDirectory at hd ⊢
  rw [get?_write b hk]
  split_ifs with h
  · rw [h.1, hd]
    rfl
  · rfl

theorem write_filledBelow {b : Bytes} (hk : l <+: k) (hn : k ≠ l)
    (hg : d.get? k = none ∨ (∃ c, d.get? k = some (.file c)) ∨ d.get? k = some .device) :
    FilledBelow l d (d.write k b) := by
  have hk' : k ≠ [] := fun e => hn (by simp_all)
  intro m
  rw [get?_write b hk']
  split
  · rename_i h
    obtain ⟨rfl, hd⟩ := h
    refine .inr ⟨hk, hn, ?_⟩
    rcases hg with h | ⟨c, h⟩ | h
    · exact h ▸ .file b
    · exact h ▸ .rewritten c b
    · exact absurd h hd
  · exact .inl rfl

/-- A path that goes down from a place and can be written to leads strictly below it, to a file,
to a device, or where nothing is. -/
theorem Root.of_locateWrite (h : Root d p l) {a : List Text} (ha : GoDown a)
    (hk : d.locateWrite (a.foldl Path.join p) = .ok k) : l <+: k ∧ k ≠ l ∧
      (d.get? k = none ∨ (∃ c, d.get? k = some (.file c)) ∨ d.get? k = some .device) := by
  obtain ⟨-, hk, hd⟩ := locateWrite_eq_ok_iff.1 hk
  obtain rfl := h.eq_append ha hk
  refine ⟨List.prefix_append _ _, fun e => ?_, ?_⟩
  · rw [e, h.directory] at hd
    simp at hd
  · rcases hi : d.get? (l ++ a.filter (IsPlain ·)) with _ | i
    · exact .inl rfl
    · cases i with
      | directory => simp [isDirectory, hi] at hd
      | file b => exact .inr (.inl ⟨b, rfl⟩)
      | link t => exact absurd hi (h.linkFree _ t (List.prefix_append _ _))
      | device => exact .inr (.inr rfl)

end Disk

end FileShell
