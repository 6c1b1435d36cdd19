import FileShell.Proofs.Disk.Leads

/-!
# Places

`At d p l` says that the names of the path `p` lead to `l`, by no more links than a walk follows.
It leaves out what only the text of a path decides, so it passes to the parent, to a path joined
with a name, and to another spelling of the same names. A path that can be looked up is located
exactly where it is at, if it does not ask for a directory by a slash at its end
(`At.locate`, `at_of_locate`).
-/

namespace FileShell

namespace Disk

def At (d : Disk) (p : Path) (l : Loc) : Prop := ∃ c ≤ maxLinks, Leads d [] p.names c l

variable {d d' : Disk} {p q : Path} {l l' : Loc} {x : Text}

theorem At.unique (h : d.At p l) (h' : d.At p l') : l = l' := by
  obtain ⟨_, _, h⟩ := h
  obtain ⟨_, _, h'⟩ := h'
  exact (h.unique h').2

theorem At.of_keeps (hk : Keeps d d') (h : d.At p l) : d'.At p l := by
  obtain ⟨c, hc, h⟩ := h
  exact ⟨c, hc, h.of_keeps hk⟩

theorem At.of_names (h : d.At p l) (hq : q.names = p.names) : d.At q l := by
  unfold At at h ⊢
  rwa [hq]

theorem at_of_locate (h : d.locate true p = .ok l) : d.At p l := by
  obtain ⟨-, c, hc, h⟩ := locate_eq_ok_iff.1 h
  exact ⟨c, hc, leads_steps h⟩

theorem At.locate (h : d.At p l) (hp : checkPath p = .ok ())
    (hd : d.isDirectory l = true ∨ p.getLast? ≠ some '/') : d.locate true p = .ok l := by
  obtain ⟨c, hc, h⟩ := h
  exact locate_eq_ok_iff.2 ⟨hp, c, hc, h.steps hd⟩

theorem locate_of_keeps (hk : Keeps d d') (h : d.locate true p = .ok l) :
    d'.locate true p = .ok l := by
  obtain ⟨hp, c, hc, h⟩ := locate_eq_ok_iff.1 h
  exact locate_eq_ok_iff.2 ⟨hp, c, hc, h.of_keeps hk⟩

theorem isDirectory_iff : d.isDirectory l = true ↔ d.get? l = some .directory := by
  simp [isDirectory]

theorem isDir_iff : d.isDir p = true ↔
    ∃ l, d.locate true p = .ok l ∧ d.isDirectory l = true := by
  unfold isDir find? isDirectory
  rcases d.locate true p with e | l <;> simp

theorem isDir_of_keeps (h : Keeps d d') (hp : d.isDir p = true) : d'.isDir p = true := by
  obtain ⟨l, hl, hd⟩ := isDir_iff.1 hp
  exact isDir_iff.2 ⟨l, locate_of_keeps h hl, h.directory hd⟩

theorem isFile_iff : d.isFile p = true ↔
    ∃ l b, d.locate true p = .ok l ∧ d.get? l = some (.file b) := by
  unfold isFile find?
  rcases d.locate true p with e | l
  · simp
  · rcases h : d.get? l with _ | (_ | _ | _ | _) <;> simp [h]

theorem pathExists_of_locate (h : d.locate true p = .ok l) :
    d.pathExists p = (d.get? l).isSome := by
  simp [pathExists, find?, h]

theorem At.isDir (h : d.At p l) (hp : checkPath p = .ok ()) (hd : d.isDirectory l = true) :
    d.isDir p = true := isDir_iff.2 ⟨l, h.locate hp (.inl hd), hd⟩

theorem exists_locate_of_pathExists (h : d.pathExists p = true) :
    ∃ l, d.locate true p = .ok l := by
  unfold pathExists find? at h
  rcases hl : d.locate true p with e | l
  · rw [hl] at h
    cases h
  · exact ⟨l, rfl⟩

theorem pathExists_of_isDir (h : d.isDir p = true) : d.pathExists p = true := by
  obtain ⟨l, hl, hd⟩ := isDir_iff.1 h
  rw [pathExists_of_locate hl, isDirectory_iff.1 hd]
  rfl

theorem pathExists_of_isFile (h : d.isFile p = true) : d.pathExists p = true := by
  obtain ⟨l, b, hl, hf⟩ := isFile_iff.1 h
  rw [pathExists_of_locate hl, hf]
  rfl

/-- The names in front of the last lead to a directory. -/
theorem At.init (h : d.At p l) {a : List Text} (hp : p.names = a ++ [x]) :
    ∃ m, d.isDirectory m = true ∧ ∀ q : Path, q.names = a → d.At q m := by
  obtain ⟨c, hc, h⟩ := h
  rw [hp] at h
  obtain ⟨c₁, c₂, m, rfl, h₁, h₂⟩ := leads_append.1 h
  refine ⟨m, ?_, fun q hq => ⟨c₁, by omega, hq ▸ h₁⟩⟩
  cases h₂ <;> assumption

theorem At.append (h : d.At p l) {a : List Text} (ha : Leads d l a 0 l')
    (hq : q.names = p.names ++ a) :
    d.At q l' := by
  obtain ⟨c, hc, h⟩ := h
  exact ⟨c, hc, hq ▸ h.append ha⟩

/-- A name that leads nowhere else leads to the place of that name. -/
theorem At.join_name (h : d.At p l) (hd : d.isDirectory l = true) (hx : IsPlain x) (hs : '/' ∉ x)
    (hb : x.byteSize ≤ maxName) (hn : ∀ t, d.get? (l ++ [x]) ≠ some (.link t)) :
    d.At (p.join x) (l ++ [x]) :=
  h.append (.name hd hx hb hn .done) (Path.names_join_name p hs hx.1)

/-- Names without double dots lead straight down from a place without links. -/
theorem At.eq_append (h : d.At p l) (hf : LinkFree d l) {a : List Text} (ha : ['.', '.'] ∉ a)
    (hq : q.names = p.names ++ a) (h' : d.At q l') : l' = l ++ a.filter (IsPlain ·) := by
  obtain ⟨c, -, h⟩ := h
  obtain ⟨c', -, h'⟩ := h'
  rw [hq] at h'
  obtain ⟨c₁, c₂, m, -, h₁, h₂⟩ := leads_append.1 h'
  obtain rfl := (h.unique h₁).2
  exact (h₂.eq_append hf ha).2

/-- A walk with an empty step at its end asks for a directory. -/
theorem walk_into_eq_ok_iff {a : List Text} {n : Nat} :
    d.walk true n [] (a ++ [[]]) = .ok l ↔
      d.isDirectory l = true ∧ ∃ c ≤ n, Leads d [] a c l := by
  rw [walk_eq_ok_iff]
  constructor
  · rintro ⟨c, hc, h⟩
    obtain ⟨c₁, c₂, m, rfl, h₁, h₂⟩ := leads_append.1 h
    cases h₂ with
    | stay hd _ h₂ => cases h₂; exact ⟨hd, c₁, hc, h₁⟩
    | name _ hp _ _ _ => exact absurd rfl hp.1
    | link _ hp _ _ _ => exact absurd rfl hp.1
  · rintro ⟨hd, c, hc, h⟩
    exact ⟨c, hc, by simpa using h.append (.stay hd (.inl rfl) .done)⟩

theorem locateLast_eq {a : List Text} (hp : checkPath p = .ok ()) (hn : p.names = a ++ [x]) :
    d.locateLast p = match d.walk true maxLinks [] (a ++ [[]]) with
      | .error e => .error e
      | .ok l => if maxName < x.byteSize then .error .tooLong else .ok (l, x) := by
  simp only [locateLast, hp, hn, List.getLast?_concat, List.dropLast_concat, bind, Except.bind]
  rcases d.walk true maxLinks [] (a ++ [[]]) with e | l
  · rfl
  · simp only
    split <;> rfl

theorem locateLast_eq_ok_iff : d.locateLast p = .ok (l, x) ↔
    checkPath p = .ok () ∧ d.isDirectory l = true ∧ x.byteSize ≤ maxName ∧
      ∃ a, p.names = a ++ [x] ∧ ∃ c ≤ maxLinks, Leads d [] a c l := by
  constructor
  · intro h
    have hp : checkPath p = .ok () := by
      by_contra hp
      rcases hc : checkPath p with e | ⟨⟩
      · simp [locateLast, hc, bind, Except.bind] at h
      · exact hp hc
    rcases List.eq_nil_or_concat p.names with hn | ⟨a, y, hn⟩
    · simp [locateLast, hp, hn, bind, Except.bind] at h
    rw [List.concat_eq_append] at hn
    rw [locateLast_eq hp hn] at h
    split at h
    · simp at h
    · rename_i m hm
      split_ifs at h with hb
      obtain ⟨rfl, rfl⟩ : m = l ∧ y = x := by simpa using h
      obtain ⟨hd, hl⟩ := walk_into_eq_ok_iff.1 hm
      exact ⟨hp, hd, by omega, a, hn, hl⟩
  · rintro ⟨hp, hd, hb, a, hn, hl⟩
    rw [locateLast_eq hp hn, walk_into_eq_ok_iff.2 ⟨hd, hl⟩]
    exact if_neg (by omega)

/-! ## The text of a path -/

theorem checkPath_of_sublist (hp : checkPath p = .ok ()) (hq : q.Sublist p) (hn : q ≠ []) :
    checkPath q = .ok () := by
  obtain ⟨-, h2, h3⟩ := checkPath_eq_ok_iff.1 hp
  have hle := Text.byteSize_le_of_sublist hq
  exact checkPath_eq_ok_iff.2 ⟨hn, fun h => h2 (hq.mem h), hle.trans h3⟩

end Disk

end FileShell
