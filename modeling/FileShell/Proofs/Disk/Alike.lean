import FileShell.Proofs.Disk.Kinds
import FileShell.Proofs.Disk.Nesting
import FileShell.Proofs.Storage.Runs

/-!
# Disks with other bytes

Two disks are alike if they differ in nothing but the bytes of files. Then paths lead to the same
places, the same names are listed, and the same paths are told to be one (`Alike.isSame_eq`): of a
file only its bytes are read, and by none of these questions. A disk that was written to is like
itself with other bytes written (`alike_write`).
-/

namespace FileShell

namespace Disk

structure Alike (d d' : Disk) : Prop where
  keys : d.items.map (·.1) = d'.items.map (·.1)
  same : ∀ k, d.get? k = d'.get? k ∨
    ∃ b b', d.get? k = some (.file b) ∧ d'.get? k = some (.file b')

variable {d d' : Disk} {p q : Path} {l : Loc}

theorem alike_write (d : Disk) (hl : l ≠ []) (b b' : Bytes) :
    Alike (d.write l b) (d.write l b') where
  keys := by
    unfold write insert
    split <;> rfl
  same k := by
    rw [get?_write b hl, get?_write b' hl]
    split_ifs
    · exact .inr ⟨b, b', rfl, rfl⟩
    · exact .inl rfl

namespace Alike

theorem symm (h : Alike d d') : Alike d' d where
  keys := h.keys.symm
  same k := (h.same k).imp Eq.symm fun ⟨b, b', hb, hb'⟩ => ⟨b', b, hb', hb⟩

theorem isDirectory_eq (h : Alike d d') (k : Loc) : d.isDirectory k = d'.isDirectory k := by
  unfold isDirectory
  rcases h.same k with hk | ⟨b, b', hb, hb'⟩
  · rw [hk]
  · rw [hb, hb']
    rfl

theorem keeps (h : Alike d d') : Keeps d d' where
  directory {k} hk := h.isDirectory_eq k ▸ hk
  link {k t} := by
    rcases h.same k with hk | ⟨b, b', hb, hb'⟩
    · rw [hk]
    · simp [hb, hb']

theorem locate_iff (h : Alike d d') : d.locate true p = .ok l ↔ d'.locate true p = .ok l :=
  ⟨locate_of_keeps h.keeps, locate_of_keeps h.symm.keeps⟩

theorem isDir_eq (h : Alike d d') (p : Path) : d.isDir p = d'.isDir p := by
  rw [Bool.eq_iff_iff, isDir_iff, isDir_iff]
  simp only [h.locate_iff, h.isDirectory_eq]

theorem isFile_eq (h : Alike d d') (p : Path) : d.isFile p = d'.isFile p := by
  rw [Bool.eq_iff_iff, isFile_iff, isFile_iff]
  refine exists_congr fun l => ?_
  simp only [exists_and_left, h.locate_iff]
  refine and_congr_right fun _ => ?_
  rcases h.same l with hl | ⟨b, b', hb, hb'⟩
  · rw [hl]
  · simp [hb, hb']

theorem pathExists_eq (h : Alike d d') (p : Path) : d.pathExists p = d'.pathExists p := by
  have hiff (e : Disk) :
      e.pathExists p = true ↔ ∃ l, e.locate true p = .ok l ∧ (e.get? l).isSome := by
    unfold pathExists find?
    rcases e.locate true p with x | l <;> simp
  rw [Bool.eq_iff_iff, hiff, hiff]
  refine exists_congr fun l => and_congr h.locate_iff ?_
  rcases h.same l with hl | ⟨b, b', hb, hb'⟩
  · rw [hl]
  · simp [hb, hb']

theorem childNames_eq (h : Alike d d') (k : Loc) : d.childNames k = d'.childNames k := by
  have hmap (e : Disk) : e.items.filterMap (fun x => childName? k x.1) =
      (e.items.map (·.1)).filterMap (childName? k) := by
    rw [List.filterMap_map]
    rfl
  unfold childNames
  rw [hmap, hmap, h.keys]

theorem namesIn_eq (h : Alike d d') (s : Storage) (p : Path) :
    s.namesIn d p = s.namesIn d' p := by
  have hlist (names : List Text) : d.list p = .ok names ↔ d'.list p = .ok names := by
    simp only [list_eq_ok_iff, ← isDirectory_iff, h.locate_iff, h.isDirectory_eq, h.childNames_eq]
  unfold Storage.namesIn
  split_ifs
  · rfl
  · rcases hd : d.list p with e | names
    · rcases hd' : d'.list p with e' | names'
      · rfl
      · rw [(hlist names').2 hd'] at hd
        cases hd
    · rw [(hlist names).1 hd]

theorem traceWith_eq (h : Alike d d') (strict : Bool)
    (onLink : Loc → Loc → Path → Except DiskError Trace) :
    ∀ (a : List Text) (here : Loc),
      d.traceWith strict onLink here a = d'.traceWith strict onLink here a
  | [], _ => rfl
  | s :: rest, here => by
    have ih := h.traceWith_eq strict onLink rest
    unfold traceWith
    rcases h.same (here ++ [s]) with hk | ⟨b, b', hb, hb'⟩
    · simp only [hk, ih]
    · simp only [hb, hb', ih]

theorem trace_eq (h : Alike d d') (strict : Bool) : ∀ (n : Nat) (active : List Loc) (here : Loc)
    (a : List Text), d.trace strict n active here a = d'.trace strict n active here a
  | 0, _, here, a => h.traceWith_eq strict _ a here
  | n + 1, active, here, a => by
    unfold trace
    simp only [h.trace_eq strict n, h.traceWith_eq]

theorem realPath_eq (h : Alike d d') (n : Nat) (strict : Bool) (p : Path) :
    d.realPath n strict p = d'.realPath n strict p := by
  simp only [realPath, h.trace_eq]

theorem samePath_eq (h : Alike d d') (n : Nat) (p q : Path) :
    d.samePath n p q = d'.samePath n p q := by
  simp only [samePath, h.realPath_eq]

theorem isSame_eq (h : Alike d d') (p q : Path) : d.isSame p q = d'.isSame p q := by
  have hlength : d.items.length = d'.items.length := by
    simpa using congrArg List.length h.keys
  simp only [isSame, h.samePath_eq, hlength]

/-- What is read elsewhere is the same. -/
theorem read_iff (h : Alike d d') (hp : ∀ l, d.locate true p = .ok l → d.get? l = d'.get? l)
    {b : Bytes} : d.read p = .ok b ↔ d'.read p = .ok b := by
  unfold read
  rcases hl : d.locate true p with e | l
  · rcases hl' : d'.locate true p with e' | l'
    · exact iff_of_false (by rintro ⟨⟩) (by rintro ⟨⟩)
    · rw [h.locate_iff.2 hl'] at hl
      cases hl
  · rw [h.locate_iff.1 hl]
    dsimp only [bind, Except.bind]
    unfold bytesAt
    rw [hp l hl]

end Alike

end Disk

end FileShell
