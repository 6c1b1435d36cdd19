import FileShell.Proofs.Archive.EntryNames
import FileShell.Proofs.Storage.Effects

/-!
# Entries in turn

Unpacking gives each entry its turn, in the order of the archive: a warning if there is no target
for it, and an attempt otherwise (`run_unpackAll`). The turns leave a trace of writes: where an
entry was opened for writing, and the bytes that were put there. A file holds what the last write
to its place put there, and what it held before if there was none (`get?_turns`).
-/

namespace FileShell

open Disk (MoreDirectories)

namespace Disk

variable {d : Disk} {k l : Loc} {b : Bytes}

/-- Writing over a file changes the bytes of that file alone. -/
theorem get?_write_of_file (h : d.get? k = some (.file b)) (c : Bytes) (hl : l ≠ []) :
    (d.write l c).get? k = some (.file (if k = l then c else b)) := by
  rw [get?_write c hl]
  by_cases hk : k = l
  · subst hk
    simp [h]
  · simp [hk, h]

end Disk

/-- Writes in order: the place, and the bytes that are put there. -/
abbrev Writes := List (Loc × Bytes)

namespace Writes

variable {l : Loc} {c b : Bytes} {x y : Writes}

/-- What the last write to a place puts there. -/
def lastAt (l : Loc) (x : Writes) : Option Bytes := ((x.filter (·.1 = l)).getLast?).map (·.2)

theorem lastAt_singleton (l m : Loc) (c : Bytes) :
    lastAt l [(m, c)] = if m = l then some c else none := by
  by_cases h : m = l <;> simp [lastAt, h]

theorem lastAt_append (l : Loc) (x y : Writes) :
    lastAt l (x ++ y) = (lastAt l y).or (lastAt l x) := by
  unfold lastAt
  rw [List.filter_append, List.getLast?_append]
  cases (y.filter (·.1 = l)).getLast? <;> cases (x.filter (·.1 = l)).getLast? <;> rfl

theorem getD_lastAt_append (l : Loc) (x y : Writes) (b : Bytes) :
    (lastAt l (x ++ y)).getD b = (lastAt l y).getD ((lastAt l x).getD b) := by
  rw [lastAt_append]
  cases lastAt l y <;> rfl

/-- A file is left as it was exactly if it held what is put there last. -/
theorem getD_lastAt_eq_iff : (lastAt l x).getD b = b ↔ ∀ c, lastAt l x = some c → c = b := by
  rcases lastAt l x with _ | c <;> simp

end Writes

namespace Unpacking

variable (s : Storage) (r : Reader) (target : Text → Option Path)

/-- An entry in its turn: a warning if there is no target for it, an attempt otherwise. -/
def turn (e : Entry) : StateM World Unit :=
  match target e.name with
  | none => showLine ("Warning: Skipping unsafe entry ".toList ++ e.name)
  | some p => (unpackEntry s r e p).orShow ("Error: Cannot extract ".toList ++ e.name)

/-- Unpacking is the turns of the entries. -/
theorem run_unpackAll (destination : Path) : ∀ (es : List Entry) (w : World),
    (unpackAll s r destination es w).2 = (es.forM (turn s r (target? destination)) w).2
  | [], _ => rfl
  | e :: es, w => by
    have ih := run_unpackAll destination es
    show _ = (es.forM (turn s r (target? destination)) (turn s r (target? destination) e w).2).2
    unfold unpackAll turn
    rcases target? destination e.name with _ | p
    · exact ih _
    · simp only [run_bind, run_orShow]
      rcases (unpackEntry s r e p).run w with ⟨_ | _, w'⟩
      · exact ih _
      · exact ih w'

/-! ## The trace of writes -/

/-- Where an entry is opened for writing on its way to a path, and what is put there. -/
def written? (e : Entry) (p : Path) (w : World) : Option (Loc × Bytes) :=
  if e.isDir then none
  else match (s.makeDirs (Path.parent p) true).run w, r.contents s e.name with
    | (.ok (), w'), .ok c =>
      if s.refuses .writeStream p then none
      else match w'.disk.locateWrite p with
        | .ok l => some (l, (c.stream.drain s.chunk).1)
        | .error _ => none
    | _, _ => none

/-- The writes of the turns. -/
def writes : List Entry → World → Writes
  | [], _ => []
  | e :: es, w =>
    ((target e.name).bind fun p => written? s r e p w).toList ++
      writes es (turn s r target e w).2

variable {w : World} {l : Loc} {b : Bytes}

theorem moreDirectories_makeDirs (w : World) (p : Path) :
    MoreDirectories w.disk ((s.makeDirs p true).run w).2.disk := by
  rw [Storage.run_makeDirs]
  split_ifs
  · exact .refl w.disk
  · exact Storage.making_disk (P := MoreDirectories w.disk) (.refl w.disk)
      (Disk.moreDirectories_of_makes (Disk.makes_makeDirs true w.disk p))

theorem get?_makeDirs (h : w.disk.get? l = some (.file b)) (p : Path) :
    ((s.makeDirs p true).run w).2.disk.get? l = some (.file b) :=
  (moreDirectories_makeDirs s w p).get? h

/-- An entry that is unpacked writes where it is opened and nowhere else. -/
theorem get?_unpackEntry (e : Entry) (p : Path) (h : w.disk.get? l = some (.file b)) :
    ((unpackEntry s r e p).run w).2.disk.get? l =
      some (.file ((Writes.lastAt l (written? s r e p w).toList).getD b)) := by
  unfold unpackEntry written?
  by_cases hdir : e.isDir = true
  · rw [if_pos hdir, if_pos hdir, Act.run_failingWith]
    exact get?_makeDirs s h p
  rw [if_neg hdir, if_neg hdir]
  have hm := get?_makeDirs s h (Path.parent p)
  rw [Act.run_bind, Act.run_failingWith]
  generalize (s.makeDirs (Path.parent p) true).run w = m at hm ⊢
  obtain ⟨_ | ⟨⟩, w'⟩ := m
  · exact hm
  rcases r.contents s e.name with _ | c
  · exact hm
  simp only [Act.mapError_ok, Act.run_failingWith, Storage.run_writeStream]
  by_cases hrefused : s.refuses .writeStream p = true
  · rw [if_pos hrefused, if_pos hrefused]
    exact hm
  rw [if_neg hrefused, if_neg hrefused]
  rcases hl : w'.disk.locateWrite p with _ | k
  · exact hm
  -- the file is emptied and then filled, both at the one place
  · have hk := Disk.ne_nil_of_locateWrite hl
    dsimp only
    rw [Disk.get?_write_of_file (Disk.get?_write_of_file hm _ hk) _ hk, Option.toList_some,
      Writes.lastAt_singleton]
    by_cases hkl : l = k
    · simp [hkl]
    · simp [hkl, Ne.symm hkl]

theorem get?_turn (e : Entry) (h : w.disk.get? l = some (.file b)) :
    (turn s r target e w).2.disk.get? l = some (.file ((Writes.lastAt l
      ((target e.name).bind fun p => written? s r e p w).toList).getD b)) := by
  unfold turn
  rcases target e.name with _ | p
  · exact h
  · have he := get?_unpackEntry s r e p h
    dsimp only
    rw [run_orShow]
    generalize (unpackEntry s r e p).run w = m at he ⊢
    obtain ⟨_ | ⟨⟩, w'⟩ := m <;> exact he

/-- After the turns a file holds what was written to it last, or what it held before. -/
theorem get?_turns : ∀ (es : List Entry) {w : World} {b : Bytes},
    w.disk.get? l = some (.file b) → (es.forM (turn s r target) w).2.disk.get? l =
      some (.file ((Writes.lastAt l (writes s r target es w)).getD b))
  | [], _, _, h => h
  | e :: es, w, b, h => by
    show (es.forM (turn s r target) (turn s r target e w).2).2.disk.get? l = _
    rw [get?_turns es (get?_turn s r target e h), writes, Writes.getD_lastAt_append]

end Unpacking

end FileShell
