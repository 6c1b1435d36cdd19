import FileShell.Proofs.Disk.Filling
import FileShell.Proofs.Storage.Runs

/-!
# Unpacking stays below its destination

Whatever an archive holds, unpacking it changes nothing but what lies strictly below the place of
the destination, removes nothing and makes no link (`unpack_staysBelow`). The names of the
entries are hostile text. A name that is not left out has components that go down, so the paths
made from it lead below the destination, whatever earlier entries of the same archive have put
there.
-/

namespace FileShell

/-- Of one kind: files may differ in their bytes, and nothing else may differ. -/
def Item.SameKind : Item → Item → Prop
  | .file _, .file _ => True
  | i, j => i = j

/-- Whatever is new or has other bytes is strictly below the location; what was there is there with
its kind, and no link is new. -/
structure StaysBelow (l : Loc) (d d' : Disk) : Prop where
  below : ∀ k, d'.get? k ≠ d.get? k → l <+: k ∧ k ≠ l
  kept : ∀ k i, d.get? k = some i → ∃ j, d'.get? k = some j ∧ i.SameKind j
  noLink : ∀ k t, d'.get? k = some (.link t) → d.get? k = some (.link t)

theorem Item.SameKind.refl (i : Item) : i.SameKind i := by
  cases i <;> trivial

theorem Grows.sameKind {i : Item} {o : Option Item} (h : Grows (some i) o) :
    ∃ j, o = some j ∧ i.SameKind j := by
  cases h with
  | stays => exact ⟨i, rfl, .refl i⟩
  | rewritten b b' => exact ⟨.file b', rfl, trivial⟩

theorem Grows.sameKind_of_eq {i j : Item} {o o' : Option Item} (h : Grows o o') (hi : o = some i)
    (hj : o' = some j) : i.SameKind j := by
  subst hi
  obtain ⟨_, hj', hsame⟩ := h.sameKind
  exact Option.some.inj (hj'.symm.trans hj) ▸ hsame

theorem Disk.FilledBelow.staysBelow {l : Loc} {d d' : Disk} (h : Disk.FilledBelow l d d') :
    StaysBelow l d d' where
  below k hk := by
    rcases h k with h | ⟨hp, hn, -⟩
    · exact absurd h hk
    · exact ⟨hp, hn⟩
  kept k i hi := by
    have hg := h.grows k
    rw [hi] at hg
    exact hg.sameKind
  noLink k t ht := (h.grows k).link_iff.1 ht

namespace Unpacking

variable (s : Storage) {w : World} {p target : Path} {l : Loc} {name : Text}

/-- An entry that is not left out goes to a path that goes down from the destination. -/
theorem exists_of_target? (h : target? p name = some target) :
    ∃ a x, Entry.parts name = a ++ [x] ∧ Disk.GoDown (a ++ [x]) ∧
      target = (a ++ [x]).foldl Path.join p := by
  unfold target? Path.below? at h
  split_ifs at h with ha hp
  simp only [Bool.or_eq_true, not_or] at hp
  obtain ⟨-, h⟩ := Option.ite_none_right_eq_some.1 h
  obtain rfl := Option.some.inj h
  obtain ⟨a, x, hx⟩ := (List.eq_nil_or_concat (Entry.parts name)).resolve_left (by simpa using hp.1)
  rw [List.concat_eq_append] at hx
  refine ⟨a, x, hx, fun y hy => ?_, by rw [← hx]⟩
  rw [← hx] at hy
  have hd : ['.', '.'] ∉ Entry.parts name := by simpa using hp.2
  exact ⟨⟨Path.not_mem_of_mem_names hy, Path.ne_nil_of_mem_names hy⟩, fun e => hd (e ▸ hy)⟩

theorem makeDirs_run_filledBelow {a : List Text} {x : Text} (h : w.disk.Root p l)
    (ha : Disk.GoDown (a ++ [x])) :
    Disk.FilledBelow l w.disk ((s.makeDirs ((a ++ [x]).foldl Path.join p) true).run w).2.disk := by
  rw [Storage.run_makeDirs]
  split
  · exact .refl l _
  · exact Storage.making_disk (P := Disk.FilledBelow l w.disk) (.refl l _)
      (Disk.makeDirs_filledBelow true h ha)

/-- The directory that a file goes into is the destination or lies below it. -/
theorem makeParents_run_filledBelow {a : List Text} {x : Text} (h : w.disk.Root p l)
    (ha : Disk.GoDown (a ++ [x])) : Disk.FilledBelow l w.disk
      ((s.makeDirs (Path.parent ((a ++ [x]).foldl Path.join p)) true).run w).2.disk := by
  have hx := ha x (by simp)
  rcases List.eq_nil_or_concat a with rfl | ⟨b, y, rfl⟩
  · rw [Storage.run_makeDirs]
    split
    · exact .refl l _
    · refine Storage.making_disk (P := Disk.FilledBelow l w.disk) (.refl l _) ?_
      rw [show [] ++ [x] = [x] from rfl, List.foldl_cons, List.foldl_nil,
        Disk.makeDirs_of_isDir (Disk.isDir_parent_join h.located h.directory hx.1.1)]
      exact .refl l _
  · rw [List.concat_eq_append] at ha ⊢
    obtain ⟨hn, hl⟩ := Path.foldl_join_ne_nil (fun z hz => (ha.init z hz).1)
      (List.append_ne_nil_of_right_ne_nil b (List.cons_ne_nil y [])) p
    rw [List.foldl_append (l := b ++ [y]), List.foldl_cons, List.foldl_nil,
      Path.parent_join hn hl hx.1.1]
    exact makeDirs_run_filledBelow s h ha.init

theorem writeStream_run_filledBelow {a : List Text} (c : Stream) (h : w.disk.Root p l)
    (ha : Disk.GoDown a) :
    Disk.FilledBelow l w.disk ((s.writeStream (a.foldl Path.join p) c).run w).2.disk := by
  rw [Storage.run_writeStream]
  split
  · exact .refl l _
  · split
    · exact .refl l _
    · rename_i k hk
      obtain ⟨hp, hn, hg⟩ := h.of_locateWrite ha hk
      have hk' : k ≠ [] := fun e => hn (by simp_all)
      refine (Disk.write_filledBelow hp hn hg).trans (Disk.write_filledBelow hp hn ?_)
      rw [Disk.get?_write _ hk']
      split
      · exact .inr (.inl ⟨_, rfl⟩)
      · exact hg

theorem unpackEntry_filledBelow (r : Reader) (e : Entry) (h : w.disk.Root p l)
    (ht : target? p name = some target) :
    Disk.FilledBelow l w.disk ((unpackEntry s r e target).run w).2.disk := by
  obtain ⟨a, x, -, ha, rfl⟩ := exists_of_target? ht
  unfold unpackEntry
  split
  · exact makeDirs_run_filledBelow s h ha
  · have hm := makeParents_run_filledBelow s h ha
    rw [Act.run_bind, Act.run_failingWith]
    generalize (s.makeDirs (Path.parent ((a ++ [x]).foldl Path.join p)) true).run w = m at hm ⊢
    obtain ⟨_ | _, w'⟩ := m
    · exact hm
    · rcases r.contents s e.name with _ | c
      · exact hm
      · exact hm.trans (writeStream_run_filledBelow s c.stream (h.of_keeps hm.keeps) ha)

theorem unpackAll_filledBelow (r : Reader) : ∀ (es : List Entry) {w : World}, w.disk.Root p l →
    Disk.FilledBelow l w.disk (unpackAll s r p es w).2.disk
  | [], w, _ => .refl l w.disk
  | e :: es, w, h => by
    unfold unpackAll
    rcases ht : target? p e.name with _ | target
    · exact unpackAll_filledBelow r es h
    · have he := unpackEntry_filledBelow s r e h ht
      simp only [run_bind]
      generalize (unpackEntry s r e target).run w = m at he ⊢
      have hes := fun t =>
        unpackAll_filledBelow r es (w := { m.2 with shown := t }) (h.of_keeps he.keeps)
      obtain ⟨_ | _, w'⟩ := m
      · exact he.trans (hes _)
      · exact he.trans (hes w'.shown)

end Unpacking

/-- Opening an archive changes nothing. -/
theorem Reader.run_openAt (s : Storage) (p : Path) (w : World) :
    ((Reader.openAt s p).run w).2 = w := by
  unfold Reader.openAt
  rw [Act.run_bind, Storage.run_allow]
  rcases s.refuses .openReader p
  · simp only [Bool.false_eq_true, if_false, Act.run_bind, Act.run_get, Act.run_ite,
      Storage.run_ask]
    rcases w.disk.isFile p
    · rfl
    · simp only [Bool.not_true, Bool.false_eq_true, if_false]
      rcases w.disk.read p with _ | b
      · rfl
      · simp only [Act.mapError_ok]
        rcases Archive.ofBytes b with (_ | _) | a <;> rfl
  · rfl

/-- Unpacking changes nothing but what lies strictly below its destination, whether it succeeds
or fails, whatever the archive holds, and whichever calls are refused. -/
theorem unpack_staysBelow (s : Storage) (archive destination : Path) (w : World) {l : Loc}
    (hl : w.disk.locate true destination = .ok l) (hd : w.disk.isDirectory l = true)
    (hf : ∀ k t, l <+: k → k ≠ l → w.disk.get? k ≠ some (.link t)) :
    StaysBelow l w.disk ((unpack s archive destination).run w).2.disk := by
  have h : w.disk.Root destination l := by
    refine ⟨hl, hd, fun k t hk => ?_⟩
    by_cases he : k = l
    · rw [he, Disk.isDirectory_iff.1 hd]
      simp
    · exact hf k t hk he
  refine Disk.FilledBelow.staysBelow ?_
  have hr := Reader.run_openAt s archive w
  unfold unpack
  rw [Act.run_bind]
  generalize (Reader.openAt s archive).run w = m at hr
  obtain ⟨_ | r, w'⟩ := m <;> obtain rfl : w' = w := hr
  · exact .refl l _
  · exact Unpacking.unpackAll_filledBelow s r r.entries h

/-- A directory beside a file and an archive. The names in the archive lead out of the directory,
through it and back, and once into it. -/
def besieged : Disk where
  items := [
    (["in".toList], .directory),
    (["in".toList, "old".toList], .file [1]),
    (["near".toList], .file [2]),
    (["a".toList], .file (Member.archive [
      ⟨"../near".toList, false, [3]⟩, ⟨"/near".toList, false, [3]⟩,
      ⟨"x/../../near".toList, false, [3]⟩, ⟨"./x//y".toList, false, [3]⟩,
      ⟨"old".toList, false, [3]⟩]))]

theorem unpack_staysBelow_besieged :
    besieged.locate true "/in".toList = .ok ["in".toList] ∧
      besieged.isDirectory ["in".toList] = true ∧
      (∀ k t, ["in".toList] <+: k → k ≠ ["in".toList] → besieged.get? k ≠ some (.link t)) ∧
      StaysBelow ["in".toList] besieged
        ((unpack { chunk := 512 } "/a".toList "/in".toList).run ⟨besieged, []⟩).2.disk := by
  have hl : besieged.locate true "/in".toList = .ok ["in".toList] := by rfl
  have hd : besieged.isDirectory ["in".toList] = true := by decide
  have hf : ∀ k t, ["in".toList] <+: k → k ≠ ["in".toList] → besieged.get? k ≠ some (.link t) :=
    fun k t _ _ => Disk.get?_ne_link_of_items (by simp [besieged]) k t
  exact ⟨hl, hd, hf,
    unpack_staysBelow { chunk := 512 } "/a".toList "/in".toList ⟨besieged, []⟩ hl hd hf⟩

end FileShell
