import FileShell.Proofs.Disk.Kinds
import FileShell.Proofs.Disk.Ways
import FileShell.Proofs.Storage.Stops

/-!
# Where copies are put

What copying can change at all, whatever links there are and whichever calls are refused. A file is
written where the path of its copy leads (`Storage.copy_written`). A tree that is copied into a
directory comes to stand at its own name there or below it, if no link is in that directory or
below; else directories are made on the way, and nothing more (`Storage.copyTree_deposits`).
-/

namespace FileShell

open Relation (ReflTransGen)
open Disk (Gain Keeps)

theorem Path.getLast?_join_nil {p : Path} (hp : p ≠ []) : (p.join []).getLast? = some '/' := by
  obtain ⟨s, hj, -, -, hs⟩ := exists_join_eq p (x := []) List.not_mem_nil
  rw [hj, List.append_nil]
  exact hs.resolve_left fun e => hp (List.append_eq_nil_iff.1 e).1

namespace Disk

variable {d d' d'' : Disk} {p q : Path} {a b : List Text} {k l m : Loc} {x : Text}

/-! ## Writing at the end of a path -/

/-- The second disk is the first, or has bytes written where the path leads. -/
def WrittenAt (p : Path) (d d' : Disk) : Prop :=
  (∀ k, d'.get? k = d.get? k) ∨
    ∃ m b, d.locateWrite p = .ok m ∧ ∀ k, d'.get? k = (d.write m b).get? k

theorem writtenAt_write (h : d.locateWrite p = .ok m) (b : Bytes) : WrittenAt p d (d.write m b) :=
  .inr ⟨m, b, h, fun _ => rfl⟩

/-- A file that is emptied and then filled was written once, as far as can be seen. -/
theorem writtenAt_write_write (h : d.locateWrite p = .ok m) (b b' : Bytes) :
    WrittenAt p d ((d.write m b).write m b') := by
  have hm := ne_nil_of_locateWrite h
  refine .inr ⟨m, b', h, fun k => ?_⟩
  rw [get?_write b' hm, get?_write b' hm, get?_write b hm, get?_write b hm]
  by_cases hk : k = m
  · subst hk
    by_cases hd : d.get? k = some .device <;> simp [hd]
  · simp [hk]

/-- The path leads to a file, or where nothing stands, and a file is there afterwards. -/
def FileAt (p : Path) (d d' : Disk) (k : Loc) : Prop :=
  d.locate true p = .ok k ∧ (d.get? k = none ∨ ∃ b, d.get? k = some (.file b)) ∧
    ∃ b, d'.get? k = some (.file b)

/-- What is written is a file; a device is not changed. -/
theorem Sound.fileAt_of_writtenAt (hs : d.Sound) (h : WrittenAt p d d') (k : Loc) :
    d'.get? k = d.get? k ∨ FileAt p d d' k := by
  rcases h with h | ⟨m, b, hm, h⟩
  · exact .inl (h k)
  obtain ⟨hne, hdir, hlink⟩ := hs.of_locateWrite hm
  rw [FileAt, h, get?_write b hne]
  split_ifs with hk
  · obtain ⟨rfl, hdev⟩ := hk
    refine .inr ⟨(locateWrite_eq_ok_iff.1 hm).2.1, ?_, b, rfl⟩
    rcases hi : d.get? k with _ | i
    · exact .inl rfl
    · cases i with
      | directory => exact absurd hi hdir
      | file c => exact .inr ⟨c, rfl⟩
      | link t => exact absurd hi (hlink t)
      | device => exact absurd hi hdev
  · exact .inl rfl

/-! ## Below a directory without links -/

/-- No link stands where the path leads, or below. -/
def LinkFreeBelow (d : Disk) (p : Path) : Prop := ∀ l, d.locate true p = .ok l → d.LinkFree l

theorem LinkFreeBelow.of_keeps (hk : Keeps d d') (h : d'.LinkFreeBelow p) : d.LinkFreeBelow p :=
  fun l hl k t hlk ht => h l (locate_of_keeps hk hl) k t hlk (hk.link.2 ht)

theorem locate_of_locate_join (hp : p ≠ []) (hx : IsName x)
    (h : d.locate true (p.join x) = .ok k) :
    ∃ m, d.locate true p = .ok m ∧ d.isDirectory m = true := by
  obtain ⟨m, hm, hq⟩ := (at_of_locate h).init (Path.names_join_name p hx.noSlash hx.plain.1)
  obtain ⟨s, hj, -⟩ := Path.exists_join_eq p hx.noSlash
  have hsub : p.Sublist (p.join x) := by
    rw [hj, List.append_assoc]
    exact List.sublist_append_left p (s ++ x)
  exact ⟨m, (hq p rfl).locate (checkPath_of_sublist (locate_eq_ok_iff.1 h).1 hsub hp) (.inl hm), hm⟩

/-- A name below a directory without links stands for itself. -/
theorem LinkFreeBelow.locate_join (hf : d.LinkFreeBelow p) (hp : p ≠ []) (hx : IsName x)
    (h : d.locate true (p.join x) = .ok k) : ∃ m, d.locate true p = .ok m ∧ k = m ++ [x] := by
  obtain ⟨m, hm, -⟩ := locate_of_locate_join hp hx h
  refine ⟨m, hm, ?_⟩
  have hk := (at_of_locate hm).eq_append (hf m hm) (by simpa using hx.plain.2.2.symm)
    (Path.names_join_name p hx.noSlash hx.plain.1) (at_of_locate h)
  simpa [hx.plain] using hk

theorem LinkFreeBelow.join (hf : d.LinkFreeBelow p) (hp : p ≠ []) (hx : IsName x) :
    d.LinkFreeBelow (p.join x) := by
  intro k hk
  obtain ⟨m, hm, rfl⟩ := hf.locate_join hp hx hk
  exact (hf m hm).below (List.prefix_append _ _)

/-- A slash at the end asks for a directory and leads no further. -/
theorem locate_of_locate_join_nil (hp : p ≠ []) (h : d.locate true (p.join []) = .ok l) :
    d.locate true p = .ok l := by
  obtain ⟨s, hj, -⟩ := Path.exists_join_eq p (x := []) List.not_mem_nil
  have hd : d.isDirectory l = true := by
    by_contra hd
    exact locate_getLast? h (eq_false_of_ne_true hd) (Path.getLast?_join_nil hp)
  have hsub : p.Sublist (p.join []) := by
    rw [hj, List.append_nil]
    exact List.sublist_append_left p s
  exact ((at_of_locate h).of_names (Root.names_join_nil p).symm).locate
    (checkPath_of_sublist (locate_eq_ok_iff.1 h).1 hsub hp) (.inl hd)

/-- Directories were made on the way of the path, and whatever else has changed did so where the
names lead from its end, or below. -/
structure Deposits (p : Path) (a : List Text) (d d' : Disk) : Prop where
  keeps : Keeps d d'
  changes : ∀ k, d'.get? k = d.get? k ∨
    (d.get? k = none ∧ d'.get? k = some .directory ∧ d'.OnWay p k) ∨
    ∃ l, d'.locate true p = .ok l ∧ l ++ a <+: k

namespace Deposits

theorem refl (p : Path) (a : List Text) (d : Disk) : Deposits p a d d := ⟨.refl d, fun _ => .inl rfl⟩

theorem of_madeWhere (hk : Keeps d d') (h : MadeWhere (d'.OnWay p) d d') : Deposits p a d d' :=
  ⟨hk, fun k => (h k).imp_right .inl⟩

theorem trans (h : Deposits p a d d') (h' : Deposits p a d' d'') : Deposits p a d d'' := by
  refine ⟨h.keeps.trans h'.keeps, fun k => ?_⟩
  have lift (hb : ∃ l, d'.locate true p = .ok l ∧ l ++ a <+: k) :
      ∃ l, d''.locate true p = .ok l ∧ l ++ a <+: k :=
    hb.imp fun l hl => ⟨locate_of_keeps h'.keeps hl.1, hl.2⟩
  rcases h'.changes k with h₂ | ⟨hn, hd, hw⟩ | hb
  · rw [h₂]
    exact (h.changes k).imp_right fun h₁ => h₁.imp
      (fun ⟨hn, hd, hw⟩ => ⟨hn, hd, hw.of_keeps h'.keeps⟩) lift
  · rcases h.changes k with h₁ | ⟨-, hd', -⟩ | hb
    · exact .inr (.inl ⟨h₁ ▸ hn, hd, hw⟩)
    · rw [hn] at hd'
      cases hd'
    · exact .inr (.inr (lift hb))
  · exact .inr (.inr hb)

theorem of_prefix (hab : b <+: a) (h : Deposits p a d d') : Deposits p b d d' := by
  refine ⟨h.keeps, fun k => (h.changes k).imp_right fun hk => hk.imp_right ?_⟩
  exact fun ⟨l, hl, hlk⟩ => ⟨l, hl, ((List.prefix_append_right_inj l).2 hab).trans hlk⟩

/-- What is put below a name of a directory is put at that name or below. -/
theorem up (h : Deposits (p.join x) [] d d') (hp : p ≠ []) (hx : IsName x)
    (hf : d'.LinkFreeBelow p) (hd : d.isDir (p.join x) = true) : Deposits p [x] d d' := by
  obtain ⟨m, hm, hmd⟩ := isDir_iff.1 hd
  have hm' := locate_of_keeps h.keeps hm
  obtain ⟨l, hl, rfl⟩ := hf.locate_join hp hx hm'
  refine ⟨h.keeps, fun k => (h.changes k).imp_right fun hk => ?_⟩
  rcases hk with ⟨hn, hkd, q, hq, hqk⟩ | ⟨l', hl', hk⟩
  · rw [Path.names_join_name p hx.noSlash hx.plain.1, List.prefix_concat_iff] at hq
    rcases hq with hq | hq
    · have hat := (at_of_locate hqk).of_names
        ((Path.names_join_name p hx.noSlash hx.plain.1).trans hq.symm)
      obtain rfl := hat.unique (at_of_locate hm')
      exact .inr ⟨l, hl, List.prefix_rfl⟩
    · exact .inl ⟨hn, hkd, q, hq, hqk⟩
  · rw [hm'] at hl'
    obtain rfl := Except.ok.inj hl'
    exact .inr ⟨l, hl, by simpa using hk⟩

theorem of_join_nil (hp : p ≠ []) (h : Deposits (p.join []) a d d') : Deposits p a d d' := by
  have hn := Root.names_join_nil p
  refine ⟨h.keeps, fun k => (h.changes k).imp_right fun hk => hk.imp ?_ ?_⟩
  · exact fun ⟨hn', hd, hw⟩ => ⟨hn', hd, hw.of_prefix (hn ▸ List.prefix_rfl)⟩
  · exact fun ⟨l, hl, hlk⟩ => ⟨l, locate_of_locate_join_nil hp hl, hlk⟩

end Deposits

theorem Sound.makeDirs_deposits (hs : d.Sound) (p : Path) (a : List Text) :
    Deposits p a d (d.makeDirs true p).2 :=
  .of_madeWhere (hs.makeDirs true p).2.keeps (hs.makeDirs_onWay true p)

/-- A directory made at a name is made there, once those above it are there. -/
theorem Sound.makeDirs_join_deposits (hs : d.Sound) (hp : p ≠ []) (hx : IsName x)
    (hf : (d.makeDirs true (p.join x)).2.LinkFreeBelow p) :
    Deposits p [x] d (d.makeDirs true (p.join x)).2 := by
  refine ⟨(hs.makeDirs true (p.join x)).2.keeps, fun k => ?_⟩
  refine (hs.makeDirs_madeWhere true (p.join x) k).imp_right fun ⟨hn, hd, hk⟩ => ?_
  rcases hk with hk | ⟨-, hk⟩
  · obtain ⟨m, hm, rfl⟩ := hf.locate_join hp hx hk
    exact .inr ⟨m, hm, List.prefix_rfl⟩
  · rw [Path.splitLast_join p hx.noSlash hx.plain.1] at hk
    exact .inl ⟨hn, hd, hk.of_prefix (Path.names_parent_join p hx.noSlash ▸ List.prefix_rfl)⟩

theorem Sound.writtenAt_deposits (hs : d.Sound) (hp : p ≠ []) (hx : IsName x)
    (hk : Keeps d d') (hf : d'.LinkFreeBelow p) (h : WrittenAt (p.join x) d d') :
    Deposits p [x] d d' := by
  refine ⟨hk, fun k => (hs.fileAt_of_writtenAt h k).imp_right fun hw => ?_⟩
  obtain ⟨m, hm, rfl⟩ := hf.locate_join hp hx (locate_of_keeps hk hw.1)
  exact .inr ⟨m, hm, List.prefix_rfl⟩

end Disk

namespace Storage

open Disk (Deposits)

variable {s : Storage} {root S T D : Path} {w : World} {n : Nat} {x : Text}

/-! ## Files -/

theorem copy_written (s : Storage) (p q : Path) (w : World) :
    w.disk.WrittenAt q ((s.copy p q).run w).2.disk := by
  rw [run_copy]
  split_ifs
  · exact .inl fun _ => rfl
  split
  · exact .inl fun _ => rfl
  split
  · exact .inl fun _ => rfl
  rename_i m hm
  split
  · exact Disk.writtenAt_write hm []
  · exact Disk.writtenAt_write_write hm _ _

/-! ## Trees -/

theorem disk_orShow {ε : Type} (m : Act ε Unit) (line : Text) (w : World) :
    (m.orShow line w).2.disk = (m.run w).2.disk := by
  rw [run_orShow]
  rcases m.run w with ⟨_ | ⟨⟩, w'⟩ <;> rfl

/-- What copies with room for so many calls put at a name stands there or below. -/
def CopiesTo (s : Storage) (root : Path) (n : Nat) : Prop :=
  ∀ {S T : Path} {x : Text} {w : World}, w.disk.Sound → T ≠ [] → IsName x →
    ((s.copyInto root n S (T.join x)).run w).2.disk.LinkFreeBelow T →
      Deposits T [x] w.disk ((s.copyInto root n S (T.join x)).run w).2.disk

theorem copyChild_deposits (ih : CopiesTo s root n) (hs : w.disk.Sound) (hT : T ≠ [])
    (hx : IsName x)
    (hf : ((s.copyChild root n (s.copyInto root n) S T x).run w).2.disk.LinkFreeBelow T) :
    Deposits T [x] w.disk ((s.copyChild root n (s.copyInto root n) S T x).run w).2.disk := by
  have hk := hs.keeps_of_gains (only_copyChild s S T root n (only_copyInto s root n) x w)
  rcases hsame : w.disk.samePath (linksWithin n) (S.join x) root with e | same
  · rw [run_copyChild, hsame]
    exact .refl T [x] w.disk
  rw [run_copyChild_of_samePath hsame] at hf hk ⊢
  split_ifs at hf hk ⊢
  · exact .refl T [x] w.disk
  · rw [disk_reporting] at hf ⊢
    exact ih hs hT hx hf
  · dsimp only at hf hk ⊢
    rw [disk_orShow] at hf hk ⊢
    exact hs.writtenAt_deposits hT hx hk hf (copy_written s _ _ w)

theorem copyChildren_deposits (ih : CopiesTo s root n) (hT : T ≠ []) :
    ∀ {xs : List Text} {w : World}, w.disk.Sound → (∀ x ∈ xs, IsName x) →
      ((xs.forM (s.copyChild root n (s.copyInto root n) S T)).run w).2.disk.LinkFreeBelow T →
        Deposits T [] w.disk
          ((xs.forM (s.copyChild root n (s.copyInto root n) S T)).run w).2.disk
  | [], w, _, _, _ => .refl T [] w.disk
  | x :: xs, w, hs, hx, hf => by
    obtain ⟨hx, hxs⟩ := List.forall_mem_cons.1 hx
    have hgains := only_copyChild s S T root n (only_copyInto s root n) x w
    have hone := copyChild_deposits (S := S) ih hs hT hx
    rw [Act.run_forM_cons] at hf ⊢
    rcases hrun : (s.copyChild root n (s.copyInto root n) S T x).run w with ⟨e | _, v⟩ <;>
      rw [hrun] at hf hgains hone
    · have hfirst := hone hf
      exact hfirst.of_prefix List.nil_prefix
    · have hv := hs.of_gains hgains
      have hrest := Act.only_forM (only_copyChild s S T root n (only_copyInto s root n)) xs v
      have hfirst := hone (hf.of_keeps (hv.keeps_of_gains hrest))
      have hfirst := hfirst.of_prefix List.nil_prefix
      exact hfirst.trans (copyChildren_deposits ih hT hv hxs hf)

/-- A directory is made at the name, and what is copied into it comes below. -/
theorem copyInto_deposits (s : Storage) (root : Path) (n : Nat) : CopiesTo s root n := by
  induction n with
  | zero => exact fun _ _ _ _ => .refl _ _ _
  | succ n ih =>
    intro S T x w hs hT hx hf
    rw [run_copyInto] at hf ⊢
    rcases run_makeDirs_or s (T.join x) true w with ⟨e, -, he⟩ | hm
    · rw [he]
      exact .refl T [x] w.disk
    rw [hm] at hf ⊢
    have hs' := (hs.makeDirs true (T.join x)).1
    have hmade := hs.makeDirs_join_deposits hT hx
    have hdir := hs.isDir_of_makeDirs (p := T.join x)
      (by rw [Path.splitLast_join T hx.noSlash hx.plain.1]; exact hx.plain.2.1)
    generalize w.disk.makeDirs true (T.join x) = r at hf hs' hmade hdir ⊢
    obtain ⟨e | ⟨⟩, d'⟩ := r
    · exact hmade hf
    · have hk := hs'.keeps_of_gains
        (Act.only_forM (only_copyChild s S (T.join x) root n (only_copyInto s root n))
        (s.namesIn w.disk S) { w with disk := d' })
      have hbelow := copyChildren_deposits ih (Path.join_ne_nil T hx.plain.1)
        (w := { w with disk := d' }) hs' (fun y hy => hs.isName_of_mem_namesIn hy) (hf.join hT hx)
      exact (hmade (hf.of_keeps hk)).trans (hbelow.up hT hx hf (hdir rfl))

theorem copyInto_deposits_nil (hs : w.disk.Sound) (hT : T ≠ [])
    (hf : ((s.copyInto root n S T).run w).2.disk.LinkFreeBelow T) :
    Deposits T [] w.disk ((s.copyInto root n S T).run w).2.disk := by
  rcases n with _ | n
  · exact .refl T [] w.disk
  rw [run_copyInto] at hf ⊢
  rcases run_makeDirs_or s T true w with ⟨e, -, he⟩ | hm
  · rw [he]
    exact .refl T [] w.disk
  rw [hm] at hf ⊢
  have hs' := (hs.makeDirs true T).1
  have hmade := hs.makeDirs_deposits T []
  generalize w.disk.makeDirs true T = r at hf hs' hmade ⊢
  obtain ⟨e | ⟨⟩, d'⟩ := r
  · exact hmade
  · exact hmade.trans (copyChildren_deposits (copyInto_deposits s root n) hT
      (w := { w with disk := d' }) hs' (fun y hy => hs.isName_of_mem_namesIn hy) hf)

/-- A tree is copied to its own name in a directory, and nothing is put elsewhere but directories on
the way of the destination. The root has no name: what is in it comes into the directory itself. -/
theorem copyTree_deposits (hs : w.disk.Sound) (hS : w.disk.isDir S = true)
    (ha : S.isAbsolute = true) (hD : D ≠ [])
    (hf : ((s.copyTree S D).run w).2.disk.LinkFreeBelow D) :
    Deposits D (Path.names (Path.baseName S.normalize)) w.disk
      ((s.copyTree S D).run w).2.disk := by
  obtain ⟨l, hl, -⟩ := Disk.isDir_iff.1 hS
  have hdisk : ((s.copyTree S D).run w).2.disk = ((s.copyInto (copyPath S D) s.nests S
      (copyPath S D)).run w).2.disk := by
    rw [run_copyTree]
    rcases (s.copyInto (copyPath S D) s.nests S (copyPath S D)).run w with ⟨_ | _, w'⟩ <;>
      rfl
  rw [hdisk] at hf ⊢
  rcases Disk.isName_baseName_normalize hl ha with hb | hb
  · have hpath : copyPath S D = D.join [] := by rw [copyPath, hb]
    rw [hpath] at hf ⊢
    rw [hb]
    have hbelow : ((s.copyInto (D.join []) s.nests S
        (D.join [])).run w).2.disk.LinkFreeBelow (D.join []) := fun k hk =>
      hf k (Disk.locate_of_locate_join_nil hD hk)
    have hne : D.join [] ≠ [] := fun e => by
      have := Path.getLast?_join_nil hD
      rw [e] at this
      cases this
    exact (copyInto_deposits_nil hs hne hbelow).of_join_nil hD
  · rw [Path.names_of_not_mem hb.noSlash hb.plain.1]
    exact copyInto_deposits s _ _ hs hD hb hf

end Storage

end FileShell
