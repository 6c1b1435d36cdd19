import FileShell.Proofs.Archive.Nodes
import FileShell.Proofs.Archive.ReadBack
import FileShell.Proofs.Storage.CopyStep

/-!
# What unpacking leaves

Unpacking directories and files where nothing stands yet, each after the directory it goes into,
shows nothing and leaves just them (`unpackAll_nodes`). One entry makes one place: the directories
above it are there, so nothing else is made on the way.
-/

namespace FileShell

namespace Disk

/-- The names of a directory lead down to it from a place without links. -/
theorem Root.foldl_join {d : Disk} {p : Path} {l b : Loc} (h : d.Root p l) (hs : d.Sound)
    (hb : ∀ x ∈ b, IsName x) (hd : d.isDirectory (l ++ b) = true)
    (hf : (b.foldl Path.join p).fits = true) : d.Root (b.foldl Path.join p) (l ++ b) := by
  induction b using List.reverseRecOn with
  | nil => rwa [List.append_nil]
  | append_singleton b x ih =>
    have hx := hb x (by simp)
    rw [List.foldl_append, List.foldl_cons, List.foldl_nil] at hf ⊢
    rw [← List.append_assoc] at hd ⊢
    have hl : d.isDirectory (l ++ b) = true :=
      hs.isDirectory_of_prefix (List.cons_ne_nil x []) (by rw [isDirectory_iff.1 hd]; rfl)
    exact (ih (fun y hy => hb y (List.mem_append_left _ hy)) hl
      (Path.fits_of_fits_join hx.noSlash hf)).join hx hf hd

end Disk

namespace Unpacking

variable {s : Storage} {r : Reader} {e : Entry} {w w' : World} {p : Path} {l : Loc} {x : Text}
  {i : Item}

/-- What is left of a world when one more thing stands at a place. -/
structure Adds (k : Loc) (i : Item) (w w' : World) : Prop where
  sound : w'.disk.Sound
  shown : w'.shown = w.shown
  get? : ∀ m, w'.disk.get? m = if m = k then some i else w.disk.get? m

theorem Adds.keeps {k : Loc} (h : Adds k i w w') (hk : w.disk.get? k = none)
    (hi : ∀ t, i ≠ .link t) : w.disk.Keeps w'.disk where
  directory {m} hm := by
    rw [Disk.isDirectory, h.get?]
    split_ifs with he
    · rw [he, Disk.isDirectory, hk] at hm
      cases hm
    · exact hm
  link {m t} := by
    rw [h.get?]
    split_ifs with he
    · rw [he, hk]
      simp [hi t]
    · rfl

section Entry

variable (hr : ∀ c q, s.refuses c q = false) (hs : w.disk.Sound) (h : w.disk.Root p l)
  (hx : IsName x) (hf : (p.join x).fits = true) (hn : w.disk.get? (l ++ [x]) = none)
include hr hs h hx hf hn

theorem unpackEntry_directory (he : e.isDir = true) :
    ∃ w', (unpackEntry s r e (p.join x)).run w = (.ok (), w') ∧
      Adds (l ++ [x]) .directory w w' := by
  refine ⟨{ w with disk := w.disk.withDirectory (l ++ [x]) }, ?_, ?_, rfl, ?_⟩
  · rw [unpackEntry, if_pos he, Act.run_failingWith, Storage.run_makeDirs, hr,
      if_neg Bool.false_ne_true, Storage.making_eq (by rw [(h.child hx).missingAbove_join]; omega),
      (h.child hx).makeDirs_join hf (.inl hn)]
    rfl
  · exact hs.withDirectory h.directory hx
  · exact Disk.get?_withDirectory (.inl hn)

theorem unpackEntry_file (he : e.isDir = false) {c : Contents} {b : Bytes}
    (hc : r.contents s e.name = .ok c) (hb : c.stream.drain s.chunk = (b, true)) :
    ∃ w', (unpackEntry s r e (p.join x)).run w = (.ok (), w') ∧ Adds (l ++ [x]) (.file b) w w' := by
  have hdir : w.disk.isDirectory (l ++ [x]) = false := by rw [Disk.isDirectory, hn]; rfl
  refine ⟨{ w with disk := (w.disk.write (l ++ [x]) []).write (l ++ [x]) b }, ?_, ?_, rfl, ?_⟩
  · -- the file goes into a directory that is there already
    have hdown := Disk.isDir_parent_join h.located h.directory hx.noSlash
    have hp : s.making true w.disk (Path.parent (p.join x)) = (.ok (), w.disk) := by
      rw [Storage.making_eq (by rw [Disk.missingAbove_of_isDir hdown]; omega),
        Disk.makeDirs_of_isDir hdown]
    rw [unpackEntry, he, if_neg Bool.false_ne_true, Act.run_bind, Act.run_failingWith,
      Storage.run_makeDirs, hr, if_neg Bool.false_ne_true, hp]
    simp only [Act.mapError_ok, hc, Act.run_failingWith, Storage.run_writeStream, hr,
      Bool.false_eq_true, if_false, (h.child hx).locateWrite_join, hf, hdir, if_true, hb]
  · exact hs.write_write h.directory hx hdir [] b
  · intro m
    rw [Storage.get?_write_write [] b (by simp), hn]
    rfl

end Entry

theorem run_unpackAll_cons {es : List Entry} {target : Path} (ht : target? p e.name = some target)
    (he : (unpackEntry s r e target).run w = (.ok (), w')) :
    (unpackAll s r p (e :: es) w).2 = (unpackAll s r p es w').2 := by
  rw [unpackAll, ht]
  simp only [run_bind, he]
  rfl

/-- What can come out below a place: the paths are short enough, nothing stands there yet, and the
reader has the bytes of the files. -/
structure Pending (s : Storage) (r : Reader) (p : Path) (l : Loc) (ns : List (Loc × Item))
    (d : Disk) : Prop where
  fits : ∀ e ∈ ns, (e.1.foldl Path.join p).fits = true
  free : ∀ e ∈ ns, d.get? (l ++ e.1) = none
  apart : ns.Pairwise fun e f => e.1 ≠ f.1
  held : ∀ e ∈ ns, ∀ c, e.2 = .file c → ∃ t, r.contents s (Member.ofNode e).name = .ok t ∧
    t.stream.drain s.chunk = (c, true)

theorem Pending.tail {a : Loc} {ns : List (Loc × Item)} (h : Pending s r p l ((a, i) :: ns) w.disk)
    (hadd : Adds (l ++ a) i w w') : Pending s r p l ns w'.disk where
  fits := (List.forall_mem_cons.1 h.fits).2
  free e he := by
    have hne := (List.pairwise_cons.1 h.apart).1 e he
    rw [hadd.get?, if_neg fun heq => hne (List.append_cancel_left heq).symm]
    exact (List.forall_mem_cons.1 h.free).2 e he
  apart := (List.pairwise_cons.1 h.apart).2
  held := (List.forall_mem_cons.1 h.held).2

theorem target?_ofNode (hl : Path.leadingSlashes p = 1) {a : Loc} (ha : ∀ y ∈ a, IsName y)
    (hn : a ≠ []) (i : Item) :
    target? p (Member.ofNode (a, i)).entry.name = some (a.foldl Path.join p) := by
  have hspell : ∀ y ∈ a, '/' ∉ y ∧ y ≠ [] := fun y hy => ⟨(ha y hy).noSlash, (ha y hy).plain.1⟩
  exact Entry.target?_joined (fun y hy => (ha y hy).plain) hn hl
    (Member.head?_ofNode hspell hn i) (Member.parts_ofNode hspell i)

/-- What an entry for a directory or a file gives, if it goes into a directory that is there. -/
theorem unpackEntry_node (hr : ∀ c q, s.refuses c q = false) {b : Loc} {ns : List (Loc × Item)}
    (hs : w.disk.Sound) (h : w.disk.Root p l) (hb : ∀ y ∈ b ++ [x], IsName y)
    (hd : w.disk.isDirectory (l ++ b) = true) (hi : i = .directory ∨ ∃ c, i = .file c)
    (hp : Pending s r p l ((b ++ [x], i) :: ns) w.disk) :
    ∃ w', (unpackEntry s r (Member.ofNode (b ++ [x], i)).entry ((b ++ [x]).foldl Path.join p)).run w =
      (.ok (), w') ∧ Adds (l ++ (b ++ [x])) i w w' := by
  have hspell : ∀ y ∈ b ++ [x], '/' ∉ y ∧ y ≠ [] :=
    fun y hy => ⟨(hb y hy).noSlash, (hb y hy).plain.1⟩
  have hlast := Member.getLast?_ofNode hspell (by simp) i
  have hx : IsName x := hb x (by simp)
  have hf := hp.fits _ List.mem_cons_self
  have hn := hp.free _ List.mem_cons_self
  simp only [List.foldl_append, List.foldl_cons, List.foldl_nil] at hf ⊢
  simp only [← List.append_assoc] at hn ⊢
  have hroot := h.foldl_join hs (fun y hy => hb y (List.mem_append_left _ hy)) hd
    (Path.fits_of_fits_join hx.noSlash hf)
  rcases hi with rfl | ⟨c, rfl⟩
  · exact unpackEntry_directory hr hs hroot hx hf hn (by rw [Member.entry, hlast.2 rfl]; rfl)
  · obtain ⟨t, hc, ht⟩ := hp.held _ List.mem_cons_self c rfl
    refine unpackEntry_file hr hs hroot hx hf hn ?_ hc ht
    rw [Member.entry]
    simpa using hlast.not.2 (by simp)

/-! ## Many entries -/

/-- Below a place stand the given directories and files, and all else is as it was. -/
structure Leaves (l : Loc) (ns : List (Loc × Item)) (w w' : World) : Prop where
  shown : w'.shown = w.shown
  there : ∀ e ∈ ns, w'.disk.get? (l ++ e.1) = some e.2
  elsewhere : ∀ k, (∀ e ∈ ns, k ≠ l ++ e.1) → w'.disk.get? k = w.disk.get? k

theorem Adds.leaves {a : Loc} {ns : List (Loc × Item)} {w'' : World} (h : Adds (l ++ a) i w w')
    (ha : ∀ e ∈ ns, a ≠ e.1) (h' : Leaves l ns w' w'') : Leaves l ((a, i) :: ns) w w'' where
  shown := h'.shown.trans h.shown
  there e he := by
    rcases List.mem_cons.1 he with rfl | he
    · rw [h'.elsewhere _ fun e he heq => ha e he (List.append_cancel_left heq), h.get?, if_pos rfl]
    · exact h'.there e he
  elsewhere k hk := by
    obtain ⟨hka, hk⟩ := List.forall_mem_cons.1 hk
    rw [h'.elsewhere k hk, h.get?, if_neg hka]

/-- The first entry makes its place, and the others go on in the world it leaves. -/
theorem unpackAll_cons_node (hr : ∀ c q, s.refuses c q = false) (hl : Path.leadingSlashes p = 1)
    {b : Loc} {ns : List (Loc × Item)} (hs : w.disk.Sound) (h : w.disk.Root p l)
    (hb : ∀ y ∈ b ++ [x], IsName y) (hd : w.disk.isDirectory (l ++ b) = true)
    (hi : i = .directory ∨ ∃ c, i = .file c)
    (hp : Pending s r p l ((b ++ [x], i) :: ns) w.disk)
    (rest : ∀ w', Adds (l ++ (b ++ [x])) i w w' → w.disk.Keeps w'.disk →
      Leaves l ns w' (unpackAll s r p (ns.map fun e => (Member.ofNode e).entry) w').2) :
    Leaves l ((b ++ [x], i) :: ns) w
      (unpackAll s r p (((b ++ [x], i) :: ns).map fun e => (Member.ofNode e).entry) w).2 := by
  obtain ⟨w', hrun, hadd⟩ := unpackEntry_node hr hs h hb hd hi hp
  have hlink : ∀ t, i ≠ .link t := by
    rcases hi with rfl | ⟨c, rfl⟩ <;> simp
  rw [List.map_cons, run_unpackAll_cons (target?_ofNode hl hb (by simp) i) hrun]
  exact hadd.leaves (List.pairwise_cons.1 hp.apart).1
    (rest w' hadd (hadd.keeps (hp.free _ List.mem_cons_self) hlink))

/-- Directories and files come out below a place where none of them stands yet, and nothing else
does. -/
theorem unpackAll_nodes (hr : ∀ c q, s.refuses c q = false) (hl : Path.leadingSlashes p = 1)
    {there : List Loc} {ns : List (Loc × Item)} (hns : ParentsFirst there ns) :
    ∀ {w : World}, (∀ b ∈ there, (∀ y ∈ b, IsName y) ∧ w.disk.isDirectory (l ++ b) = true) →
      w.disk.Sound → w.disk.Root p l → Pending s r p l ns w.disk →
      Leaves l ns w (unpackAll s r p (ns.map fun e => (Member.ofNode e).entry) w).2 := by
  induction hns with
  | nil =>
    intro w _ _ _ _
    exact ⟨rfl, by simp, fun _ _ => rfl⟩
  | directory hb hx _ ih =>
    intro w ht hs h hp
    have hbx := forall_isName_concat (ht _ hb).1 hx
    refine unpackAll_cons_node hr hl hs h hbx (ht _ hb).2 (.inl rfl) hp fun w' hadd hkeep => ?_
    refine ih (List.forall_mem_cons.2 ⟨⟨hbx, ?_⟩, fun c hc => ?_⟩) hadd.sound (h.of_keeps hkeep)
      (hp.tail hadd)
    · rw [Disk.isDirectory_iff, hadd.get?, if_pos rfl]
    · exact ⟨(ht c hc).1, hkeep.directory (ht c hc).2⟩
  | file hb hx _ ih =>
    intro w ht hs h hp
    have hbx := forall_isName_concat (ht _ hb).1 hx
    refine unpackAll_cons_node hr hl hs h hbx (ht _ hb).2 (.inr ⟨_, rfl⟩) hp fun w' hadd hkeep => ?_
    exact ih (fun c hc => ⟨(ht c hc).1, hkeep.directory (ht c hc).2⟩) hadd.sound (h.of_keeps hkeep)
      (hp.tail hadd)

end Unpacking

end FileShell
