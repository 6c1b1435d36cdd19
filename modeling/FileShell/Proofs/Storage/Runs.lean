import FileShell.Archive.Unpacking
import FileShell.Storage.Tree

/-!
# Running actions

What an action gives and leaves when it runs in a world, first for the ways to put actions
together and then for the calls of a storage, one equation each. Later proofs use the equations
and do not open the calls.
-/

namespace FileShell

variable {σ ε ε' α β : Type}

/-! ## Actions that cannot fail -/

@[simp] theorem run_bind (m : StateM σ α) (f : α → StateM σ β) (w : σ) :
    (m >>= f) w = f (m w).1 (m w).2 := rfl

@[simp] theorem run_pure (a : α) (w : σ) : (pure a : StateM σ α) w = (a, w) := rfl

@[simp] theorem run_map (f : α → β) (m : StateM σ α) (w : σ) :
    (f <$> m) w = (f (m w).1, (m w).2) := rfl

@[simp] theorem run_get (w : σ) : (get : StateM σ σ) w = (w, w) := rfl

@[simp] theorem run_modify (f : σ → σ) (w : σ) :
    (modify f : StateM σ PUnit) w = (⟨⟩, f w) := rfl

/-! ## Actions that may fail -/

namespace Act

@[simp] theorem run_bind (m : ExceptT ε (StateM σ) α) (f : α → ExceptT ε (StateM σ) β) (w : σ) :
    (m >>= f).run w = match m.run w with
      | (.ok a, w') => (f a).run w'
      | (.error e, w') => (.error e, w') := by
  show (match (m w).1 with
    | .ok a => (f a).run
    | .error e => pure (.error e)) (m w).2 = _
  rcases h : m w with ⟨a | a, w'⟩ <;> simp [ExceptT.run, h]

@[simp] theorem run_pure (a : α) (w : σ) :
    (pure a : ExceptT ε (StateM σ) α).run w = (.ok a, w) := rfl

@[simp] theorem run_throw (e : ε) (w : σ) :
    (throw e : ExceptT ε (StateM σ) α).run w = (.error e, w) := rfl

@[simp] theorem run_get (w : σ) : (get : ExceptT ε (StateM σ) σ).run w = (.ok w, w) := rfl

@[simp] theorem run_modify (f : σ → σ) (w : σ) :
    (modify f : ExceptT ε (StateM σ) PUnit).run w = (.ok ⟨⟩, f w) := rfl

@[simp] theorem run_lift (m : StateM σ α) (w : σ) :
    (liftM m : ExceptT ε (StateM σ) α).run w = (.ok (m w).1, (m w).2) := rfl

theorem run_ite (c : Prop) [Decidable c] (m m' : ExceptT ε (StateM σ) α) (w : σ) :
    (if c then m else m').run w = if c then m.run w else m'.run w := by
  split <;> rfl

@[simp] theorem mapError_ok (f : ε → ε') (a : α) : (Except.ok a).mapError f = .ok a := rfl

@[simp] theorem mapError_error (f : ε → ε') (e : ε) :
    (Except.error e : Except ε α).mapError f = .error (f e) := rfl

theorem run_adapt (m : Act ε α) (f : ε → ε') (w : World) :
    (show Act ε' α from m.adapt f).run w = ((m.run w).1.mapError f, (m.run w).2) := rfl

theorem run_failingWith (m : Act ε α) (e : ε') (w : World) :
    (m.failingWith e).run w = ((m.run w).1.mapError fun _ => e, (m.run w).2) := rfl

end Act

theorem run_showLine (t : Text) (w : World) :
    showLine t w = ((), { w with shown := w.shown ++ t ++ ['\n'] }) := rfl

theorem run_showLines : ∀ (ts : List Text) (w : World),
    ts.foldl (fun w t => (showLine t w).2) w = { w with shown := w.shown ++ Text.unlines ts }
  | [], w => by simp [Text.unlines]
  | t :: ts, w => by
    rw [List.foldl_cons, run_showLines ts, Text.unlines_cons]
    simp [run_showLine]

theorem run_orShow (m : Act ε Unit) (line : Text) (w : World) :
    m.orShow line w = match m.run w with
      | (.ok (), w') => ((), w')
      | (.error _, w') => ((), { w' with shown := w'.shown ++ line ++ ['\n'] }) := by
  unfold Act.orShow
  rw [run_bind]
  rcases m.run w with ⟨_ | _, w'⟩ <;> rfl

theorem run_reporting (m : Act StorageError Unit) (line : Text) (w : World) :
    (m.reporting line).run w = match m.run w with
      | (.ok (), w') => (.ok (), w')
      | (.error (.stopped r), w') => (.error (.stopped r), w')
      | (.error _, w') => (.ok (), { w' with shown := w'.shown ++ line ++ ['\n'] }) := by
  unfold Act.reporting
  have hkept : (ExceptT.lift m.run : Act StorageError (Except StorageError Unit)).run w =
      (.ok (m.run w).1, (m.run w).2) := rfl
  rw [Act.run_bind, hkept]
  rcases m.run w with ⟨e | ⟨⟩, w'⟩
  · cases e <;> rfl
  · rfl

/-- A failure that is no stop is shown as a line. -/
theorem run_reporting_error {m : Act StorageError Unit} {w w' : World} {e : StorageError}
    (h : m.run w = (.error e, w')) (he : ∀ r, e ≠ .stopped r) (line : Text) :
    (m.reporting line).run w = (.ok (), { w' with shown := w'.shown ++ line ++ ['\n'] }) := by
  rw [run_reporting, h]
  cases e with
  | stopped r => exact absurd rfl (he r)
  | _ => rfl

theorem run_forM (f : α → StateM World PUnit) :
    ∀ (l : List α) (w : World), l.forM f w = (⟨⟩, l.foldl (fun w a => (f a w).2) w)
  | [], _ => rfl
  | a :: l, w => run_forM f l (f a w).2

theorem Act.run_forM_cons (f : α → ExceptT ε (StateM σ) PUnit) (a : α) (l : List α) (w : σ) :
    ((a :: l).forM f).run w = match (f a).run w with
      | (.ok _, w') => (l.forM f).run w'
      | (.error e, w') => (.error e, w') := by
  show (f a >>= fun _ => l.forM f).run w = _
  rw [Act.run_bind]
  rcases (f a).run w with ⟨_ | _, w'⟩ <;> rfl

/-- Loops do the same if their steps do, as long as none of them fails in a certain way. -/
theorem Act.run_forM_congr {f g : α → ExceptT ε (StateM σ) PUnit} {e : ε}
    (h : ∀ a w, ((f a).run w).1 ≠ .error e → (g a).run w = (f a).run w) :
    ∀ (l : List α) (w : σ), ((l.forM f).run w).1 ≠ .error e →
      (l.forM g).run w = (l.forM f).run w
  | [], _, _ => rfl
  | a :: l, w, hl => by
    rw [Act.run_forM_cons] at hl ⊢
    have ha : ((f a).run w).1 ≠ .error e := by
      rcases hf : (f a).run w with ⟨e' | x, w'⟩
      · rwa [hf] at hl
      · exact nofun
    rw [Act.run_forM_cons, h a w ha]
    rcases hf : (f a).run w with ⟨e' | x, w'⟩
    · rfl
    · rw [hf] at hl
      exact Act.run_forM_congr h l w' hl

/-- A loop whose steps never fail is a loop over worlds. -/
theorem Act.run_forM_ok {f : α → ExceptT ε (StateM σ) PUnit} {g : σ → α → σ} :
    ∀ (l : List α), (∀ a ∈ l, ∀ w, (f a).run w = (.ok ⟨⟩, g w a)) → ∀ w : σ,
      (l.forM f).run w = (.ok ⟨⟩, l.foldl g w)
  | [], _, _ => rfl
  | a :: l, h, w => by
    rw [Act.run_forM_cons, h a List.mem_cons_self]
    exact Act.run_forM_ok l (fun b hb => h b (List.mem_cons_of_mem a hb)) (g w a)

/-- A loop whose steps cannot fail is a loop over worlds. -/
theorem Act.run_forM_lift (f : α → StateM World PUnit) :
    ∀ (l : List α) (w : World),
      (l.forM fun a => (liftM (f a) : Act ε PUnit)).run w =
        (.ok ⟨⟩, l.foldl (fun w a => (f a w).2) w) := fun l =>
  Act.run_forM_ok l fun _ _ _ => rfl

/-! ## The calls of a storage -/

/-- A directory is made as the disk makes it, if not too many are missing above it. -/
theorem Storage.making_eq {s : Storage} {d : Disk} {p : Path} (h : d.missingAbove p ≤ s.nests)
    (existOk : Bool) : s.making existOk d p = d.makeDirs existOk p := by
  rw [making, if_neg (Nat.not_lt.2 h)]

/-- What holds of a disk as it is and with the directories made holds once they were asked for. -/
theorem Storage.making_disk {P : Disk → Prop} {s : Storage} {d : Disk} {p : Path} {existOk : Bool}
    (h : P d) (hmade : P (d.makeDirs existOk p).2) : P (s.making existOk d p).2 := by
  unfold making
  split
  · exact h
  · exact hmade

/-- Bytes on a disk can be asked for in requests of the chosen size. -/
def Storage.Serves (s : Storage) : Prop :=
  Stream.request s.chunk < s.memory ∧ Stream.request s.chunk < Stream.wordLimit

instance (s : Storage) : Decidable s.Serves :=
  inferInstanceAs (Decidable (Stream.request s.chunk < s.memory ∧
    Stream.request s.chunk < Stream.wordLimit))

/-- Bytes on a disk come through as a whole, or not at all if the requests are too large. -/
theorem Storage.drain_ofFile (s : Storage) (b : Bytes) :
    (Stream.ofFile s.memory b).drain s.chunk = if s.Serves then (b, true) else ([], false) := by
  by_cases h : s.Serves
  · rw [if_pos h, Stream.drain_of_holds (if_pos h)]
    rfl
  · rw [if_neg h, Stream.drain_of_fails (if_neg h)]

/-- The bytes of the file at a location; none if there is no file. -/
def Disk.heldAt (d : Disk) (l : Loc) : Bytes :=
  match d.bytesAt l with
  | .ok b => b
  | .error _ => []

namespace Storage

theorem run_allow (s : Storage) (c : Call) (p : Path) (e : ε) (w : World) :
    (s.allow c p e).run w = (if s.refuses c p then .error e else .ok (), w) := by
  unfold allow
  split <;> rfl

theorem run_ask (f : Disk → Except DiskError α) (e : ε) (w : World) :
    (ask f e).run w = ((f w.disk).mapError fun _ => e, w) := by
  unfold ask
  rw [Act.run_bind, Act.run_get]
  rcases h : f w.disk with x | a <;> simp [h]

theorem run_list (s : Storage) (p : Path) (w : World) : (s.list p).run w =
    (if s.refuses .list p then .error .refused else (w.disk.list p).mapError fun _ => .list p, w) := by
  unfold list
  rw [Act.run_bind, run_allow]
  rcases s.refuses .list p
  · exact run_ask _ _ w
  · rfl

theorem run_change (f : Disk → Except DiskError Disk) (e : ε) (w : World) :
    (change f e).run w = match f w.disk with
      | .ok d => (.ok (), { w with disk := d })
      | .error _ => (.error e, w) := by
  unfold change
  rw [Act.run_bind, Act.run_get]
  rcases h : f w.disk with x | d <;> simp [h]

theorem run_removeDir (s : Storage) (p : Path) (w : World) : (s.removeDir p).run w =
    if s.refuses .removeDir p then (.error .refused, w)
    else match w.disk.removeDir p with
      | .ok d => (.ok (), { w with disk := d })
      | .error _ => (.error (.removeDir p), w) := by
  unfold removeDir
  rw [Act.run_bind, run_allow]
  rcases s.refuses .removeDir p
  · exact run_change _ _ w
  · rfl

theorem run_makeDirs (s : Storage) (p : Path) (existOk : Bool) (w : World) :
    (s.makeDirs p existOk).run w =
      if s.refuses .makeDirs p then (.error .refused, w)
      else ((s.making existOk w.disk p).1.mapError fun _ => .makeDir p,
        { w with disk := (s.making existOk w.disk p).2 }) := by
  unfold makeDirs
  rw [Act.run_bind, run_allow]
  rcases s.refuses .makeDirs p
  · simp only [Bool.false_eq_true, if_false, Act.run_bind, Act.run_get, Act.run_modify]
    rcases s.making existOk w.disk p with ⟨_ | ⟨⟩, d⟩ <;> rfl
  · rfl

/-- Directories are made as the disk makes them, or it is not even tried. -/
theorem run_makeDirs_or (s : Storage) (p : Path) (existOk : Bool) (w : World) :
    (∃ e, (∀ r, e ≠ .stopped r) ∧ (s.makeDirs p existOk).run w = (.error e, w)) ∨
      (s.makeDirs p existOk).run w = ((w.disk.makeDirs existOk p).1.mapError fun _ => .makeDir p,
        { w with disk := (w.disk.makeDirs existOk p).2 }) := by
  rw [run_makeDirs]
  split
  · exact .inl ⟨.refused, nofun, rfl⟩
  · unfold making
    split
    · exact .inl ⟨.makeDir p, nofun, rfl⟩
    · exact .inr rfl

theorem run_openWrite (p : Path) (e : ε) (w : World) :
    (openWrite p e).run w = match w.disk.locateWrite p with
      | .ok l => (.ok l, { w with disk := w.disk.write l [] })
      | .error _ => (.error e, w) := by
  unfold openWrite
  simp only [Act.run_bind, run_ask]
  rcases w.disk.locateWrite p with x | l <;> simp

theorem linksWithin_mono {n m : Nat} (h : n ≤ m) : linksWithin n ≤ linksWithin m :=
  Nat.add_le_add_left h _

theorem le_linksWithin (n : Nat) : n ≤ linksWithin n := Nat.le_add_left n _

theorem run_samePath (n : Nat) (p q : Path) (w : World) : (samePath n p q).run w =
    ((w.disk.samePath (linksWithin n) p q).mapError fun e => .stopped (.ofDisk e), w) := by
  unfold samePath
  rw [Act.run_bind, Act.run_get]
  dsimp only
  rcases w.disk.samePath (linksWithin n) p q with e | same <;> rfl

theorem run_pathExists (p : Path) (w : World) : pathExists p w = (w.disk.pathExists p, w) := rfl

theorem run_isDir (p : Path) (w : World) : isDir p w = (w.disk.isDir p, w) := rfl

theorem run_isFile (p : Path) (w : World) : isFile p w = (w.disk.isFile p, w) := rfl

theorem run_put (l : Loc) (b : Bytes) (w : World) :
    put l b w = ((), { w with disk := w.disk.write l b }) := rfl

theorem run_writeStream (s : Storage) (p : Path) (source : Stream) (w : World) :
    (s.writeStream p source).run w =
      if s.refuses .writeStream p then (.error .refused, w)
      else match w.disk.locateWrite p with
        | .error _ => (.error (.write p), w)
        | .ok l => (if (source.drain s.chunk).2 then .ok () else .error (.write p),
            { w with disk := (w.disk.write l []).write l (source.drain s.chunk).1 }) := by
  unfold writeStream
  rw [Act.run_bind, run_allow]
  rcases s.refuses .writeStream p
  · simp only [Bool.false_eq_true, if_false, Act.run_bind, run_openWrite]
    rcases w.disk.locateWrite p with x | l
    · rfl
    · simp only [Act.run_lift, run_put]
      rcases source.drain s.chunk with ⟨b, _ | _⟩ <;> rfl
  · rfl

theorem run_write (s : Storage) (p : Path) (t : Text) (append : Bool) (w : World) :
    (s.write p t append).run w =
      if s.refuses .write p then (.error .refused, w)
      else match w.disk.locateWrite p with
        | .error _ => (.error (.write p), w)
        | .ok l => (.ok (), { w with
            disk := w.disk.write l ((if append then w.disk.heldAt l else []) ++ Utf8.encode t) }) := by
  unfold write Disk.heldAt
  rw [Act.run_bind, run_allow]
  rcases s.refuses .write p
  · simp only [Bool.false_eq_true, if_false, Act.run_bind, run_ask]
    rcases w.disk.locateWrite p with x | l
    · rfl
    · rcases hb : w.disk.bytesAt l with e | b <;>
        simp only [Act.mapError_ok, Act.run_get, Act.run_lift, run_put, hb]
  · rfl

theorem run_copy (s : Storage) (p q : Path) (w : World) :
    (s.copy p q).run w =
      if s.refuses .copy p then (.error .refused, w)
      else match (w.disk.locate true p).bind fun l => (w.disk.bytesAt l).map fun _ => l with
        | .error _ => (.error (.copy p q), w)
        | .ok l => match w.disk.locateWrite q with
          | .error _ => (.error (.copy p q), w)
          | .ok m => match (w.disk.write m []).bytesAt l with
            | .error _ => (.error (.copy p q), { w with disk := w.disk.write m [] })
            | .ok b =>
              let r := (Stream.ofFile s.memory b).drain s.chunk
              (if r.2 then .ok () else .error (.copy p q),
                { w with disk := (w.disk.write m []).write m r.1 }) := by
  unfold copy
  rw [Act.run_bind, run_allow]
  rcases s.refuses .copy p
  · simp only [Bool.false_eq_true, if_false, Act.run_bind, run_ask]
    rcases hl : w.disk.locate true p with e | l
    · rfl
    rcases hb : w.disk.bytesAt l with e | b
    · simp [bind, Except.bind, hb, Except.map]
    simp only [bind, Except.bind, hb, Act.mapError_ok, Except.map, pure, Except.pure, run_openWrite]
    rcases w.disk.locateWrite q with e | m
    · rfl
    simp only
    rcases (w.disk.write m []).bytesAt l with e | b
    · rfl
    · simp only [Act.mapError_ok, Act.run_lift, run_put]
      rcases (Stream.ofFile s.memory b).drain s.chunk with ⟨b, _ | _⟩ <;> rfl
  · rfl

end Storage

end FileShell
