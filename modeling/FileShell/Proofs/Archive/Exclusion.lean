import FileShell.Proofs.Archive.Effects
import FileShell.Proofs.Archive.Items
import FileShell.Proofs.Disk.Alike
import FileShell.Proofs.Disk.Nulls

/-!
# What packing goes through

Packing goes from place to place: to the items, and from a directory to what is in it, links or
not. A `Walk` says where it goes and which files it takes in, and knows of no depth. Every packing
is a walk (`Opened.exists_walk`): a path grows on the way down, and what has too long a path is no
directory. On a walk each file is told apart from the archive by its real path, which fails for no
path that leads anywhere, so no file that is taken in is the archive (`Walk.sources_ne`), and what
the archive holds makes no difference (`Same.addItem_eq`). All is put together in `pack_excludes`,
for any disk and any calls that are refused.
-/

namespace FileShell

theorem Disk.isDir_of_maxPath_lt {d : Disk} {p : Path} (h : maxPath < p.byteSize) :
    d.isDir p = false := by
  rw [Bool.eq_false_iff]
  intro hd
  obtain ⟨l, hl, -⟩ := isDir_iff.1 hd
  have := (checkPath_eq_ok_iff.1 (locate_eq_ok_iff.1 hl).1).2.2
  omega

/-! ## What the writer is given -/

namespace Writer

variable (s : Storage) (d : Disk) (w : Writer) (source : Path) (name : Text)

theorem exists_addDirectory : ∃ ms, (w.addDirectory s name).2 =
    { w with members := w.members ++ ms } ∧ ∀ m ∈ ms, m.isDir = true ∧ m.bytes = [] := by
  have hnone : w = { w with members := w.members ++ [] } := by rw [List.append_nil]
  unfold addDirectory
  dsimp only
  split_ifs
  · exact ⟨[], hnone, fun m hm => by cases hm⟩
  · exact ⟨[], hnone, fun m hm => by cases hm⟩
  · refine ⟨_, rfl, fun m hm => ?_⟩
    rw [List.mem_singleton.1 hm]
    exact ⟨rfl, rfl⟩

theorem exists_addFile : ∃ ms, (w.addFile s d source name).2 =
    { w with members := w.members ++ ms } ∧
      ∀ m ∈ ms, m.isDir = false ∧ ∃ b, d.read source = .ok b ∧ m.bytes <+: b := by
  have hnone : w = { w with members := w.members ++ [] } := by rw [List.append_nil]
  unfold addFile
  dsimp only
  by_cases hr : s.refuses .addFile source = true
  · rw [if_pos hr]
    exact ⟨[], hnone, fun m hm => by cases hm⟩
  rw [if_neg hr]
  rcases hb : d.read source with e | b
  · exact ⟨[], hnone, fun m hm => by cases hm⟩
  dsimp only
  by_cases hc : (w.closed || (Text.trimStart (· == '/') (Path.normalize name)).isEmpty ||
      maxName < (storedName (Text.trimStart (· == '/') (Path.normalize name))).byteSize) = true
  · rw [if_pos hc]
    exact ⟨[], hnone, fun m hm => by cases hm⟩
  rw [if_neg hc]
  refine ⟨_, rfl, fun m hm => ?_⟩
  rw [List.mem_singleton.1 hm]
  refine ⟨rfl, b, rfl, ?_⟩
  dsimp only
  rw [Storage.drain_ofFile]
  split_ifs
  · exact List.prefix_rfl
  · exact List.nil_prefix

variable {s d w source}

theorem addFile_congr {d' : Disk} (h : ∀ b, d.read source = .ok b ↔ d'.read source = .ok b) :
    w.addFile s d source name = w.addFile s d' source name := by
  unfold addFile
  rcases hb : d.read source with e | b
  · rcases hb' : d'.read source with e' | b'
    · rfl
    · rw [(h b').2 hb'] at hb
      cases hb
  · rw [(h b).1 hb]

end Writer

namespace Packing

variable {c : Setting} {recursive : Bool} {out : Loc} {k k' : Packing} {path : Path}
  {name label : Text}

theorem writer_note (k : Packing) (label : Text) (r : Except ArchiveError Entry × Writer) :
    (k.note label r).writer = r.2 := by
  obtain ⟨_ | _, w⟩ := r <;> rfl

/-! ## Walks -/

/-- Where packing goes: to an item that was asked for, or to what stands at a path. -/
inductive Visit
  | item (i : PackItem)
  | spot (path : Path) (name label : Text)

def Visit.child (path : Path) (name label x : Text) : Visit :=
  .spot (path.join x) (Entry.joinParts [name, x]) (Entry.joinParts [label, x])

/-- Packing goes to the places in order, and takes in the files at certain paths. -/
inductive Walk (c : Setting) (recursive : Bool) :
    List Visit → Packing → List Path → Packing → Prop
  | done {k : Packing} : Walk c recursive [] k [] k
  | missing {i : PackItem} {vs : List Visit} {k k' : Packing} {ps : List Path} :
      c.disk.pathExists i.path = false →
      Walk c recursive vs
        (k.say ("Warning: ".toList ++ i.label ++ " does not exist, skipping".toList)) ps k' →
      Walk c recursive (.item i :: vs) k ps k'
  | passed {i : PackItem} {vs : List Visit} {k k' : Packing} {ps : List Path} :
      c.disk.pathExists i.path = true → c.disk.isDir i.path = true ∧ recursive = false ∨
        c.disk.isDir i.path = false ∧ c.disk.isFile i.path = false →
      Walk c recursive vs k ps k' → Walk c recursive (.item i :: vs) k ps k'
  | tree {i : PackItem} {vs : List Visit} {k k' : Packing} {ps : List Path} :
      c.disk.isDir i.path = true → recursive = true →
      Walk c recursive (.spot i.path (Path.baseName i.path.normalize) i.label :: vs) k ps k' →
      Walk c recursive (.item i :: vs) k ps k'
  | single {i : PackItem} {vs : List Visit} {k k' : Packing} {ps : List Path} :
      c.disk.isDir i.path = false → c.disk.isFile i.path = true →
      Walk c recursive (.spot i.path (Path.baseName i.path) i.label :: vs) k ps k' →
      Walk c recursive (.item i :: vs) k ps k'
  | refused {path : Path} {name label : Text} {vs : List Visit} {k k' : Packing} {ps : List Path}
      {e : ArchiveError} {w : Writer} :
      c.disk.isDir path = true → k.writer.addDirectory c.storage name = (.error e, w) →
      Walk c recursive vs (k.note label (.error e, w)) ps k' →
      Walk c recursive (.spot path name label :: vs) k ps k'
  | directory {path : Path} {name label : Text} {vs : List Visit} {k k' : Packing}
      {ps : List Path} {e : Entry} {w : Writer} :
      c.disk.isDir path = true → k.writer.addDirectory c.storage name = (.ok e, w) →
      Walk c recursive ((c.storage.namesIn c.disk path).map (.child path name label) ++ vs)
        (k.note label (.ok e, w)) ps k' →
      Walk c recursive (.spot path name label :: vs) k ps k'
  | archive {path : Path} {name label : Text} {vs : List Visit} {k k' : Packing}
      {ps : List Path} :
      c.disk.isDir path = false → c.disk.isSame path c.archive = true →
      Walk c recursive vs k ps k' → Walk c recursive (.spot path name label :: vs) k ps k'
  | file {path : Path} {name label : Text} {vs : List Visit} {k k' : Packing} {ps : List Path} :
      c.disk.isDir path = false → c.disk.isSame path c.archive = false →
      Walk c recursive vs (k.note label (k.writer.addFile c.storage c.disk path name)) ps k' →
      Walk c recursive (.spot path name label :: vs) k (path :: ps) k'

/-- What is done at a place, down to a depth. -/
def see (c : Setting) (depth : Nat) (path : Path) (name label : Text) (k : Packing) : Packing :=
  if c.disk.isDir path then addTree c depth path name label k else addFile c path name label k

theorem see_of_isDir (hd : c.disk.isDir path = true) (depth : Nat) (name label : Text)
    (k : Packing) : see c depth path name label k = addTree c depth path name label k := if_pos hd

theorem see_of_not_isDir (hd : c.disk.isDir path = false) (depth : Nat) (name label : Text)
    (k : Packing) : see c depth path name label k = addFile c path name label k :=
  if_neg (Bool.eq_false_iff.1 hd)

theorem addTree_succ (c : Setting) (depth : Nat) (path : Path) (name label : Text) (k : Packing) :
    addTree c (depth + 1) path name label k =
      match k.writer.addDirectory c.storage name with
      | (.error e, w) => k.note label (.error e, w)
      | (.ok e, w) => (c.storage.namesIn c.disk path).foldl (fun k x =>
          see c depth (path.join x) (Entry.joinParts [name, x]) (Entry.joinParts [label, x]) k)
          (k.note label (.ok e, w)) := by
  rw [addTree]
  rcases k.writer.addDirectory c.storage name with ⟨_ | e, w⟩ <;> rfl

/-- A step of packing that is what packing does at a place. -/
def Sees (c : Setting) (recursive : Bool) (v : Visit) (f : Packing → Packing) : Prop :=
  ∀ {k k' : Packing} {vs : List Visit} {ps : List Path}, Walk c recursive vs (f k) ps k' →
    ∃ qs, Walk c recursive (v :: vs) k (qs ++ ps) k'

theorem exists_walk_foldl {α : Type} {f : Packing → α → Packing} {v : α → Visit} {xs : List α}
    (h : ∀ x ∈ xs, Sees c recursive (v x) (f · x)) {vs : List Visit} {ps : List Path}
    {k k' : Packing} (hw : Walk c recursive vs (xs.foldl f k) ps k') :
    ∃ qs, Walk c recursive (xs.map v ++ vs) k (qs ++ ps) k' := by
  induction xs generalizing k with
  | nil => exact ⟨[], hw⟩
  | cons x xs ih =>
    obtain ⟨hx, h⟩ := List.forall_mem_cons.1 h
    obtain ⟨qs, hw⟩ := ih h hw
    obtain ⟨rs, hw⟩ := hx hw
    exact ⟨rs ++ qs, by rwa [List.append_assoc]⟩

theorem sees_file (hd : c.disk.isDir path = false) (name label : Text) :
    Sees c recursive (.spot path name label) (addFile c path name label) := by
  intro k k' vs ps hw
  unfold addFile at hw
  split_ifs at hw with hsame
  · exact ⟨[], .archive hd hsame hw⟩
  · exact ⟨[path], .file hd (Bool.eq_false_iff.2 hsame) hw⟩

/-- A place is seen to its end, if the depth is not less than its path can still grow. -/
theorem sees_spot (hs : c.disk.Sound) : ∀ (depth : Nat) {path : Path} (name label : Text),
    Disk.maxPath < path.byteSize + depth →
    Sees c recursive (.spot path name label) (see c depth path name label) := by
  intro depth
  induction depth with
  | zero =>
    intro path name label hlt k k' vs ps hw
    have hd : c.disk.isDir path = false := Disk.isDir_of_maxPath_lt (by omega)
    rw [see_of_not_isDir hd] at hw
    exact sees_file hd name label hw
  | succ depth ih =>
    intro path name label hlt k k' vs ps hw
    rcases hd : c.disk.isDir path with _ | _
    · rw [see_of_not_isDir hd] at hw
      exact sees_file hd name label hw
    rw [see_of_isDir hd, addTree_succ] at hw
    rcases ha : k.writer.addDirectory c.storage name with ⟨e | e, w⟩ <;> rw [ha] at hw
    · exact ⟨[], .refused hd ha hw⟩
    have hchild : ∀ x ∈ c.storage.namesIn c.disk path,
        Sees c recursive (.child path name label x) (see c depth (path.join x)
          (Entry.joinParts [name, x]) (Entry.joinParts [label, x])) := by
      intro x hx k k' vs ps hw
      have hname := hs.isName_of_mem_namesIn hx
      have hgrow := Path.byteSize_join_lt path hname.noSlash hname.plain.1
      exact ih _ _ (by omega) hw
    obtain ⟨qs, hw⟩ := exists_walk_foldl hchild hw
    exact ⟨qs, .directory hd ha hw⟩

theorem sees_item (hs : c.disk.Sound) (i : PackItem) :
    Sees c recursive (.item i) (addItem c recursive · i) := by
  intro k k' vs ps hw
  unfold addItem at hw
  rcases hex : c.disk.pathExists i.path with _ | _ <;> rw [hex] at hw
  · exact ⟨[], .missing hex hw⟩
  rcases hd : c.disk.isDir i.path with _ | _ <;> rw [hd] at hw
  · rcases hf : c.disk.isFile i.path with _ | _ <;> rw [hf] at hw
    · exact ⟨[], .passed hex (.inr ⟨hd, hf⟩) hw⟩
    · obtain ⟨qs, hw⟩ := sees_file hd _ i.label hw
      exact ⟨qs, .single hd hf hw⟩
  · cases recursive with
    | false => exact ⟨[], .passed hex (.inl ⟨hd, rfl⟩) hw⟩
    | true =>
      replace hw : Walk c true vs
          (see c depth i.path (Path.baseName i.path.normalize) i.label k) ps k' := by
        rw [see_of_isDir hd]
        exact hw
      obtain ⟨qs, hw⟩ := sees_spot hs depth _ i.label (by rw [depth]; omega) hw
      exact ⟨qs, .tree hd rfl hw⟩

/-- Packing is a walk through the items, and comes to its end. -/
theorem exists_walk (hs : c.disk.Sound) (recursive : Bool) (items : List PackItem) (k : Packing) :
    ∃ ps, Walk c recursive (items.map .item) k ps (items.foldl (addItem c recursive) k) := by
  have hitems : ∀ i ∈ items, Sees c recursive (.item i) (addItem c recursive · i) :=
    fun i _ => sees_item hs i
  obtain ⟨qs, hw⟩ := exists_walk_foldl hitems (k := k) .done
  rw [List.append_nil, List.append_nil] at hw
  exact ⟨qs, hw⟩

/-! ## What a walk takes in -/

/-- What packing needs to know of an archive that is open at `out`. -/
structure Opened (c : Setting) (out : Loc) : Prop where
  sound : c.disk.Sound
  fit : c.disk.LinksFit
  archive : c.disk.At c.archive out
  noNull : '\x00' ∉ c.archive

/-- What leads to the archive has its real path. -/
theorem Opened.isSame (h : Opened c out) (hl : c.disk.locate true path = .ok out) :
    c.disk.isSame path c.archive = true := by
  rw [Disk.isSame_eq_of_at (Disk.at_of_locate hl) h.archive h.sound.links h.fit
    (Disk.not_mem_of_locate hl) h.noNull, beq_self_eq_true]

namespace Walk

variable {vs : List Visit} {ps : List Path}

theorem isSame_eq_false (hw : Walk c recursive vs k ps k') :
    ∀ p ∈ ps, c.disk.isSame p c.archive = false := by
  induction hw with
  | done => exact fun p hp => by cases hp
  | missing _ _ ih | passed _ _ _ ih | tree _ _ _ ih | single _ _ _ ih | refused _ _ _ ih
  | directory _ _ _ ih | archive _ _ _ ih => exact ih
  | file _ hsame _ ih => exact List.forall_mem_cons.2 ⟨hsame, ih⟩

/-- No file that is taken in is the archive. -/
theorem sources_ne (h : Opened c out) (hw : Walk c recursive vs k ps k') :
    ∀ p ∈ ps, c.disk.locate true p ≠ .ok out := by
  intro p hp hl
  have := hw.isSame_eq_false p hp
  rw [h.isSame hl] at this
  cases this

/-- What is stored on a walk: directories, and what files hold that are taken in. -/
theorem members (hw : Walk c recursive vs k ps k') :
    ∃ ms, k'.writer = { k.writer with members := k.writer.members ++ ms } ∧
      ∀ m ∈ ms, m.isDir = true ∧ m.bytes = [] ∨
        ∃ p ∈ ps, ∃ b, c.disk.read p = .ok b ∧ m.bytes <+: b := by
  induction hw with
  | @done k => exact ⟨[], by rw [List.append_nil], fun m hm => by cases hm⟩
  | missing _ _ ih | passed _ _ _ ih | tree _ _ _ ih | single _ _ _ ih | archive _ _ _ ih =>
    exact ih
  | @refused _ name label _ k _ _ _ _ _ ha _ ih | @directory _ name label _ k _ _ _ _ _ ha _ ih =>
    obtain ⟨ms, hms, hdir⟩ := k.writer.exists_addDirectory c.storage name
    obtain ⟨ns, hns, hkept⟩ := ih
    rw [writer_note, ← ha, hms] at hns
    refine ⟨ms ++ ns, by rw [hns, List.append_assoc], fun m hm => ?_⟩
    rcases List.mem_append.1 hm with hm | hm
    · exact .inl (hdir m hm)
    · exact hkept m hm
  | @file path name label _ k _ _ _ _ _ ih =>
    obtain ⟨ms, hms, hfile⟩ := k.writer.exists_addFile c.storage c.disk path name
    obtain ⟨ns, hns, hkept⟩ := ih
    rw [writer_note, hms] at hns
    refine ⟨ms ++ ns, by rw [hns, List.append_assoc], fun m hm => ?_⟩
    rcases List.mem_append.1 hm with hm | hm
    · exact .inr ⟨path, List.mem_cons_self, (hfile m hm).2⟩
    · exact (hkept m hm).imp_right fun ⟨p, hp, hb⟩ => ⟨p, List.mem_cons_of_mem _ hp, hb⟩

end Walk

/-! ## What the archive holds -/

section

variable {c' : Setting}

/-- The same place of the same archive, which may hold other bytes. -/
structure Same (c c' : Setting) (out : Loc) : Prop where
  opened : Opened c out
  storage : c.storage = c'.storage
  archive : c.archive = c'.archive
  alike : c.disk.Alike c'.disk
  elsewhere : ∀ l ≠ out, c.disk.get? l = c'.disk.get? l

theorem Same.addFile_eq (h : Same c c' out) (path : Path) (name label : Text) :
    addFile c path name label = addFile c' path name label := by
  funext k
  unfold addFile
  rw [← h.alike.isSame_eq, ← h.archive, ← h.storage]
  rcases ha : c.disk.isSame path c.archive with _ | _
  · have hread : ∀ b, c.disk.read path = .ok b ↔ c'.disk.read path = .ok b := by
      refine fun b => h.alike.read_iff fun l hl => h.elsewhere l ?_
      rintro rfl
      rw [h.opened.isSame hl] at ha
      cases ha
    rw [Writer.addFile_congr name hread]
  · rfl

theorem Same.addTree_eq (h : Same c c' out) : ∀ (depth : Nat) (path : Path) (name label : Text),
    addTree c depth path name label = addTree c' depth path name label
  | 0, _, _, _ => rfl
  | depth + 1, path, name, label => by
    funext k
    rw [addTree_succ, addTree_succ, ← h.storage, h.alike.namesIn_eq]
    unfold see
    simp only [h.addTree_eq depth, h.addFile_eq, h.alike.isDir_eq]

theorem Same.addItem_eq (h : Same c c' out) (recursive : Bool) :
    addItem c recursive = addItem c' recursive := by
  funext k i
  unfold addItem
  rw [h.addTree_eq, h.addFile_eq, h.alike.pathExists_eq, h.alike.isDir_eq, h.alike.isFile_eq]

end

/-- An archive that could be opened, whatever bytes it holds by now. -/
theorem Opened.of_locateWrite (s : Storage) {d : Disk} {p : Path} (hs : d.Sound) (hfit : d.LinksFit)
    (hp : d.locateWrite p = .ok out) (b : Bytes) : Opened ⟨s, d.write out b, p⟩ out where
  sound := hs.write_of_locateWrite hp b
  fit := hfit.of_keeps (hs.keeps_write hp b)
  archive := by
    obtain ⟨-, hl, -⟩ := Disk.locateWrite_eq_ok_iff.1 hp
    exact (Disk.at_of_locate hl).of_keeps (hs.keeps_write hp b)
  noNull := Disk.not_mem_of_locate (Disk.locateWrite_eq_ok_iff.1 hp).2.1

theorem same_of_locateWrite (s : Storage) {d : Disk} {p : Path} (hs : d.Sound) (hfit : d.LinksFit)
    (hp : d.locateWrite p = .ok out) (b b' : Bytes) :
    Same ⟨s, d.write out b, p⟩ ⟨s, d.write out b', p⟩ out where
  opened := .of_locateWrite s hs hfit hp b
  storage := rfl
  archive := rfl
  alike := Disk.alike_write d (hs.of_locateWrite hp).1 b b'
  elsewhere l hl := by
    have hne := (hs.of_locateWrite hp).1
    rw [Disk.get?_write b hne, Disk.get?_write b' hne, if_neg fun h => hl h.1,
      if_neg fun h => hl h.1]

end Packing

/-- Where an archive is opened for writing, if it can be. -/
def Storage.opensAt? (s : Storage) (d : Disk) (p : Path) : Option Loc :=
  if s.refuses .openWriter p then none
  else match d.locateWrite p with
    | .ok l => some l
    | .error _ => none

section

variable {s : Storage} {w : World} {p : Path} {out : Loc} {items : List PackItem} {recursive : Bool}

theorem Storage.opensAt?_eq_some {d : Disk} (h : s.opensAt? d p = some out) :
    s.refuses .openWriter p = false ∧ d.locateWrite p = .ok out := by
  unfold opensAt? at h
  split_ifs at h with hr
  rcases hl : d.locateWrite p with e | l <;> rw [hl] at h
  · cases h
  · exact ⟨Bool.eq_false_iff.2 hr, congrArg Except.ok (Option.some.inj h)⟩

theorem run_pack_none (h : s.opensAt? w.disk p = none) (items : List PackItem) (recursive : Bool) :
    ∃ e, (∀ r, e ≠ .stopped r) ∧ (pack s p items recursive).run w = (.error e, w) := by
  unfold Storage.opensAt? at h
  unfold pack
  rw [Act.run_bind, Writer.run_openAt]
  split_ifs at h ⊢ with hr
  · exact ⟨.refused, nofun, rfl⟩
  · rcases hl : w.disk.locateWrite p with e | l
    · exact ⟨.create p, nofun, rfl⟩
    · rw [hl] at h
      cases h

theorem run_pack_some {k : Packing} (h : s.opensAt? w.disk p = some out)
    (hrun : (items.forM (Packing.packItem ⟨s, w.disk.write out [], p⟩ recursive)).run
      ⟨⟨out, [], false⟩, [], []⟩ = (.ok (), k)) :
    (pack s p items recursive).run w = (.ok k.added,
      (k.writer.close ⟨w.disk.write out [], w.shown ++ Text.unlines k.shown⟩).2) := by
  obtain ⟨hr, hl⟩ := Storage.opensAt?_eq_some h
  rw [run_pack_of_locateWrite hr hl, hrun]

/-- However packing ends, only the place of the archive is touched. -/
theorem get?_pack (hs : w.disk.Sound) {l : Loc} (h : s.opensAt? w.disk p ≠ some l) :
    ((pack s p items recursive).run w).2.disk.get? l = w.disk.get? l := by
  rcases hout : s.opensAt? w.disk p with _ | out
  · obtain ⟨e, -, he⟩ := run_pack_none hout items recursive
    rw [he]
  · have hl : l ≠ out := by
      rintro rfl
      exact h hout
    obtain ⟨hr, hp⟩ := Storage.opensAt?_eq_some hout
    have hne := (hs.of_locateWrite hp).1
    have hplace := Packing.place_forM (fun i => Packing.place_packItem
      (c := ⟨s, w.disk.write out [], p⟩) recursive i) items ⟨⟨out, [], false⟩, [], []⟩
    rw [run_pack_of_locateWrite hr hp]
    dsimp only
    rw [Writer.disk_close, hplace]
    split_ifs
    · rw [Disk.get?_write _ hne, if_neg fun h => hl h.1]
    · rw [Disk.get?_write _ hne, if_neg fun h => hl h.1, Disk.get?_write _ hne,
        if_neg fun h => hl h.1]

/-- Packing comes to its end if there is room for the directories that lie one inside the other and
for the links that nest. -/
theorem pack_ne_stopped {links levels : Nat} (hs : w.disk.Sound) (hl : w.disk.LinksNest links)
    (hb : ∀ i ∈ items, recursive = true →
      ((pack s p items recursive).run w).2.disk.NestsBelow i.path levels)
    (hn : levels + links ≤ s.nests) (r : Stop) :
    ((pack s p items recursive).run w).1 ≠ .error (.stopped r) := by
  rcases hout : s.opensAt? w.disk p with _ | out
  · obtain ⟨e, hne, he⟩ := run_pack_none hout items recursive
    rw [he]
    exact fun h => hne r (Except.error.inj h)
  · have hp := (Storage.opensAt?_eq_some hout).2
    have hgains := hs.keeps_of_gains (only_pack s p items recursive w)
    rw [run_pack_some hout (Packing.run_packItems_of_linksNest
      (c := ⟨s, w.disk.write out [], p⟩) (hs.write_of_locateWrite hp [])
      (Disk.not_mem_of_locate (Disk.locateWrite_eq_ok_iff.1 hp).2.1)
      (hl.of_keeps (hs.keeps_write hp []))
      (fun i hi hr => ((hb i hi hr).of_keeps hgains).of_keeps (hs.keeps_of_write hp [])) hn _)]
    exact nofun

end

/-- Nothing but the archive is made, changed or taken away, however packing ends, and nothing at all
if the archive cannot be opened. Packing comes to its end, whatever links there are, if links and
directories nest no deeper than calls may. If every link can be looked up by its own path, no file
that is taken in is the archive, and what the archive holds in the meantime does not matter. -/
theorem pack_excludes (s : Storage) {w : World} (hs : w.disk.Sound) (archive : Path)
    (items : List PackItem) (recursive : Bool) :
    (∀ l, s.opensAt? w.disk archive ≠ some l →
      ((pack s archive items recursive).run w).2.disk.get? l = w.disk.get? l) ∧
    (s.opensAt? w.disk archive = none →
      ∃ e, (∀ r, e ≠ .stopped r) ∧ (pack s archive items recursive).run w = (.error e, w)) ∧
    ∀ (out : Loc) (links levels : Nat), s.opensAt? w.disk archive = some out →
      w.disk.LinksNest links →
      (∀ i ∈ items, recursive = true → w.disk.NestsBelow i.path levels) → levels + links ≤ s.nests →
      let setting (b : Bytes) : Packing.Setting := ⟨s, w.disk.write out b, archive⟩
      let start : Packing := ⟨⟨out, [], false⟩, [], []⟩
      let d := w.disk.write out []
      ∃ (k : Packing) (sources : List Path) (d' : Disk),
        (pack s archive items recursive).run w =
          (.ok k.added, ⟨d', w.shown ++ Text.unlines k.shown⟩) ∧
        Packing.Walk (setting []) recursive (items.map .item) start sources k ∧
        (∀ m ∈ k.writer.members, m.isDir = true ∧ m.bytes = [] ∨
          ∃ p ∈ sources, ∃ b, d.read p = .ok b ∧ m.bytes <+: b) ∧
        d' = d.write out (Member.archive k.writer.members) ∧
        (w.disk.LinksFit →
          (∀ p ∈ sources, d.locate true p ≠ .ok out) ∧
          (∀ b, items.foldl (Packing.addItem (setting b) recursive) start = k) ∧
          d.realPath (Storage.linksWithin s.nests) false archive = .ok out.path) := by
  refine ⟨fun l => get?_pack hs, fun h => run_pack_none h items recursive,
    fun out links levels hout hl hb hn => ?_⟩
  have hp := (Storage.opensAt?_eq_some hout).2
  have hsound := hs.write_of_locateWrite hp []
  have hnull := Disk.not_mem_of_locate (Disk.locateWrite_eq_ok_iff.1 hp).2.1
  have hrun := run_pack_some hout (Packing.run_packItems_of_linksNest
    (c := ⟨s, w.disk.write out [], archive⟩) hsound hnull (hl.of_keeps (hs.keeps_write hp []))
    (fun i hi hr => (hb i hi hr).of_keeps (hs.keeps_of_write hp [])) hn _)
  obtain ⟨sources, hw⟩ := Packing.exists_walk (c := ⟨s, w.disk.write out [], archive⟩) hsound
    recursive items ⟨⟨out, [], false⟩, [], []⟩
  obtain ⟨ms, hms, hkept⟩ := hw.members
  refine ⟨_, sources, _, hrun.trans ?_, hw, ?_, rfl, fun hfit => ?_⟩
  · rw [hms]
    rfl
  · rw [hms]
    exact hkept
  · have hopened := Packing.Opened.of_locateWrite s hs hfit hp []
    refine ⟨hw.sources_ne hopened, fun b => ?_, ?_⟩
    · rw [(Packing.same_of_locateWrite s hs hfit hp b []).addItem_eq]
    · exact hopened.archive.realPath hopened.sound.links hopened.fit hopened.noNull
        (Nat.le_add_right _ _)

/-- Two directories, one with a link to itself, and a link to a link that leads into the other,
where nothing stands yet. -/
def warren : Disk where
  items := [
    (["d".toList], .directory),
    (["e".toList], .directory),
    (["e".toList, "s".toList], .link "s".toList),
    (["f".toList], .file [1]),
    (["k.zip".toList], .link "l.zip".toList),
    (["l.zip".toList], .link "d/out".toList)]

theorem sound_warren : warren.Sound := by
  refine Disk.sound_of_items (by decide) (by decide +kernel) fun e he t ht => ?_
  simp only [warren, List.mem_cons, List.not_mem_nil, or_false] at he
  rcases he with rfl | rfl | rfl | rfl | rfl | rfl <;> cases ht <;> decide

theorem linksFit_warren : warren.LinksFit := by
  refine Disk.linksFit_of_items fun e he t _ => ?_
  simp only [warren, List.mem_cons, List.not_mem_nil, or_false] at he
  rcases he with rfl | rfl | rfl | rfl | rfl | rfl <;> decide

/-- What is packed of it: both directories, the file, and both links by which the archive goes. -/
def wares : List PackItem :=
  ["d", "e", "f", "k.zip", "l.zip"].map fun t => ⟨t.toList, '/' :: t.toList⟩

/-- In one of the directories there is nothing, and the link in the other leads nowhere. -/
theorem nestsBelow_wares : ∀ i ∈ wares, true = true → warren.NestsBelow i.path 1 := by
  have none (p : Path) (hn : p ≠ []) (hp : warren.isDir p = false) (n : Nat) :
      warren.NestsBelow p n := Disk.nestsBelow_of_isDir_eq_false hn hp
  have one (x : Text) (hx : warren.At ('/' :: x) [x])
      (hd : ∀ y ∈ warren.childNames [x],
        y ≠ [] ∧ warren.isDir (Path.join ('/' :: x) y) = false) :
      warren.NestsBelow ('/' :: x) 1 :=
    Disk.nestsBelow_of_at hx fun y hy => none _ (Path.join_ne_nil _ (hd y hy).1) (hd y hy).2 0
  intro i hi _
  simp only [wares, List.map_cons, List.map_nil, List.mem_cons, List.not_mem_nil, or_false] at hi
  rcases hi with rfl | rfl | rfl | rfl | rfl
  · exact one "d".toList (Disk.at_of_locate (by decide +kernel)) (by decide +kernel)
  · exact one "e".toList (Disk.at_of_locate (by decide +kernel)) (by decide +kernel)
  · exact none _ (by decide) (by decide +kernel) 1
  · exact none _ (by decide) (by decide +kernel) 1
  · exact none _ (by decide) (by decide +kernel) 1

/-- The archive is met by three names: by the link it is opened by, by a link to that link, and in
the directory it is written to. -/
theorem pack_excludes_warren :
    let s : Storage := { chunk := 512 }
    let out : Loc := ["d".toList, "out".toList]
    s.opensAt? warren "/l.zip".toList = some out ∧
      ∃ (k : Packing) (sources : List Path) (d' : Disk),
        (pack s "/l.zip".toList wares true).run ⟨warren, []⟩ =
          (.ok k.added, ⟨d', Text.unlines k.shown⟩) ∧
        Packing.Walk ⟨s, warren.write out [], "/l.zip".toList⟩ true (wares.map .item)
          ⟨⟨out, [], false⟩, [], []⟩ sources k ∧
        (∀ p ∈ sources, (warren.write out []).locate true p ≠ .ok out) ∧
        k.added = [⟨"d/".toList, true, 0⟩, ⟨"e/".toList, true, 0⟩, ⟨"f".toList, false, 1⟩] ∧
        k.shown = ["Error: Cannot add e/s to zip file".toList] ∧
        ∀ l ≠ out, d'.get? l = warren.get? l := by
  intro s out
  have hout : s.opensAt? warren "/l.zip".toList = some out := by decide +kernel
  obtain ⟨hframe, -, h⟩ :=
    pack_excludes s (w := ⟨warren, []⟩) sound_warren "/l.zip".toList wares true
  obtain ⟨k, sources, d', hrun, hw, -, -, h⟩ :=
    h out 6 1 hout warren.linksNest_length nestsBelow_wares (by decide)
  obtain ⟨hsources, hk, -⟩ := h linksFit_warren
  refine ⟨hout, k, sources, d', hrun, hw, hsources, ?_, ?_, fun l hl => ?_⟩
  · rw [← hk []]
    decide +kernel
  · rw [← hk []]
    decide +kernel
  · have := hframe l (by rw [hout]; exact fun he => hl (Option.some.inj he).symm)
    rwa [hrun] at this

/-- A directory with a link in it, and so many links that lead on from there, each to the next; the
last one leads nowhere. -/
def chain (n : Nat) : Disk where
  items := (["s".toList], .directory) :: (["s".toList, "l".toList], .link "/+".toList) ::
    (List.range n).map fun k => ([List.replicate (k + 1) '+'], .link (List.replicate (k + 2) '+'))

/-- One directory is packed, with no other in it. To ask for the real path of the link in it takes
more calls than may nest. -/
theorem pack_chain :
    let r := (pack { chunk := 512, nests := 1 } "/a".toList [⟨"s".toList, "/s".toList⟩] true).run
      ⟨chain 40, []⟩
    r.1 = .error (.stopped .recursion) ∧ r.2.shown = [] := by
  constructor <;> decide +kernel

end FileShell
