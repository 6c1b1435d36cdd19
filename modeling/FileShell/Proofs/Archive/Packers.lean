import FileShell.Archive.Packing
import FileShell.Proofs.Disk.Kinds
import FileShell.Proofs.Disk.Nesting
import FileShell.Proofs.Storage.Runs

/-!
# Packing as a fold

What packing does where nothing stops it, as functions on what has been packed so far
(`Packing.addItem`). They go as deep as a path can be long and know the answer to every question
whether a path is the archive. The packers do what they do if these questions are answered and
there is room for the directories that lie one inside the other (`Packing.run_packItems`).
Wherever a packer ends, its writer is at the place it was opened at (`Packing.place_packItem`).
-/

namespace FileShell

namespace Writer

variable (s : Storage) (d : Disk) (writer : Writer) (source : Path) (name : Text)

theorem place_addDirectory : (writer.addDirectory s name).2.place = writer.place := by
  unfold addDirectory
  simp only
  split_ifs <;> rfl

theorem place_addFile : (writer.addFile s d source name).2.place = writer.place := by
  unfold addFile
  simp only
  split
  · rfl
  split
  · rfl
  split
  · rfl
  · split <;> rfl

end Writer

namespace Packing

variable (c : Setting)

/-- Adds a file that is not the archive. -/
def addFile (path : Path) (name label : Text) (k : Packing) : Packing :=
  if c.disk.isSame path c.archive then k
  else k.note label (k.writer.addFile c.storage c.disk path name)

/-- Adds a directory and what is below it, down to a depth. -/
def addTree : Nat → Path → Text → Text → Packing → Packing
  | 0, _, _, _, k => k
  | depth + 1, path, name, label, k =>
    match k.writer.addDirectory c.storage name with
    | (.error e, w) => k.note label (.error e, w)
    | (.ok e, w) =>
      (c.storage.namesIn c.disk path).foldl (fun k child =>
        let path := path.join child
        let name := Entry.joinParts [name, child]
        let label := Entry.joinParts [label, child]
        if c.disk.isDir path then addTree depth path name label k
        else addFile c path name label k) (k.note label (.ok e, w))

/-- A directory has a path that can be looked up, so none lies deeper than a path is long. -/
def depth : Nat := Disk.maxPath + 1

def addItem (recursive : Bool) (k : Packing) (i : PackItem) : Packing :=
  if !c.disk.pathExists i.path then
    k.say ("Warning: ".toList ++ i.label ++ " does not exist, skipping".toList)
  else if c.disk.isDir i.path then
    if recursive then addTree c depth i.path (Path.baseName i.path.normalize) i.label k else k
  else if c.disk.isFile i.path then addFile c i.path (Path.baseName i.path) i.label k
  else k

variable {c} {path : Path} {n links levels : Nat} {recursive : Bool}

/-! ## One packer -/

theorem run_packFile (n : Nat) (path : Path) (name label : Text) (k : Packing) :
    (packFile c n path name label).run k =
      match c.disk.samePath (Storage.linksWithin n) path c.archive with
      | .error e => (.error (.ofDisk e), k)
      | .ok true => (.ok (), k)
      | .ok false => (.ok (), k.note label (k.writer.addFile c.storage c.disk path name)) := by
  unfold packFile
  rcases c.disk.samePath (Storage.linksWithin n) path c.archive with e | _ | _ <;> rfl

theorem run_packTree (n : Nat) (path : Path) (name label : Text) (k : Packing) :
    (packTree c (n + 1) path name label).run k =
      match k.writer.addDirectory c.storage name with
      | (.error e, w) => (.ok (), k.note label (.error e, w))
      | (.ok e, w) => ((c.storage.namesIn c.disk path).forM
          (packChild c n (packTree c n) path name label)).run (k.note label (.ok e, w)) := by
  rw [packTree]
  simp only [Act.run_bind, Act.run_get, Act.run_modify]
  rcases k.writer.addDirectory c.storage name with ⟨e | e, w⟩ <;> rfl

/-! ## Where the archive is written -/

theorem place_note (k : Packing) (label : Text) {r : Except ArchiveError Entry × Writer}
    (h : r.2.place = k.writer.place) : (k.note label r).writer.place = k.writer.place := by
  obtain ⟨_ | _, w⟩ := r <;> exact h

/-- However the packer ends, the archive is written where it was opened. -/
def KeepsPlace (p : Packer) : Prop := ∀ k : Packing, (p.run k).2.writer.place = k.writer.place

theorem place_forM {α : Type} {f : α → Packer} (hf : ∀ a, KeepsPlace (f a)) :
    ∀ l : List α, KeepsPlace (l.forM f)
  | [], _ => rfl
  | a :: l, k => by
    have ha := hf a k
    rw [Act.run_forM_cons]
    rcases h : (f a).run k with ⟨e | _, k'⟩ <;> rw [h] at ha
    · exact ha
    · exact (place_forM hf l k').trans ha

theorem place_packFile (n : Nat) (path : Path) (name label : Text) :
    KeepsPlace (packFile c n path name label) := fun k => by
  rw [run_packFile]
  split
  · rfl
  · rfl
  · exact place_note k label (Writer.place_addFile _ _ _ _ _)

theorem place_packTree : ∀ (n : Nat) (path : Path) (name label : Text),
    KeepsPlace (packTree c n path name label)
  | 0, _, _, _, _ => rfl
  | n + 1, path, name, label, k => by
    have hw := Writer.place_addDirectory c.storage k.writer name
    rw [run_packTree]
    rcases h : k.writer.addDirectory c.storage name with ⟨e | e, w⟩ <;> rw [h] at hw
    · exact place_note k label hw
    · refine (place_forM (fun child => ?_) _ _).trans (place_note k label hw)
      unfold packChild
      dsimp only
      split_ifs
      · exact place_packTree n _ _ _
      · exact place_packFile n _ _ _

theorem place_packItem (recursive : Bool) (i : PackItem) :
    KeepsPlace (packItem c recursive i) := by
  unfold packItem
  dsimp only
  split_ifs
  · exact fun _ => rfl
  · exact place_packTree _ _ _ _
  · exact fun _ => rfl
  · exact place_packFile _ _ _ _
  · exact fun _ => rfl

/-! ## Packers that are not stopped -/

/-- The question whether a path is the archive is answered for a kind of paths, with so many calls
in reserve. The kind goes down into directories. -/
structure Answered (c : Setting) (reserve : Nat) (P : Path → Prop) : Prop where
  sound : c.disk.Sound
  same : ∀ {p : Path} {n : Nat}, P p → reserve ≤ n →
    c.disk.samePath (Storage.linksWithin n) p c.archive = .ok (c.disk.isSame p c.archive)
  down : ∀ {p : Path} {x : Text}, P p → IsName x → c.disk.isDir p = true → P (p.join x)

/-- Paths without null characters are answered for, if there is room for the links that nest. -/
theorem answered_of_linksNest (hs : c.disk.Sound) (h0 : '\x00' ∉ c.archive)
    (hl : c.disk.LinksNest links) : Answered c links fun p => '\x00' ∉ p where
  sound := hs
  same hp hn := (hl.mono (hn.trans (Storage.le_linksWithin _))).samePath_eq hs.links hp h0
  down hp hx _ := Path.not_mem_join hx.noSlash hp hx.noNull (by decide)

section

variable {reserve : Nat} {P : Path → Prop}

theorem Answered.run_packFile (h : Answered c reserve P) (hp : P path) (hn : reserve ≤ n)
    (name label : Text) (k : Packing) :
    (packFile c n path name label).run k = (.ok (), addFile c path name label k) := by
  rw [Packing.run_packFile, h.same hp hn, addFile]
  rcases c.disk.isSame path c.archive <;> rfl

/-- A tree is packed to its end if there is room for the directories in it and the reserve. -/
theorem Answered.run_packTree (h : Answered c reserve P) : ∀ {n m levels : Nat} {path : Path},
    P path → c.disk.isDir path = true → c.disk.NestsBelow path levels → levels + reserve ≤ n →
    levels ≤ m → ∀ (name label : Text) (k : Packing),
      (packTree c n path name label).run k = (.ok (), addTree c m path name label k)
  | 0, _, levels, path, _, hd, hb, hn, _, _, _, _ => by
    have := hb.pos hd
    omega
  | _, 0, levels, path, _, hd, hb, _, hm, _, _, _ => by
    have := hb.pos hd
    omega
  | n + 1, m + 1, levels, path, hp, hd, hb, hn, hm, name, label, k => by
    obtain ⟨i, rfl⟩ := Nat.exists_eq_add_one.2 (hb.pos hd)
    rw [Packing.run_packTree, addTree]
    rcases k.writer.addDirectory c.storage name with ⟨e | e, w⟩
    · rfl
    · refine Act.run_forM_ok _ (fun child hchild k => ?_) _
      have hname := h.sound.isName_of_mem_namesIn hchild
      have hpath := h.down hp hname hd
      unfold packChild
      dsimp only
      split_ifs with hdir
      · exact h.run_packTree hpath hdir (hb.down hname) (by omega) (by omega) _ _ k
      · exact h.run_packFile hpath (by omega) _ _ k

/-- An item is packed to its end if there is room for the directories in it and the reserve. -/
theorem Answered.run_packItem (h : Answered c reserve P) {i : PackItem}
    (hp : c.disk.pathExists i.path = true → P i.path)
    (hb : recursive = true → c.disk.NestsBelow i.path levels)
    (hn : levels + reserve ≤ c.storage.nests) (k : Packing) :
    (packItem c recursive i).run k = (.ok (), addItem c recursive k i) := by
  unfold packItem addItem
  rcases hex : c.disk.pathExists i.path
  · rfl
  rcases hd : c.disk.isDir i.path
  · rcases hf : c.disk.isFile i.path
    · rfl
    · exact h.run_packFile (hp hex) (by omega) _ _ k
  · cases recursive with
    | false => rfl
    | true =>
      -- no path leads deeper than paths are long
      have hb' : c.disk.NestsBelow i.path (min levels depth) := fun r hr hdir =>
        lt_min (hb rfl r hr hdir) (Disk.nestsBelow_of_maxPath (Nat.lt_succ_self _) r hr hdir)
      exact h.run_packTree (hp hex) hd hb' (by omega) (Nat.min_le_right _ _) _ _ k

theorem Answered.run_packItems (h : Answered c reserve P) {items : List PackItem}
    (hp : ∀ i ∈ items, c.disk.pathExists i.path = true → P i.path)
    (hb : ∀ i ∈ items, recursive = true → c.disk.NestsBelow i.path levels)
    (hn : levels + reserve ≤ c.storage.nests) (k : Packing) :
    (items.forM (packItem c recursive)).run k = (.ok (), items.foldl (addItem c recursive) k) :=
  Act.run_forM_ok items (fun i hi k => h.run_packItem (hp i hi) (hb i hi) hn k) k

end

/-- Any items are packed to their end, if there is room for the directories and the links that
nest. -/
theorem run_packItems_of_linksNest (hs : c.disk.Sound) (h0 : '\x00' ∉ c.archive)
    (hl : c.disk.LinksNest links) {items : List PackItem}
    (hb : ∀ i ∈ items, recursive = true → c.disk.NestsBelow i.path levels)
    (hn : levels + links ≤ c.storage.nests) (k : Packing) :
    (items.forM (packItem c recursive)).run k = (.ok (), items.foldl (addItem c recursive) k) := by
  refine (answered_of_linksNest hs h0 hl).run_packItems (fun i _ hex => ?_) hb hn k
  obtain ⟨l, hloc⟩ := Disk.exists_locate_of_pathExists hex
  exact Disk.not_mem_of_locate hloc

end Packing

end FileShell
