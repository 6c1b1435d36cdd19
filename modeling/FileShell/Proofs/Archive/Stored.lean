import FileShell.Proofs.Archive.Nodes
import FileShell.Proofs.Archive.Packers
import FileShell.Proofs.Archive.ReadBack
import FileShell.Proofs.Storage.CopyStep

/-!
# What packing stores

A tree is packed in the order of its nodes, a directory before what is in it and that in the order
of the names. A spot says where packing stands: the path it looks up, the names it stores, and the
label it reports, each taken one name down together. What has too long a path is not looked up:
it is reported, and nothing below it is come by. The same goes for what the storage refuses to add,
and below a directory that it refuses to list nothing is come by either. So the archive gets the
nodes that are come by, whose paths fit and that are not refused, and a line is shown for each of
the others that is come by (`addTree_packs`). Without refusals the paths alone decide.
-/

namespace FileShell

/-! ## The writer -/

namespace Writer

variable {s : Storage} {w : Writer} {a : Loc}

/-- The names of a place that can be stored as the name of an entry. -/
structure Nameable (a : Loc) : Prop where
  names : ∀ x ∈ a, IsName x
  short : (Text.join ['/'] a).byteSize < maxName

theorem Nameable.spelled (h : Nameable a) : ∀ x ∈ a, '/' ∉ x ∧ x ≠ [] :=
  fun x hx => ⟨(h.names x hx).noSlash, (h.names x hx).plain.1⟩

theorem storedName_eq {t : Text} (h : '\x00' ∉ t) : storedName t = t := by
  refine List.takeWhile_eq_self_iff.2 fun c hc => ?_
  rw [bne_iff_ne]
  rintro rfl
  exact h hc

theorem Nameable.noNull (h : Nameable a) : '\x00' ∉ Text.join ['/'] a := by
  intro hc
  obtain ⟨x, hx, hc⟩ := Text.mem_join (by decide) hc
  exact (h.names x hx).noNull hc

theorem Nameable.getLast? (h : Nameable a) : (Text.join ['/'] a).getLast? ≠ some '/' := by
  rcases eq_or_ne a [] with rfl | hn
  · simp [Text.join]
  · exact (Path.joined_ne_nil h.spelled hn).2

/-- The name of a member for a nameable place can be read back. -/
theorem Nameable.name_ofNode (h : Nameable a) (i : Item) :
    (Utf8.encode (Member.ofNode (a, i)).name).length < 65536 ∧
      '\x00' ∉ (Member.ofNode (a, i)).name := by
  have hshort : (Text.join ['/'] a).byteSize < 65535 := h.short
  have hone : Text.byteSize ['/'] = 1 := by decide
  have hnil : Text.byteSize [] = 0 := rfl
  change (Member.ofNode (a, i)).name.byteSize < _ ∧ _
  rw [Member.name_ofNode, Text.byteSize_append, List.mem_append, not_or]
  refine ⟨by split_ifs <;> omega, h.noNull, ?_⟩
  split_ifs <;> simp

theorem addDirectory_eq (h : Nameable a)
    (hr : s.refuses .addDirectory (Text.join ['/'] a) = false) (hw : w.closed = false) :
    w.addDirectory s (Text.join ['/'] a) =
      (.ok (Member.ofNode (a, .directory)).entry,
        { w with members := w.members ++ [Member.ofNode (a, .directory)] }) := by
  have htrim : Text.trimEnd (· == '/') (Text.join ['/'] a) = Text.join ['/'] a :=
    Text.trimEnd_eq_self h.getLast?
  have hnull : '\x00' ∉ Text.join ['/'] a ++ ['/'] := by
    simp [h.noNull]
  have hsize : ¬ maxName < (Text.join ['/'] a ++ ['/']).byteSize := by
    rw [Text.byteSize_append]
    have := h.short
    have : Text.byteSize ['/'] = 1 := by decide
    omega
  unfold addDirectory
  simp only [htrim, hr, Bool.false_eq_true, if_false, hw, Bool.false_or, storedName_eq hnull,
    decide_eq_true_eq, if_neg hsize]
  simp [Member.ofNode, Member.entry]

theorem addDirectory_refused {name : Text} (hr : s.refuses .addDirectory name = true) :
    w.addDirectory s name = (.error .refused, w) := by
  simp [addDirectory, hr]

theorem addFile_eq (h : Nameable a) (hn : a ≠ []) {d : Disk} {p : Path} {b : Bytes}
    (hr : s.refuses .addFile p = false) (hw : w.closed = false) (hc : s.Serves)
    (hb : d.read p = .ok b) : w.addFile s d p (Text.join ['/'] a) =
      (.ok (Member.ofNode (a, .file b)).entry,
        { w with members := w.members ++ [Member.ofNode (a, .file b)] }) := by
  have hnormal := Path.normalize_joined h.spelled (fun x hx => (h.names x hx).plain) hn
  have htrim : Text.trimStart (· == '/') (Text.join ['/'] a) = Text.join ['/'] a :=
    Text.trimStart_eq_self (Path.head?_joined h.spelled)
  have hempty : (Text.join ['/'] a).isEmpty = false := by
    simpa using (Path.joined_ne_nil h.spelled hn).1
  have hsize : ¬ maxName < (Text.join ['/'] a).byteSize := by
    have := h.short
    omega
  unfold addFile
  simp only [hnormal, htrim, hr, hb, Bool.false_eq_true, if_false, hw, hempty, Bool.false_or,
    storedName_eq h.noNull, decide_eq_true_eq, if_neg hsize, Storage.drain_ofFile, if_pos hc,
    if_true]
  simp [Member.ofNode, Member.entry, h.getLast?, Item.bytes]

/-- What is refused or cannot be read leaves the archive as it is. -/
theorem addFile_error {d : Disk} {p : Path}
    (h : s.refuses .addFile p = true ∨ ∃ e, d.read p = .error e) (name : Text) :
    ∃ e, w.addFile s d p name = (.error e, w) := by
  unfold addFile
  by_cases hr : s.refuses .addFile p = true
  · exact ⟨.refused, by rw [if_pos hr]⟩
  · obtain ⟨e, hb⟩ := h.resolve_left hr
    exact ⟨.addFile p name, by rw [if_neg hr, hb]⟩

end Writer

/-! ## Spots -/

/-- Where packing stands: the path it looks up, the names it stores, and the label it reports. -/
structure Spot where
  path : Path
  names : Loc
  label : Text

namespace Spot

variable {v : Spot} {x : Text} {r : Loc}

/-- One name down. -/
def down (v : Spot) (x : Text) : Spot :=
  ⟨v.path.join x, v.names ++ [x], Entry.joinParts [v.label, x]⟩

def below (v : Spot) (r : Loc) : Spot := r.foldl down v

/-- The line for what cannot be looked up. -/
def line (v : Spot) : Text :=
  "Error: Cannot add ".toList ++ v.label ++ " to zip file".toList

/-- What is stored of a node: the node, if its path fits. -/
def member? (v : Spot) (e : Loc × Item) : Option Member :=
  if (v.below e.1).path.fits then some (Member.ofNode ((v.below e.1).names, e.2)) else none

/-- What is reported of a node: its label, if its path does not fit and its parent's does. -/
def miss? (v : Spot) (e : Loc × Item) : Option Text :=
  if (v.below e.1).path.fits = false ∧ (e.1 = [] ∨ (v.below e.1.dropLast).path.fits = true) then
    some (v.below e.1).line
  else none

theorem below_cons (v : Spot) (x : Text) (r : Loc) : v.below (x :: r) = (v.down x).below r := rfl

theorem names_below : ∀ (v : Spot) (r : Loc), (v.below r).names = v.names ++ r
  | v, [] => by simp [below]
  | v, x :: r => by
    rw [below_cons, names_below (v.down x) r, down, List.append_assoc, List.singleton_append]

/-- Below a path that does not fit none does. -/
theorem not_fits_below : ∀ {v : Spot} {r : Loc}, v.path.fits = false → (∀ x ∈ r, '/' ∉ x) →
    (v.below r).path.fits = false
  | _, [], hv, _ => hv
  | v, x :: r, hv, hr => by
    obtain ⟨hx, hr⟩ := List.forall_mem_cons.1 hr
    rw [below_cons]
    refine not_fits_below ?_ hr
    rw [Bool.eq_false_iff] at hv ⊢
    exact fun h => hv (Path.fits_of_fits_join hx h)

theorem member?_eq_some_iff {e : Loc × Item} {m : Member} : v.member? e = some m ↔
    (v.below e.1).path.fits = true ∧ m = Member.ofNode (v.names ++ e.1, e.2) := by
  rw [member?, Option.ite_none_right_eq_some, names_below, Option.some.injEq, eq_comm (a := m)]

theorem miss?_cons (hv : v.path.fits = true) (x : Text) (r : Loc) (i : Item) :
    v.miss? (x :: r, i) = (v.down x).miss? (r, i) := by
  rcases r with _ | ⟨y, r⟩
  · simp [miss?, below, hv]
  · simp [miss?, below_cons]

/-- The names of a spot are names, and they are not much longer than its path. -/
structure Good (v : Spot) : Prop where
  names : ∀ x ∈ v.names, IsName x
  short : (Text.join ['/'] v.names).byteSize ≤ 256 + 2 * v.path.byteSize

theorem Good.down (h : v.Good) (hx : IsName x) : (v.down x).Good where
  names := forall_isName_concat h.names hx
  short := by
    have hshort := h.short
    obtain ⟨s, hj, -⟩ := Path.exists_join_eq v.path hx.noSlash
    have hpos := Text.byteSize_pos hx.plain.1
    have hjoin : (Text.join ['/'] (v.names ++ [x])).byteSize ≤
        (Text.join ['/'] v.names).byteSize + 1 + x.byteSize := by
      rcases eq_or_ne v.names [] with hn | hn
      · rw [hn]
        simp [Text.join]
      · rw [Text.join_concat _ _ hn, Text.byteSize_append, Text.byteSize_append]
        have : Text.byteSize ['/'] = 1 := by decide
        omega
    simp only [Spot.down, hj, Text.byteSize_append]
    omega

theorem Good.below : ∀ {v : Spot} {r : Loc}, v.Good → (∀ x ∈ r, IsName x) → (v.below r).Good
  | _, [], h, _ => h
  | v, x :: r, h, hr => by
    obtain ⟨hx, hr⟩ := List.forall_mem_cons.1 hr
    exact (h.down hx).below hr

theorem Good.nameable (h : v.Good) (hf : v.path.fits = true) : Writer.Nameable v.names where
  names := h.names
  short := by
    have hshort := h.short
    simp only [Path.fits, decide_eq_true_eq] at hf
    rw [Disk.maxPath] at hf
    rw [Writer.maxName]
    omega

end Spot

/-! ## Refusals -/

namespace Spot

/-- Whether the storage refuses to add what stands at the spot: a directory by the name it would
have, anything else by the path it is read from. -/
def refused (s : Storage) (v : Spot) (i : Item) : Bool :=
  if i = .directory then s.refuses .addDirectory (Text.join ['/'] v.names)
  else s.refuses .addFile v.path

/-- Whether packing gets down to a node: each directory above it is added, and can be listed. -/
def reaches (s : Storage) : Spot → Loc → Bool
  | _, [] => true
  | v, x :: r => !v.refused s .directory && !s.refuses .list v.path && reaches s (v.down x) r

/-- Whether a node is come by and added as far as the storage is concerned. -/
def spares (s : Storage) (v : Spot) (e : Loc × Item) : Bool :=
  v.reaches s e.1 && !(v.below e.1).refused s e.2

/-- What is stored of a node that may be refused. -/
def kept? (s : Storage) (v : Spot) (e : Loc × Item) : Option Member :=
  if v.spares s e then v.member? e else none

/-- What is reported of a node that may be refused. -/
def report? (s : Storage) (v : Spot) (e : Loc × Item) : Option Text :=
  if !v.reaches s e.1 then none
  else if (v.below e.1).path.fits && (v.below e.1).refused s e.2 then some (v.below e.1).line
  else v.miss? e

variable {s : Storage} {v : Spot} {i : Item}

theorem refused_file (s : Storage) (v : Spot) (b : Bytes) :
    v.refused s (.file b) = s.refuses .addFile v.path := if_neg (by simp)

/-- What stands at a spot itself is stored or reported. -/
theorem kept?_nil : v.kept? s ([], i) =
    if v.path.fits && !v.refused s i then some (Member.ofNode (v.names, i)) else none := by
  rcases hf : v.path.fits <;> rcases hr : v.refused s i <;>
    simp [kept?, spares, reaches, member?, below, hf, hr]

theorem report?_nil : v.report? s ([], i) =
    if v.path.fits && !v.refused s i then none else some v.line := by
  rcases hf : v.path.fits <;> rcases hr : v.refused s i <;>
    simp [report?, reaches, miss?, below, hf, hr]

theorem kept?_cons (hd : v.refused s .directory = false) (hl : s.refuses .list v.path = false)
    (x : Text) (r : Loc) (i : Item) : v.kept? s (x :: r, i) = (v.down x).kept? s (r, i) := by
  have hspares : v.spares s (x :: r, i) = (v.down x).spares s (r, i) := by
    simp [spares, reaches, below_cons, hd, hl]
  rw [kept?, hspares]
  rfl

theorem report?_cons (hv : v.path.fits = true) (hd : v.refused s .directory = false)
    (hl : s.refuses .list v.path = false) (x : Text) (r : Loc) (i : Item) :
    v.report? s (x :: r, i) = (v.down x).report? s (r, i) := by
  simp [report?, reaches, below_cons, hd, hl, miss?_cons hv]

/-- Nothing below a directory comes up that is refused or cannot be listed. -/
theorem cons_of_refused (h : v.refused s .directory = true ∨ s.refuses .list v.path = true)
    (x : Text) (r : Loc) (i : Item) :
    v.kept? s (x :: r, i) = none ∧ v.report? s (x :: r, i) = none := by
  rcases h with h | h <;> simp [kept?, report?, spares, reaches, h]

/-- Without refusals it is the paths alone that decide. -/
theorem reaches_of_calm (h : ∀ k p, s.refuses k p = false) :
    ∀ (v : Spot) (r : Loc), v.reaches s r = true
  | _, [] => rfl
  | v, x :: r => by simp [reaches, refused, h, reaches_of_calm h (v.down x) r]

theorem kept?_of_calm (h : ∀ k p, s.refuses k p = false) (v : Spot) : v.kept? s = v.member? := by
  funext e
  simp [kept?, spares, reaches_of_calm h, refused, h]

theorem report?_of_calm (h : ∀ k p, s.refuses k p = false) (v : Spot) : v.report? s = v.miss? := by
  funext e
  simp [report?, reaches_of_calm h, refused, h]

end Spot

namespace Disk

variable {d : Disk} {out l a : Loc} {v : Spot} {i : Item} {n : Nat}

/-- The nodes of a tree under any names are those under none. -/
theorem nodes_eq_map : ∀ {n : Nat} {l a : Loc},
    d.nodes out n l a = (d.nodes out n l []).map fun e => (a ++ e.1, e.2)
  | 0, _, _ => rfl
  | n + 1, l, a => by
    rw [nodes, nodes]
    split_ifs
    · rfl
    · rcases d.get? l with _ | i
      · rfl
      · have hrec := fun x => nodes_eq_map (n := n) (l := l ++ [x]) (a := a ++ [x])
        have hnil := fun x => nodes_eq_map (n := n) (l := l ++ [x]) (a := [x])
        simp [hrec, hnil, List.map_flatMap, Function.comp_def]

theorem isName_of_mem_nodes (hs : d.Sound) (ho : d.isDirectory out = false) {e : Loc × Item}
    (h : e ∈ d.nodes out n l []) : ∀ x ∈ e.1, IsName x := by
  obtain ⟨k, j⟩ := e
  obtain ⟨r, -, rfl, -, hj⟩ := (mem_nodes hs ho).1 h
  refine hs.isName_of_mem (l := l) ?_
  rw [← Option.isSome_map (f := Item.packed)]
  exact Option.isSome_iff_exists.2 ⟨j, hj⟩

/-- What is kept of the nodes of a directory, node by node. -/
theorem filterMap_nodes {α : Type} (f : Loc × Item → Option α) (hd : d.get? l = some .directory)
    (ho : l ≠ out) : (d.nodes out (n + 1) l []).filterMap f = (f ([], .directory)).toList ++
      (d.childNames l).flatMap fun x =>
        (d.nodes out n (l ++ [x]) []).filterMap fun e => f (x :: e.1, e.2) := by
  have hrec := fun x => @nodes_eq_map d out n (l ++ [x]) [x]
  rw [nodes, if_neg ho, hd]
  simp only [Item.packed, List.nil_append, hrec, List.singleton_append]
  rw [← List.singleton_append, List.filterMap_append, List.filterMap_flatMap]
  simp only [List.filterMap_map, Function.comp_def]
  rcases h : f ([], .directory) <;> simp [h]

section

variable {s : Storage}

/-- A directory is stored or reported itself, and then comes what is in it. -/
theorem packed_nodes (hd : d.get? l = some .directory) (ho : l ≠ out) (hf : v.path.fits = true)
    (hr : v.refused s .directory = false) (hl : s.refuses .list v.path = false) :
    (d.nodes out (n + 1) l []).filterMap (v.kept? s) =
        Member.ofNode (v.names, .directory) :: (d.childNames l).flatMap (fun x =>
          (d.nodes out n (l ++ [x]) []).filterMap ((v.down x).kept? s)) ∧
      (d.nodes out (n + 1) l []).filterMap (v.report? s) = (d.childNames l).flatMap fun x =>
        (d.nodes out n (l ++ [x]) []).filterMap ((v.down x).report? s) := by
  rw [filterMap_nodes _ hd ho, filterMap_nodes _ hd ho, Spot.kept?_nil, Spot.report?_nil]
  simp only [Spot.kept?_cons hr hl, Spot.report?_cons hf hr hl, hf, hr, Bool.not_false,
    Bool.and_self, if_true]
  exact ⟨rfl, rfl⟩

/-- Of a directory that is refused or cannot be listed nothing comes up but itself. -/
theorem cut_nodes (hd : d.get? l = some .directory) (ho : l ≠ out) (hf : v.path.fits = true)
    (h : v.refused s .directory = true ∨ s.refuses .list v.path = true) :
    (d.nodes out (n + 1) l []).filterMap (v.kept? s) =
        (if v.refused s .directory then [] else [Member.ofNode (v.names, .directory)]) ∧
      (d.nodes out (n + 1) l []).filterMap (v.report? s) =
        if v.refused s .directory then [v.line] else [] := by
  have hcut := Spot.cons_of_refused h
  rw [filterMap_nodes _ hd ho, filterMap_nodes _ hd ho,
    List.flatMap_eq_nil_iff.2 fun x _ => List.filterMap_eq_nil_iff.2 fun e _ => (hcut x e.1 e.2).1,
    List.flatMap_eq_nil_iff.2 fun x _ => List.filterMap_eq_nil_iff.2 fun e _ => (hcut x e.1 e.2).2]
  rcases hr : v.refused s .directory <;> simp [Spot.kept?_nil, Spot.report?_nil, hf, hr]

/-- Of a tree too far away nothing is stored, and its top is reported. -/
theorem far_nodes (hs : d.Sound) (hout : d.isDirectory out = false) (hi : (d.get? l).isSome)
    (ho : l ≠ out) (hf : v.path.fits = false) :
    (d.nodes out (n + 1) l []).filterMap (v.kept? s) = [] ∧
      (d.nodes out (n + 1) l []).filterMap (v.report? s) = [v.line] := by
  have hname : ∀ e ∈ d.nodes out (n + 1) l [], ∀ x ∈ e.1, '/' ∉ x := fun e he x hx =>
    (isName_of_mem_nodes hs hout he x hx).noSlash
  constructor
  · refine List.filterMap_eq_nil_iff.2 fun e he => ?_
    simp [Spot.kept?, Spot.member?, Spot.not_fits_below hf (hname e he)]
  · obtain ⟨i, hi⟩ := Option.isSome_iff_exists.1 hi
    rw [nodes, if_neg ho, hi] at hname ⊢
    obtain ⟨-, hrest⟩ := List.forall_mem_cons.1 hname
    rw [List.filterMap_cons_some (b := v.line) (by simp [Spot.report?_nil, hf]),
      List.filterMap_eq_nil_iff.2]
    intro e he
    obtain ⟨x, -, hx⟩ := List.mem_flatMap.1 he
    have hne : e.1 ≠ [] := fun h => by simpa [h] using (prefix_of_mem_nodes hx).length_le
    have hself := Spot.not_fits_below hf (hrest e he)
    have hup := Spot.not_fits_below hf fun y hy => hrest e he y (List.dropLast_subset e.1 hy)
    simp [Spot.report?, Spot.miss?, hne, hself, hup]

end

end Disk

/-! ## The archive on its way -/

namespace Packing

/-- Packing has gone on: the members that were stored, all with their entries, and the lines. -/
structure Packs (k k' : Packing) (ms : List Member) (ls : List Text) : Prop where
  writer : k'.writer = { k.writer with members := k.writer.members ++ ms }
  added : k'.added = k.added ++ ms.map Member.entry
  shown : k'.shown = k.shown ++ ls

namespace Packs

variable {k k' k'' : Packing} {ms ms' : List Member} {ls ls' : List Text}

theorem refl (k : Packing) : Packs k k [] [] := ⟨by simp, by simp, by simp⟩

theorem trans (h : Packs k k' ms ls) (h' : Packs k' k'' ms' ls') :
    Packs k k'' (ms ++ ms') (ls ++ ls') where
  writer := by rw [h'.writer, h.writer, List.append_assoc]
  added := by rw [h'.added, h.added, List.map_append, List.append_assoc]
  shown := by rw [h'.shown, h.shown, List.append_assoc]

theorem foldl {α : Type} {f : Packing → α → Packing} {g : α → List Member} {g' : α → List Text} :
    ∀ {xs : List α} {k : Packing}, k.writer.closed = false →
      (∀ x ∈ xs, ∀ k, k.writer.closed = false → Packs k (f k x) (g x) (g' x)) →
      Packs k (xs.foldl f k) (xs.flatMap g) (xs.flatMap g')
  | [], k, _, _ => .refl k
  | x :: xs, k, hk, h => by
    have hx := h x List.mem_cons_self k hk
    refine hx.trans (foldl ?_ fun y hy => h y (List.mem_cons_of_mem x hy))
    rw [hx.writer]
    exact hk

end Packs

/-- What packing needs to know of what it looks at; `out` is the place of the archive. -/
structure Steady (c : Setting) (out : Loc) : Prop where
  serves : c.storage.Serves
  sound : c.disk.Sound
  fit : c.disk.LinksFit
  archive : c.disk.At c.archive out
  noNull : '\x00' ∉ c.archive
  notDirectory : c.disk.isDirectory out = false

/-- The same where nothing is refused. -/
structure Fair (c : Setting) (out : Loc) : Prop extends Steady c out where
  calm : ∀ k p, c.storage.refuses k p = false

variable {c : Setting} {out l : Loc} {v : Spot} {p : Path} {k : Packing} {i : Item} {n : Nat}

theorem Steady.isSame (h : Steady c out) (hp : c.disk.At p l) (h0 : '\x00' ∉ p) :
    c.disk.isSame p c.archive = (l == out) :=
  Disk.isSame_eq_of_at hp h.archive h.sound.links h.fit h0 h.noNull

/-- A path that leads to a place without links is told from the archive, however few calls may
nest, and so are those below it. -/
theorem Steady.answered (h : Steady c out) :
    Answered c 0 fun p => '\x00' ∉ p ∧ ∃ l, c.disk.At p l ∧ c.disk.LinkFree l where
  sound := h.sound
  same {p n} hp _ := by
    obtain ⟨h0, l, hl, -⟩ := hp
    rw [h.isSame hl h0]
    exact Disk.samePath_eq hl h.archive h.sound.links h.fit h0 h.noNull (Nat.le_add_right _ n)
  down {p x} hp hx hd := by
    obtain ⟨-, l, hl, hfree⟩ := hp
    obtain ⟨k, hk, hdir⟩ := Disk.isDir_iff.1 hd
    obtain rfl := hl.unique (Disk.at_of_locate hk)
    have hchild := Disk.Root.child (h := ⟨hk, hdir, hfree⟩) hx
    exact ⟨hchild.noNull_join, l ++ [x], hchild.at_join, hfree.below (List.prefix_append _ _)⟩

/-- A spot leads to a place where no link stands, as far as its path fits. -/
structure Stands (c : Setting) (v : Spot) (l : Loc) : Prop where
  good : v.Good
  leads : c.disk.At v.path l
  noNull : '\x00' ∉ v.path
  located : c.disk.locate true v.path = if v.path.fits then .ok l else .error .tooLong
  notLink : ∀ t, c.disk.get? l ≠ some (.link t)

theorem Stands.down (hp : c.disk.Root v.path l) (hv : v.Good) {x : Text} (hx : IsName x) :
    Stands c (v.down x) (l ++ [x]) where
  good := hv.down hx
  leads := (hp.child hx).at_join
  noNull := (hp.child hx).noNull_join
  located := (hp.child hx).locate_join
  notLink := (hp.child hx).notLink

/-- What is no directory, or too far away to be seen as one. -/
theorem addFile_packs (h : Steady c out) (hv : Stands c v l) (hn : v.names ≠ [])
    (hi : c.disk.get? l = some i) (hd : v.path.fits = true → i ≠ .directory)
    (hk : k.writer.closed = false) :
    Packs k (addFile c v.path (Text.join ['/'] v.names) v.label k)
      ((c.disk.nodes out (n + 1) l []).filterMap (v.kept? c.storage))
      ((c.disk.nodes out (n + 1) l []).filterMap (v.report? c.storage)) := by
  have hnote : ∀ {e}, k.writer.addFile c.storage c.disk v.path (Text.join ['/'] v.names) =
      (.error e, k.writer) → Packs k (k.note v.label (k.writer.addFile c.storage c.disk v.path
        (Text.join ['/'] v.names))) [] [v.line] := by
    intro e he
    rw [he]
    exact ⟨by simp [note, say], by simp [note, say], rfl⟩
  unfold addFile
  rw [h.isSame hv.leads hv.noNull]
  by_cases ho : l = out
  · rw [if_pos (beq_iff_eq.2 ho), Disk.nodes_self ho]
    exact .refl k
  rw [if_neg (by simpa using ho)]
  have hloc := hv.located
  by_cases hf : v.path.fits = true
  · have hlink : ∀ t, i ≠ .link t := fun t e => hv.notLink t (by rw [hi, e])
    rw [if_pos hf] at hloc
    have hr : c.disk.read v.path = .ok i.bytes := by
      simp only [Disk.read, hloc, bind, Except.bind, Storage.bytesAt_eq hi (hd hf) hlink]
    rw [Disk.nodes_of_not_directory h.sound hi (hd hf) ho, Item.packed_eq (hd hf)]
    simp only [List.filterMap_cons, List.filterMap_nil, Spot.kept?_nil, Spot.report?_nil, hf,
      Spot.refused_file]
    rcases href : c.storage.refuses .addFile v.path
    · rw [Writer.addFile_eq (hv.good.nameable hf) hn href hk h.serves hr]
      exact ⟨rfl, rfl, by simp [note]⟩
    · obtain ⟨e, he⟩ := Writer.addFile_error (w := k.writer) (d := c.disk) (.inl href)
        (Text.join ['/'] v.names)
      exact hnote he
  · rw [if_neg hf] at hloc
    have hr : c.disk.read v.path = .error .tooLong := by
      simp only [Disk.read, hloc, bind, Except.bind]
    obtain ⟨hm, hl⟩ := Disk.far_nodes (n := n) (s := c.storage) h.sound h.notDirectory
      (by rw [hi]; rfl) ho (by simpa using hf)
    obtain ⟨e, he⟩ := Writer.addFile_error (s := c.storage) (w := k.writer) (.inr ⟨_, hr⟩)
      (Text.join ['/'] v.names)
    rw [hm, hl]
    exact hnote he

theorem joinParts_names (ha : ∀ x ∈ v.names, IsName x) {x : Text} (hx : IsName x) :
    Entry.joinParts [Text.join ['/'] v.names, x] = Text.join ['/'] (v.down x).names := by
  rcases eq_or_ne v.names [] with hn | hn
  · have hempty : x.isEmpty = false := by simpa using hx.plain.1
    have ht : Text.trim (· == '/') x = x := Text.trim_eq_self
      (fun e => hx.noSlash (List.mem_of_head? e)) fun e => hx.noSlash (List.mem_of_getLast? e)
    simp [Entry.joinParts, Spot.down, hn, Text.join, ht, hx.plain.1]
  · exact Entry.joinParts_joined (fun y hy => ⟨(ha y hy).noSlash, (ha y hy).plain.1⟩) hn
      hx.noSlash hx.plain.1

/-- A directory is stored before what is in it, and what is too far away or refused is reported. -/
theorem addTree_packs (h : Steady c out) : ∀ {n : Nat} {v : Spot} {l : Loc} {k : Packing},
    c.disk.Root v.path l → v.Good → Disk.maxPath + 1 < n + v.path.byteSize →
      k.writer.closed = false →
      Packs k (addTree c n v.path (Text.join ['/'] v.names) v.label k)
        ((c.disk.nodes out n l []).filterMap (v.kept? c.storage))
        ((c.disk.nodes out n l []).filterMap (v.report? c.storage))
  | 0, v, l, k, hp, _, hn, _ => by
    have hf := hp.fits
    simp only [Path.fits, decide_eq_true_eq] at hf
    omega
  | n + 1, v, l, k, hp, hv, hn, hk => by
    have hdir := Disk.isDirectory_iff.1 hp.directory
    have hnd := h.notDirectory
    have hlo : l ≠ out := fun e => by simp [← e, hp.directory] at hnd
    rw [addTree]
    rcases hr : v.refused c.storage .directory
    · have hnote : Packs k (k.note v.label (.ok (Member.ofNode (v.names, .directory)).entry,
          { k.writer with members := k.writer.members ++ [Member.ofNode (v.names, .directory)] }))
          [Member.ofNode (v.names, .directory)] [] := ⟨rfl, rfl, by simp [note]⟩
      rw [Writer.addDirectory_eq (hv.nameable hp.fits) hr hk]
      simp only [Storage.namesIn_of_root hp]
      rcases hl : c.storage.refuses .list v.path
      · obtain ⟨hm, hls⟩ := Disk.packed_nodes (n := n) hdir hlo hp.fits hr hl
        simp only [hm, hls, Bool.false_eq_true, if_false]
        refine hnote.trans (.foldl hk fun x hx k hk => ?_)
        obtain ⟨i, hi⟩ := Option.isSome_iff_exists.1 (Disk.mem_childNames.1 hx)
        have hname : IsName x := h.sound.isName (by rw [hi]; rfl)
        have hlt := Path.byteSize_join_lt v.path hname.noSlash hname.plain.1
        have hfit := hp.fits
        simp only [Path.fits, decide_eq_true_eq] at hfit
        rw [joinParts_names hv.names hname]
        split_ifs with hd
        · rw [(hp.child hname).isDir_join, Bool.and_eq_true] at hd
          exact addTree_packs h (v := v.down x) (hp.join hname hd.1 hd.2) (hv.down hname)
            (by simp only [Spot.down]; omega) hk
        · obtain ⟨m, rfl⟩ : ∃ m, n = m + 1 := ⟨n - 1, by omega⟩
          refine addFile_packs h (.down hp hv hname) (by simp [Spot.down]) hi (fun hf => ?_) hk
          rintro rfl
          rw [(hp.child hname).isDir_join, Disk.isDirectory_iff.2 hi, Bool.and_true] at hd
          exact hd hf
      · obtain ⟨hm, hls⟩ := Disk.cut_nodes (n := n) hdir hlo hp.fits (.inr hl)
        simpa [hm, hls, hr] using hnote
    · obtain ⟨hm, hls⟩ := Disk.cut_nodes (n := n) hdir hlo hp.fits (.inl hr)
      rw [Writer.addDirectory_refused hr, hm, hls, if_pos hr, if_pos hr]
      exact ⟨by simp [note, say], by simp [note, say], rfl⟩

end Packing

end FileShell
