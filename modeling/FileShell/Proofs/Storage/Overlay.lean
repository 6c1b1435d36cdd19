import FileShell.Proofs.Disk.Sound

/-!
# Overlays

What a directory looks like once a tree has been copied over it. An `Overlay` holds two trees, the
source and what the target was, both seen from their roots, and says which calls on their nodes go
through. A node of the source is reached if every directory above it could be made and listed.
`result` is the tree that comes out, and `Reports` says what is shown: one line for each node that
was reached and not copied, in the order of a walk that goes down first.
-/

namespace FileShell

/-- The order of a walk that goes down first, name by name. -/
def Loc.Before : Loc → Loc → Prop
  | [], k => k ≠ []
  | _ :: _, [] => False
  | x :: l, y :: k => (Disk.textLe x y = true ∧ x ≠ y) ∨ (x = y ∧ Before l k)

structure Overlay where
  /-- The name of the root. -/
  name : Text
  source : Loc → Option Item
  target : Loc → Option Item
  /-- Whether the node of the source can be looked up. -/
  found : Loc → Bool
  /-- Whether the directory of the source can be listed. -/
  listed : Loc → Bool
  /-- Whether a directory may be made for the node. -/
  made : Loc → Bool
  /-- Whether the node may be copied as a file. -/
  copied : Loc → Bool
  /-- Whether the bytes of a file come through; if not, an empty file is left. -/
  held : Bool

namespace Overlay

/-- The overlay of what is below a name. -/
def below (o : Overlay) (x : Text) : Overlay where
  name := x
  source r := o.source (x :: r)
  target r := o.target (x :: r)
  found r := o.found (x :: r)
  listed r := o.listed (x :: r)
  made r := o.made (x :: r)
  copied r := o.copied (x :: r)
  held := o.held

/-- Whether the node is taken for a directory. -/
def isTree (o : Overlay) (r : Loc) : Bool := o.source r == some .directory && o.found r

/-- Whether the node becomes a directory, once it is reached. -/
def opens (o : Overlay) (r : Loc) : Bool :=
  o.isTree r && o.made r && (o.target r == none || o.target r == some .directory)

/-- Whether the node is copied as a file, once it is reached. -/
def copies (o : Overlay) (r : Loc) : Bool :=
  o.source r != some .directory && o.copied r && o.target r != some .directory

/-- Whether the node is there and every directory above it becomes one and is listed. -/
def reached (o : Overlay) : Loc → Bool
  | [] => (o.source []).isSome
  | x :: r => o.opens [] && o.listed [] && (o.below x).reached r

end Overlay

/-- The bytes that are read of what stands somewhere. -/
def Item.bytes : Item → Bytes
  | .file b => b
  | _ => []

/-- What is packed or copied of what stands somewhere: a device gives an empty file. -/
def Item.packed : Item → Item
  | .directory => .directory
  | i => .file i.bytes

theorem Item.packed_eq {i : Item} (h : i ≠ .directory) : i.packed = .file i.bytes := by
  cases i <;> first | rfl | exact absurd rfl h

namespace Overlay

/-- What comes of writing bytes to where an item may stand; a device swallows them. -/
def placed (b : Bytes) : Option Item → Option Item
  | some .device => some .device
  | _ => some (.file b)

theorem eq_of_placed {b b' : Bytes} : ∀ {i : Option Item}, placed b i = some (.file b') → b' = b
  | none, h => (Item.file.inj (Option.some.inj h)).symm
  | some .directory, h | some (.file _), h | some (.link _), h =>
    (Item.file.inj (Option.some.inj h)).symm

theorem placed_of_ne_device {b : Bytes} : ∀ {i : Option Item}, i ≠ some .device →
    placed b i = some (.file b)
  | none, _ | some .directory, _ | some (.file _), _ | some (.link _), _ => rfl
  | some .device, h => absurd rfl h

/-- The bytes that come through of a node that is copied as a file. -/
def bytes (o : Overlay) (r : Loc) : Bytes :=
  if o.held then ((o.source r).map Item.bytes).getD [] else []

/-- The tree that comes out. -/
def result (o : Overlay) (r : Loc) : Option Item :=
  if o.reached r && o.opens r then some .directory
  else if o.reached r && o.copies r then placed (o.bytes r) (o.target r)
  else o.target r

/-- Whether the node is reached and yet not copied, or not with its bytes. -/
def fails (o : Overlay) (r : Loc) : Bool := o.reached r && !o.opens r && !(o.copies r && o.held)

/-- The line that reports the node. -/
def line (o : Overlay) (r : Loc) : Text :=
  (if o.isTree r then "Error copying directory: " else "Error copying file: ").toList ++
    r.getLastD o.name ++ ['\n']

/-- The text consists of one line for each node that fails, in the order of the walk. -/
def Reports (o : Overlay) (t : Text) : Prop :=
  ∃ rs : List Loc, rs.Pairwise Loc.Before ∧ (∀ r, r ∈ rs ↔ o.fails r = true) ∧ t = rs.flatMap o.line

variable {o : Overlay} {x : Text} {r : Loc}

/-! ## Below a name -/

theorem below_line (o : Overlay) (x : Text) (r : Loc) : (o.below x).line r = o.line (x :: r) := by
  cases r <;> rfl

theorem reached_cons (ho : o.opens [] = true) (hl : o.listed [] = true) (x : Text) (r : Loc) :
    o.reached (x :: r) = (o.below x).reached r := by
  simp [reached, ho, hl]

theorem result_cons (ho : o.opens [] = true) (hl : o.listed [] = true) (x : Text) (r : Loc) :
    o.result (x :: r) = (o.below x).result r := by
  simp only [result, reached_cons ho hl]
  rfl

theorem fails_cons (ho : o.opens [] = true) (hl : o.listed [] = true) (x : Text) (r : Loc) :
    o.fails (x :: r) = (o.below x).fails r := by
  simp only [fails, reached_cons ho hl]
  rfl

/-! ## Nodes that are not reached -/

theorem opens_source (h : o.opens r = true) : o.source r = some .directory := by
  simp only [opens, isTree, Bool.and_eq_true, beq_iff_eq] at h
  exact h.1.1.1

theorem not_reached_of_source (h : o.source [] = none) : ∀ r, o.reached r = false
  | [] => by simp [reached, h]
  | x :: r => by
    have : o.opens [] = false := by
      by_contra ho
      simp [opens_source (by simpa using ho)] at h
    simp [reached, this]

theorem not_reached_cons (h : o.opens [] = false ∨ o.listed [] = false) (x : Text) (r : Loc) :
    o.reached (x :: r) = false := by
  rcases h with h | h <;> simp [reached, h]

theorem result_of_not_reached (h : o.reached r = false) : o.result r = o.target r := by
  simp [result, h]

theorem fails_of_not_reached (h : o.reached r = false) : o.fails r = false := by
  simp [fails, h]

/-- Nothing happens below a node that does not become a directory. -/
theorem result_of_not_opens (h : o.opens [] = false) (hc : o.copies [] = false) (r : Loc) :
    o.result r = o.target r := by
  cases r with
  | nil => simp [result, h, hc]
  | cons x r => exact result_of_not_reached (not_reached_cons (.inl h) x r)

/-- A node is reached if it is there and every directory above it is made and listed. -/
theorem reached_iff : ∀ {r : Loc} {o : Overlay}, o.reached r = true ↔
    (o.source r).isSome ∧ ∀ q, q <+: r → q ≠ r → o.opens q = true ∧ o.listed q = true
  | [], o => by simp [reached]
  | x :: r, o => by
    have ih := reached_iff (r := r) (o := o.below x)
    simp only [reached, Bool.and_eq_true, ih]
    constructor
    · rintro ⟨ho, hs, h⟩
      refine ⟨hs, fun q hq hn => ?_⟩
      rcases q with _ | ⟨y, q⟩
      · exact ho
      · obtain ⟨rfl, hq'⟩ := List.cons_prefix_cons.1 hq
        exact h q hq' fun e => hn (by rw [e])
    · rintro ⟨hs, h⟩
      exact ⟨h [] List.nil_prefix (by simp), hs, fun q hq hn =>
        h (x :: q) (List.cons_prefix_cons.2 ⟨rfl, hq⟩) (by simpa using hn)⟩

/-! ## How deep a walk goes -/

/-- Less than so many directories that are reached lie one inside the other. -/
def Shallow (o : Overlay) (n : Nat) : Prop :=
  ∀ r, o.reached r = true → o.isTree r = true → r.length < n

theorem Shallow.below {n : Nat} (h : o.Shallow (n + 1)) (ho : o.opens [] = true)
    (hl : o.listed [] = true) (x : Text) : (o.below x).Shallow n := fun r hr ht => by
  have := h (x :: r) (by rwa [reached_cons ho hl]) ht
  rw [List.length_cons] at this
  omega

theorem Shallow.pos {n : Nat} (h : o.Shallow n) (hr : o.reached [] = true)
    (ht : o.isTree [] = true) : 0 < n := h [] hr ht

/-! ## What becomes of the target -/

theorem placed_grows {b : Bytes} {j : Option Item} (hd : j ≠ some .directory)
    (hl : ∀ t, j ≠ some (.link t)) : Grows j (placed b j) := by
  rcases j with _ | j
  · exact .file _
  · cases j with
    | directory => exact absurd rfl hd
    | file c => exact .rewritten c b
    | link t => exact absurd rfl (hl t)
    | device => exact .stays _

theorem result_grows (hl : ∀ t, o.target r ≠ some (.link t)) : Grows (o.target r) (o.result r) := by
  unfold result
  split_ifs with h₁ h₂
  · simp only [opens, Bool.and_eq_true, Bool.or_eq_true, beq_iff_eq] at h₁
    rcases h₁.2.2 with h | h <;> rw [h]
    · exact .directory
    · exact .stays _
  · simp only [copies, Bool.and_eq_true, bne_iff_ne] at h₂
    exact placed_grows h₂.2.2 hl
  · exact .stays _

/-! ## Reports -/

/-- The reports of the nodes below some names of a directory. -/
def ReportsIn (o : Overlay) (xs : List Text) (t : Text) : Prop :=
  ∃ rs : List Loc, rs.Pairwise Loc.Before ∧
    (∀ r, r ∈ rs ↔ ∃ x ∈ xs, ∃ r', r = x :: r' ∧ (o.below x).fails r' = true) ∧
    t = rs.flatMap o.line

theorem ReportsIn.nil (o : Overlay) : o.ReportsIn [] [] := ⟨[], .nil, by simp, rfl⟩

theorem ReportsIn.cons {xs : List Text} {t u : Text}
    (hx : ∀ y ∈ xs, Disk.textLe x y = true ∧ x ≠ y) (h : (o.below x).Reports t)
    (hs : o.ReportsIn xs u) : o.ReportsIn (x :: xs) (t ++ u) := by
  obtain ⟨rs, hp, hm, rfl⟩ := h
  obtain ⟨rs', hp', hm', rfl⟩ := hs
  refine ⟨rs.map (x :: ·) ++ rs', List.pairwise_append.2 ⟨?_, hp', ?_⟩, fun r => ?_, ?_⟩
  · rw [List.pairwise_map]
    exact hp.imp fun h => .inr ⟨rfl, h⟩
  · intro a ha b hb
    obtain ⟨r, -, rfl⟩ := List.mem_map.1 ha
    obtain ⟨y, hy, r', rfl, -⟩ := (hm' b).1 hb
    exact .inl (hx y hy)
  · rw [List.mem_append, hm', List.mem_map]
    constructor
    · rintro (⟨r', hr', rfl⟩ | ⟨y, hy, r', rfl, hr'⟩)
      · exact ⟨x, List.mem_cons_self, r', rfl, (hm r').1 hr'⟩
      · exact ⟨y, List.mem_cons_of_mem x hy, r', rfl, hr'⟩
    · rintro ⟨y, hy, r', rfl, hr'⟩
      rcases List.mem_cons.1 hy with rfl | hy
      · exact .inl ⟨r', (hm r').2 hr', rfl⟩
      · exact .inr ⟨y, hy, r', rfl, hr'⟩
  · rw [List.flatMap_append, List.flatMap_map, funext (below_line o x)]

/-- The reports of all names that are reached are the reports of a directory that is made. -/
theorem ReportsIn.reports {xs : List Text} {t : Text} (h : o.ReportsIn xs t)
    (ho : o.opens [] = true) (hl : ∀ x ∈ xs, o.listed [] = true)
    (hn : ∀ x, x ∉ xs → ∀ r, o.reached (x :: r) = false) : o.Reports t := by
  obtain ⟨rs, hp, hm, ht⟩ := h
  refine ⟨rs, hp, fun r => ?_, ht⟩
  rw [hm]
  constructor
  · rintro ⟨x, hx, r', rfl, hr'⟩
    rwa [fails_cons ho (hl x hx)]
  · intro hr
    cases r with
    | nil => simp [fails, ho] at hr
    | cons x r =>
      by_cases hx : x ∈ xs
      · exact ⟨x, hx, r, rfl, by rwa [fails_cons ho (hl x hx)] at hr⟩
      · simp [fails_of_not_reached (hn x hx r)] at hr

/-- A node that is reached and not made has one line, its own. -/
theorem reports_of_fails (h : o.fails [] = true) : o.Reports (o.line []) := by
  refine ⟨[[]], List.pairwise_singleton _ _, fun r => ?_, by simp⟩
  cases r with
  | nil => simp [h]
  | cons x r =>
    have ho : o.opens [] = false := by
      simp only [fails, Bool.and_eq_true] at h
      simpa using h.1.2
    simp [fails_of_not_reached (not_reached_cons (.inl ho) x r)]

/-- A node that is copied or not there has nothing to report. -/
theorem reports_of_not_opens (ho : o.opens [] = false) (h : o.fails [] = false) :
    o.Reports [] := by
  refine ⟨[], .nil, fun r => ?_, rfl⟩
  cases r with
  | nil => simp [h]
  | cons x r => simp [fails_of_not_reached (not_reached_cons (.inl ho) x r)]

/-! ## Overlays that report nothing -/

theorem Reports.fails_eq_false (h : o.Reports []) (r : Loc) : o.fails r = false := by
  obtain ⟨rs, -, hm, ht⟩ := h
  by_contra hr
  have hmem := (hm r).2 (by simpa using hr)
  have hl : o.line r = [] := List.flatMap_eq_nil_iff.1 ht.symm r hmem
  simp [line] at hl

/-- If nothing fails and every directory is listed, every node of a tree is reached. -/
theorem reached_of_source (hf : ∀ r, o.fails r = false) (hl : ∀ r, o.listed r = true)
    (hd : ∀ q r, q <+: r → q ≠ r → (o.source r).isSome → o.source q = some .directory) :
    ∀ r, (o.source r).isSome → o.reached r = true := by
  intro r
  induction r using List.reverseRecOn with
  | nil => intro hr; simpa [reached] using hr
  | append_singleton r x ih =>
    intro hr
    have hsrc := hd r (r ++ [x]) (List.prefix_append _ _) (by simp) hr
    have hreach := ih (by simp [hsrc])
    have hopen : o.opens r = true := by
      have := hf r
      simpa [fails, hreach, copies, hsrc] using this
    refine reached_iff.2 ⟨hr, fun q hq hn => ⟨?_, hl q⟩⟩
    rcases List.prefix_concat_iff.1 hq with e | hq
    · exact absurd e hn
    · by_cases he : q = r
      · rw [he, hopen]
      · exact ((reached_iff.1 hreach).2 q hq he).1

/-- A file of the source is copied with its bytes if nothing fails. -/
theorem result_of_file {b : Bytes} (hf : o.fails r = false) (hr : o.reached r = true)
    (hs : o.source r = some (.file b)) : o.result r = placed b (o.target r) := by
  have ho : o.opens r = false := by
    by_contra h
    simp [opens_source (by simpa using h)] at hs
  have hc : o.copies r = true ∧ o.held = true := by simpa [fails, hr, ho] using hf
  simp [result, hr, ho, hc, bytes, hs, Item.bytes]

end Overlay

end FileShell
