import FileShell.Archive.Writing
import FileShell.Proofs.Archive.EntryNames
import FileShell.Proofs.Storage.Overlay

/-!
# Nodes of a tree

The tree at a place of a disk as it is packed: its directories and files, each with the names that
lead to it, and no other place (`mem_nodes`). A directory comes before what is in it
(`parentsFirst_nodes`), and no place comes twice (`pairwise_nodes`).
-/

namespace FileShell

/-- Directories and files, each in one of the directories in front of it or in one of those that
are there already. -/
inductive ParentsFirst : List Loc → List (Loc × Item) → Prop
  | nil (there : List Loc) : ParentsFirst there []
  | directory {there : List Loc} {b : Loc} {x : Text} {ns : List (Loc × Item)} :
      b ∈ there → IsName x → ParentsFirst ((b ++ [x]) :: there) ns →
      ParentsFirst there ((b ++ [x], .directory) :: ns)
  | file {there : List Loc} {b : Loc} {x : Text} {c : Bytes} {ns : List (Loc × Item)} :
      b ∈ there → IsName x → ParentsFirst there ns → ParentsFirst there ((b ++ [x], .file c) :: ns)

theorem forall_isName_concat {b : Loc} {x : Text} (hb : ∀ y ∈ b, IsName y) (hx : IsName x) :
    ∀ y ∈ b ++ [x], IsName y := by
  intro y hy
  rcases List.mem_append.1 hy with hy | hy
  · exact hb y hy
  · exact List.mem_singleton.1 hy ▸ hx

namespace ParentsFirst

variable {there there' : List Loc} {ns ms : List (Loc × Item)}

theorem mono (h : ParentsFirst there ns) (hs : there ⊆ there') : ParentsFirst there' ns := by
  induction h generalizing there' with
  | nil => exact .nil there'
  | directory hb hx _ ih => exact .directory (hs hb) hx (ih (List.cons_subset_cons _ hs))
  | file hb hx _ ih => exact .file (hs hb) hx (ih hs)

theorem append (h : ParentsFirst there ns) (h' : ParentsFirst there ms) :
    ParentsFirst there (ns ++ ms) := by
  induction h with
  | nil => exact h'
  | directory hb hx _ ih => exact .directory hb hx (ih (h'.mono (List.subset_cons_self _ _)))
  | file hb hx _ ih => exact .file hb hx (ih h')

theorem flatMap {α : Type} {f : α → List (Loc × Item)} :
    ∀ {xs : List α}, (∀ x ∈ xs, ParentsFirst there (f x)) → ParentsFirst there (xs.flatMap f)
  | [], _ => .nil there
  | x :: _, h =>
    (h x List.mem_cons_self).append (flatMap fun y hy => h y (List.mem_cons_of_mem x hy))

end ParentsFirst

/-! ## Members -/

namespace Member

/-- The member for a directory or a file below the destination. -/
def ofNode : Loc × Item → Member
  | (a, .directory) => ⟨Text.join ['/'] a ++ ['/'], true, []⟩
  | (a, i) => ⟨Text.join ['/'] a, false, i.bytes⟩

variable {a b : Loc} {i j : Item}

theorem name_ofNode (a : Loc) (i : Item) : (ofNode (a, i)).name =
    Text.join ['/'] a ++ if i = .directory then ['/'] else [] := by
  cases i <;> simp [ofNode]

theorem parts_ofNode (ha : ∀ x ∈ a, '/' ∉ x ∧ x ≠ []) (i : Item) :
    Entry.parts (ofNode (a, i)).name = a := by
  rw [name_ofNode]
  split_ifs
  · exact Entry.parts_joined_slash ha
  · rw [List.append_nil, Entry.parts_joined ha]

theorem head?_ofNode (ha : ∀ x ∈ a, '/' ∉ x ∧ x ≠ []) (hn : a ≠ []) (i : Item) :
    (ofNode (a, i)).name.head? ≠ some '/' := by
  rw [name_ofNode, List.head?_append_of_ne_nil _ (Path.joined_ne_nil ha hn).1]
  exact Path.head?_joined ha

theorem getLast?_ofNode (ha : ∀ x ∈ a, '/' ∉ x ∧ x ≠ []) (hn : a ≠ []) (i : Item) :
    (ofNode (a, i)).name.getLast? = some '/' ↔ i = .directory := by
  rw [name_ofNode]
  split_ifs with h
  · simp [h]
  · simp [h, (Path.joined_ne_nil ha hn).2]

theorem eq_of_name_ofNode (ha : ∀ x ∈ a, '/' ∉ x ∧ x ≠ []) (hb : ∀ x ∈ b, '/' ∉ x ∧ x ≠ [])
    (h : (ofNode (a, i)).name = (ofNode (b, j)).name) : a = b := by
  rw [← parts_ofNode ha i, h, parts_ofNode hb j]

end Member

namespace Disk

/-- The nodes of the tree at `l`, as far down as `n` places, with `a` for the names of its root.
One place is left out. -/
def nodes (d : Disk) (out : Loc) : Nat → Loc → Loc → List (Loc × Item)
  | 0, _, _ => []
  | n + 1, l, a =>
    if l = out then []
    else match d.get? l with
      | none => []
      | some i => (a, i.packed) ::
          (d.childNames l).flatMap fun x => nodes d out n (l ++ [x]) (a ++ [x])

variable {d : Disk} {out l a : Loc} {n : Nat}

theorem nodes_self (ho : l = out) : d.nodes out n l a = [] := by
  cases n with
  | zero => rfl
  | succ n => rw [nodes, if_pos ho]

theorem nodes_of_not_directory (hs : d.Sound) {i : Item} (hi : d.get? l = some i)
    (hd : i ≠ .directory) (ho : l ≠ out) : d.nodes out (n + 1) l a = [(a, i.packed)] := by
  have hc : d.childNames l = [] := by
    refine List.eq_nil_iff_forall_not_mem.2 fun x hx => hd ?_
    have := isDirectory_iff.1 (hs.above l x (mem_childNames.1 hx)).1
    rw [hi] at this
    exact Option.some.inj this
  rw [nodes, if_neg ho, hi, hc]
  rfl

theorem mem_nodes (hs : d.Sound) (ho : d.isDirectory out = false) {k : Loc} {j : Item} :
    ∀ {n : Nat} {l a : Loc}, (k, j) ∈ d.nodes out n l a ↔ ∃ r, r.length < n ∧ k = a ++ r ∧
      l ++ r ≠ out ∧ (d.get? (l ++ r)).map Item.packed = some j
  | 0, l, a => by simp [nodes]
  | n + 1, l, a => by
    rw [nodes]
    constructor
    · intro h
      split_ifs at h with hl
      · exact absurd h List.not_mem_nil
      · rcases hi : d.get? l with _ | i
        · simp [hi] at h
        · simp only [hi] at h
          rcases List.mem_cons.1 h with h | h
          · obtain ⟨rfl, rfl⟩ := Prod.mk.inj h
            exact ⟨[], by simp, by simp, by simpa using hl, by simp [hi]⟩
          · obtain ⟨x, -, hx⟩ := List.mem_flatMap.1 h
            obtain ⟨r, hn, rfl, hr, hj⟩ := (mem_nodes hs ho).1 hx
            refine ⟨x :: r, Nat.succ_lt_succ hn, by simp, ?_, ?_⟩
            · rwa [List.append_cons]
            · rwa [List.append_cons]
    · rintro ⟨r, hn, rfl, hr, hj⟩
      have hsome : (d.get? (l ++ r)).isSome := by
        rw [← Option.isSome_map (f := Item.packed), hj]
        rfl
      rcases r with _ | ⟨x, r⟩
      · rw [List.append_nil] at hr hj
        rw [if_neg hr]
        rcases hi : d.get? l with _ | i
        · simp [hi] at hj
        · rw [hi] at hj
          simp [← Option.some.inj hj]
      · have hl := hs.isDirectory_of_prefix (List.cons_ne_nil x r) hsome
        have hne : l ≠ out := fun e => by simp [← e, hl] at ho
        rw [List.append_cons] at hr hj hsome
        have hx : x ∈ d.childNames l := by
          rw [mem_childNames]
          rcases r with _ | ⟨y, r⟩
          · rwa [List.append_nil] at hsome
          · rw [isDirectory_iff.1 (hs.isDirectory_of_prefix (List.cons_ne_nil y r) hsome)]
            rfl
        rw [if_neg hne, isDirectory_iff.1 hl]
        refine List.mem_cons_of_mem _ (List.mem_flatMap.2 ⟨x, hx, ?_⟩)
        exact (mem_nodes hs ho).2 ⟨r, Nat.lt_of_succ_lt_succ hn, by simp, hr, hj⟩

theorem prefix_of_mem_nodes {e : Loc × Item} (h : e ∈ d.nodes out n l a) : a <+: e.1 := by
  induction n generalizing l a with
  | zero => exact absurd h List.not_mem_nil
  | succ n ih =>
    rw [nodes] at h
    split_ifs at h
    · exact absurd h List.not_mem_nil
    · rcases hi : d.get? l with _ | i
      · simp [hi] at h
      · simp only [hi] at h
        rcases List.mem_cons.1 h with rfl | h
        · exact List.prefix_rfl
        · obtain ⟨x, -, hx⟩ := List.mem_flatMap.1 h
          exact (List.prefix_append a [x]).trans (ih hx)

/-- No place comes twice. -/
theorem pairwise_nodes (hs : d.Sound) : (d.nodes out n l a).Pairwise fun e f => e.1 ≠ f.1 := by
  induction n generalizing l a with
  | zero => exact .nil
  | succ n ih =>
    rw [nodes]
    split_ifs
    · exact .nil
    · rcases d.get? l with _ | i
      · exact .nil
      · refine List.pairwise_cons.2 ⟨fun e he => ?_, List.pairwise_flatMap.2 ⟨fun x _ => ih, ?_⟩⟩
        · obtain ⟨x, -, hx⟩ := List.mem_flatMap.1 he
          rintro rfl
          exact absurd (prefix_of_mem_nodes hx).length_le (by simp)
        · refine (nodup_childNames hs l).imp fun hxy e he f hf hef => hxy ?_
          have hp := prefix_of_mem_nodes hf
          rw [← hef] at hp
          have := List.prefix_of_prefix_length_le (prefix_of_mem_nodes he) hp (by simp)
          simpa using this

theorem parentsFirst_nodes (hs : d.Sound) {there : List Loc} {b : Loc} {x : Text} (hb : b ∈ there)
    (hx : IsName x) : ParentsFirst there (d.nodes out n l (b ++ [x])) := by
  induction n generalizing l b x there with
  | zero => exact .nil there
  | succ n ih =>
    rw [nodes]
    split_ifs
    · exact .nil there
    · rcases hi : d.get? l with _ | i
      · exact .nil there
      · have hc : ∀ y ∈ d.childNames l, IsName y ∧ i = .directory := fun y hy => by
          obtain ⟨hd, hn⟩ := hs.above l y (mem_childNames.1 hy)
          exact ⟨hn, Option.some.inj (hi.symm.trans (isDirectory_iff.1 hd))⟩
        have hbelow : ∀ there', (i = .directory → b ++ [x] ∈ there') → ParentsFirst there'
            ((d.childNames l).flatMap fun y => d.nodes out n (l ++ [y]) (b ++ [x] ++ [y])) :=
          fun there' h => .flatMap fun y hy => ih (h (hc y hy).2) (hc y hy).1
        simp only
        cases i with
        | directory => exact .directory hb hx (hbelow _ fun _ => List.mem_cons_self)
        | _ => exact .file hb hx (hbelow _ fun e => by cases e)

end Disk

end FileShell
