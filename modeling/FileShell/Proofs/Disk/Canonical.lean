import FileShell.Proofs.Disk.RealPath
import FileShell.Proofs.Disk.Steps
import FileShell.Proofs.Path.Normal
import FileShell.Shell.Session

/-!
# Canonical paths

A path is canonical on a disk if it spells out a location and no link stands at the location or
above it. Strict real paths are canonical (`canonical_of_realPath`), so is the parent of a canonical
path (`Canonical.parent?`), and a path stays canonical as long as no link is made
(`Canonical.of_noNewLink`).
-/

namespace FileShell

namespace Disk

variable {d d' : Disk} {p q : Path} {l k here : Loc} {a : List Text} {x : Text} {n : Nat}

/-- The names can stand in a path as they are, and nothing on the way through them is a link. -/
structure Straight (d : Disk) (l : Loc) : Prop where
  plain : ∀ x ∈ l, IsPlain x ∧ '/' ∉ x
  noLink : ∀ k t, k <+: l → d.get? k ≠ some (.link t)

/-- The path begins with one slash, has no empty name and none of dots alone, ends in no slash but
the first one, and leads through no link. -/
def Canonical (d : Disk) (p : Path) : Prop := ∃ l : Loc, p = l.path ∧ d.Straight l

theorem straight_nil (d : Disk) : d.Straight [] where
  plain := by simp
  noLink k t hk := by
    rw [List.prefix_nil.1 hk]
    simp [get?]

theorem Straight.of_prefix (h : d.Straight l) (hk : k <+: l) : d.Straight k where
  plain x hx := h.plain x (hk.mem hx)
  noLink j t hj := h.noLink j t (hj.trans hk)

theorem Straight.concat (h : d.Straight l) (hx : IsPlain x) (hs : '/' ∉ x)
    (hn : ∀ t, d.get? (l ++ [x]) ≠ some (.link t)) : d.Straight (l ++ [x]) where
  plain y hy := by
    rcases List.mem_append.1 hy with hy | hy
    · exact h.plain y hy
    · obtain rfl := List.mem_singleton.1 hy
      exact ⟨hx, hs⟩
  noLink k t hk := by
    rcases List.prefix_concat_iff.1 hk with rfl | hk
    · exact hn t
    · exact h.noLink k t hk

theorem Straight.of_noNewLink (h : d.Straight l) (hd : NoNewLink d d') : d'.Straight l :=
  ⟨h.plain, fun k t hk ht => h.noLink k t hk (hd k t ht)⟩

theorem Canonical.of_noNewLink (h : d.Canonical p) (hd : NoNewLink d d') : d'.Canonical p := by
  obtain ⟨l, rfl, hl⟩ := h
  exact ⟨l, rfl, hl.of_noNewLink hd⟩

/-! ## Real paths -/

/-- A property of places that strict real paths keep: it passes up, and down to a place that is no
link by a name through a path that is short enough. -/
structure Lasts (d : Disk) (P : Loc → Prop) : Prop where
  root : P []
  up : ∀ {l}, P l → P l.dropLast
  down : ∀ {l x}, P l → IsPlain x → '/' ∉ x → '\x00' ∉ x →
    (Loc.path (l ++ [x])).byteSize ≤ maxPath → (∀ t, d.get? (l ++ [x]) ≠ some (.link t)) →
    P (l ++ [x])

/-- What comes of following pieces strictly: a place with the property, if anything. -/
def Reaches (P : Loc → Prop) (r : Except DiskError Trace) : Prop :=
  ∀ t, r = .ok t → ∃ l, t = .reached l ∧ P l

theorem reaches_error {P : Loc → Prop} (e : DiskError) : Reaches P (.error e) := by
  intro t h
  cases h

/-- Pieces are followed to a place with the property if the links among them are. -/
theorem traceWith_reaches {P : Loc → Prop} (hP : d.Lasts P)
    {onLink : Loc → Loc → Path → Except DiskError Trace}
    (hon : ∀ l here target, P here → Reaches P (onLink l here target)) :
    ∀ (a : List Text) {here : Loc}, (∀ s ∈ a, '/' ∉ s) → P here →
      Reaches P (d.traceWith true onLink here a)
  | [], here, _, hh => by
    intro t h
    rw [traceWith] at h
    cases h
    exact ⟨here, rfl, hh⟩
  | s :: rest, here, ha, hh => by
    have ih {here : Loc} (hh : P here) :=
      traceWith_reaches hP hon rest (fun y hy => ha y (List.mem_cons_of_mem s hy)) hh
    rw [traceWith, if_pos rfl, if_pos rfl]
    split_ifs with h1 h2 h3 h4
    · exact ih hh
    · exact ih (hP.up hh)
    · exact reaches_error _
    · exact reaches_error _
    have hs : IsPlain s := ⟨fun e => h1 (.inl e), fun e => h1 (.inr e), h2⟩
    split
    · rename_i target _
      have hlink := hon (here ++ [s]) here target hh
      split
      · exact reaches_error _
      -- a strict walk fails where a lenient one gets stuck
      · rename_i p hp
        obtain ⟨l, hl, -⟩ := hlink _ hp
        cases hl
      · rename_i l hl
        obtain ⟨_, hm, hkept⟩ := hlink _ hl
        cases hm
        exact ih hkept
    · rename_i i hlink hi
      refine ih (hP.down hh hs (ha s List.mem_cons_self) (by simpa using h3)
        (by simpa using h4) fun t ht => ?_)
      exact hlink t (Option.some.inj (hi.symm.trans ht))
    · exact reaches_error _

theorem not_mem_of_mem_split {p : Path} {s : Text} (h : s ∈ Text.split (· == '/') p) : '/' ∉ s :=
  fun hc => by simpa using Text.not_of_mem_split h hc

theorem trace_reaches {P : Loc → Prop} (hP : d.Lasts P) :
    ∀ (n : Nat) (active : List Loc) {here : Loc} {a : List Text},
      (∀ s ∈ a, '/' ∉ s) → P here → Reaches P (d.trace true n active here a)
  | 0, _, _, a, ha, hh => by
    refine traceWith_reaches hP (fun l here target hh => ?_) a ha hh
    split
    · exact reaches_error _
    · exact reaches_error _
  | n + 1, active, _, a, ha, hh => by
    refine traceWith_reaches hP (fun l here target hh => ?_) a ha hh
    have hbase : P (if target.isAbsolute then [] else here) := by
      split_ifs
      · exact hP.root
      · exact hh
    split
    · exact reaches_error _
    · exact trace_reaches hP n _ (fun s => not_mem_of_mem_split) hbase

/-- A strict real path spells out the place that its pieces are followed to, and the place has every
property that lasts. -/
theorem exists_of_realPath (h : d.realPath n true p = .ok q) : ∃ l, q = l.path ∧
    d.trace true n [] [] (Text.split (· == '/') p) = .ok (.reached l) ∧
    ∀ P, d.Lasts P → P l := by
  have ht {P : Loc → Prop} (hP : d.Lasts P) :=
    trace_reaches hP n [] (a := Text.split (· == '/') p)
      (fun s => not_mem_of_mem_split) hP.root
  unfold realPath at h
  generalize d.trace true n [] [] (Text.split (· == '/') p) = r at h ht
  split at h
  · cases h
  · cases h
    refine ⟨_, rfl, rfl, fun P hP => ?_⟩
    obtain ⟨_, hl, hkept⟩ := ht hP _ rfl
    cases hl
    exact hkept
  · obtain ⟨_, hl, -⟩ := ht (P := fun _ => True) ⟨trivial, id, fun h _ _ _ _ _ => h⟩ _ rfl
    cases hl

theorem lasts_straight (d : Disk) : d.Lasts d.Straight where
  root := straight_nil d
  up h := h.of_prefix (List.dropLast_prefix _)
  down h hx hs _ _ hn := h.concat hx hs hn

/-- A real path that needs every part to be there is canonical. -/
theorem canonical_of_realPath (h : d.realPath n true p = .ok q) : d.Canonical q := by
  obtain ⟨l, rfl, -, hl⟩ := exists_of_realPath h
  exact ⟨l, rfl, hl _ d.lasts_straight⟩

/-! ## Parents -/

theorem path_concat (a : Loc) (x : Text) :
    Loc.path (a ++ [x]) = (if a = [] then [] else Loc.path a) ++ '/' :: x := by
  rcases eq_or_ne a [] with rfl | ha
  · rfl
  · rw [if_neg ha, Loc.path, Text.join_concat _ _ ha, Loc.path]
    simp

/-- A path that spells out a location ends in its last name. -/
theorem getLast?_path_concat (a : List Text) (hx : x ≠ []) (hs : '/' ∉ x) :
    (Loc.path (a ++ [x])).getLast? ≠ some '/' := by
  rw [path_concat, List.getLast?_append_of_ne_nil _ (List.cons_ne_nil _ _),
    List.getLast?_cons_of_ne_nil hx]
  exact fun h => hs (List.mem_of_getLast? h)

theorem parent_path_concat (ha : d.Straight (a ++ [x])) :
    Path.parent (Loc.path (a ++ [x])) = Loc.path a := by
  have hx := (ha.plain x (by simp)).2
  rcases List.eq_nil_or_concat a with rfl | ⟨b, y, rfl⟩
  · exact Path.parent_append (f := ['/']) hx (by simp)
  · rw [List.concat_eq_append] at ha ⊢
    have hy := ha.plain y (by simp)
    have hlast := getLast?_path_concat b hy.1.1 hy.2
    have hne : Loc.path (b ++ [y]) ≠ [] := List.cons_ne_nil _ _
    have hjoin : Loc.path (b ++ [y] ++ [x]) = (Loc.path (b ++ [y])).join x := by
      rw [Path.join_eq_of_relative (Path.isAbsolute_of_not_mem hx),
        if_neg (by simpa [hne] using hlast), path_concat, if_neg (by simp)]
    rw [hjoin, Path.parent_join hne hlast hx]

theorem Straight.spellable (h : d.Straight l) : Spellable l :=
  fun x hx => ⟨(h.plain x hx).2, (h.plain x hx).1.1⟩

theorem Straight.names_path (h : d.Straight l) : l.path.names = l := h.spellable.names_path

/-- The directory above one that is spelled out, unless that is the root. -/
theorem Straight.parent?_eq {session : Session} (h : d.Straight l)
    (hl : session.directory = l.path) :
    session.parent? = if l = [] then none else some (Loc.path l.dropLast) := by
  unfold Session.parent?
  rw [hl]
  rcases List.eq_nil_or_concat l with rfl | ⟨a, x, rfl⟩
  · rfl
  rw [List.concat_eq_append] at h ⊢
  have hx := h.plain x (by simp)
  have ha : d.Straight a := h.of_prefix (List.prefix_append a [x])
  have hne : (Loc.path (a ++ [x])).isEmpty = false := rfl
  have hup : Loc.path a ≠ Loc.path (a ++ [x]) := fun he => by
    have hnames := congrArg Path.names he
    rw [ha.names_path, h.names_path] at hnames
    simp at hnames
  rw [Text.trimEnd_eq_self (getLast?_path_concat a hx.1.1 hx.2)]
  simp only [hne, Bool.false_eq_true, if_false, parent_path_concat h]
  rw [List.dropLast_concat, if_neg (by simpa [Loc.path] using hup), if_neg (by simp)]

/-- The directory above a canonical one is canonical. -/
theorem Canonical.parent? {session : Session} (h : d.Canonical session.directory)
    (hq : session.parent? = some q) : d.Canonical q := by
  obtain ⟨l, hl, hd⟩ := h
  rw [hd.parent?_eq hl] at hq
  split_ifs at hq
  obtain rfl := Option.some.inj hq
  exact ⟨l.dropLast, rfl, hd.of_prefix (List.dropLast_prefix l)⟩

end Disk

end FileShell
