import FileShell.Proofs.Disk.Descent
import FileShell.Proofs.Disk.Kinds
import FileShell.Proofs.Disk.StrictPath
import Mathlib.Data.List.Basic

/-!
# Clearing a directory

Empty directories are removed from a directory one after the other, in the order of their names and
through a path to it that is looked up anew each time. If the path leads through one of them, this
one is the last that is removed (`Without.clear`). A canonical path to the directory leads through
none (`cleared_of_canonical`).

How far a path leads after several were removed is known from each one alone: what leads to a place
without the one and without the other leads there without both (`Leads.meet`).
-/

namespace FileShell

namespace Disk

variable {d d' e : Disk} {p : Path} {l m here : Loc} {x : Text} {xs ys : List Text}

/-! ## Ways on a disk with less -/

/-- What leads somewhere on two disks leads there on a disk that has the directories which both
have, if all three have the same links. -/
theorem Leads.meet {a : List Text} {c c' : Nat} {l' : Loc}
    (hdir : ∀ k, d.isDirectory k = true → d'.isDirectory k = true → e.isDirectory k = true)
    (hlink : ∀ k t, e.get? k = some (.link t) ↔ d.get? k = some (.link t))
    (hlink' : ∀ k t, e.get? k = some (.link t) ↔ d'.get? k = some (.link t))
    (h : Leads d here a c l) (h' : Leads d' here a c' l') : Leads e here a c l := by
  induction h generalizing c' l' with
  | done => exact .done
  | stay hd hs _ ih =>
    cases h' with
    | stay hd' _ h' => exact .stay (hdir _ hd hd') hs (ih h')
    | back _ _ => simp at hs
    | name _ hp _ _ _ => exact absurd hp (not_isPlain hs)
    | link _ hp _ _ _ => exact absurd hp (not_isPlain hs)
  | back hd _ ih =>
    cases h' with
    | stay _ hs _ => simp at hs
    | back hd' h' => exact .back (hdir _ hd hd') (ih h')
    | name _ hp _ _ _ => exact absurd rfl hp.2.2
    | link _ hp _ _ _ => exact absurd rfl hp.2.2
  | name hd hp hb hn _ ih =>
    have hn' := fun t ht => hn t ((hlink _ t).1 ht)
    cases h' with
    | stay _ hs _ => exact absurd hp (not_isPlain hs)
    | back _ _ => exact absurd rfl hp.2.2
    | name hd' _ _ _ h' => exact .name (hdir _ hd hd') hp hb hn' (ih h')
    | link _ _ _ hl' _ => exact absurd ((hlink' _ _).2 hl') (hn' _)
  | link hd hp hb hl _ ih =>
    have hle := (hlink _ _).2 hl
    cases h' with
    | stay _ hs _ => exact absurd hp (not_isPlain hs)
    | back _ _ => exact absurd rfl hp.2.2
    | name _ _ _ hn' _ => exact absurd ((hlink' _ _).1 hle) (hn' _)
    | link hd' _ _ hl' h' =>
      obtain rfl : _ = _ := by simpa [(hlink' _ _).1 hle] using hl'
      exact .link (hdir _ hd hd') hp hb hle (ih h')

theorem keeps_erase (h : d.get? (l ++ [x]) = some .directory) : Keeps (d.erase (l ++ [x])) d where
  directory {k} hk := by
    rw [isDirectory_iff, get?_append_erase] at hk
    split_ifs at hk
    exact isDirectory_iff.2 hk
  link {k t} := by
    rw [get?_append_erase]
    split_ifs with hk
    · simp [hk, h]
    · rfl

/-! ## What a path removes -/

/-- What is removed through a path is the directory that the path leads to. -/
theorem locate_of_locateLast (h : d.locateLast p = .ok (l, x)) (hx : isDots x = false)
    (hd : d.get? (l ++ [x]) = some .directory) : d.locate true p = .ok (l ++ [x]) := by
  obtain ⟨hp, hdir, hb, a, ha, hl⟩ := locateLast_eq_ok_iff.1 h
  have hplain : IsPlain x := isPlain_of_isDots hx (Path.ne_nil_of_mem_names (p := p) (by simp [ha]))
  obtain ⟨c, hc, hl⟩ := hl
  have hat : d.At p (l ++ [x]) :=
    ⟨c, hc, ha ▸ hl.append (.name hdir hplain hb (by simp [hd]) .done)⟩
  exact hat.locate hp (.inl (isDirectory_iff.2 hd))

theorem at_of_locateLast_join {m : Loc} {y : Text} (hx : IsName x)
    (h : d.locateLast (p.join x) = .ok (m, y)) : d.At p m ∧ y = x := by
  obtain ⟨-, -, -, a, ha, hl⟩ := locateLast_eq_ok_iff.1 h
  rw [Path.names_join_name p hx.noSlash hx.plain.1] at ha
  obtain ⟨rfl, hy⟩ := List.append_inj' ha rfl
  exact ⟨hl, (List.singleton_inj.1 hy).symm⟩

/-! ## What is cleared away -/

/-- Whether a directory with nothing in it stands at the name, and the path is still short enough
when it is joined with the name. -/
def clearable (d : Disk) (p : Path) (l : Loc) (x : Text) : Bool :=
  d.isDirectory (l ++ [x]) && (d.childNames (l ++ [x])).isEmpty && (p.join x).fits

/-- Whether the path leads to no directory any more without what stands at the name. -/
def leansOn (d : Disk) (p : Path) (l : Loc) (x : Text) : Bool := !(d.erase (l ++ [x])).isDir p

/-- The names of the directories that are removed: of those that can be, all up to the first one
that the path leads through. -/
def cleared (d : Disk) (p : Path) (l : Loc) (names : List Text) : List Text :=
  let xs := names.filter (d.clearable p l)
  xs.take (xs.findIdx (d.leansOn p l) + 1)

/-- One directory is removed if it can be and the path to where it stands still leads there. -/
def clear (p : Path) (l : Loc) (d : Disk) (x : Text) : Disk :=
  if d.isDir p && d.clearable p l x then d.erase (l ++ [x]) else d

theorem clearable_iff : d.clearable p l x = true ↔ d.get? (l ++ [x]) = some .directory ∧
    d.childNames (l ++ [x]) = [] ∧ (p.join x).fits = true := by
  simp [clearable, isDirectory_iff, and_assoc]

/-- What stands at a name below a path, if the path leads to a directory and it is no link. -/
theorem child_of_isDir (hp : ∀ m, d.At p m → m = l) (hx : IsName x) (hd : d.isDir p = true)
    (hlink : ∀ t, d.get? (l ++ [x]) ≠ some (.link t)) : d.Child p l x := by
  obtain ⟨k, hk, hdir⟩ := isDir_iff.1 hd
  obtain rfl := hp k (at_of_locate hk)
  exact ⟨hk, hdir, hx, hlink⟩

/-- What can be cleared away is removed. -/
theorem removeDir_join_of_clearable (hp : ∀ m, d.At p m → m = l) (hx : IsName x)
    (hd : d.isDir p = true) (h : d.clearable p l x = true) :
    d.locate true (p.join x) = .ok (l ++ [x]) ∧
      d.removeDir (p.join x) = .ok (d.erase (l ++ [x])) := by
  obtain ⟨hdir, hempty, hfits⟩ := clearable_iff.1 h
  have hchild := child_of_isDir hp hx hd (by simp [hdir])
  have hlast := hchild.locateLast_join
  rw [if_pos hfits] at hlast
  have hdots : isDots x = false := by simp [isDots, hx.plain.2.1, hx.plain.2.2]
  exact ⟨locate_of_locateLast hlast hdots hdir,
    removeDir_eq_ok_iff.2 ⟨l, x, hlast, hdots, hdir, hempty, rfl⟩⟩

/-- An empty directory that cannot be cleared away is come to by a link. -/
theorem exists_link_of_not_clearable {k : Loc} (hcheck : checkPath p = .ok ())
    (hp : ∀ m, d.At p m → m = l) (hx : IsName x) (hk : d.locate true (p.join x) = .ok k)
    (hd : d.isDirectory k = true) (hempty : d.childNames k = [])
    (hc : ¬ (d.isDir p = true ∧ d.clearable p l x = true)) :
    ∃ t, d.get? (l ++ [x]) = some (.link t) := by
  by_contra hlink
  -- the path still leads to its directory, or it would lead no further
  obtain ⟨m, hm, hat⟩ := (at_of_locate hk).init (Path.names_join_name p hx.noSlash hx.plain.1)
  have hdir : d.isDir p = true := (hat p rfl).isDir hcheck hm
  have hk' := (child_of_isDir hp hx hdir (not_exists.1 hlink)).locate_join
  rw [hk] at hk'
  split_ifs at hk' with hfits
  obtain rfl := Except.ok.inj hk'
  exact hc ⟨hdir, clearable_iff.2 ⟨isDirectory_iff.1 hd, hempty, hfits⟩⟩

/-- A link is not removed as a directory. -/
theorem removeDir_join_of_link {t : Path} (hp : ∀ m, d.At p m → m = l) (hx : IsName x)
    (hlink : d.get? (l ++ [x]) = some (.link t)) : ∃ e, d.removeDir (p.join x) = .error e := by
  rcases hr : d.removeDir (p.join x) with e | d'
  · exact ⟨e, rfl⟩
  · obtain ⟨_, _, hlast, -, hd, -⟩ := removeDir_eq_ok_iff.1 hr
    obtain ⟨hm, rfl⟩ := at_of_locateLast_join hx hlast
    obtain rfl := hp _ hm
    cases hd.symm.trans hlink

theorem keeps_clear (p : Path) (l : Loc) (d : Disk) (x : Text) : Keeps (d.clear p l x) d := by
  unfold clear
  split_ifs with h
  · rw [Bool.and_eq_true] at h
    exact keeps_erase (clearable_iff.1 h.2).1
  · exact .refl d

theorem cleared_nil : d.cleared p l [] = [] := rfl

theorem cleared_cons : d.cleared p l (x :: xs) =
    if d.clearable p l x then if d.leansOn p l x then [x] else x :: d.cleared p l xs
    else d.cleared p l xs := by
  unfold cleared
  split_ifs with hx hq <;> simp [List.findIdx_cons, *]

/-- All are removed if the path leads through none of them. -/
theorem cleared_eq (h : ∀ x ∈ xs, d.clearable p l x = true → d.leansOn p l x = false) :
    d.cleared p l xs = xs.filter (d.clearable p l) := by
  have hnone : (xs.filter (d.clearable p l)).findIdx (d.leansOn p l) =
      (xs.filter (d.clearable p l)).length :=
    List.findIdx_eq_length.2 fun x hx => h x (List.mem_filter.1 hx).1 (List.mem_filter.1 hx).2
  rw [cleared, hnone, List.take_of_length_le (Nat.le_succ _)]

theorem Sound.erase_clearable (hs : d.Sound) (h : d.clearable p l x = true) :
    (d.erase (l ++ [x])).Sound :=
  hs.erase (childNames_eq_nil_iff.1 (clearable_iff.1 h).2.1)

/-- A canonical path leads through nothing that stands in the directory it leads to. -/
theorem cleared_of_canonical (hs : d.Sound) (hc : d.Canonical p) (hl : d.locate true p = .ok l)
    (hd : d.isDirectory l = true) (xs : List Text) :
    d.cleared p l xs = xs.filter (d.clearable p l) := by
  refine cleared_eq fun x _ hx => ?_
  obtain ⟨k, rfl, hk⟩ := hc
  have hsettled := settled_of_isDir hk (isDir_iff.2 ⟨l, hl, hd⟩)
  have hat : d.At k.path k := ⟨0, Nat.zero_le _, hk.names_path.symm ▸ hsettled.leads hs⟩
  obtain rfl := (at_of_locate hl).unique hat
  have hleft : (d.erase (l ++ [x])).Settled l := {
    straight := hk.of_noNewLink (noNewLink_erase d _)
    directory := by
      rw [isDirectory_iff, get?_append_erase, if_neg (by simp), isDirectory_iff.1 hd]
    fits := hsettled.fits }
  simp [leansOn, hleft.isDir (hs.erase_clearable hx)]

/-! ## What is left -/

/-- The second disk is the first one without directories of the names, in which nothing was. -/
structure Without (d : Disk) (l : Loc) (xs : List Text) (e : Disk) : Prop where
  get? : ∀ k, e.get? k = if ∃ x ∈ xs, k = l ++ [x] then none else d.get? k
  directory : ∀ x ∈ xs, d.get? (l ++ [x]) = some .directory
  empty : ∀ x ∈ xs, d.childNames (l ++ [x]) = []

namespace Without

theorem nil (d : Disk) (l : Loc) : Without d l [] d where
  get? k := by simp
  directory := by simp
  empty := by simp

theorem keeps (h : Without d l xs e) : Keeps e d where
  directory {k} hk := by
    rw [isDirectory_iff, h.get?] at hk
    split_ifs at hk
    exact isDirectory_iff.2 hk
  link {k t} := by
    rw [h.get?]
    split_ifs with hk
    · obtain ⟨x, hx, rfl⟩ := hk
      simp [h.directory x hx]
    · rfl

theorem childNames_subset (h : Without d l xs e) (hx : x ∈ e.childNames l) :
    x ∈ d.childNames l := by
  rw [mem_childNames, h.get?] at hx
  split_ifs at hx
  · cases hx
  · exact mem_childNames.2 hx

theorem get?_of_not_mem (h : Without d l xs e) (hx : x ∉ xs) :
    e.get? (l ++ [x]) = d.get? (l ++ [x]) := by
  rw [h.get?, if_neg]
  rintro ⟨y, hy, he⟩
  obtain rfl : x = y := by simpa using he
  exact hx hy

theorem clearable_eq (h : Without d l xs e) (p : Path) (hx : x ∉ xs) :
    e.clearable p l x = d.clearable p l x := by
  have hbelow (y : Text) : e.get? (l ++ [x] ++ [y]) = d.get? (l ++ [x] ++ [y]) := by
    rw [h.get?, if_neg]
    rintro ⟨z, -, hz⟩
    simp at hz
  rw [Bool.eq_iff_iff, clearable_iff, clearable_iff, h.get?_of_not_mem hx, childNames_eq_nil_iff,
    childNames_eq_nil_iff]
  simp only [hbelow]

theorem erase (h : Without d l xs e) (hx : d.clearable p l x = true) :
    Without d l (xs ++ [x]) (e.erase (l ++ [x])) where
  get? k := by
    rw [get?_append_erase, h.get?]
    by_cases hk : k = l ++ [x]
    · simp [hk]
    · simp [hk, or_and_right, exists_or]
  directory := by
    rw [List.forall_mem_append]
    exact ⟨h.directory, List.forall_mem_singleton.2 (clearable_iff.1 hx).1⟩
  empty := by
    rw [List.forall_mem_append]
    exact ⟨h.empty, List.forall_mem_singleton.2 (clearable_iff.1 hx).2.1⟩

/-- Whether the path still leads to a directory does not depend on what else was removed. -/
theorem isDir_erase (h : Without d l xs e) (hp : e.isDir p = true) (hx : x ∉ xs)
    (hc : d.clearable p l x = true) : (e.erase (l ++ [x])).isDir p = !d.leansOn p l x := by
  have hxd := (clearable_iff.1 hc).1
  have hxe := (h.get?_of_not_mem hx).trans hxd
  have hlink (k : Loc) (t : Path) : (e.erase (l ++ [x])).get? k = some (.link t) ↔
      d.get? k = some (.link t) := ((keeps_erase hxe).trans h.keeps).link.symm
  rw [leansOn, Bool.not_not, Bool.eq_iff_iff]
  constructor
  · refine isDir_of_keeps ⟨fun {k} hk => ?_, fun {k t} => ?_⟩
    · rw [isDirectory_iff, get?_append_erase] at hk ⊢
      split_ifs at hk ⊢
      exact isDirectory_iff.1 (h.keeps.directory (isDirectory_iff.2 hk))
    · rw [hlink, (keeps_erase hxd).link]
  · intro hp'
    obtain ⟨k, hk, hkd⟩ := isDir_iff.1 hp
    obtain ⟨k', hk', hkd'⟩ := isDir_iff.1 hp'
    -- on the whole disk the path leads to one place
    obtain rfl := ((at_of_locate hk).of_keeps h.keeps).unique
      ((at_of_locate hk').of_keeps (keeps_erase hxd))
    have hdir (k : Loc) (h₁ : e.isDirectory k = true)
        (h₂ : (d.erase (l ++ [x])).isDirectory k = true) :
        (e.erase (l ++ [x])).isDirectory k = true := by
      rw [isDirectory_iff, get?_append_erase] at h₂ ⊢
      split_ifs at h₂ ⊢
      exact isDirectory_iff.1 h₁
    obtain ⟨hcheck, c, hc, hl⟩ := locate_eq_ok_iff.1 hk
    obtain ⟨-, c', -, hl'⟩ := locate_eq_ok_iff.1 hk'
    refine isDir_iff.2 ⟨k, locate_eq_ok_iff.2 ⟨hcheck, c, hc, hl.meet hdir ?_ ?_ hl'⟩,
      hdir k hkd hkd'⟩
    · exact fun k t => (hlink k t).trans h.keeps.link
    · exact fun k t => (hlink k t).trans (keeps_erase hxd).link

/-- Once the path is cut off, nothing is removed any more. -/
theorem foldl_clear_of_not_isDir (hp : e.isDir p = false) (ys : List Text) :
    ys.foldl (clear p l) e = e :=
  List.foldl_fixed' (fun y => by rw [clear, hp, Bool.false_and, if_neg Bool.false_ne_true]) ys

/-- What is removed are the names that can be, up to the first that the path leads through. If it
still leads to the directory, they are all that can be. -/
theorem clear : ∀ {ys xs : List Text} {e : Disk}, Without d l xs e → e.isDir p = true →
    (xs ++ ys).Nodup → Without d l (xs ++ d.cleared p l ys) (ys.foldl (clear p l) e) ∧
      ((ys.foldl (Disk.clear p l) e).isDir p = true →
        d.cleared p l ys = ys.filter (d.clearable p l))
  | [], xs, e, h, _, _ => by
    rw [cleared_nil, List.append_nil]
    exact ⟨h, fun _ => rfl⟩
  | y :: ys, xs, e, h, hp, hn => by
    have hy : y ∉ xs := fun hy => (List.nodup_append.1 hn).2.2 y hy y List.mem_cons_self rfl
    rw [List.foldl_cons, Disk.clear, hp, h.clearable_eq p hy, Bool.true_and, cleared_cons]
    by_cases hc : d.clearable p l y = true
    · rw [if_pos hc, if_pos hc, List.filter_cons_of_pos hc]
      have h' := h.erase hc
      have hp' := h.isDir_erase hp hy hc
      split_ifs with hq
      · rw [hq] at hp'
        rw [foldl_clear_of_not_isDir hp']
        refine ⟨h', fun hdir => ?_⟩
        rw [hp'] at hdir
        cases hdir
      · rw [eq_false_of_ne_true hq] at hp'
        obtain ⟨hw, hall⟩ := h'.clear hp' (by simpa using hn)
        rw [List.append_assoc, List.singleton_append] at hw
        exact ⟨hw, fun hdir => congrArg (y :: ·) (hall hdir)⟩
    · rw [if_neg hc, if_neg hc, List.filter_cons_of_neg hc]
      exact h.clear hp (hn.sublist (List.Sublist.append_left (List.sublist_cons_self y ys) xs))

end Without

/-- Clearing a directory once more removes nothing. -/
theorem Sound.clear_clear (hs : d.Sound) (hp : d.isDir p = true) :
    let e := (d.childNames l).foldl (clear p l) d
    Without d l (d.cleared p l (d.childNames l)) e ∧ ∀ x, clear p l e x = e := by
  intro e
  obtain ⟨h, hall⟩ := (Without.nil d l).clear hp (by simpa using nodup_childNames hs l)
  rw [List.nil_append] at h
  refine ⟨h, fun x => ?_⟩
  unfold clear
  rw [if_neg]
  intro hx
  rw [Bool.and_eq_true] at hx
  obtain ⟨hdir, hx⟩ := hx
  have hthere : e.get? (l ++ [x]) = some .directory := (clearable_iff.1 hx).1
  have hnot : x ∉ d.cleared p l (d.childNames l) := by
    intro hmem
    rw [h.get?, if_pos ⟨x, hmem, rfl⟩] at hthere
    cases hthere
  rw [h.clearable_eq p hnot] at hx
  rw [h.get?_of_not_mem hnot] at hthere
  refine hnot ?_
  rw [hall hdir]
  exact List.mem_filter.2 ⟨mem_childNames.2 (by simp [hthere]), hx⟩

end Disk

end FileShell
