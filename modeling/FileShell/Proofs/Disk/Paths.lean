import FileShell.Proofs.Disk.Descent
import FileShell.Proofs.Disk.StrictPath
import Mathlib.Data.List.Infix

/-!
# Making paths

Where no links are, a path is made whole or not at all (`makeDirs_of_checkPath`): if nothing stands
at its end and nothing but directories on the way, a directory is afterwards at each place along it,
and otherwise nothing is made, not even of what is missing above. Only for a path that is too long
to be looked up those above it are made, as far up as they are not too long themselves
(`makeDirs_of_linkFree`).

When paths are made in turn, what stands in the way of one is never made by another one. So which
directories are there in the end does not depend on the order (`Sound.get?_turns`), while it does
depend on it which of the paths are refused. A path is not even tried if more directories than a
given number are missing above it; since they never get more, none is refused for that whose
directories are few enough to begin with.
-/

namespace FileShell

set_option linter.unusedVariables false in
/-- The path, or the first one above it that is short enough to be looked up. -/
def Path.reach (p : Path) : Path :=
  if h : p.fits = false ∧ p.splitLast.2 ≠ [] then Path.reach p.splitLast.1 else p
  termination_by p.length
  decreasing_by exact Path.length_splitLast_lt h.2

namespace Path

variable {p : Path}

theorem reach_of_fits (h : p.fits = true) : p.reach = p := by
  rw [reach, dif_neg (by simp [h])]

theorem mem_names_of_reach (p : Path) {x : Text} (h : x ∈ p.reach.names) : x ∈ p.names := by
  rw [reach] at h
  split_ifs at h with hup
  · rw [names_splitLast hup.2]
    exact List.mem_append_left _ (mem_names_of_reach p.splitLast.1 h)
  · exact h
  termination_by p.length
  decreasing_by exact length_splitLast_lt hup.2

end Path

namespace Disk

variable {d d' : Disk} {p : Path} {l k : Loc} {a : List Text} {x : Text}

/-- Whether anything but a directory stands at the location or above it. -/
def blocked (d : Disk) (l : Loc) : Bool := l.inits.any fun k => (d.get? k).any (· != .directory)

/-- Whether a path to the location can be made: nothing is there, and nothing is in the way. -/
def free (d : Disk) (l : Loc) : Bool := (d.get? l).isNone && !d.blocked l.dropLast

/-- The disk with directories at the location and above it wherever nothing stood. -/
def withPath (d : Disk) (l : Loc) : Disk := l.inits.foldl withDirectory d

/-- The disk with a path to the location if one can be made. -/
def tryPath (d : Disk) (l : Loc) : Disk := if d.free l then d.withPath l else d

/-- The disk after the paths of names were made in turn, and the names that were refused: each is
judged on the disk that the names before it have left. If more than `n` directories are missing
above a path, it is left as it is. -/
def turns (n : Nat) (path : Text → Path) : List Text → Disk → Disk × List Text
  | [], d => (d, [])
  | x :: xs, d =>
    if n < d.missingAbove (path x) then
      let r := turns n path xs d
      (r.1, x :: r.2)
    else
      let r := turns n path xs (d.tryPath (path x).reach.names)
      (r.1, if (path x).fits && d.free (path x).names then r.2 else x :: r.2)

/-! ## What is in the way -/

theorem blocked_eq_false_iff :
    d.blocked l = false ↔ ∀ k, k <+: l → d.get? k = none ∨ d.get? k = some .directory := by
  rw [blocked, List.any_eq_false]
  refine forall_congr' fun k => ?_
  rw [List.mem_inits]
  rcases d.get? k with _ | i <;> simp

theorem not_blocked_above (h : d.blocked l = false) (hk : k <+: l) : d.blocked k = false :=
  blocked_eq_false_iff.2 fun m hm => blocked_eq_false_iff.1 h m (hm.trans hk)

theorem blocked_concat (h : d.blocked a = false)
    (hx : d.get? (a ++ [x]) = none ∨ d.get? (a ++ [x]) = some .directory) :
    d.blocked (a ++ [x]) = false :=
  blocked_eq_false_iff.2 fun k hk => by
    rcases List.prefix_concat_iff.1 hk with rfl | hk
    · exact hx
    · exact blocked_eq_false_iff.1 h k hk

theorem MoreDirectories.blocked_eq (h : MoreDirectories d d') (l : Loc) :
    d'.blocked l = d.blocked l := by
  have hk (k : Loc) : (d'.get? k).any (· != .directory) = (d.get? k).any (· != .directory) := by
    rcases h k with hk | ⟨hk, hk'⟩
    · rw [hk]
    · simp [hk, hk']
  simp only [blocked, hk]

theorem LinkFree.of_moreDirectories (h : MoreDirectories d d') (hf : d.LinkFree l) :
    d'.LinkFree l :=
  fun k t hk ht => hf k t hk ((h.get?_iff (by simp)).1 ht)

theorem free_iff : d.free l = true ↔ d.get? l = none ∧ d.blocked l = false := by
  have hfree : d.free l = true ↔ d.get? l = none ∧ d.blocked l.dropLast = false := by simp [free]
  rw [hfree]
  refine and_congr_right fun hn => ⟨fun h => ?_, fun h => not_blocked_above h l.dropLast_prefix⟩
  rcases List.eq_nil_or_concat l with rfl | ⟨a, x, rfl⟩
  · exact h
  · rw [List.concat_eq_append] at hn h ⊢
    exact blocked_concat (by simpa using h) (.inl hn)

/-- Directories are all that stands above a directory. -/
theorem Sound.isDirectory_above (hs : d.Sound) (hd : d.isDirectory l = true) (hk : k <+: l) :
    d.isDirectory k = true := by
  obtain ⟨a, rfl⟩ := hk
  rcases eq_or_ne a [] with rfl | ha
  · simpa using hd
  · exact hs.isDirectory_of_prefix ha (by rw [isDirectory_iff.1 hd]; rfl)

theorem Sound.blocked_of_isDirectory (hs : d.Sound) (hd : d.isDirectory l = true) :
    d.blocked l = false :=
  blocked_eq_false_iff.2 fun _ hk => .inr (isDirectory_iff.1 (hs.isDirectory_above hd hk))

/-! ## Whole paths -/

theorem withPath_nil : d.withPath [] = d :=
  show d.withDirectory [] = d from withDirectory_of_isDirectory rfl

theorem withPath_concat : d.withPath (a ++ [x]) = (d.withPath a).withDirectory (a ++ [x]) := by
  rw [withPath, List.inits_append, List.foldl_append]
  rfl

theorem get?_withPath (h : d.blocked l = false) (k : Loc) :
    (d.withPath l).get? k = if k <+: l then some .directory else d.get? k := by
  induction l using List.reverseRecOn generalizing k with
  | nil =>
    rw [withPath_nil]
    split_ifs with hk
    · rw [List.prefix_nil.1 hk]
      rfl
    · rfl
  | append_singleton a x ih =>
    have ih (m : Loc) := ih (not_blocked_above h (List.prefix_append a [x])) m
    have hnot : ¬ a ++ [x] <+: a := fun hk => absurd hk.length_le (by simp)
    have hlast := blocked_eq_false_iff.1 h (a ++ [x]) List.prefix_rfl
    rw [withPath_concat, get?_withDirectory (by rwa [ih, if_neg hnot]), ih]
    simp only [List.prefix_concat_iff]
    split_ifs <;> simp_all

theorem moreDirectories_withPath (h : d.blocked l = false) : MoreDirectories d (d.withPath l) := by
  intro k
  rw [get?_withPath h]
  split_ifs with hk
  · exact (blocked_eq_false_iff.1 h k hk).symm.imp Eq.symm fun hn => ⟨hn, rfl⟩
  · exact .inl rfl

theorem isDirectory_withPath (h : d.blocked l = false) : (d.withPath l).isDirectory l = true := by
  rw [isDirectory_iff, get?_withPath h, if_pos List.prefix_rfl]

theorem Sound.withPath (hs : d.Sound) (h : d.blocked l = false) (hl : ∀ x ∈ l, IsName x) :
    (d.withPath l).Sound := by
  induction l using List.reverseRecOn with
  | nil => rwa [withPath_nil]
  | append_singleton a x ih =>
    have ha := not_blocked_above h (List.prefix_append a [x])
    rw [withPath_concat]
    exact (ih ha fun y hy => hl y (List.mem_append_left _ hy)).withDirectory
      (isDirectory_withPath ha) (hl x (by simp))

theorem Sound.withPath_of_isDirectory (hs : d.Sound) (hd : d.isDirectory l = true) :
    d.withPath l = d := by
  induction l using List.reverseRecOn with
  | nil => exact withPath_nil
  | append_singleton a x ih =>
    have ha := (hs.above a x (by rw [isDirectory_iff.1 hd]; rfl)).1
    rw [withPath_concat, ih ha, withDirectory_of_isDirectory hd]

/-! ## Making a path -/

section

variable (hs : d.Sound)
include hs

theorem Straight.makeDir_eq_ok_iff (h : d.Straight (a ++ [x])) (hx : IsName x)
    (hp : checkPath p = .ok ()) (hn : p.names = a ++ [x]) : d.makeDir p = .ok d' ↔
      d.isDirectory a = true ∧ d.get? (a ++ [x]) = none ∧
        d' = d.insert (a ++ [x]) .directory := by
  have ha : d.Straight a := h.of_prefix (List.prefix_append a [x])
  rw [Disk.makeDir_eq_ok_iff]
  constructor
  · rintro ⟨m, y, hl, -, hfree, rfl⟩
    obtain ⟨-, hd, -, b, hb, c, -, hm⟩ := locateLast_eq_ok_iff.1 hl
    obtain ⟨rfl, hy⟩ := List.append_inj' (hn.symm.trans hb) rfl
    obtain rfl := List.singleton_inj.1 hy
    obtain rfl : m = a := hm.eq_append_of_straight ha
    exact ⟨hd, hfree, rfl⟩
  · rintro ⟨hd, hfree, rfl⟩
    refine ⟨a, x, locateLast_eq_ok_iff.2 ⟨hp, hd, hx.short, a, hn, 0, Nat.zero_le _, ?_⟩, ?_, hfree,
      rfl⟩
    · exact ha.leads hs hd
    · simp [isDots, hx.plain.2.1, hx.plain.2.2]

theorem Straight.pathExists (h : d.Straight p.names) (hp : checkPath p = .ok ())
    (hd : d.isDirectory p.names = true) : d.pathExists p = true :=
  pathExists_of_isDir (At.isDir ⟨0, Nat.zero_le _, h.leads hs hd⟩ hp hd)

omit hs in
theorem Straight.of_pathExists (h : d.Straight p.names) (he : d.pathExists p = true) :
    p.fits = true ∧ (d.get? p.names).isSome := by
  unfold Disk.pathExists find? at he
  split at he
  · rename_i m hm
    obtain ⟨_, -, hl⟩ := at_of_locate hm
    obtain rfl : m = p.names := hl.eq_append_of_straight h
    exact ⟨Path.fits_iff.2 (checkPath_eq_ok_iff.1 (locate_eq_ok_iff.1 hm).1).2.2, he⟩
  · cases he

end

theorem LinkFree.straight (hf : d.LinkFree []) (hx : ∀ x ∈ l, IsName x) : d.Straight l where
  plain x h := ⟨(hx x h).plain, (hx x h).noSlash⟩
  noLink k t _ := hf k t List.nil_prefix

/-- The last step: a directory is made at the end of a path, if all above it is there. -/
theorem makeLastDir_of_straight (hs : d.Sound) (h : d.Straight (a ++ [x])) (hx : IsName x)
    (hp : checkPath p = .ok ()) (hn : p.names = a ++ [x]) :
    if d.isDirectory a = true ∧ d.get? (a ++ [x]) = none then
      d.makeLastDir false p = (.ok (), d.insert (a ++ [x]) .directory)
    else ∃ e, d.makeLastDir false p = (.error e, d) := by
  unfold makeLastDir
  rcases hm : d.makeDir p with e | d'
  · rw [if_neg]
    · exact ⟨e, rfl⟩
    · rintro ⟨hd, hnone⟩
      cases hm.symm.trans ((h.makeDir_eq_ok_iff hs hx hp hn).2 ⟨hd, hnone, rfl⟩)
  · obtain ⟨hd, hnone, rfl⟩ := (h.makeDir_eq_ok_iff hs hx hp hn).1 hm
    rw [if_pos ⟨hd, hnone⟩]

theorem makeLastDir_of_stands (hs : d.Sound) (h : d.Straight (a ++ [x])) (hx : IsName x)
    (hp : checkPath p = .ok ()) (hn : p.names = a ++ [x]) (ha : (d.get? a).isSome) :
    if d.free (a ++ [x]) = true then d.makeLastDir false p = (.ok (), d.withPath (a ++ [x]))
    else ∃ e, d.makeLastDir false p = (.error e, d) := by
  have hlast := makeLastDir_of_straight hs h hx hp hn
  have hiff : (d.isDirectory a = true ∧ d.get? (a ++ [x]) = none) ↔ d.free (a ++ [x]) = true := by
    rw [free_iff]
    constructor
    · exact fun ⟨hd, hnone⟩ => ⟨hnone, blocked_concat (hs.blocked_of_isDirectory hd) (.inl hnone)⟩
    · rintro ⟨hnone, hb⟩
      rcases blocked_eq_false_iff.1 hb a (List.prefix_append a [x]) with hn | hd
      · simp [hn] at ha
      · exact ⟨isDirectory_iff.2 hd, hnone⟩
  simp only [hiff] at hlast
  split_ifs at hlast ⊢ with hfree
  · obtain ⟨hd, hnone⟩ := hiff.2 hfree
    rw [hlast, withPath_concat, hs.withPath_of_isDirectory hd, withDirectory, if_pos hnone]
  · exact hlast

/-- Once what is above is made, the last step succeeds. -/
theorem makeLastDir_withPath (hs : d.Sound) (h : d.Straight (a ++ [x]))
    (hx : ∀ y ∈ a ++ [x], IsName y) (hp : checkPath p = .ok ()) (hn : p.names = a ++ [x])
    (hfree : d.free (a ++ [x]) = true) :
    (d.withPath a).makeLastDir false p = (.ok (), d.withPath (a ++ [x])) := by
  obtain ⟨hgone, hb⟩ := free_iff.1 hfree
  have ha := not_blocked_above hb (List.prefix_append a [x])
  have hmore := moreDirectories_withPath ha
  have hgone' : (d.withPath a).get? (a ++ [x]) = none := by
    rw [get?_withPath ha, if_neg fun hk => absurd hk.length_le (by simp), hgone]
  have hlast := makeLastDir_of_straight
    (hs.withPath ha fun y hy => hx y (List.mem_append_left _ hy))
    (h.of_noNewLink fun k t => (hmore.get?_iff (by simp)).1) (hx x (by simp)) hp hn
  rw [if_pos ⟨isDirectory_withPath ha, hgone'⟩] at hlast
  rw [hlast, withPath_concat, withDirectory, if_pos hgone']

/-- Where no directory is, a path further down is free exactly if the path to there is. -/
theorem Sound.free_concat_eq (hs : d.Sound) (hd : d.isDirectory a = false) (x : Text) :
    d.free (a ++ [x]) = d.free a := by
  have hgone : d.get? (a ++ [x]) = none := by
    by_contra hsome
    rw [(hs.above a x (Option.isSome_iff_ne_none.2 hsome)).1] at hd
    cases hd
  rw [Bool.eq_iff_iff, free_iff, free_iff]
  constructor
  · rintro ⟨-, hb⟩
    have ha := not_blocked_above hb (List.prefix_append a [x])
    refine ⟨(blocked_eq_false_iff.1 ha a List.prefix_rfl).resolve_right fun h => ?_, ha⟩
    rw [isDirectory_iff.2 h] at hd
    cases hd
  · exact fun ⟨_, ha⟩ => ⟨hgone, blocked_concat ha (.inl hgone)⟩

theorem isName_splitLast (hlast : p.splitLast.2 ≠ []) (hx : ∀ x ∈ p.names, IsName x) :
    (∀ x ∈ p.splitLast.1.names, IsName x) ∧ IsName p.splitLast.2 := by
  rw [Path.names_splitLast hlast] at hx
  exact ⟨fun x h => hx x (List.mem_append_left _ h), hx _ (by simp)⟩

/-- A path that can be looked up is made whole if it is free, and otherwise nothing is made. -/
theorem makeDirs_of_checkPath (hs : d.Sound) (hf : d.LinkFree []) (p : Path)
    (hp : checkPath p = .ok ()) (hx : ∀ x ∈ p.names, IsName x) :
    if d.free p.names = true then d.makeDirs false p = (.ok (), d.withPath p.names)
    else ∃ e, d.makeDirs false p = (.error e, d) := by
  have hstraight := hf.straight hx
  by_cases hlast : p.splitLast.2 = []
  · have hn := Path.names_eq_nil_of_splitLast hlast
    rw [makeDirs, dif_neg (by simp [hlast]), hn, if_neg (by simp [free, get?])]
    rcases hm : d.makeDir p with e | d'
    · exact ⟨e, by simp [makeLastDir, hm]⟩
    · obtain ⟨m, y, hl, -⟩ := Disk.makeDir_eq_ok_iff.1 hm
      obtain ⟨-, -, -, a, ha, -⟩ := locateLast_eq_ok_iff.1 hl
      simp [hn] at ha
  have hn := Path.names_splitLast hlast
  obtain ⟨hup, hname⟩ := isName_splitLast hlast hx
  rw [hn] at hstraight ⊢
  by_cases hq : p.splitLast.1 = []
  · rw [makeDirs, dif_neg (by simp [hq])]
    exact makeLastDir_of_stands hs hstraight hname hp hn (by rw [hq]; rfl)
  by_cases he : d.pathExists p.splitLast.1 = true
  · rw [makeDirs, dif_neg (by simp [he])]
    exact makeLastDir_of_stands hs hstraight hname hp hn
      ((hf.straight hup).of_pathExists he).2
  -- what is above is made first
  have hpq := checkPath_of_sublist hp (Path.splitLast_sublist p) hq
  have ih := makeDirs_of_checkPath hs hf p.splitLast.1 hpq hup
  have hdir : d.isDirectory p.splitLast.1.names = false :=
    eq_false_of_ne_true fun hd => he ((hf.straight hup).pathExists hs hpq hd)
  rw [makeDirs, dif_pos ⟨hlast, hq, eq_false_of_ne_true he⟩]
  rw [hs.free_concat_eq hdir]
  by_cases hfree : d.free p.splitLast.1.names = true
  · rw [if_pos hfree] at ih ⊢
    rw [ih]
    simp only [if_neg hname.plain.2.1]
    exact makeLastDir_withPath hs hstraight (hn ▸ hx) hp hn
      ((hs.free_concat_eq hdir _).trans hfree)
  · rw [if_neg hfree] at ih ⊢
    obtain ⟨e, ih⟩ := ih
    have hlast' := makeLastDir_of_straight hs hstraight hname hp hn
    rw [if_neg (by simp [hdir])] at hlast'
    rw [ih]
    -- that something is there where a directory should be made is found out once more
    cases e with
    | occupied => simpa [hname.plain.2.1] using hlast'
    | _ => exact ⟨_, rfl⟩
  termination_by p.length
  decreasing_by exact Path.length_splitLast_lt hlast

/-- For a path that is too long the ones above it are made. -/
theorem makeDirs_of_tooLong (hs : d.Sound) (hf : d.LinkFree []) (p : Path) (hn : p ≠ [])
    (h0 : '\x00' ∉ p) (hx : ∀ x ∈ p.names, IsName x) (hlong : p.fits = false) :
    ∃ e, d.makeDirs false p = (.error e, d.tryPath p.reach.names) := by
  have hlastDir (e : Disk) : e.makeLastDir false p = (.error .tooLong, e) := by
    have hm : e.makeDir p = .error .tooLong := by
      rw [makeDir, locateLast, checkPath_eq hn h0, hlong]
      rfl
    simp [makeLastDir, hm]
  have hroot : d.tryPath [] = d := rfl
  by_cases hlast : p.splitLast.2 = []
  · rw [makeDirs, dif_neg (by simp [hlast]), hlastDir, Path.reach, dif_neg (by simp [hlast]),
      Path.names_eq_nil_of_splitLast hlast, hroot]
    exact ⟨_, rfl⟩
  rw [Path.reach, dif_pos ⟨hlong, hlast⟩]
  by_cases hq : p.splitLast.1 = []
  · rw [makeDirs, dif_neg (by simp [hq]), hlastDir, hq, Path.reach_of_fits (by decide)]
    exact ⟨_, rfl⟩
  obtain ⟨hup, hname⟩ := isName_splitLast hlast hx
  by_cases he : d.pathExists p.splitLast.1 = true
  · obtain ⟨hshort, hthere⟩ := (hf.straight hup).of_pathExists he
    rw [makeDirs, dif_neg (by simp [he]), hlastDir, Path.reach_of_fits hshort, Disk.tryPath,
      if_neg (by simp [free, Option.isSome_iff_ne_none.1 hthere])]
    exact ⟨_, rfl⟩
  have h0' : '\x00' ∉ p.splitLast.1 := fun h => h0 ((Path.splitLast_sublist p).subset h)
  have habove : ∃ r, d.makeDirs false p.splitLast.1 = (r, d.tryPath p.splitLast.1.reach.names) := by
    by_cases hshort : p.splitLast.1.fits = true
    · have h := makeDirs_of_checkPath hs hf p.splitLast.1
        (by rw [checkPath_eq hq h0', if_pos hshort]) hup
      rw [Path.reach_of_fits hshort, Disk.tryPath]
      split_ifs at h ⊢
      · exact ⟨_, h⟩
      · obtain ⟨e, h⟩ := h
        exact ⟨_, h⟩
    · obtain ⟨e, h⟩ := makeDirs_of_tooLong hs hf p.splitLast.1 hq h0' hup
        (eq_false_of_ne_true hshort)
      exact ⟨_, h⟩
  obtain ⟨r, hr⟩ := habove
  rw [makeDirs, dif_pos ⟨hlast, hq, eq_false_of_ne_true he⟩, hr]
  -- whatever came of those above it, the path itself is too long
  rcases r with e | ⟨⟩
  · cases e <;> simp [hname.plain.2.1, hlastDir]
  · simp [hname.plain.2.1, hlastDir]
  termination_by p.length
  decreasing_by exact Path.length_splitLast_lt hlast

/-- Where no links are, a path is made as far as its length allows. It is refused if it is too long
or not free. -/
theorem makeDirs_of_linkFree (hs : d.Sound) (hf : d.LinkFree []) (hn : p ≠ []) (h0 : '\x00' ∉ p)
    (hx : ∀ x ∈ p.names, IsName x) : (d.makeDirs false p).2 = d.tryPath p.reach.names ∧
      ((d.makeDirs false p).1 = .ok () ↔ (p.fits && d.free p.names) = true) := by
  by_cases hfits : p.fits = true
  · have h := makeDirs_of_checkPath hs hf p (by rw [checkPath_eq hn h0, if_pos hfits]) hx
    rw [Path.reach_of_fits hfits, Disk.tryPath, hfits, Bool.true_and]
    split_ifs at h ⊢ with hfree
    · simp [h, hfree]
    · obtain ⟨e, h⟩ := h
      simp [h, hfree]
  · obtain ⟨e, h⟩ := makeDirs_of_tooLong hs hf p hn h0 hx (eq_false_of_ne_true hfits)
    simp [h, hfits]

/-! ## Making paths in turn -/

/-- A place that is not free, with nothing in the way, is a directory, and so is all above it. -/
theorem Sound.get?_of_not_free (hs : d.Sound) (hfree : d.free l ≠ true) (hb : d.blocked l = false)
    (hk : k <+: l) : d.get? k = some .directory := by
  have hl : d.get? l = some .directory :=
    (blocked_eq_false_iff.1 hb l List.prefix_rfl).resolve_left fun hl => hfree (free_iff.2 ⟨hl, hb⟩)
  exact isDirectory_iff.1 (hs.isDirectory_above (isDirectory_iff.2 hl) hk)

theorem Sound.get?_tryPath (hs : d.Sound) (k : Loc) : (d.tryPath l).get? k =
    if k <+: l ∧ d.blocked l = false then some .directory else d.get? k := by
  unfold tryPath
  by_cases hfree : d.free l = true
  · obtain ⟨-, hb⟩ := free_iff.1 hfree
    simp only [if_pos hfree, get?_withPath hb, hb, and_true]
  · rw [if_neg hfree]
    split_ifs with hk
    · exact hs.get?_of_not_free hfree hk.2 hk.1
    · rfl

theorem moreDirectories_tryPath (d : Disk) (l : Loc) : MoreDirectories d (d.tryPath l) := by
  unfold tryPath
  split_ifs with hfree
  · exact moreDirectories_withPath (free_iff.1 hfree).2
  · exact .refl d

theorem Sound.tryPath (hs : d.Sound) (hl : ∀ x ∈ l, IsName x) : (d.tryPath l).Sound := by
  unfold Disk.tryPath
  split_ifs with hfree
  · exact hs.withPath (free_iff.1 hfree).2 hl
  · exact hs

theorem MoreDirectories.pathExists (h : MoreDirectories d d') (he : d.pathExists p = true) :
    d'.pathExists p = true := by
  obtain ⟨l, hl⟩ := exists_locate_of_pathExists he
  rw [pathExists_of_locate hl] at he
  obtain ⟨i, hi⟩ := Option.isSome_iff_exists.1 he
  rw [pathExists_of_locate (locate_of_keeps h.keeps hl), h.get? hi]
  rfl

/-- Where directories are added, no more of them are missing than before. -/
theorem MoreDirectories.missingAbove_le (h : MoreDirectories d d') (p : Path) :
    d'.missingAbove p ≤ d.missingAbove p := by
  by_cases hx : p.splitLast.2 = []
  · rw [missingAbove, dif_neg (by simp [hx])]
    exact Nat.zero_le _
  rw [missingAbove]
  split
  · rename_i ha
    have he : d.pathExists p.splitLast.1 = false :=
      eq_false_of_ne_true fun he => by simp [h.pathExists he] at ha
    rw [missingAbove.eq_1 d p, dif_pos ⟨hx, ha.2.1, he⟩]
    exact Nat.succ_le_succ (h.missingAbove_le p.splitLast.1)
  · exact Nat.zero_le _
  termination_by p.length
  decreasing_by exact Path.length_splitLast_lt hx

/-- Directories are made along each path that nothing stands in the way of, however the paths are
ordered: what stands in the way stood there before. -/
theorem Sound.get?_turns {path : Text → Path} {xs : List Text} {n : Nat} (hs : d.Sound)
    (hx : ∀ x ∈ xs, ∀ y ∈ (path x).names, IsName y)
    (hn : ∀ x ∈ xs, d.missingAbove (path x) ≤ n) (k : Loc) : (turns n path xs d).1.get? k =
      if ∃ x ∈ xs, k <+: (path x).reach.names ∧ d.blocked (path x).reach.names = false then
        some .directory
      else d.get? k := by
  induction xs generalizing d with
  | nil => simp [turns]
  | cons x xs ih =>
    obtain ⟨hx, hxs⟩ := List.forall_mem_cons.1 hx
    obtain ⟨hnx, hn⟩ := List.forall_mem_cons.1 hn
    have hreach : ∀ y ∈ (path x).reach.names, IsName y := fun y hy =>
      hx y ((path x).mem_names_of_reach hy)
    have hmore := moreDirectories_tryPath d (path x).reach.names
    rw [turns, if_neg (Nat.not_lt.2 hnx), ih (hs.tryPath hreach) hxs fun y hy =>
      (hmore.missingAbove_le _).trans (hn y hy), hs.get?_tryPath]
    simp only [hmore.blocked_eq, List.exists_mem_cons_iff]
    by_cases hk : ∃ x ∈ xs, k <+: (path x).reach.names ∧ d.blocked (path x).reach.names = false
    · rw [if_pos hk, if_pos (Or.inr hk)]
    · simp only [if_neg hk, or_iff_left hk]

end Disk

end FileShell
