import FileShell.Proofs.Disk.Sound
import FileShell.Storage.Basic

/-!
# What stays and what goes

Gains leave whatever is there with its kind (`Sound.grows_of_gains`), and every change keeps a disk
sound (`Sound.of_changes`). Removing directories from one directory, each through a path to its
name there, takes away nothing but directories that were empty from the start (`get?_of_prunes`):
the directory they stand in is found all along, since a path that leads somewhere afterwards has
led there before.
-/

namespace FileShell

namespace Disk

open Relation (ReflTransGen)

variable {d d' : Disk} {p : Path} {l k : Loc} {x : Text} {a : List Text}

/-! ## Gains -/

theorem grows_insert {i : Item} (h : Grows (d.get? (l ++ [x])) (some i)) (k : Loc) :
    Grows (d.get? k) ((d.insert (l ++ [x]) i).get? k) := by
  rw [get?_append_insert]
  split
  · rename_i hk
    exact hk ▸ h
  · exact .stays _

theorem grows_write (b : Bytes) (hl : l ≠ []) (hd : d.get? l ≠ some .directory)
    (hn : ∀ t, d.get? l ≠ some (.link t)) (k : Loc) : Grows (d.get? k) ((d.write l b).get? k) := by
  rw [get?_write b hl]
  split
  · rename_i hk
    rw [hk.1]
    rcases hi : d.get? l with _ | i
    · exact .file b
    cases i with
    | directory => exact absurd hi hd
    | file c => exact .rewritten c b
    | link t => exact absurd hi (hn t)
    | device => exact absurd hi hk.2
  · exact .stays _

theorem Sound.grows_of_gain (hs : d.Sound) (h : Gain d d') (k : Loc) :
    Grows (d.get? k) (d'.get? k) := by
  cases h with
  | makeDir h =>
    obtain ⟨p, h⟩ := h
    obtain ⟨m, x, -, -, hn, rfl⟩ := makeDir_eq_ok_iff.1 h
    exact grows_insert (hn ▸ .directory) k
  | create h =>
    obtain ⟨-, m, x, -, -, hn, rfl⟩ := create_eq_ok_iff.1 h
    exact grows_insert (hn ▸ .file []) k
  | write b h =>
    obtain ⟨hl, hd, hn⟩ := hs.of_locateWrite h
    exact grows_write b hl hd hn k
  | rewrite b h =>
    refine grows_write b h.ne_nil (fun hd => ?_) (fun t ht => ?_) k <;>
      rcases h with ⟨c, hc⟩ | hc <;> simp_all

/-! ## Soundness -/

theorem get?_append_erase : (d.erase (l ++ [x])).get? k = if k = l ++ [x] then none else d.get? k := by
  by_cases hk : k = []
  · subst hk
    rw [if_neg (by simp)]
    rfl
  · exact get?_erase d _ k hk

/-- What has nothing below it can be taken away. -/
theorem Sound.erase (h : d.Sound) (hb : ∀ y, d.get? (l ++ [x] ++ [y]) = none) :
    (d.erase (l ++ [x])).Sound where
  nodup := h.nodup.sublist (List.filter_sublist.map _)
  above m y hm := by
    rw [get?_append_erase] at hm
    split_ifs at hm with hmy
    · cases hm
    obtain ⟨hd, hy⟩ := h.above m y hm
    refine ⟨?_, hy⟩
    rw [isDirectory_iff, get?_append_erase, if_neg, isDirectory_iff.1 hd]
    rintro rfl
    rw [hb y] at hm
    cases hm
  links := fun k t ht => h.links k t (noNewLink_erase d _ k t ht)

theorem Sound.of_gain (hs : d.Sound) (h : Gain d d') : d'.Sound := by
  cases h with
  | makeDir h =>
    obtain ⟨p, h⟩ := h
    exact (hs.makeDir h).1
  | create h =>
    obtain ⟨-, m, x, hl, hx, hn, rfl⟩ := create_eq_ok_iff.1 h
    -- the same place is free for a directory, and only the item differs
    have hdir := (hs.makeDir (makeDir_eq_ok_iff.2 ⟨m, x, hl, hx, hn, rfl⟩)).1
    obtain ⟨hd, hname⟩ := hdir.above m x (by rw [get?_append_insert, if_pos rfl]; rfl)
    have hm : d.isDirectory m = true := (locateLast_eq_ok_iff.1 hl).2.1
    exact hs.insert hm hname (fun h => by simp [isDirectory, hn] at h) fun t ht => by cases ht
  | write b h => exact hs.write_of_locateWrite h b
  | @rewrite l b h =>
    obtain ⟨m, x, rfl⟩ := (List.eq_nil_or_concat l).resolve_left h.ne_nil
    rw [List.concat_eq_append] at h ⊢
    have hi : (d.get? (m ++ [x])).isSome ∧ d.isDirectory (m ++ [x]) = false := by
      rcases h with ⟨c, hc⟩ | hc <;> simp [hc, isDirectory]
    obtain ⟨hm, hx⟩ := hs.above m x hi.1
    exact hs.write hm hx hi.2 b

theorem Sound.of_loss (hs : d.Sound) (h : Loss d d') : d'.Sound := by
  cases h with
  | removeDir h =>
    obtain ⟨m, x, -, -, -, hc, rfl⟩ := removeDir_eq_ok_iff.1 h
    refine hs.erase fun y => ?_
    by_contra hy
    have hmem : y ∈ d.childNames (m ++ [x]) := mem_childNames.2 (Option.isSome_iff_ne_none.2 hy)
    rw [hc] at hmem
    cases hmem
  | delete h =>
    obtain ⟨-, m, x, i, -, -, hi, hd, rfl⟩ := delete_eq_ok_iff.1 h
    refine hs.erase fun y => ?_
    by_contra hy
    have habove := (hs.above _ y (Option.isSome_iff_ne_none.2 hy)).1
    rw [isDirectory_iff, hi] at habove
    exact hd (Option.some.inj habove)

/-- Whatever changes are made, the disk stays sound. -/
theorem Sound.of_changes (hs : d.Sound) (h : ReflTransGen Change d d') : d'.Sound := by
  induction h with
  | refl => exact hs
  | tail _ hc ih => exact hc.elim ih.of_gain ih.of_loss

theorem Sound.of_gains (hs : d.Sound) (h : ReflTransGen Gain d d') : d'.Sound :=
  hs.of_changes (ReflTransGen.mono (fun _ _ => .inl) _ _ h)

/-- Gains leave what is there with its kind. -/
theorem Sound.grows_of_gains (hs : d.Sound) (h : ReflTransGen Gain d d') (k : Loc) :
    Grows (d.get? k) (d'.get? k) := by
  induction h with
  | refl => exact .stays _
  | tail hr hc ih =>
    exact ih.trans ((hs.of_gains hr).grows_of_gain hc k)

theorem Sound.keeps_of_gains (hs : d.Sound) (h : ReflTransGen Gain d d') : Keeps d d' :=
  keeps_of_grows (hs.grows_of_gains h)

/-! ## Removing from one directory -/

theorem list_eq_ok_iff {names : List Text} : d.list p = .ok names ↔
    ∃ l, d.locate true p = .ok l ∧ d.get? l = some .directory ∧ names = d.childNames l := by
  unfold list
  rcases d.locate true p with e | l
  · simp [bind, Except.bind]
  simp only [bind, Except.bind, Except.ok.injEq, exists_eq_left']
  rcases d.get? l with _ | (_ | _ | _ | _) <;> simp [pure, Except.pure, eq_comm]

/-- A directory is removed through a path to a name after the given ones. -/
def Prunes (a : List Text) (d d' : Disk) : Prop :=
  ∃ p x, Path.names p = a ++ [x] ∧ d.removeDir p = .ok d'

theorem childNames_eq_nil_iff : d.childNames k = [] ↔ ∀ y, d.get? (k ++ [y]) = none := by
  rw [List.eq_nil_iff_forall_not_mem]
  refine forall_congr' fun y => ?_
  rw [mem_childNames, Option.not_isSome_iff_eq_none]

theorem Sound.isName_of_mem_namesIn (hs : d.Sound) {s : Storage} (hx : x ∈ s.namesIn d p) :
    IsName x := by
  unfold Storage.namesIn at hx
  split at hx
  · cases hx
  split at hx
  · rename_i hl
    obtain ⟨l, -, -, rfl⟩ := list_eq_ok_iff.1 hl
    exact hs.isName (mem_childNames.1 hx)
  · cases hx

/-- Removing directories from one directory takes away directories in which nothing has been. -/
theorem get?_of_prunes (hl : d.At p l) (h : ReflTransGen (Prunes p.names) d d') (k : Loc) :
    d'.get? k = d.get? k ∨ d'.get? k = none ∧ d.get? k = some .directory ∧ d.childNames k = [] ∧
      ∃ x, k = l ++ [x] := by
  induction h generalizing k with
  | refl => exact .inl rfl
  | @tail d₁ d₂ _ hc ih =>
    obtain ⟨q, x, hq, hr⟩ := hc
    obtain ⟨m, y, hlast, -, hdir, hempty, rfl⟩ := removeDir_eq_ok_iff.1 hr
    obtain ⟨-, -, -, b, hb, c, hc, hm⟩ := locateLast_eq_ok_iff.1 hlast
    obtain ⟨rfl, hxy⟩ := List.append_inj' (hq.symm.trans hb) rfl
    obtain rfl : x = y := List.singleton_inj.1 hxy
    have hkeeps : Keeps d₁ d := by
      refine ⟨fun {k} hk => ?_, fun {k t} => ?_⟩ <;> rcases ih k with hi | ⟨hi, hi', -⟩
      · rw [isDirectory_iff] at hk ⊢
        rw [← hi, hk]
      · exact isDirectory_iff.2 hi'
      · rw [hi]
      · simp [hi, hi']
    obtain rfl : m = l := (hl.unique ⟨c, hc, hm.of_keeps hkeeps⟩).symm
    rw [get?_append_erase]
    split
    · rename_i hk
      subst hk
      rcases ih (m ++ [x]) with hi | ⟨hi, -⟩
      · refine .inr ⟨rfl, hi ▸ hdir, childNames_eq_nil_iff.2 fun y => ?_, x, rfl⟩
        -- nothing was removed so far down
        rcases ih (m ++ [x] ++ [y]) with hy | ⟨-, -, -, z, hz⟩
        · rw [← hy]
          exact childNames_eq_nil_iff.1 hempty y
        · simp at hz
      · rw [hi] at hdir
        cases hdir
    · exact ih k

end Disk

end FileShell
