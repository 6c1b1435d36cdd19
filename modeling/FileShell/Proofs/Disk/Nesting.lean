import FileShell.Proofs.Disk.Descent
import FileShell.Proofs.Disk.Nulls
import FileShell.Proofs.Disk.RealPath
import FileShell.Storage.Basic
import Mathlib.Data.List.Perm.Subperm

/-!
# How deep links and directories nest

Links are followed inside one another, and directories are gone into one inside the other; both take
calls that nest. What is found with room for some calls is found with room for more (`trace_mono`).
No more links nest than there are items (`linksNest_length`), and how deep they do depends on
nothing but the links of a disk (`LinksNest.of_keeps`). If they do not nest too deep, the question
whether two paths are the same is answered, and as it is with room for any number of calls
(`LinksNest.samePath_eq`).
-/

namespace FileShell

namespace Disk

variable {d d' : Disk} {p q : Path} {l k here : Loc} {a : List Text} {n m : Nat} {strict : Bool}
  {active : List Loc}

/-! ## Room for more calls -/

theorem traceWith_mono {f g : Loc → Loc → Path → Except DiskError Trace}
    (h : ∀ k here t, f k here t ≠ .error .tooDeep → g k here t = f k here t) :
    ∀ (a : List Text) {here : Loc}, d.traceWith strict f here a ≠ .error .tooDeep →
      d.traceWith strict g here a = d.traceWith strict f here a
  | [], _, _ => by rw [traceWith, traceWith]
  | s :: rest, here, hf => by
    have ih {here : Loc} (hf : d.traceWith strict f here rest ≠ .error .tooDeep) :=
      traceWith_mono h rest hf
    unfold traceWith at hf ⊢
    split_ifs at hf ⊢
    · exact ih hf
    · exact ih hf
    · rfl
    · rfl
    · exact ih hf
    all_goals
      split at hf
      · rename_i target htarget
        have hlink : f (here ++ [s]) here target ≠ .error .tooDeep := fun he => by
          rw [he] at hf
          exact hf rfl
        simp only [h _ _ _ hlink]
        split at hf
        · rfl
        · rfl
        · exact ih hf
      · exact ih hf
      · first | rfl | exact ih hf

/-- What is found with room for some calls is found with room for more. -/
theorem trace_mono : ∀ {n m : Nat} {active : List Loc} {here : Loc} {a : List Text}, n ≤ m →
    d.trace strict n active here a ≠ .error .tooDeep →
    d.trace strict m active here a = d.trace strict n active here a
  | 0, 0, _, _, _, _, _ => rfl
  | 0, m + 1, active, _, a, _, h => by
    refine traceWith_mono (fun k here t hk => ?_) a h
    by_cases hmem : active.contains k = true
    · rw [if_pos hmem, if_pos hmem]
    · rw [if_neg hmem] at hk
      exact absurd rfl hk
  | n + 1, m + 1, active, _, a, hn, h => by
    refine traceWith_mono (fun k here t hk => ?_) a h
    by_cases hmem : active.contains k = true
    · rw [if_pos hmem, if_pos hmem]
    · rw [if_neg hmem] at hk ⊢
      rw [if_neg hmem]
      exact trace_mono (Nat.le_of_succ_le_succ hn) hk

theorem realPath_mono (hn : n ≤ m) (h : d.realPath n strict p ≠ .error .tooDeep) :
    d.realPath m strict p = d.realPath n strict p := by
  have ht : d.trace strict n [] [] (Text.split (· == '/') p) ≠ .error .tooDeep := fun he => by
    rw [realPath, he] at h
    exact h rfl
  rw [realPath, realPath, trace_mono hn ht]

theorem samePath_mono (hn : n ≤ m) (h : d.samePath n p q ≠ .error .tooDeep) :
    d.samePath m p q = d.samePath n p q := by
  unfold samePath at h ⊢
  have hp : d.realPath n false p ≠ .error .tooDeep := fun he => by
    rw [he] at h
    exact h rfl
  rw [realPath_mono hn hp]
  rcases hr : d.realPath n false p with e | a
  · rfl
  · have hq : d.realPath n false q ≠ .error .tooDeep := fun he => by
      rw [hr, he] at h
      exact h rfl
    rw [realPath_mono hn hq]

/-! ## Links -/

/-- With room for so many calls the real path of any path can be asked for. -/
def LinksNest (d : Disk) (n : Nat) : Prop := ∀ p, d.realPath n false p ≠ .error .tooDeep

theorem LinksNest.mono (h : d.LinksNest n) (hn : n ≤ m) : d.LinksNest m := fun p => by
  rw [realPath_mono hn (h p)]
  exact h p

theorem traceWith_ne_tooDeep {onLink : Loc → Loc → Path → Except DiskError Trace}
    (h : ∀ k here t, d.get? k = some (.link t) → onLink k here t ≠ .error .tooDeep) :
    ∀ (a : List Text) (here : Loc), d.traceWith false onLink here a ≠ .error .tooDeep
  | [], _ => by simp [traceWith]
  | s :: rest, here => by
    have ih (here : Loc) := traceWith_ne_tooDeep h rest here
    unfold traceWith
    simp only [Bool.false_eq_true, if_false]
    split_ifs
    · exact ih _
    · exact ih _
    · simp
    · exact ih _
    · split
      · rename_i t ht
        have hlink := h _ here t ht
        split
        · rename_i he
          rwa [he] at hlink
        · simp
        · exact ih _
      · exact ih _
      · exact ih _

/-- There is room if there are no more items than links that may still be followed and links that
are being followed: at the end of the room all of them are being followed. -/
theorem trace_ne_tooDeep : ∀ (n : Nat) {active : List Loc} (here : Loc) (a : List Text),
    active.Nodup → active ⊆ d.items.map (·.1) → d.items.length ≤ active.length + n →
    d.trace false n active here a ≠ .error .tooDeep
  | 0, active, here, a, hnodup, hsub, hn => by
    refine traceWith_ne_tooDeep (fun k _ t ht => ?_) a here
    have hk : k ∈ d.items.map (·.1) :=
      List.mem_map.2 ⟨_, mem_items_of_get? ht (by rintro rfl; cases ht), rfl⟩
    have hmem : k ∈ active := by
      by_contra hno
      have hle := ((List.nodup_cons.2 ⟨hno, hnodup⟩).subperm
        (List.cons_subset.2 ⟨hk, hsub⟩)).length_le
      rw [List.length_cons, List.length_map] at hle
      omega
    rw [if_pos (by simpa using hmem)]
    simp [metAgain]
  | n + 1, active, here, a, hnodup, hsub, hn => by
    refine traceWith_ne_tooDeep (fun k base t ht => ?_) a here
    have hk : k ∈ d.items.map (·.1) :=
      List.mem_map.2 ⟨_, mem_items_of_get? ht (by rintro rfl; cases ht), rfl⟩
    split
    · simp [metAgain]
    · rename_i hmem
      refine trace_ne_tooDeep n _ _ (List.nodup_cons.2 ⟨by simpa using hmem, hnodup⟩)
        (List.cons_subset.2 ⟨hk, hsub⟩) ?_
      rw [List.length_cons]
      omega

theorem linksNest_length (d : Disk) : d.LinksNest d.items.length := fun p h => by
  unfold realPath at h
  have ht := trace_ne_tooDeep (d := d) d.items.length [] (Text.split (· == '/') p) List.nodup_nil
    (by simp) (by simp)
  split at h
  · rename_i he
    cases h
    exact ht he
  · cases h
  · cases h

theorem traceWith_of_keeps (h : Keeps d d')
    (onLink : Loc → Loc → Path → Except DiskError Trace) :
    ∀ (a : List Text) (here : Loc),
      d'.traceWith false onLink here a = d.traceWith false onLink here a
  | [], _ => by rw [traceWith, traceWith]
  | s :: rest, here => by
    have ih := traceWith_of_keeps h onLink rest
    unfold traceWith
    simp only [Bool.false_eq_true, if_false, ih]
    split_ifs
    · rfl
    · rfl
    · rfl
    · rfl
    · rcases hd : d.get? (here ++ [s]) with _ | i <;> rcases hd' : d'.get? (here ++ [s]) with _ | j
      · rfl
      · cases j with
        | link t => rw [h.link.1 hd'] at hd; cases hd
        | _ => rfl
      · cases i with
        | link t => rw [h.link.2 hd] at hd'; cases hd'
        | _ => rfl
      · cases i with
        | link t =>
          rw [h.link.2 hd] at hd'
          cases hd'
          rfl
        | _ =>
          cases j with
          | link t => rw [h.link.1 hd'] at hd; cases hd
          | _ => rfl

theorem trace_of_keeps (h : Keeps d d') : ∀ (n : Nat) (active : List Loc) (here : Loc)
    (a : List Text), d'.trace false n active here a = d.trace false n active here a
  | 0, _, here, a => traceWith_of_keeps h _ a here
  | n + 1, active, here, a => by
    unfold trace
    simp only [trace_of_keeps h n, traceWith_of_keeps h]

/-- How deep links nest depends on the links alone. -/
theorem LinksNest.of_keeps (hl : d.LinksNest n) (h : Keeps d d') : d'.LinksNest n := fun p => by
  rw [realPath, trace_of_keeps h]
  exact hl p

/-! ## Same paths -/

/-- Whether two paths are the same, with room for whatever links there are. -/
def isSame (d : Disk) (p q : Path) : Bool :=
  match d.samePath (maxLinks + d.items.length) p q with
  | .ok same => same
  | .error _ => false

theorem eq_tooDeep_of_realPath (hd : LinksClean d) (hp : '\x00' ∉ p) {e : DiskError}
    (h : d.realPath n false p = .error e) : e = .tooDeep := by
  unfold realPath at h
  split at h
  · rename_i he
    cases h
    exact eq_tooDeep_of_trace hd n [] (fun x hx hc => hp (Text.mem_of_mem_split hx hc)) he
  · cases h
  · cases h

theorem LinksNest.exists_realPath (hl : d.LinksNest n) (hd : LinksClean d) (hp : '\x00' ∉ p) :
    ∃ q, d.realPath n false p = .ok q := by
  rcases h : d.realPath n false p with e | q
  · obtain rfl := eq_tooDeep_of_realPath hd hp h
    exact absurd h (hl p)
  · exact ⟨q, rfl⟩

theorem samePath_eq_ok {a b : Path} (ha : d.realPath n false p = .ok a)
    (hb : d.realPath n false q = .ok b) : d.samePath n p q = .ok (a == b) := by
  rw [samePath, ha, hb]
  rfl

/-- The question whether two paths are the same is answered, if there is room for the links. -/
theorem LinksNest.samePath_eq (hl : d.LinksNest n) (hd : LinksClean d) (hp : '\x00' ∉ p)
    (hq : '\x00' ∉ q) : d.samePath n p q = .ok (d.isSame p q) := by
  obtain ⟨a, ha⟩ := hl.exists_realPath hd hp
  obtain ⟨b, hb⟩ := hl.exists_realPath hd hq
  have hall := d.linksNest_length.mono (Nat.le_add_left _ maxLinks)
  -- both are found with room for the larger of the two numbers
  have same {p q : Path} (h : d.realPath n false p = .ok q) :
      d.realPath (maxLinks + d.items.length) false p = .ok q := by
    rcases Nat.le_total n (maxLinks + d.items.length) with hn | hn
    · rw [realPath_mono hn (hl p), h]
    · rw [← realPath_mono hn (hall p), h]
  rw [isSame, samePath_eq_ok ha hb, samePath_eq_ok (same ha) (same hb)]

theorem isSame_eq_of_at (h : d.At p l) (h' : d.At q k) (hd : LinksClean d) (hfit : LinksFit d)
    (hp : '\x00' ∉ p) (hq : '\x00' ∉ q) : d.isSame p q = (l == k) := by
  rw [isSame, Disk.samePath_eq h h' hd hfit hp hq (Nat.le_add_right _ _)]

/-! ## Directories -/

/-- Less than so many directories lie one inside the other from the path on. -/
def NestsBelow (d : Disk) (p : Path) (n : Nat) : Prop :=
  ∀ r : List Text, (∀ x ∈ r, IsName x) → d.isDir (r.foldl Path.join p) = true → r.length < n

/-- What lies below a path while directories are made is still there when they have been made. -/
theorem NestsBelow.of_keeps (h : d'.NestsBelow p n) (hk : Keeps d d') : d.NestsBelow p n :=
  fun r hr hdir => h r hr (isDir_of_keeps hk hdir)

theorem NestsBelow.down {x : Text} (h : d.NestsBelow p (n + 1)) (hx : IsName x) :
    d.NestsBelow (p.join x) n := fun r hr hdir =>
  Nat.lt_of_succ_lt_succ (h (x :: r) (List.forall_mem_cons.2 ⟨hx, hr⟩) hdir)

theorem NestsBelow.pos (h : d.NestsBelow p n) (hp : d.isDir p = true) : 0 < n :=
  h [] (by simp) hp

theorem Leads.isDirectory {c : Nat} (h : Leads d here a c l) (hd : d.isDirectory l = true) :
    d.isDirectory here = true := by
  cases h <;> assumption

/-- Directories nest one deeper than they do below the names in a directory. -/
theorem nestsBelow_of_at (h : d.At p l) (hb : ∀ x ∈ d.childNames l, d.NestsBelow (p.join x) n) :
    d.NestsBelow p (n + 1) := by
  rintro (_ | ⟨x, r⟩) hr hdir
  · exact Nat.succ_pos n
  obtain ⟨hx, hr'⟩ := List.forall_mem_cons.1 hr
  refine Nat.succ_lt_succ (hb x (mem_childNames.2 ?_) r hr' hdir)
  obtain ⟨k, hk, hd⟩ := isDir_iff.1 hdir
  obtain ⟨c, hc, hlead⟩ := at_of_locate hk
  rw [Path.names_foldl_join fun y hy => ⟨(hr y hy).noSlash, (hr y hy).plain.1⟩] at hlead
  obtain ⟨c₁, c₂, m, rfl, h₁, h₂⟩ := leads_append.1 hlead
  obtain rfl := h.unique ⟨c₁, by omega, h₁⟩
  cases h₂ with
  | stay _ hs _ => exact absurd hx.plain (not_isPlain hs)
  | back _ _ => exact absurd rfl hx.plain.2.2
  | name _ _ _ _ h₂ =>
    rw [isDirectory_iff.1 (h₂.isDirectory hd)]
    rfl
  | link _ _ _ hlink _ =>
    rw [hlink]
    rfl

theorem isDir_of_isDir_join {x : Text} (hn : p ≠ []) (hx : IsName x)
    (h : d.isDir (p.join x) = true) : d.isDir p = true := by
  obtain ⟨k, hk, -⟩ := isDir_iff.1 h
  obtain ⟨m, hm, hat⟩ := (at_of_locate hk).init (Path.names_join_name p hx.noSlash hx.plain.1)
  obtain ⟨s, hj, -⟩ := Path.exists_join_eq p hx.noSlash
  have hsub : p.Sublist (p.join x) := by
    rw [hj, List.append_assoc]
    exact List.sublist_append_left _ _
  exact (hat p rfl).isDir (checkPath_of_sublist (locate_eq_ok_iff.1 hk).1 hsub hn) hm

/-- Below what is no directory there are none. -/
theorem nestsBelow_of_isDir_eq_false (hn : p ≠ []) (hp : d.isDir p = false) : d.NestsBelow p n := by
  intro r hr hdir
  have hself : d.isDir p = true := by
    induction r using List.reverseRecOn with
    | nil => exact hdir
    | append_singleton r x ih =>
      rw [List.foldl_append] at hdir
      have hr' := fun y hy => hr y (List.mem_append_left _ hy)
      refine ih hr' (isDir_of_isDir_join ?_ (hr x (by simp)) hdir)
      rcases eq_or_ne r [] with rfl | hne
      · exact hn
      · exact (Path.foldl_join_ne_nil (fun y hy => ⟨(hr' y hy).noSlash, (hr' y hy).plain.1⟩)
          hne p).1
  rw [hp] at hself
  cases hself

/-- Each name takes a byte of the path at least, and no path is longer than `maxPath`. -/
theorem nestsBelow_of_maxPath (hn : maxPath < n) : d.NestsBelow p n := fun r hr hdir => by
  obtain ⟨l, hl, -⟩ := isDir_iff.1 hdir
  have hlong := (checkPath_eq_ok_iff.1 (locate_eq_ok_iff.1 hl).1).2.2
  have := Path.length_le_byteSize_foldl_join (fun x hx => ⟨(hr x hx).noSlash, (hr x hx).plain.1⟩) p
  omega

/-- Below a place without links the directories on a disk are all there is. -/
theorem nestsBelow_of_linkFree (h : d.At p l) (hf : LinkFree d l) (hpos : 0 < n)
    (hn : ∀ e ∈ d.items, e.1.length < l.length + n) : d.NestsBelow p n := fun r hr hdir => by
  obtain ⟨k, hk, hdir⟩ := isDir_iff.1 hdir
  have hplain : r.filter (IsPlain ·) = r :=
    List.filter_eq_self.2 fun x hx => by simpa using (hr x hx).plain
  obtain rfl : k = l ++ r := by
    rw [h.eq_append hf (fun hm => (hr _ hm).plain.2.2 rfl) (Path.names_foldl_join
      (fun x hx => ⟨(hr x hx).noSlash, (hr x hx).plain.1⟩) p) (at_of_locate hk), hplain]
  rcases eq_or_ne r [] with rfl | hne
  · exact hpos
  · have := hn _ (mem_items_of_get? (isDirectory_iff.1 hdir) (by simp [hne]))
    rw [List.length_append] at this
    omega

/-- On a disk without links the items are all there is below any path. -/
theorem nestsBelow_of_items (hf : LinkFree d []) (hpos : 0 < n)
    (hn : ∀ e ∈ d.items, e.1.length < n) (p : Path) : d.NestsBelow p n := fun r hr hdir => by
  obtain ⟨k, hk, -⟩ := isDir_iff.1 hdir
  obtain ⟨c, hc, hlead⟩ := at_of_locate hk
  rw [Path.names_foldl_join fun x hx => ⟨(hr x hx).noSlash, (hr x hx).plain.1⟩] at hlead
  obtain ⟨c₁, c₂, l, rfl, h₁, -⟩ := leads_append.1 hlead
  exact nestsBelow_of_linkFree ⟨c₁, by omega, h₁⟩ (hf.below List.nil_prefix) hpos
    (fun e he => (hn e he).trans_le (Nat.le_add_left _ _)) r hr hdir

end Disk

end FileShell
