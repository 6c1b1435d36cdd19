import FileShell.Proofs.Storage.CopyTree

/-!
# Copying a tree to where nothing stands

Where nothing stood before, the copy of a tree is the tree, less the nodes whose own call fails and
less all that is below a directory that could not be made or listed (`copyTree_pruned`). There is a
line for each call that failed, and none for a directory that could not be listed, which is there
and empty. Only the directory of the copy itself has to be made; if it cannot be, nothing happens.
-/

namespace FileShell

namespace Overlay

/-- Whether the call goes through that makes the directory or copies the file. -/
def passes (o : Overlay) (r : Loc) : Bool := if o.isTree r then o.made r else o.copied r

/-- Whether the node is come by and its call goes through. -/
def spares (o : Overlay) (r : Loc) : Bool := o.reached r && o.passes r

theorem source_of_isTree {o : Overlay} {r : Loc} (h : o.isTree r = true) :
    o.source r = some .directory := by
  simp only [isTree, Bool.and_eq_true, beq_iff_eq] at h
  exact h.1

/-- Nothing stands where the copy goes, and what can be copied can be looked up. -/
structure Fresh (o : Overlay) : Prop where
  target : ∀ r, o.target r = none
  held : o.held = true
  found : ∀ r, o.copied r = true → o.found r = true

namespace Fresh

variable {o : Overlay} {r : Loc}

theorem source_ne_directory (h : o.Fresh) (ht : o.isTree r = false) (hp : o.passes r = true) :
    o.source r ≠ some .directory := by
  intro hs
  rw [passes, if_neg (by simp [ht])] at hp
  simp [isTree, hs, h.found r hp] at ht

theorem opens_eq (h : o.Fresh) : o.opens r = (o.isTree r && o.passes r) := by
  rcases ht : o.isTree r <;> simp [opens, passes, ht, h.target r]

theorem copies_eq (h : o.Fresh) : o.copies r = (!o.isTree r && o.passes r) := by
  rcases ht : o.isTree r
  · rcases hp : o.passes r
    · have hc : o.copied r = false := by simpa [passes, ht] using hp
      simp [copies, hc]
    · have hc : o.copied r = true := by simpa [passes, ht] using hp
      simp [copies, hc, h.source_ne_directory ht hp, h.target r]
  · simp [copies, source_of_isTree ht]

/-- What comes out is the source, as far as it is spared. -/
theorem result_eq (h : o.Fresh) :
    o.result r = if o.spares r then (o.source r).map Item.packed else none := by
  rw [result, h.opens_eq, h.copies_eq, h.target, spares]
  rcases hreach : o.reached r
  · simp
  rcases hp : o.passes r
  · simp
  obtain ⟨i, hi⟩ := Option.isSome_iff_exists.1 (reached_iff.1 hreach).1
  rcases ht : o.isTree r
  · have hdir : i ≠ .directory := fun e => h.source_ne_directory ht hp (by rw [hi, e])
    simp [hi, bytes, h.held, placed, Item.packed_eq hdir]
  · simp [source_of_isTree ht, Item.packed]

theorem fails_eq (h : o.Fresh) : o.fails r = (o.reached r && !o.passes r) := by
  rw [fails, h.opens_eq, h.copies_eq, h.held]
  cases o.isTree r <;> cases o.passes r <;> simp

end Fresh

end Overlay

/-- Below a place where nothing stands nothing does. -/
theorem Disk.Sound.get?_append_of_none {d : Disk} {l : Loc} (hs : d.Sound) (hl : d.get? l = none)
    (r : Loc) : d.get? (l ++ r) = none := by
  rcases eq_or_ne r [] with rfl | hr
  · rwa [List.append_nil]
  · by_contra hn
    have hd := hs.isDirectory_of_prefix hr (Option.isSome_iff_ne_none.2 hn)
    rw [Disk.isDirectory_iff, hl] at hd
    cases hd

namespace Storage

variable {s : Storage} {w : World} {ls ld : Loc} {S D : Path}

theorem fresh_copyOverlay (hs : w.disk.Sound) (hserves : s.Serves)
    (hn : w.disk.get? (copyPlace S ld) = none) : (s.copyOverlay w.disk S D ls ld).Fresh where
  target r := hs.get?_append_of_none hn r
  held := decide_eq_true hserves
  found r hr := by
    simp only [copyOverlay, overlay, Bool.and_eq_true] at hr
    exact hr.1.2

/-- A copy that goes neither above the source nor into it does not turn up in the source. -/
theorem source_copyOverlay (habove : ¬ copyPlace S ld <+: ls) (hin : ¬ ls <+: copyPlace S ld)
    (r : Loc) : (s.copyOverlay w.disk S D ls ld).source r = w.disk.get? (ls ++ r) := by
  refine if_neg fun h => ?_
  rcases List.prefix_or_prefix_of_prefix h (List.prefix_append ls r) with h | h
  · exact habove h
  · exact hin h

/-- Copying a directory to where nothing stands, and not into itself, gives the tree less the nodes
whose call fails and what is below a directory that was not made or not listed. There is one line
for each node that is come by and whose call fails, in the order of the walk, and nothing else is
changed or shown. If the directory of the copy cannot be made nothing is. Requests for bytes have
to be served, and no more directories that are come by may lie one inside the other than calls may
nest. -/
theorem copyTree_pruned (hserves : s.Serves) (hs : w.disk.Sound) (hfit : w.disk.LinksFit)
    (hS : w.disk.Root S ls) (hD : w.disk.Root D ld) (ha : S.isAbsolute = true)
    (hn : w.disk.get? (copyPlace S ld) = none) (hin : ¬ ls <+: copyPlace S ld)
    (hshallow : (s.copyOverlay w.disk S D ls ld).Shallow s.nests) :
    let T := copyPath S D
    let lt := copyPlace S ld
    let o := s.copyOverlay w.disk S D ls ld
    if s.refuses .makeDirs T = true ∨ T.fits = false then
      ∃ e, (∀ r, e ≠ .stopped r) ∧ (s.copyTree S D).run w = (.error e, w)
    else ∃ w', (s.copyTree S D).run w = (.ok T, w') ∧
      (∀ r, w'.disk.get? (lt ++ r) =
        if o.spares r then (w.disk.get? (ls ++ r)).map Item.packed else none) ∧
      (∀ k, ¬ lt <+: k → w'.disk.get? k = w.disk.get? k) ∧
      ∃ rs : List Loc, rs.Pairwise Loc.Before ∧
        (∀ r, r ∈ rs ↔ o.reached r = true ∧ o.passes r = false) ∧
        w'.shown = w.shown ++ rs.flatMap o.line := by
  intro T lt o
  have habove : ¬ copyPlace S ld <+: ls := by
    rintro ⟨r, hr⟩
    have hd := Disk.isDirectory_iff.1 hS.directory
    rw [← hr, hs.get?_append_of_none hn] at hd
    cases hd
  have hfresh : o.Fresh := fresh_copyOverlay hs hserves hn
  have hopens : o.opens [] = (!s.refuses .makeDirs T && T.fits) := by
    rw [show o.opens [] = _ from overlay_opens_nil (copying hs hfit hS hD ha habove) _ _, hn]
    simp [T]
  have hdone := copyTree_done (s := s) hs hfit hS hD ha habove hshallow
  by_cases hfail : s.refuses .makeDirs T = true ∨ T.fits = false
  · rw [if_pos hfail]
    rw [if_neg] at hdone
    · exact hdone
    · rw [show (s.copyOverlay w.disk S D ls ld).opens [] = _ from hopens]
      rcases hfail with h | h <;> simp [h]
  · rw [if_neg hfail]
    rw [if_pos] at hdone
    · obtain ⟨w', hw, hdone⟩ := hdone
      obtain ⟨t, ht, rs, hp, hm, rfl⟩ := hdone.shown
      refine ⟨w', hw, fun r => ?_, hdone.elsewhere, rs, hp, fun r => ?_, ht⟩
      · rw [hdone.there r, hfresh.result_eq, source_copyOverlay habove hin]
      · rw [hm r, hfresh.fails_eq, Bool.and_eq_true, Bool.not_eq_true']
    · rw [show (s.copyOverlay w.disk S D ls ld).opens [] = _ from hopens]
      simpa using hfail

/-- A tree of which a file, a directory and a listing are refused, and an empty directory. -/
def grove : Disk where
  items := [
    (["s".toList], .directory),
    (["s".toList, "a".toList], .file [1]),
    (["s".toList, "b".toList], .directory),
    (["s".toList, "b".toList, "c".toList], .file [2]),
    (["s".toList, "e".toList], .directory),
    (["s".toList, "e".toList, "f".toList], .file [3]),
    (["s".toList, "g".toList], .directory),
    (["s".toList, "g".toList, "h".toList], .file [4]),
    (["d".toList], .directory)]

def warden : Storage :=
  .ofRefusals 512 [(.copy, "/s/a".toList), (.makeDirs, "/d/s/b".toList), (.list, "/s/e".toList)] []

theorem copyTree_pruned_grove : ∃ w', (warden.copyTree "/s".toList "/d".toList).run ⟨grove, []⟩ =
      (.ok "/d/s".toList, w') ∧
    (["a", "b", "b/c", "e", "e/f", "g", "g/h"].map fun r =>
        w'.disk.get? ("d".toList :: "s".toList :: Path.names r.toList)) =
      [none, none, none, some .directory, none, some .directory, some (.file [4])] ∧
    ∃ rs : List Loc, rs.Pairwise Loc.Before ∧ ["a".toList] ∈ rs ∧ ["b".toList] ∈ rs ∧
      ["e".toList, "f".toList] ∉ rs ∧ w'.shown = rs.flatMap
        (warden.copyOverlay grove "/s".toList "/d".toList ["s".toList] ["d".toList]).line := by
  have hs : grove.Sound := Disk.sound_of_items (by decide) (by decide) (by simp [grove])
  have hfree (l : Loc) : grove.LinkFree l := fun k t _ =>
    Disk.get?_ne_link_of_items (by simp [grove]) k t
  have h := copyTree_pruned (s := warden) (w := ⟨grove, []⟩) (S := "/s".toList) (D := "/d".toList)
    (by decide) hs (Disk.linksFit_of_items (by simp [grove])) ⟨rfl, rfl, hfree _⟩
    ⟨rfl, rfl, hfree _⟩ rfl rfl (by decide) (shallow_copyOverlay (by decide) (by decide))
  rw [if_neg (by decide)] at h
  obtain ⟨w', hw, hget, -, rs, hp, hm, hshown⟩ := h
  refine ⟨w', hw, ?_, rs, hp, (hm _).2 (by decide +kernel), (hm _).2 (by decide +kernel),
    fun hmem => absurd ((hm _).1 hmem) (by decide +kernel), hshown⟩
  have hall : (["a", "b", "b/c", "e", "e/f", "g", "g/h"].map fun r =>
      w'.disk.get? (copyPlace "/s".toList ["d".toList] ++ Path.names r.toList)) = _ :=
    List.map_congr_left fun r _ => hget _
  refine Eq.trans hall ?_
  decide +kernel

/-- Nothing is refused here. There is no copy for want of a path to it; a file that is read in
requests too large for the memory is reported and left empty; a device gives an empty file; and with
room for one call only, a directory in the source stops the run. -/
theorem copyTree_limits :
    let u := (copyTree { chunk := 512, nests := 1 } "/s".toList "/d".toList).run
      ⟨holding .directory, []⟩
    let v := (copyTree { chunk := 512, memory := 512 } "/s".toList "/d".toList).run
      ⟨holding (.file [1]), []⟩
    let w := (copyTree { chunk := 512 } "/s".toList "/d".toList).run ⟨holding .device, []⟩
    (meeting.get? (copyPlace "/s/b".toList ["d".toList]) = none ∧
      ∃ e, (copyTree { chunk := 512 } "/s/b".toList (far 4094)).run ⟨meeting, []⟩ =
        (.error e, ⟨meeting, []⟩)) ∧
    (v.2.disk.get? ["d".toList, "s".toList, "x".toList] = some (.file []) ∧
      v.2.shown = "Error copying file: x\n".toList) ∧
    w.2.disk.get? ["d".toList, "s".toList, "x".toList] = some (.file []) ∧
    u.1 = .error (.stopped .recursion) := by
  obtain ⟨e, -, he⟩ := copyTree_far_error (n := 4094) (by decide) (by decide)
  refine ⟨⟨by decide, e, he⟩, ?_, ?_, ?_⟩ <;> decide +kernel

end Storage

end FileShell
