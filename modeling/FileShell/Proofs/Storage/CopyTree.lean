import FileShell.Proofs.Storage.CopyStep

/-!
# Copying a tree

Copying a tree makes the overlay of the source onto what the target was (`copyTree_overlay`), also
if the target lies inside the source. Every name of a directory is a step of its own: what it does
is the overlay below that name, and it leaves alone all that the later steps still read
(`copyChildren_done`). The copy as a whole is left out of what is read, so what is written is
never read again. Each directory that the copy goes into takes a call inside another, so no more of
them may lie one inside the other than calls may nest (`copiesBelow`).
-/

namespace FileShell

namespace Storage

variable {s : Storage} {d : Disk} {w : World} {copy ls lt ld : Loc} {root S T D : Path} {n : Nat}
  {x : Text}

/-! ## The names of a directory -/

/-- The copy of what stands in a directory, name by name, given that one name is done. -/
theorem copyChildren_done {o : Overlay}
    (step : ∀ {w : World} {x : Text}, Copying w.disk copy root S ls lt → w.disk.Root T lt →
      IsName x → copy <+: ls ++ [x] ∨ (w.disk.get? (ls ++ [x])).isSome →
      ((s.overlay w.disk copy o.name S ls T lt).below x).Shallow n →
      ∃ w', (s.copyChild root n (s.copyInto root n) S T x).run w = (.ok (), w') ∧
        ((s.overlay w.disk copy o.name S ls T lt).below x).Done (lt ++ [x]) w w') :
    ∀ {xs : List Text} {w : World}, Copying w.disk copy root S ls lt → w.disk.Root T lt →
      (∀ x ∈ xs, o.below x = (s.overlay w.disk copy o.name S ls T lt).below x) →
      (∀ x ∈ xs, IsName x ∧ (copy <+: ls ++ [x] ∨ (w.disk.get? (ls ++ [x])).isSome)) →
      (∀ x ∈ xs, (o.below x).Shallow n) →
      xs.Pairwise (fun a b => Disk.textLe a b = true ∧ a ≠ b) →
      ∃ w', (xs.forM (s.copyChild root n (s.copyInto root n) S T)).run w = (.ok (), w') ∧
        o.DoneIn lt xs w w'
  | [], w, h, _, _, _, _, _ => ⟨w, rfl, .nil h.sound o lt⟩
  | x :: xs, w, h, hT, ho, hxs, hn, hp => by
    obtain ⟨hx, hp⟩ := List.pairwise_cons.1 hp
    have hx' := hxs x List.mem_cons_self
    have hnx := ho x List.mem_cons_self ▸ hn x List.mem_cons_self
    obtain ⟨w₁, hrun, hd⟩ := step h hT hx'.1 hx'.2 hnx
    have hf : Disk.FilledBelow lt w.disk w₁.disk :=
      hd.filledBelow (fun r => by simp [overlay, Overlay.below]) (hT.linkFree.below
        (List.prefix_append _ _)) (List.prefix_append _ _) (by simp)
    rw [← ho x List.mem_cons_self] at hd
    have away : ∀ k, ¬ copy <+: k → w₁.disk.get? k = w.disk.get? k :=
      fun k hk => hd.elsewhere k fun e => hk (h.inside.trans ((List.prefix_append _ _).trans e))
    have apart : ∀ y ∈ xs, ∀ r, ¬ lt ++ [x] <+: lt ++ y :: r := by
      intro y hy r he
      rw [List.prefix_append_right_inj, List.cons_prefix_cons] at he
      exact (hx y hy).2 he.1
    have ho' : ∀ y ∈ xs, o.below y = (s.overlay w₁.disk copy o.name S ls T lt).below y := by
      intro y hy
      rw [ho y (List.mem_cons_of_mem x hy)]
      exact (overlay_below_congr away fun r => hd.elsewhere _ (apart y hy r)).symm
    have hxs' : ∀ y ∈ xs, IsName y ∧ (copy <+: ls ++ [y] ∨ (w₁.disk.get? (ls ++ [y])).isSome) := by
      intro y hy
      obtain ⟨hn, he⟩ := hxs y (List.mem_cons_of_mem x hy)
      refine ⟨hn, ?_⟩
      by_cases hc : copy <+: ls ++ [y]
      · exact .inl hc
      · rw [away _ hc]
        exact .inr (he.resolve_left hc)
    obtain ⟨w', hrest, hin⟩ := copyChildren_done step (h.of_keeps hd.sound hf.keeps)
      (hT.of_keeps hf.keeps) ho' hxs' (fun y hy => hn y (List.mem_cons_of_mem x hy)) hp
    refine ⟨w', ?_, .cons hx hd hin⟩
    rw [Act.run_forM_cons, hrun]
    exact hrest

/-! ## A directory -/

theorem overlay_source_nil (h : Copying d copy root S ls lt) (y : Text) (T : Path) (m : Loc) :
    (s.overlay d copy y S ls T m).source [] = some .directory := by
  simp [overlay, h.apart, Disk.isDirectory_iff.1 h.source.directory]

theorem overlay_opens_nil (h : Copying d copy root S ls lt) (y : Text) (T : Path) :
    (s.overlay d copy y S ls T lt).opens [] = (!s.refuses .makeDirs T && T.fits &&
      (d.get? lt == none || d.get? lt == some .directory)) := by
  rw [Overlay.opens, Overlay.isTree, overlay_source_nil h]
  simp [overlay, h.source.fits]

theorem mem_namesIn (h : Copying w.disk copy root S ls lt) : x ∈ s.namesIn w.disk S ↔
    s.refuses .list S = false ∧ (w.disk.get? (ls ++ [x])).isSome := by
  rw [namesIn_of_root h.source]
  split_ifs with hr
  · simp [hr]
  · simp [hr, Disk.mem_childNames]

theorem sorted_namesIn (h : Copying w.disk copy root S ls lt) :
    (s.namesIn w.disk S).Pairwise fun a b => Disk.textLe a b = true ∧ a ≠ b := by
  rw [namesIn_of_root h.source]
  split_ifs
  · exact .nil
  · exact Disk.sorted_childNames h.sound ls

/-- What is not among the names that are read is not reached. -/
theorem not_reached_of_not_mem (h : Copying w.disk copy root S ls lt) {y : Text}
    (hy : y ∉ s.namesIn w.disk S) (r : Loc) :
    (s.overlay w.disk copy x S ls T lt).reached (y :: r) = false := by
  rw [mem_namesIn h, not_and_or, Bool.not_eq_false] at hy
  rcases hy with hr | hy
  · refine Overlay.not_reached_cons (.inr ?_) y r
    simp [overlay, hr]
  · rw [Overlay.reached, Overlay.not_reached_of_source, Bool.and_false]
    simp only [Option.isSome_iff_ne_none, not_not] at hy
    simp [Overlay.below, overlay, hy]

/-- What a call of the copy does to a directory: the overlay, or nothing at all. -/
def Copies (s : Storage) (root : Path) (n : Nat) (S T : Path) (lt : Loc) (o : Overlay)
    (w : World) : Prop :=
  (o.opens [] = true → ∃ w', (s.copyInto root n S T).run w = (.ok (), w') ∧ o.Done lt w w') ∧
  (o.opens [] = false →
    ∃ e, (∀ r, e ≠ .stopped r) ∧ (s.copyInto root n S T).run w = (.error e, w))

/-- What every call one name down does, with room for so many calls. -/
def CopiesBelow (s : Storage) (copy : Loc) (root : Path) (n : Nat) : Prop :=
  ∀ ⦃w : World⦄ ⦃S T : Path⦄ ⦃ls lt : Loc⦄ ⦃x : Text⦄,
    Copying w.disk copy root S ls (lt ++ [x]) → w.disk.Root T lt → IsName x →
    (s.overlay w.disk copy x S ls (T.join x) (lt ++ [x])).Shallow n →
    Copies s root n S (T.join x) (lt ++ [x])
      (s.overlay w.disk copy x S ls (T.join x) (lt ++ [x])) w

/-- One name is done if the calls it may make do what they should. -/
theorem copyChild_done (ih : CopiesBelow s copy root n) (y : Text)
    (h : Copying w.disk copy root S ls lt) (hT : w.disk.Root T lt) (hx : IsName x)
    (he : copy <+: ls ++ [x] ∨ (w.disk.get? (ls ++ [x])).isSome)
    (hn : ((s.overlay w.disk copy y S ls T lt).below x).Shallow n) :
    ∃ w', (s.copyChild root n (s.copyInto root n) S T x).run w = (.ok (), w') ∧
      ((s.overlay w.disk copy y S ls T lt).below x).Done (lt ++ [x]) w w' := by
  rw [overlay_below] at hn ⊢
  generalize ho : s.overlay w.disk copy x (S.join x) (ls ++ [x]) (T.join x) (lt ++ [x]) = o at hn ⊢
  have htgt : ∀ r, o.target r = w.disk.get? (lt ++ [x] ++ r) := by rw [← ho]; exact fun _ => rfl
  rw [run_copyChild_of_samePath (h.samePath hx n)]
  by_cases hs : ls ++ [x] = copy
  · rw [if_pos (by simp [hs])]
    exact ⟨w, rfl, .skip h.sound htgt (by simp [← ho, overlay, hs])⟩
  rw [if_neg (by simpa using hs)]
  obtain ⟨i, hi⟩ := Option.isSome_iff_exists.1 (he.resolve_left fun e => hs (h.prefix_iff.1 e))
  split_ifs with hd
  · have hd' := hd
    rw [(h.source.child hx).isDir_join, Bool.and_eq_true] at hd'
    have h' : Copying w.disk copy root (S.join x) (ls ++ [x]) (lt ++ [x]) := {
      sound := h.sound
      fit := h.fit
      source := h.source.join hx hd'.1 hd'.2
      rootAt := h.rootAt
      noNull := h.noNull
      apart := fun e => hs (h.prefix_iff.1 e)
      inside := h.inside.trans (List.prefix_append _ _) }
    obtain ⟨hopen, hclosed⟩ := ih h' hT hx (ho ▸ hn)
    rw [ho] at hopen hclosed
    have hsrc : o.source [] = some .directory := ho ▸ overlay_source_nil h' x (T.join x) (lt ++ [x])
    rcases hop : o.opens [] with _ | _
    · obtain ⟨e, he, hrun⟩ := hclosed hop
      have hfound : o.found [] = true := by rw [← ho]; exact hd'.1
      have hname : o.name = x := by rw [← ho]; rfl
      have := Overlay.Done.report h.sound htgt
        (by simp [Overlay.reached, hsrc]) hop (by simp [Overlay.copies, hsrc])
      refine ⟨_, run_reporting_error hrun he _, ?_⟩
      simpa [Overlay.line, Overlay.isTree, hsrc, hfound, hname] using this
    · obtain ⟨w', hw, hdone⟩ := hopen hop
      exact ⟨w', by rw [run_reporting, hw], hdone⟩
  · exact ⟨_, rfl, copyFile_done hx hT h ho.symm hi hs (by simpa using hd)⟩

/-- A directory is done once it is there and its names are done. -/
theorem copyDirectory_done (ih : CopiesBelow s copy root n) {o : Overlay}
    (h : Copying w.disk copy root S ls lt) (ho : o = s.overlay w.disk copy x S ls T lt)
    (hop : o.opens [] = true) (hn : o.Shallow (n + 1)) (hs : d.Sound) (hT : d.Root T lt)
    (hd : ∀ k, d.get? k = if k = lt then some .directory else w.disk.get? k) :
    ∃ w', ((s.namesIn w.disk S).forM (s.copyChild root n (s.copyInto root n) S T)).run
      { w with disk := d } = (.ok (), w') ∧ o.Done lt w w' := by
  have away : ∀ k, ¬ copy <+: k → d.get? k = w.disk.get? k := fun k hk => by
    rw [hd, if_neg]
    rintro rfl
    exact hk h.inside
  have below : ∀ y r, d.get? (lt ++ y :: r) = w.disk.get? (lt ++ y :: r) := fun y r => by
    rw [hd, if_neg (by simp)]
  have hkeeps : w.disk.Keeps d := by
    have hop := hop
    rw [ho, overlay_opens_nil h] at hop
    simp only [Bool.and_eq_true, Bool.or_eq_true, beq_iff_eq] at hop
    exact Disk.keeps_of_directory hop.2 hd
  have hlisted : ∀ y ∈ s.namesIn w.disk S, o.listed [] = true := fun y hy => by
    rw [ho]
    simpa [overlay] using ((mem_namesIn h).1 hy).1
  have hnot : ∀ y, y ∉ s.namesIn w.disk S → ∀ r, o.reached (y :: r) = false := fun y hy r => by
    rw [ho]
    exact not_reached_of_not_mem h hy r
  have hxs : ∀ y ∈ s.namesIn w.disk S,
      IsName y ∧ (copy <+: ls ++ [y] ∨ (d.get? (ls ++ [y])).isSome) := by
    intro y hy
    have hy := ((mem_namesIn h).1 hy).2
    refine ⟨h.sound.isName hy, ?_⟩
    by_cases hcp : copy <+: ls ++ [y]
    · exact .inl hcp
    · rw [away _ hcp]
      exact .inr hy
  obtain ⟨w', hrun, hs', hin, hout, t, ht, hr⟩ := copyChildren_done (s := s) (n := n)
    (w := { w with disk := d }) (o := o)
    (fun (h : Copying _ copy root S ls lt) hT hx he hn => copyChild_done ih o.name h hT hx he hn)
    (h.of_keeps hs hkeeps) hT
    (fun y _ => by rw [ho]; exact (overlay_below_congr away (below y)).symm) hxs
    (fun y hy => hn.below hop (hlisted y hy) y) (sorted_namesIn h)
  refine ⟨w', hrun, hs', fun r => ?_, fun k hk => ?_, t, ht, hr.reports hop hlisted hnot⟩
  · cases r with
    | nil =>
      have hsrc : o.source [] = some .directory := ho ▸ overlay_source_nil h x T lt
      have hout' : ∀ y : Text, ¬ lt ++ [y] <+: lt := fun y e => absurd e.length_le (by simp)
      rw [List.append_nil, hout lt fun y _ => hout' y, hd, if_pos rfl]
      simp [Overlay.result, Overlay.reached, hsrc, hop]
    | cons y r =>
      by_cases hy : y ∈ s.namesIn w.disk S
      · rw [hin y hy, Overlay.result_cons hop (hlisted y hy)]
      · rw [Overlay.result_of_not_reached (hnot y hy r), hout _ fun z hz e => ?_, below y r, ho]
        · rfl
        · rw [List.prefix_append_right_inj, List.cons_prefix_cons] at e
          exact hy (e.1 ▸ hz)
  · rw [hout k fun y _ e => hk ((List.prefix_append _ _).trans e), hd, if_neg]
    rintro rfl
    exact hk List.prefix_rfl

/-- A call does what it should if making the directory does. -/
theorem copies_of_makeDirs (ih : CopiesBelow s copy root n) (h : Copying w.disk copy root S ls lt)
    (hn : (s.overlay w.disk copy x S ls T lt).Shallow (n + 1)) (above : w.disk.missingAbove T = 0)
    (made : T.fits = true → w.disk.get? lt = none ∨ w.disk.get? lt = some .directory →
      w.disk.makeDirs true T = (.ok (), w.disk.withDirectory lt) ∧
        (w.disk.withDirectory lt).Sound ∧ (w.disk.withDirectory lt).Root T lt)
    (refused : T.fits = false ∨
        (w.disk.get? lt ≠ none ∧ w.disk.get? lt ≠ some .directory) →
      ∃ e, w.disk.makeDirs true T = (.error e, w.disk)) :
    Copies s root (n + 1) S T lt (s.overlay w.disk copy x S ls T lt) w := by
  have hopens := overlay_opens_nil (s := s) h x T
  unfold Copies
  rw [run_copyInto, run_makeDirs, making_eq (by omega)]
  refine ⟨fun hop => ?_, fun hop => ?_⟩
  · have hop' := hop
    rw [hopens] at hop'
    simp only [Bool.and_eq_true, Bool.or_eq_true, beq_iff_eq, Bool.not_eq_true'] at hop'
    obtain ⟨⟨hr, hf⟩, hi⟩ := hop'
    obtain ⟨hm, hs, hT⟩ := made hf hi
    rw [hr, if_neg (by simp), hm]
    exact copyDirectory_done ih h rfl hop hn hs hT (Disk.get?_withDirectory hi)
  · rw [hopens] at hop
    rcases hr : s.refuses .makeDirs T
    · obtain ⟨e, he⟩ := refused (by
        by_contra hno
        simp only [not_or, not_and_or, not_not, Bool.not_eq_false] at hno
        rcases hno.2 with hi | hi <;> simp [hr, hno.1, hi] at hop)
      rw [if_neg (by simp), he]
      exact ⟨.makeDir T, nofun, rfl⟩
    · rw [if_pos rfl]
      exact ⟨.refused, nofun, rfl⟩

/-- With room for the directories that lie one inside the other, the copy of a directory is its
overlay. -/
theorem copiesBelow : ∀ n, CopiesBelow s copy root n
  | 0 => by
    intro w S T ls lt x h _ _ hn
    have hsrc := overlay_source_nil (s := s) h x (T.join x) (lt ++ [x])
    refine absurd (hn.pos (by simp [Overlay.reached, hsrc]) ?_) (Nat.lt_irrefl 0)
    rw [Overlay.isTree, hsrc]
    simpa [overlay] using h.source.fits
  | n + 1 => by
    intro w S T ls lt x h hT hx hn
    refine copies_of_makeDirs (copiesBelow n) h hn (hT.child hx).missingAbove_join
      (fun hf hi => ?_) ((hT.child hx).makeDirs_join_error)
    refine ⟨(hT.child hx).makeDirs_join hf hi, h.sound.withDirectory hT.directory hx, ?_⟩
    exact (hT.of_keeps (Disk.keeps_withDirectory hi)).join hx hf
      (by simp [Disk.isDirectory, Disk.get?_withDirectory hi])

/-! ## The copy as a whole -/

/-- Where the copy of a directory goes: one name below the destination, or to the destination
itself if the root is copied. -/
def copyPlace (S : Path) (ld : Loc) : Loc := ld ++ Path.names (Path.baseName S.normalize)

def copyPath (S D : Path) : Path := D.join (Path.baseName S.normalize)

/-- The copy of a directory, seen as an overlay. -/
def copyOverlay (s : Storage) (d : Disk) (S D : Path) (ls ld : Loc) : Overlay :=
  s.overlay d (copyPlace S ld) (Path.baseName S.normalize) S ls (copyPath S D) (copyPlace S ld)

/-- No walk goes deeper than there are directories on the disk. -/
theorem shallow_copyOverlay (h0 : 0 < n) (h : ∀ e ∈ d.items, e.1.length < ls.length + n) :
    (s.copyOverlay d S D ls ld).Shallow n := fun r hr _ => by
  obtain ⟨i, hi⟩ := Option.isSome_iff_exists.1 (Overlay.reached_iff.1 hr).1
  have hget : d.get? (ls ++ r) = some i := by
    simp only [copyOverlay, overlay] at hi
    split_ifs at hi
    exact hi
  rcases eq_or_ne r [] with rfl | hne
  · exact h0
  · have := h _ (Disk.mem_items_of_get? hget (by simp [hne]))
    rw [List.length_append] at this
    omega

theorem run_copyTree (s : Storage) (S D : Path) (w : World) : (s.copyTree S D).run w =
    match (s.copyInto (copyPath S D) s.nests S (copyPath S D)).run w with
      | (.ok (), w') => (.ok (copyPath S D), w')
      | (.error e, w') => (.error e, w') := by
  unfold copyTree
  simp only [Act.run_bind, copyPath]
  rcases (s.copyInto (D.join (Path.baseName S.normalize)) s.nests S
    (D.join (Path.baseName S.normalize))).run w with ⟨_ | ⟨⟩, w'⟩ <;> rfl

theorem at_copyPath (hS : w.disk.Root S ls) (hD : w.disk.Root D ld) (ha : S.isAbsolute = true) :
    w.disk.At (copyPath S D) (copyPlace S ld) := by
  unfold copyPlace copyPath
  rcases hS.isName_baseName ha with hb | hb
  · rw [hb, Path.names_nil, List.append_nil]
    exact (Disk.at_of_locate hD.located).of_names (Disk.Root.names_join_nil D)
  · rw [Path.names_of_not_mem hb.noSlash hb.plain.1]
    exact (hD.child hb).at_join

theorem noNull_copyPath (hS : w.disk.Root S ls) (hD : w.disk.Root D ld)
    (ha : S.isAbsolute = true) : '\x00' ∉ copyPath S D := by
  unfold copyPath
  rcases hS.isName_baseName ha with hb | hb
  · exact Path.not_mem_join (by simp [hb]) hD.noNull (by simp [hb]) (by decide)
  · exact (hD.child hb).noNull_join

/-- Nothing is missing above the place of a copy. -/
theorem missingAbove_copyPath (hS : w.disk.Root S ls) (hD : w.disk.Root D ld)
    (ha : S.isAbsolute = true) : w.disk.missingAbove (copyPath S D) = 0 := by
  unfold copyPath
  rcases hS.isName_baseName ha with hb | hb
  · rw [hb]
    exact hD.missingAbove_join_nil
  · exact (hD.child hb).missingAbove_join

theorem root_copyPath (hS : w.disk.Root S ls) (hD : w.disk.Root D ld) (ha : S.isAbsolute = true)
    (hf : (copyPath S D).fits = true) (hd : w.disk.isDirectory (copyPlace S ld) = true) :
    w.disk.Root (copyPath S D) (copyPlace S ld) := by
  unfold copyPlace copyPath at *
  rcases hS.isName_baseName ha with hb | hb
  · rw [hb] at hf ⊢
    rw [Path.names_nil, List.append_nil]
    exact hD.join_nil hf
  · rw [Path.names_of_not_mem hb.noSlash hb.plain.1] at hd ⊢
    exact hD.join hb hf hd

theorem copying (hs : w.disk.Sound) (hfit : w.disk.LinksFit) (hS : w.disk.Root S ls)
    (hD : w.disk.Root D ld) (ha : S.isAbsolute = true) (hlt : ¬ copyPlace S ld <+: ls) :
    Copying w.disk (copyPlace S ld) (copyPath S D) S ls (copyPlace S ld) where
  sound := hs
  fit := hfit
  source := hS
  rootAt := at_copyPath hS hD ha
  noNull := noNull_copyPath hS hD ha
  apart := hlt
  inside := List.prefix_rfl

theorem copies_whole (hs : w.disk.Sound) (hfit : w.disk.LinksFit) (hS : w.disk.Root S ls)
    (hD : w.disk.Root D ld) (ha : S.isAbsolute = true) (hlt : ¬ copyPlace S ld <+: ls)
    (hn : (s.copyOverlay w.disk S D ls ld).Shallow n) :
    Copies s (copyPath S D) n S (copyPath S D) (copyPlace S ld)
      (s.copyOverlay w.disk S D ls ld) w := by
  have h := copying hs hfit hS hD ha hlt
  rcases hS.isName_baseName ha with hb | hb
  · obtain ⟨n, rfl⟩ : ∃ m, n = m + 1 := by
      have hsrc : (s.copyOverlay w.disk S D ls ld).source [] = some .directory :=
        overlay_source_nil h _ _ _
      refine Nat.exists_eq_add_one.2 (hn.pos (by simp [Overlay.reached, hsrc]) ?_)
      rw [Overlay.isTree, hsrc]
      simpa [copyOverlay, overlay] using hS.fits
    have hcp : copyPlace S ld = ld := by rw [copyPlace, hb, Path.names_nil, List.append_nil]
    have hT : copyPath S D = D.join [] := by rw [copyPath, hb]
    have hm := hD.makeDirs_join_nil
    unfold copyOverlay at hn ⊢
    rw [hcp] at h hn ⊢
    rw [hT] at h hn ⊢
    refine copies_of_makeDirs (copiesBelow n) h hn hD.missingAbove_join_nil (fun hf _ => ?_)
      fun hno => ?_
    · rw [if_pos hf] at hm
      rw [Disk.withDirectory_of_isDirectory hD.directory]
      exact ⟨hm, hs, hD.join_nil hf⟩
    · rwa [if_neg] at hm
      simpa [Disk.isDirectory_iff.1 hD.directory] using hno
  · have hcp : copyPlace S ld = ld ++ [Path.baseName S.normalize] := by
      rw [copyPlace, Path.names_of_not_mem hb.noSlash hb.plain.1]
    unfold copyOverlay at hn ⊢
    rw [hcp] at h hn ⊢
    exact copiesBelow n h hD hb hn

/-- Copying a directory into another gives the overlay of the one onto what is in its place in the
other, or fails at once and leaves everything as it was. -/
theorem copyTree_done (hs : w.disk.Sound) (hfit : w.disk.LinksFit) (hS : w.disk.Root S ls)
    (hD : w.disk.Root D ld) (ha : S.isAbsolute = true) (hlt : ¬ copyPlace S ld <+: ls)
    (hn : (s.copyOverlay w.disk S D ls ld).Shallow s.nests) :
    if (s.copyOverlay w.disk S D ls ld).opens [] = true then
      ∃ w', (s.copyTree S D).run w = (.ok (copyPath S D), w') ∧
        (s.copyOverlay w.disk S D ls ld).Done (copyPlace S ld) w w'
    else ∃ e, (∀ r, e ≠ .stopped r) ∧ (s.copyTree S D).run w = (.error e, w) := by
  obtain ⟨hopen, hclosed⟩ := copies_whole hs hfit hS hD ha hlt hn
  rw [run_copyTree]
  split_ifs with hop
  · obtain ⟨w', hw, hdone⟩ := hopen hop
    exact ⟨w', by rw [hw], hdone⟩
  · obtain ⟨e, he, hw⟩ := hclosed (by simpa using hop)
    exact ⟨e, he, by rw [hw]⟩

/-- Without refusals only the length of a path, what already stands somewhere, and requests too
large for the memory can keep a node from being copied, if no more directories that the copy goes
into lie one inside the other than calls may nest. -/
theorem copyTree_overlay (hr : ∀ c p, s.refuses c p = false) (hs : w.disk.Sound)
    (hfit : w.disk.LinksFit) (hS : w.disk.Root S ls) (hD : w.disk.Root D ld)
    (ha : S.isAbsolute = true) (hlt : ¬ copyPlace S ld <+: ls)
    (hn : (s.copyOverlay w.disk S D ls ld).Shallow s.nests) :
    if (copyPath S D).fits = true ∧ (w.disk.get? (copyPlace S ld) = none ∨
        w.disk.get? (copyPlace S ld) = some .directory) then
      ∃ w', (s.copyTree S D).run w = (.ok (copyPath S D), w') ∧
        (s.copyOverlay w.disk S D ls ld).Done (copyPlace S ld) w w'
    else ∃ e, (∀ r, e ≠ .stopped r) ∧ (s.copyTree S D).run w = (.error e, w) := by
  have h := copyTree_done (s := s) hs hfit hS hD ha hlt hn
  have hop : (s.copyOverlay w.disk S D ls ld).opens [] = true ↔ (copyPath S D).fits = true ∧
      (w.disk.get? (copyPlace S ld) = none ∨ w.disk.get? (copyPlace S ld) = some .directory) := by
    rw [copyOverlay, overlay_opens_nil (copying hs hfit hS hD ha hlt)]
    simp [hr]
  simpa only [hop] using h

/-- A tree whose copy meets another one: a directory stands where a file is to go. -/
def meeting : Disk where
  items := [
    (["s".toList], .directory),
    (["s".toList, "a".toList], .file [1]),
    (["s".toList, "b".toList], .directory),
    (["s".toList, "b".toList, "c".toList], .file [2]),
    (["d".toList], .directory),
    (["d".toList, "s".toList], .directory),
    (["d".toList, "s".toList, "a".toList], .directory),
    (["d".toList, "s".toList, "k".toList], .file [3])]

theorem meeting_sound : meeting.Sound :=
  Disk.sound_of_items (by decide) (by decide) (by simp [meeting])

theorem meeting_linksFit : meeting.LinksFit :=
  Disk.linksFit_of_items (by simp [meeting])

theorem meeting_root {p : Path} {l : Loc} (hl : meeting.locate true p = .ok l)
    (hd : meeting.isDirectory l = true) : meeting.Root p l :=
  ⟨hl, hd, fun k t _ => Disk.get?_ne_link_of_items (by simp [meeting]) k t⟩

theorem copyTree_overlay_meeting :
    ¬ copyPlace "/s".toList ["d".toList] <+: ["s".toList] ∧
      ∃ w', (copyTree { chunk := 512 } "/s".toList "/d".toList).run ⟨meeting, []⟩ =
          (.ok "/d/s".toList, w') ∧
        (copyOverlay { chunk := 512 } meeting "/s".toList "/d".toList ["s".toList] ["d".toList]).Done
          ["d".toList, "s".toList] ⟨meeting, []⟩ w' := by
  have hlt : ¬ copyPlace "/s".toList ["d".toList] <+: ["s".toList] := by decide
  have h := copyTree_overlay (s := { chunk := 512 }) (w := ⟨meeting, []⟩) (fun _ _ => rfl)
    meeting_sound meeting_linksFit (meeting_root (p := "/s".toList) rfl rfl)
    (meeting_root (p := "/d".toList) rfl rfl) rfl hlt
    (shallow_copyOverlay (by decide) (by decide))
  rw [if_pos (by decide)] at h
  exact ⟨hlt, h⟩

/-- A path to one name behind many slashes. -/
def far (n : Nat) : Path := List.replicate n '/' ++ ['d']

theorem names_far : ∀ n, Path.names (far n) = ["d".toList]
  | 0 => rfl
  | n + 1 => by
    have ih := names_far n
    rw [far, List.replicate_succ, List.cons_append, ← List.nil_append ('/' :: _),
      Path.names_append_slash, Path.names_nil, List.nil_append]
    exact ih

theorem byteSize_far (n : Nat) : (far n).byteSize = n + 1 := by
  rw [far, Text.byteSize_append]
  simp [Text.byteSize, Utf8.encode, List.length_flatMap, Utf8.encodeChar]

theorem join_far (n : Nat) {x : Text} (hx : '/' ∉ x) : (far n).join x = far n ++ '/' :: x := by
  rw [Path.join_eq_of_relative (Path.isAbsolute_of_not_mem hx), if_neg (by simp [far])]

theorem locate_far {d : Disk} {n : Nat} (ha : d.At "/d".toList ["d".toList])
    (hd : d.isDirectory ["d".toList] = true) (hn : n < 4095) :
    d.locate true (far n) = .ok ["d".toList] := by
  refine (ha.of_names (names_far n)).locate ?_ (.inl hd)
  refine Disk.checkPath_eq_ok_iff.2 ⟨by simp [far], by simp [far], ?_⟩
  rw [byteSize_far, Disk.maxPath]
  omega

theorem byteSize_join_far (n : Nat) {x : Text} (hx : '/' ∉ x) :
    ((far n).join x).byteSize = n + 2 + x.byteSize := by
  rw [join_far n hx, Text.byteSize_append, byteSize_far, Text.byteSize_cons]
  have : (Utf8.encodeChar '/').length = 1 := by decide
  omega

theorem fits_join_far {n : Nat} {x : Text} (hx : IsName x) (hn : 4093 < n) :
    ((far n).join x).fits = false :=
  eq_false_of_ne_true fun h => by
    have hle := Path.fits_iff.1 h
    rw [byteSize_join_far n hx.noSlash, Disk.maxPath] at hle
    omega

theorem meeting_root_far {n : Nat} (hn : n < 4095) : meeting.Root (far n) ["d".toList] :=
  meeting_root (locate_far (Disk.at_of_locate rfl) rfl hn) rfl

theorem copyTree_far_error {n : Nat} (hn : n < 4095) (hn' : 4093 < n) :
    ∃ e, (∀ r, e ≠ .stopped r) ∧
      (copyTree { chunk := 512 } "/s/b".toList (far n)).run ⟨meeting, []⟩ =
        (.error e, ⟨meeting, []⟩) := by
  have hS : meeting.Root "/s/b".toList ["s".toList, "b".toList] := meeting_root rfl rfl
  have hlt : ¬ copyPlace "/s/b".toList ["d".toList] <+: ["s".toList, "b".toList] := by decide
  have hD := meeting_root_far hn
  have h := copyTree_done (s := { chunk := 512 }) (w := ⟨meeting, []⟩) meeting_sound
    meeting_linksFit hS hD rfl hlt (shallow_copyOverlay (by decide) (by decide))
  have hb : Path.baseName (Path.normalize "/s/b".toList) = ['b'] := by decide
  have hf : (copyPath "/s/b".toList (far n)).fits = false := by
    rw [copyPath, hb]
    exact fits_join_far (by decide) hn'
  rw [if_neg] at h
  · exact h
  · rw [copyOverlay, overlay_opens_nil (copying meeting_sound meeting_linksFit hS hD rfl hlt), hf]
    simp

/-- A directory with one thing in it, and an empty directory. -/
def holding (i : Item) : Disk where
  items := [(["s".toList], .directory), (["s".toList, "x".toList], i), (["d".toList], .directory)]

/-- Nothing stands where the copy would go, and yet there is none, for want of a path to it. With
room for one call only, a directory in the source stops the run on the way. -/
theorem copyTree_far :
    let v := (copyTree { chunk := 512, nests := 1 } "/s".toList "/d".toList).run
      ⟨holding .directory, []⟩
    (meeting.Sound ∧ meeting.LinksFit ∧ meeting.Root "/s/b".toList ["s".toList, "b".toList] ∧
      meeting.Root (far 4094) ["d".toList] ∧
      ¬ copyPlace "/s/b".toList ["d".toList] <+: ["s".toList, "b".toList] ∧
      meeting.get? (copyPlace "/s/b".toList ["d".toList]) = none ∧
      ∃ e, (copyTree { chunk := 512 } "/s/b".toList (far 4094)).run ⟨meeting, []⟩ =
        (.error e, ⟨meeting, []⟩)) ∧
    v.1 = .error (.stopped .recursion) ∧
      v.2.disk.get? ["d".toList, "s".toList, "x".toList] = none := by
  obtain ⟨e, -, he⟩ := copyTree_far_error (n := 4094) (by decide) (by decide)
  refine ⟨⟨meeting_sound, meeting_linksFit, meeting_root rfl rfl, meeting_root_far (by decide),
    by decide, by decide, e, he⟩, ?_⟩
  constructor <;> decide +kernel

end Storage

end FileShell
