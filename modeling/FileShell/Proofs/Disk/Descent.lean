import FileShell.Proofs.Disk.Sound
import FileShell.Proofs.Path.Normal

/-!
# One name down

What the calls of a disk do at a path joined with a name, when the path leads to a place without
links below it. All that is left to chance is whether the path is too long, and what stands at the
name. A directory is made where nothing stands (`Root.makeDirs_join`), and a file is written where
no directory does (`Root.locateWrite_join`).
-/

namespace FileShell

theorem Text.byteSize_pos {t : Text} (h : t ≠ []) : 0 < t.byteSize := by
  obtain ⟨c, t, rfl⟩ := List.exists_cons_of_ne_nil h
  have hc : 0 < (Utf8.encodeChar c).length := by
    unfold Utf8.encodeChar
    simp only
    split_ifs <;> simp
  rw [byteSize_cons]
  omega

namespace Path

/-- Whether the path is short enough to be looked up. -/
def fits (p : Path) : Bool := p.byteSize ≤ Disk.maxPath

theorem fits_iff {p : Path} : p.fits = true ↔ p.byteSize ≤ Disk.maxPath := by simp [fits]

theorem byteSize_join_lt (p : Path) {x : Text} (hs : '/' ∉ x) (hx : x ≠ []) :
    p.byteSize < (p.join x).byteSize := by
  obtain ⟨s, hj, -, -, -⟩ := exists_join_eq p hs
  have hpos := Text.byteSize_pos hx
  rw [hj, Text.byteSize_append, Text.byteSize_append]
  omega

theorem length_le_byteSize_foldl_join {a : List Text} (ha : ∀ x ∈ a, '/' ∉ x ∧ x ≠ []) (p : Path) :
    a.length ≤ (a.foldl join p).byteSize := by
  induction a using List.reverseRecOn with
  | nil => exact Nat.zero_le _
  | append_singleton b x ih =>
    have hx := ha x (by simp)
    have hb := ih fun y hy => ha y (List.mem_append_left [x] hy)
    have hlt := byteSize_join_lt (b.foldl join p) hx.1 hx.2
    rw [List.foldl_append, List.foldl_cons, List.foldl_nil, List.length_append,
      List.length_singleton]
    omega

theorem fits_of_fits_join {p : Path} {x : Text} (hs : '/' ∉ x) (h : (p.join x).fits = true) :
    p.fits = true := by
  obtain ⟨s, hj, -, -, -⟩ := exists_join_eq p hs
  simp only [fits, decide_eq_true_eq, hj, Text.byteSize_append] at h ⊢
  omega

theorem not_mem_join {p : Path} {x : Text} {c : Char} (hs : '/' ∉ x) (hp : c ∉ p) (hx : c ∉ x)
    (hc : c ≠ '/') : c ∉ p.join x := by
  obtain ⟨s, hj, hsl, -, -⟩ := exists_join_eq p hs
  rw [hj]
  simp only [List.mem_append, not_or]
  exact ⟨⟨hp, fun h => hc (hsl c h)⟩, hx⟩

theorem baseName_normalize_of_isPlain {p : Path} (ha : p.isAbsolute = true)
    (h : IsPlain (baseName p)) : baseName p.normalize = baseName p := by
  have hc : ∀ done, climb true done (baseName p) = baseName p :: done := by
    intro done
    simp only [climb, if_neg h.2.1, ne_eq, h.2.2, not_false_eq_true, if_true]
  rw [baseName_normalize ha, normalNames, names_parent h.1, List.foldl_append, List.foldl_cons,
    List.foldl_nil, hc, List.reverse_cons, List.getLastD_concat]

end Path

namespace Disk

variable {d : Disk} {p q : Path} {l m k : Loc} {x : Text}

theorem checkPath_eq (hn : p ≠ []) (h0 : '\x00' ∉ p) :
    checkPath p = if p.fits then .ok () else .error .tooLong := by
  unfold checkPath
  rw [if_neg (by simpa using hn), if_neg (by simpa using h0)]
  by_cases h : p.fits = true
  · rw [if_pos h, if_neg (by simpa [Path.fits] using h)]
  · rw [if_neg h, if_pos (by simpa [Path.fits] using h)]

theorem At.locate_eq (h : d.At p l) (hn : p ≠ []) (h0 : '\x00' ∉ p)
    (hd : d.isDirectory l = true ∨ p.getLast? ≠ some '/') :
    d.locate true p = if p.fits then .ok l else .error .tooLong := by
  have hc := checkPath_eq hn h0
  by_cases hf : p.fits = true
  · rw [if_pos hf] at hc ⊢
    exact h.locate hc hd
  · rw [if_neg hf] at hc ⊢
    rw [Disk.locate, hc]
    rfl

/-- The disk with a directory at the location, if nothing stood there. -/
def withDirectory (d : Disk) (k : Loc) : Disk :=
  if d.get? k = none then d.insert k .directory else d

theorem withDirectory_of_isDirectory (hk : d.isDirectory k = true) : d.withDirectory k = d := by
  rw [withDirectory, if_neg (by simp [isDirectory_iff.1 hk])]

theorem get?_withDirectory (hi : d.get? k = none ∨ d.get? k = some .directory) (m : Loc) :
    (d.withDirectory k).get? m = if m = k then some .directory else d.get? m := by
  unfold withDirectory
  rcases hi with hi | hi
  · have hk : k ≠ [] := fun e => by simp [e, get?] at hi
    rw [if_pos hi, get?_insert d k m _ hk]
  · rw [if_neg (by simp [hi])]
    split_ifs with hm
    · rw [hm, hi]
    · rfl

/-- A directory where none or one stood leads no path astray. -/
theorem keeps_of_directory {d' : Disk} (hi : d.get? k = none ∨ d.get? k = some .directory)
    (h : ∀ m, d'.get? m = if m = k then some .directory else d.get? m) : Keeps d d' where
  directory {m} hm := by
    rw [isDirectory_iff] at hm ⊢
    rw [h, hm, ite_self]
  link {m t} := by
    rw [h]
    split_ifs with hm
    · rcases hi with hi | hi <;> simp [hm, hi]
    · rfl

theorem keeps_withDirectory (hi : d.get? k = none ∨ d.get? k = some .directory) :
    Keeps d (d.withDirectory k) :=
  keeps_of_directory hi (get?_withDirectory hi)

/-- A place is emptied and then written to. -/
theorem Sound.write_write (h : Sound d) (hl : d.isDirectory l = true) (hx : IsName x)
    (hd : d.isDirectory (l ++ [x]) = false) (a b : Bytes) :
    Sound ((d.write (l ++ [x]) a).write (l ++ [x]) b) := by
  have hkeep := isDirectory_write a (by simp) hd
  exact (h.write hl hx hd a).write (by rw [hkeep, hl]) hx (by rw [hkeep, hd]) b

theorem Sound.withDirectory (h : Sound d) (hl : d.isDirectory l = true) (hx : IsName x) :
    Sound (d.withDirectory (l ++ [x])) := by
  unfold Disk.withDirectory
  split_ifs
  · exact h.insert hl hx (fun _ => rfl) (fun _ e => by simp at e)
  · exact h

/-- A file stands at the last name of any path that leads to it. -/
theorem Sound.isName_baseName (hs : d.Sound) (h : d.locate true p = .ok l)
    (hd : d.isDirectory l = false) : IsName (Path.baseName p) := by
  obtain ⟨hp, c, -, hl⟩ := locate_eq_ok_iff.1 h
  obtain ⟨hne, h0, -⟩ := checkPath_eq_ok_iff.1 hp
  have hlast := locate_getLast? h hd
  obtain ⟨f, hf, hslash, hfront⟩ := Path.exists_baseName_eq p
  have hx : Path.baseName p ≠ [] := by
    intro he
    rw [he, List.append_nil] at hf
    rw [← hf] at hfront
    exact hfront.elim hne hlast
  have hnames := Path.names_parent hx
  have hl := leads_steps hl
  have hplain : IsPlain (Path.baseName p) := by
    rw [hnames] at hl
    obtain ⟨c₁, c₂, m, -, -, h₂⟩ := leads_append.1 hl
    generalize Path.baseName p = x at h₂
    cases h₂ with
    | stay hm _ hr =>
      cases hr
      rw [hd] at hm
      cases hm
    | back hm hr =>
      cases hr
      rw [hs.isDirectory_dropLast hm] at hd
      cases hd
    | name _ hp _ _ _ => exact hp
    | link _ hp _ _ _ => exact hp
  have hmem : Path.baseName p ∈ p.names := by rw [hnames]; simp
  exact ⟨hplain, hslash, fun hc => h0 (Path.mem_of_mem_names hmem hc), hl.byteSize_le hmem hplain⟩

/-- What the normal form of a path ends in is a name, unless it is the root. -/
theorem isName_baseName_normalize (h : d.locate true p = .ok l) (ha : p.isAbsolute = true) :
    Path.baseName p.normalize = [] ∨ IsName (Path.baseName p.normalize) := by
  rw [Path.baseName_normalize ha]
  rcases List.eq_nil_or_concat (Path.normalNames p) with hn | ⟨a, x, hn⟩
  · exact .inl (by simp [hn])
  · right
    rw [hn, List.concat_eq_append, List.getLastD_concat]
    obtain ⟨hx, h1, h2⟩ := Path.mem_normalNames (p := p) (x := x) (by simp [hn])
    obtain ⟨hp, -⟩ := locate_eq_ok_iff.1 h
    obtain ⟨c, -, hl⟩ := at_of_locate h
    have hplain : IsPlain x := ⟨Path.ne_nil_of_mem_names hx, h1, h2⟩
    exact ⟨hplain, Path.not_mem_of_mem_names hx,
      fun h0 => (checkPath_eq_ok_iff.1 hp).2.1 (Path.mem_of_mem_names hx h0),
      hl.byteSize_le hx hplain⟩

namespace Root

theorem noNull (h : Root d p l) : '\x00' ∉ p :=
  (checkPath_eq_ok_iff.1 (locate_eq_ok_iff.1 h.located).1).2.1

theorem fits (h : Root d p l) : p.fits = true := by
  simpa [Path.fits] using (checkPath_eq_ok_iff.1 (locate_eq_ok_iff.1 h.located).1).2.2

theorem isName_baseName (h : Root d p l) (ha : p.isAbsolute = true) :
    Path.baseName p.normalize = [] ∨ IsName (Path.baseName p.normalize) :=
  isName_baseName_normalize h.located ha

/-! ## A path joined with nothing -/

theorem names_join_nil (p : Path) : (p.join []).names = p.names := by
  rw [Path.names_join p rfl, Path.names_nil, List.append_nil]

theorem checkPath_join_nil (h : Root d p l) :
    checkPath (p.join []) = if (p.join []).fits then .ok () else .error .tooLong := by
  refine checkPath_eq ?_ (Path.not_mem_join (by simp) h.noNull (by simp) (by decide))
  obtain ⟨s, hj, -⟩ := Path.exists_join_eq p (x := []) (by simp)
  simp [hj, h.ne_nil]

/-- What stands above a directory is there, also if a slash is put behind it. -/
theorem splitLast_join_nil (h : Root d p l) (hl : p.getLast? ≠ some '/') :
    (p.join []).splitLast = p.splitLast := by
  have hb : p.baseName ≠ [] := by
    obtain ⟨f, hp, -, hf⟩ := Path.exists_baseName_eq p
    intro hb
    rw [hb, List.append_nil] at hp
    exact hf.elim (fun e => h.ne_nil (hp.trans e)) fun e => hl (hp ▸ e)
  unfold Path.splitLast
  rw [Path.baseName_join p (by simp), if_pos (by simp), if_neg (by simpa using hb),
    Path.parent_join h.ne_nil hl (by simp)]

theorem join_nil (h : Root d p l) (hf : (p.join []).fits = true) : Root d (p.join []) l where
  located := by
    have hc := h.checkPath_join_nil
    rw [if_pos hf] at hc
    exact ((at_of_locate h.located).of_names (names_join_nil p)).locate hc (.inl h.directory)
  directory := h.directory
  linkFree := h.linkFree

theorem missingAbove_join_nil (h : Root d p l) : d.missingAbove (p.join []) = 0 := by
  have hp : d.isDir p = true := isDir_iff.2 ⟨l, h.located, h.directory⟩
  by_cases hl : p.getLast? = some '/'
  · rw [Path.join_eq_of_relative rfl, if_pos (by simp [hl]), List.append_nil,
      missingAbove_of_isDir hp]
  · rw [missingAbove, dif_neg]
    rw [h.splitLast_join_nil hl]
    rintro ⟨h2, h1, he⟩
    rw [pathExists_of_isDir (isDir_above hp h2 h1)] at he
    cases he

/-- The directory is there already; what is left to chance is whether the path is too long. -/
theorem makeDirs_join_nil (h : Root d p l) : if (p.join []).fits = true then
    d.makeDirs true (p.join []) = (.ok (), d)
    else ∃ e, d.makeDirs true (p.join []) = (.error e, d) := by
  split_ifs with hf
  · exact makeDirs_of_isDir (isDir_iff.2 ⟨l, (h.join_nil hf).located, h.directory⟩)
  · have hc := h.checkPath_join_nil
    rw [if_neg hf] at hc
    have hl : p.getLast? ≠ some '/' := fun hl => by
      rw [Path.join_eq_of_relative rfl, hl] at hf
      simp [h.fits] at hf
    have hp : d.isDir p = true := isDir_iff.2 ⟨l, h.located, h.directory⟩
    rw [makeDirs, dif_neg]
    · have hm : d.makeDir (p.join []) = .error .tooLong := by rw [makeDir, locateLast, hc]; rfl
      have hd : d.isDir (p.join []) = false := by
        rw [isDir, find?, locate, hc]
        rfl
      exact ⟨.tooLong, by simp [makeLastDir, hm, hd]⟩
    · rw [h.splitLast_join_nil hl]
      rintro ⟨h2, h1, he⟩
      rw [pathExists_of_isDir (isDir_above hp h2 h1)] at he
      simp at he

end Root

/-! ## One name down -/

/-- A name in a directory that a path leads to, under which no link stands. -/
structure Child (d : Disk) (p : Path) (l : Loc) (x : Text) : Prop where
  located : d.locate true p = .ok l
  directory : d.isDirectory l = true
  name : IsName x
  notLink : ∀ t, d.get? (l ++ [x]) ≠ some (.link t)

theorem Root.child (h : Root d p l) (hx : IsName x) : Child d p l x :=
  ⟨h.located, h.directory, hx, fun t => h.linkFree _ t (List.prefix_append _ _)⟩

namespace Child

variable (h : Child d p l x)
include h

theorem at_join : d.At (p.join x) (l ++ [x]) :=
  (at_of_locate h.located).join_name h.directory h.name.plain h.name.noSlash h.name.short h.notLink

theorem noNull_join : '\x00' ∉ p.join x :=
  Path.not_mem_join h.name.noSlash
    (checkPath_eq_ok_iff.1 (locate_eq_ok_iff.1 h.located).1).2.1 h.name.noNull (by decide)

theorem checkPath_join :
    checkPath (p.join x) = if (p.join x).fits then .ok () else .error .tooLong :=
  checkPath_eq (Path.join_ne_nil p h.name.plain.1) (h.noNull_join)

theorem locate_join :
    d.locate true (p.join x) = if (p.join x).fits then .ok (l ++ [x]) else .error .tooLong :=
  (h.at_join).locate_eq (Path.join_ne_nil p h.name.plain.1) (h.noNull_join)
    (.inr (Path.getLast?_join p h.name.noSlash h.name.plain.1))

theorem isDir_join : d.isDir (p.join x) = ((p.join x).fits && d.isDirectory (l ++ [x])) := by
  unfold isDir find? isDirectory
  rw [h.locate_join]
  by_cases hf : (p.join x).fits = true <;> simp [hf]

theorem join (hf : (p.join x).fits = true) (hd : d.isDirectory (l ++ [x]) = true)
    (hl : d.LinkFree (l ++ [x])) : Root d (p.join x) (l ++ [x]) where
  located := by rw [h.locate_join, if_pos hf]
  directory := hd
  linkFree := hl

/-! ## Making a directory -/

theorem locateLast_join :
    d.locateLast (p.join x) = if (p.join x).fits then .ok (l, x) else .error .tooLong := by
  have hc := h.checkPath_join
  by_cases hf : (p.join x).fits = true
  · rw [if_pos hf] at hc ⊢
    exact locateLast_eq_ok_iff.2 ⟨hc, h.directory, h.name.short, _,
      Path.names_join_name p h.name.noSlash h.name.plain.1, at_of_locate h.located⟩
  · rw [if_neg hf] at hc ⊢
    rw [locateLast, hc]
    rfl

theorem makeDirs_eq (existOk : Bool) :
    d.makeDirs existOk (p.join x) = d.makeLastDir existOk (p.join x) := by
  rw [makeDirs, dif_neg]
  rw [Path.splitLast_join p h.name.noSlash h.name.plain.1]
  simp [pathExists_of_isDir (isDir_parent_join h.located h.directory h.name.noSlash)]

theorem missingAbove_join : d.missingAbove (p.join x) = 0 := by
  refine missingAbove_of_exists ?_
  rw [Path.splitLast_join p h.name.noSlash h.name.plain.1]
  exact pathExists_of_isDir (isDir_parent_join h.located h.directory h.name.noSlash)

/-- A directory is there afterwards if nothing or a directory was there and the path fits. -/
theorem makeDirs_join (hf : (p.join x).fits = true)
    (hi : d.get? (l ++ [x]) = none ∨ d.get? (l ++ [x]) = some .directory) :
    d.makeDirs true (p.join x) = (.ok (), d.withDirectory (l ++ [x])) := by
  rw [h.makeDirs_eq, withDirectory]
  rcases hi with hi | hi
  · have hm : d.makeDir (p.join x) = .ok (d.insert (l ++ [x]) .directory) := by
      refine makeDir_eq_ok_iff.2 ⟨l, x, by rw [h.locateLast_join, if_pos hf], ?_, hi, rfl⟩
      simp [isDots, h.name.plain.2.1, h.name.plain.2.2]
    simp [makeLastDir, hm, hi]
  · rw [makeLastDir_of_isDir (by simp [h.isDir_join, hf, isDirectory_iff, hi]), hi]
    simp

theorem makeDirs_join_error {existOk : Bool} (hi : (p.join x).fits = false ∨
    (d.get? (l ++ [x]) ≠ none ∧ d.get? (l ++ [x]) ≠ some .directory)) :
    ∃ e, d.makeDirs existOk (p.join x) = (.error e, d) := by
  rw [h.makeDirs_eq]
  have hm : ∃ e, d.makeDir (p.join x) = .error e := by
    rcases hm : d.makeDir (p.join x) with e | d'
    · exact ⟨e, rfl⟩
    · obtain ⟨m, y, hl, -, hn, -⟩ := makeDir_eq_ok_iff.1 hm
      rw [h.locateLast_join] at hl
      split_ifs at hl with hf
      obtain ⟨rfl, rfl⟩ : l = m ∧ x = y := by simpa using hl
      simp [hf, hn] at hi
  have hd : d.isDir (p.join x) = false := by
    rw [h.isDir_join]
    rcases hi with hi | ⟨-, hi⟩
    · simp [hi]
    · simp [isDirectory, hi]
  obtain ⟨e, he⟩ := hm
  exact ⟨e, by simp [makeLastDir, he, hd]⟩

/-! ## Writing a file -/

theorem locateWrite_join : d.locateWrite (p.join x) =
    if (p.join x).fits then
      if d.isDirectory (l ++ [x]) then .error .isDirectory else .ok (l ++ [x])
    else .error .tooLong := by
  have hl := Path.getLast?_join p h.name.noSlash h.name.plain.1
  unfold locateWrite endsInSlash
  rw [h.locate_join]
  by_cases hf : (p.join x).fits = true
  · simp only [beq_iff_eq, hl, if_false, hf, if_true, bind, Except.bind, pure, Except.pure]
  · simp only [beq_iff_eq, hl, if_false, if_neg hf, bind, Except.bind]

end Child

theorem Root.join (h : Root d p l) (hx : IsName x) (hf : (p.join x).fits = true)
    (hd : d.isDirectory (l ++ [x]) = true) : Root d (p.join x) (l ++ [x]) :=
  (h.child hx).join hf hd (h.linkFree.below (List.prefix_append _ _))

end Disk

end FileShell
