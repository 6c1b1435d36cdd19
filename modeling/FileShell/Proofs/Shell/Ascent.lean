import FileShell.Proofs.Shell.Entering

/-!
# Going up

The parent of an absolute path has all names of the path but the last (`parent_above`), so every
`cd ..` takes one name off (`outcome_up`), until the directory is the root spelled with one slash.
If two slashes begin the path they stay to the end, and then the path of slashes alone has a parent,
the one slash. So there is one more step to the root than there are names if two slashes begin the
path, and otherwise there are as many (`Path.height`). A session goes up that often, and no further
(`ascends_to_root`).
-/

namespace FileShell

namespace Path

variable {p q : Path}

/-- How many steps the path is below the root that is spelled with one slash. -/
def height (p : Path) : Nat := (names p).length + if ['/', '/'] <+: p then 1 else 0

/-- That many steps up, or at the root if there are fewer. -/
structure IsAbove (k : Nat) (q p : Path) : Prop where
  isAbsolute : q.isAbsolute = true
  names : q.names = p.names.take (p.names.length - k)
  height : q.height = p.height - k

theorem IsAbove.trans {j k : Nat} {r : Path} (h : q.IsAbove j p) (h' : r.IsAbove k q) :
    r.IsAbove (k + j) p where
  isAbsolute := h'.isAbsolute
  names := by
    rw [h'.names, h.names, List.length_take, List.take_take]
    congr 1
    omega
  height := by
    rw [h'.height, h.height]
    omega

theorem isAbsolute_of_isPrefix (h : q <+: p) (hq : q ≠ []) (hp : p.isAbsolute = true) :
    q.isAbsolute = true := by
  obtain ⟨c, q, rfl⟩ := List.exists_cons_of_ne_nil hq
  obtain ⟨r, rfl⟩ := h
  simpa [isAbsolute] using hp

theorem trimEnd_isPrefix (p : Path) : Text.trimEnd (· == '/') p <+: p := by
  obtain ⟨z, hz, -⟩ := Text.exists_trimEnd (· == '/') p
  exact ⟨z, hz.symm⟩

theorem getLast?_trimEnd (p : Path) : (Text.trimEnd (· == '/') p).getLast? ≠ some '/' := by
  rw [Text.trimEnd, List.getLast?_reverse]
  intro h
  have hnot := List.head?_dropWhile_not (· == '/') p.reverse
  simp [h] at hnot

/-- A path with slashes at its end taken off ends in its last name, if there is one. -/
theorem exists_trimEnd_eq (hp : p.isAbsolute = true) (hn : Text.trimEnd (· == '/') p ≠ []) :
    ∃ f x : Path, Text.trimEnd (· == '/') p = f ++ x ∧ '/' ∉ x ∧ x ≠ [] ∧
      f.getLast? = some '/' := by
  obtain ⟨f, hf, hx, hlast⟩ := exists_baseName_eq (Text.trimEnd (· == '/') p)
  refine ⟨f, _, hf, hx, fun he => ?_, hlast.resolve_left fun he => ?_⟩
  · rw [he, List.append_nil] at hf
    rw [← hf] at hlast
    exact hlast.elim hn (getLast?_trimEnd p)
  · have habs := isAbsolute_of_isPrefix (trimEnd_isPrefix p) hn hp
    rw [hf, he, List.nil_append, isAbsolute_of_not_mem hx] at habs
    cases habs

theorem names_append_name {f x : Path} (hx : '/' ∉ x) (hne : x ≠ []) (hf : f.getLast? = some '/') :
    names (f ++ x) = names f ++ [x] := by
  have hbase : baseName (f ++ x) = x := baseName_append hx (.inr hf)
  have hnames := names_parent (p := f ++ x) (by rwa [hbase])
  rwa [names_parent_append hx (.inr hf), hbase] at hnames

theorem trimEnd_eq_nil_iff (hp : p.isAbsolute = true) :
    Text.trimEnd (· == '/') p = [] ↔ names p = [] := by
  rw [← names_trimEnd p]
  refine ⟨fun h => h ▸ names_nil, fun h => ?_⟩
  by_contra hn
  obtain ⟨f, x, ht, hx, hne, hf⟩ := exists_trimEnd_eq hp hn
  rw [ht, names_append_name hx hne hf] at h
  simp at h

theorem parent_isPrefix {f x : Path} (hx : '/' ∉ x) (hf : f.getLast? = some '/') :
    parent (f ++ x) <+: f ∧ parent (f ++ x) ≠ [] := by
  rw [parent_append hx (.inr hf)]
  split_ifs with hall
  · exact ⟨List.prefix_rfl, fun he => by simp [he] at hf⟩
  · refine ⟨trimEnd_isPrefix f, fun he => hall (List.all_eq_true.2 fun c hc => ?_)⟩
    have hdrop := List.dropWhile_eq_nil_iff.1 (List.reverse_eq_nil_iff.1 he)
    exact hdrop c (List.mem_reverse.2 hc)

/-- Two slashes at the front stay there. -/
theorem slashes_parent {f x : Path} (hx : '/' ∉ x) (hne : x ≠ []) (hf : f.getLast? = some '/') :
    ['/', '/'] <+: parent (f ++ x) ↔ ['/', '/'] <+: f ++ x := by
  obtain ⟨c, x, rfl⟩ := List.exists_cons_of_ne_nil hne
  have hc : '/' ≠ c := fun e => hx (e ▸ List.mem_cons_self)
  rw [parent_append hx (.inr hf)]
  -- two characters in front decide; if there is one only, what follows it is no slash
  split_ifs with hall
  · rcases f with _ | ⟨a, _ | ⟨b, f⟩⟩
    · simp at hf
    · simp [hc]
    · simp
  · obtain ⟨z, hz, hslash⟩ := Text.exists_trimEnd (· == '/') f
    have hlast := getLast?_trimEnd f
    generalize Text.trimEnd (· == '/') f = g at hz hlast ⊢
    rw [hz]
    rcases g with _ | ⟨a, _ | ⟨b, g⟩⟩
    · exact absurd (List.all_eq_true.2 fun c hc => hslash c (by simpa [hz] using hc)) hall
    · have ha : '/' ≠ a := fun e => hlast (by rw [e]; rfl)
      simp [ha]
    · simp

/-- The parent, once slashes at the end are taken off, is one step up. -/
theorem parent_above (hp : p.isAbsolute = true) (hn : names p ≠ []) :
    (parent (Text.trimEnd (· == '/') p)).IsAbove 1 p := by
  obtain ⟨f, x, ht, hx, hne, hf⟩ := exists_trimEnd_eq hp (mt (trimEnd_eq_nil_iff hp).1 hn)
  have hnames : names p = names f ++ [x] := by
    rw [← names_trimEnd p, ht, names_append_name hx hne hf]
  have htrim : f ++ x <+: p := ht ▸ trimEnd_isPrefix p
  have hlen : 2 ≤ (f ++ x).length := by
    have hf' : f ≠ [] := fun e => by simp [e] at hf
    have := List.length_pos_of_ne_nil hf'
    have := List.length_pos_of_ne_nil hne
    rw [List.length_append]
    omega
  have hslashes : ['/', '/'] <+: parent (f ++ x) ↔ ['/', '/'] <+: p := by
    rw [slashes_parent hx hne hf]
    exact ⟨fun h => h.trans htrim, fun h => List.prefix_of_prefix_length_le h htrim hlen⟩
  obtain ⟨hpre, hnil⟩ := parent_isPrefix hx hf
  have hup : parent (f ++ x) <+: p := hpre.trans ((List.prefix_append f x).trans htrim)
  rw [ht]
  refine ⟨isAbsolute_of_isPrefix hup hnil hp, ?_, ?_⟩
  · rw [names_parent_append hx (.inr hf), hnames]
    simp
  · simp only [height, names_parent_append hx (.inr hf), hnames, hslashes, List.length_append,
      List.length_singleton]
    omega

/-- A path without a name is the root, with as many slashes as it is spelled with. -/
theorem eq_root_or_slashes (hp : p.isAbsolute = true) (hn : names p = []) :
    p = ['/'] ∨ ['/', '/'] <+: p := by
  obtain ⟨z, hz, hslash⟩ := Text.exists_trimEnd (· == '/') p
  rw [(trimEnd_eq_nil_iff hp).2 hn, List.nil_append] at hz
  subst hz
  rcases p with _ | ⟨a, _ | ⟨b, p⟩⟩
  · cases hp
  · left
    simpa using hslash
  · right
    have ha : a = '/' := by simpa using hslash a List.mem_cons_self
    have hb : b = '/' := by simpa using hslash b (by simp)
    simp [ha, hb]

theorem height_eq_zero_iff (hp : p.isAbsolute = true) : height p = 0 ↔ p = ['/'] := by
  constructor
  · intro h
    unfold height at h
    split_ifs at h with hs
    have hn : names p = [] := List.eq_nil_of_length_eq_zero h
    exact (eq_root_or_slashes hp hn).resolve_right hs
  · rintro rfl
    decide

end Path

namespace Session

variable {session : Session}

theorem parent?_of_names (h : session.directory.isAbsolute = true)
    (hn : session.directory.names ≠ []) :
    session.parent? = some (Path.parent (Text.trimEnd (· == '/') session.directory)) := by
  have habove := Path.parent_above h hn
  have htrim : (Text.trimEnd (· == '/') session.directory).isEmpty = false := by
    simpa using mt (Path.trimEnd_eq_nil_iff h).1 hn
  unfold parent?
  simp only [htrim, Bool.false_eq_true, if_false]
  generalize Path.parent (Text.trimEnd (· == '/') session.directory) = q at habove ⊢
  rw [if_neg]
  rw [Bool.or_eq_true, not_or, beq_iff_eq]
  constructor
  · intro he
    rw [List.isEmpty_iff.1 he] at habove
    exact absurd habove.isAbsolute (by decide)
  · rintro rfl
    have hlen := congrArg List.length habove.names
    have := List.length_pos_of_ne_nil hn
    rw [List.length_take] at hlen
    omega

theorem parent?_of_slashes (h : session.directory.isAbsolute = true)
    (hn : session.directory.names = []) :
    session.parent? = if session.directory = ['/'] then none else some ['/'] := by
  have hroot : Path.parent ['/'] = ['/'] := by decide
  unfold parent?
  rw [(Path.trimEnd_eq_nil_iff h).2 hn]
  by_cases hd : session.directory = ['/']
  · simp [hroot, hd]
  · simp [hroot, hd, Ne.symm hd]

/-- The parent is one step up. There is none at the root that is spelled with one slash. -/
theorem parent?_cases (h : session.directory.isAbsolute = true) :
    (session.parent? = none ∧ session.directory = ['/']) ∨
      ∃ q, session.parent? = some q ∧ session.directory ≠ ['/'] ∧
        q.IsAbove 1 session.directory := by
  by_cases hn : session.directory.names = []
  · have hparent := parent?_of_slashes h hn
    split_ifs at hparent with hroot
    · exact .inl ⟨hparent, hroot⟩
    · refine .inr ⟨['/'], hparent, hroot, rfl, by rw [hn]; rfl, ?_⟩
      have hslashes := (Path.eq_root_or_slashes h hn).resolve_left hroot
      rw [(Path.height_eq_zero_iff rfl).2 rfl, Path.height, hn, if_pos hslashes]
      rfl
  · exact .inr ⟨_, parent?_of_names h hn, fun he => hn (he ▸ rfl), Path.parent_above h hn⟩

end Session

/-! ## Lines -/

section

variable {s : Storage} {d : Disk} {session : Session} {q : Path}

/-- What is shown where a directory of that height is left for its parent. -/
def shownUp (height : Nat) : Text :=
  if 0 < height then [] else "Error: Already at root directory\n".toList

theorem outcome_up_of_parent (h : session.parent? = some q) :
    outcome s "cd ..".toList session d = ⟨[], session.goTo q, d, none⟩ := by
  have hcd : outcome s ("cd ".toList ++ ['.', '.']) session d = _ := outcome_cd (by decide)
  rw [Handler.run_attempt (Handler.route_cd _)] at hcd
  simp only [Handler.cd, h] at hcd
  exact hcd

/-- What one `cd ..` gives in an absolute directory. -/
theorem outcome_up (h : session.directory.isAbsolute = true) :
    ∃ q, outcome s "cd ..".toList session d =
        ⟨shownUp session.directory.height, session.goTo q, d, none⟩ ∧
      q.IsAbove 1 session.directory := by
  rcases session.parent?_cases h with ⟨hparent, hroot⟩ | ⟨q, hparent, hroot, habove⟩
  · refine ⟨session.directory, ?_, h, ?_, ?_⟩
    · rw [cd_at_root hparent, (Path.height_eq_zero_iff h).2 hroot, Session.goTo]
      rfl
    · rw [hroot]
      rfl
    · rw [(Path.height_eq_zero_iff h).2 hroot]
  · refine ⟨q, ?_, habove⟩
    have hpos := Nat.pos_of_ne_zero (mt (Path.height_eq_zero_iff h).1 hroot)
    rw [outcome_up_of_parent hparent, shownUp, if_pos hpos]

/-- What each line gives where `cd ..` is typed over and over: the first one is one step up, and the
others start from there. -/
theorem outcomes_up : ∀ (n i : Nat) (session : Session), session.directory.isAbsolute = true →
    i < n → ∃ q, (outcomes s (List.replicate n "cd ..".toList) session d)[i]? =
        some ⟨shownUp (session.directory.height - i), session.goTo q, d, none⟩ ∧
      q.IsAbove (i + 1) session.directory
  | 0, i, _, _, hi => absurd hi (Nat.not_lt_zero i)
  | n + 1, 0, session, h, _ => by
    obtain ⟨q, hout, habove⟩ := outcome_up (s := s) (d := d) h
    refine ⟨q, ?_, habove⟩
    rw [List.replicate_succ, outcomes, List.getElem?_cons_zero, hout, Nat.sub_zero]
  | n + 1, i + 1, session, h, hi => by
    obtain ⟨q, hout, habove⟩ := outcome_up (s := s) (d := d) h
    obtain ⟨r, hrest, habove'⟩ :=
      outcomes_up n i (session.goTo q) habove.isAbsolute (Nat.lt_of_succ_lt_succ hi)
    refine ⟨r, ?_, habove.trans habove'⟩
    rw [List.replicate_succ, outcomes, List.getElem?_cons_succ, hout, hrest, Session.goTo,
      habove.height, Nat.sub_sub, Nat.add_comm 1 i]
    rfl

/-- Going up takes one name off at a time. There is no parent exactly where no name is left and no
two slashes begin the directory. Typed over and over in an absolute directory, `cd ..` shows nothing
as many times as the directory is high, its names and one more for two slashes at the front. Then it
is at the root, stays there and says so. -/
theorem ascends_to_root (s : Storage) (d : Disk) {session : Session}
    (h : session.directory.isAbsolute = true) :
    (session.parent? = none ↔
        session.directory.names = [] ∧ ¬ ['/', '/'] <+: session.directory) ∧
      (∀ q, session.parent? = some q →
        q.isAbsolute = true ∧ q.names = session.directory.names.dropLast) ∧
      ∀ n i, i < n → ∃ q, (outcomes s (List.replicate n "cd ..".toList) session d)[i]? =
          some ⟨if i < session.directory.height then []
            else "Error: Already at root directory\n".toList, session.goTo q, d, none⟩ ∧
        q.isAbsolute = true ∧
        q.names = session.directory.names.take (session.directory.names.length - (i + 1)) ∧
        (q = ['/'] ↔ session.directory.height ≤ i + 1) := by
  have hzero : session.directory = ['/'] ↔
      session.directory.names = [] ∧ ¬ ['/', '/'] <+: session.directory := by
    rw [← Path.height_eq_zero_iff h]
    simp [Path.height]
  refine ⟨?_, fun q hq => ?_, fun n i hi => ?_⟩
  · rw [← hzero]
    rcases session.parent?_cases h with ⟨hparent, hroot⟩ | ⟨q, hparent, hroot, -⟩
    · simp only [hparent, hroot]
    · simp only [hparent, hroot, reduceCtorEq]
  · rcases session.parent?_cases h with ⟨hparent, -⟩ | ⟨r, hparent, -, habove⟩
    · rw [hparent] at hq
      cases hq
    · obtain rfl : r = q := Option.some.inj (hparent.symm.trans hq)
      exact ⟨habove.isAbsolute, habove.names.trans List.dropLast_eq_take.symm⟩
  · obtain ⟨q, hout, habove⟩ := outcomes_up (s := s) (d := d) n i session h hi
    refine ⟨q, ?_, habove.isAbsolute, habove.names, ?_⟩
    · simp only [hout, shownUp, Nat.sub_pos_iff_lt]
    · rw [← Path.height_eq_zero_iff habove.isAbsolute, habove.height, Nat.sub_eq_zero_iff_le]

end

/-- From two names down and two slashes at the front it takes three steps to the root. -/
theorem ascends_to_root_attic :
    let session : Session := ⟨"//a//b/".toList, "/".toList, true⟩
    let os := outcomes { chunk := 512 } (List.replicate 4 "cd ..".toList) session ⟨[]⟩
    session.directory.isAbsolute = true ∧
      session.parent? = some "//a".toList ∧
      (∀ i, i < 4 → ∃ q, os[i]? = some ⟨if i < 3 then []
          else "Error: Already at root directory\n".toList, session.goTo q, ⟨[]⟩, none⟩ ∧
        (q = ['/'] ↔ 3 ≤ i + 1)) ∧
      os.map (fun o => (o.shown, o.session.directory)) =
        [([], "//a".toList), ([], "//".toList), ([], "/".toList),
          ("Error: Already at root directory\n".toList, "/".toList)] := by
  intro session os
  have habs : session.directory.isAbsolute = true := by decide
  have hheight : session.directory.height = 3 := by decide +kernel
  obtain ⟨-, -, hup⟩ := ascends_to_root { chunk := 512 } ⟨[]⟩ habs
  rw [hheight] at hup
  refine ⟨habs, by decide +kernel, fun i hi => ?_, by decide +kernel⟩
  obtain ⟨q, hout, -, -, hroot⟩ := hup 4 i hi
  exact ⟨q, hout, hroot⟩

/-- Two slashes are the root and have no name, but they have a parent, and `cd ..` goes there. -/
theorem double_root :
    let session : Session := ⟨"//".toList, "/".toList, true⟩
    session.directory.isAbsolute = true ∧ session.directory.names = [] ∧
      session.parent? = some "/".toList ∧
      outcome { chunk := 512 } "cd ..".toList session ⟨[]⟩ =
        ⟨[], session.goTo "/".toList, ⟨[]⟩, none⟩ := by
  decide +kernel

end FileShell
