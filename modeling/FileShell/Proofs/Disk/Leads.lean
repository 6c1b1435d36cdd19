import FileShell.Proofs.Path.Names

/-!
# Where names lead

`Leads d here a c l` says that the names `a` lead from `here` to `l`, and that `c` links are
followed on the way. The walk of a disk ends at `l` exactly if the names lead there by no more
links than are allowed (`walk_eq_ok_iff`). Names lead to one place only (`Leads.unique`), and the
way along `a ++ b` is the way along `a` and then along `b` (`leads_append`).

A disk that keeps the directories and the links of another leads where that one did
(`Leads.of_keeps`). Below a place without links, names lead straight down (`Leads.eq_append`).
-/

namespace FileShell

/-- A name that is neither empty nor made of dots alone, one or two. -/
def IsPlain (s : Text) : Prop := s ≠ [] ∧ s ≠ ['.'] ∧ s ≠ ['.', '.']

instance (s : Text) : Decidable (IsPlain s) := inferInstanceAs (Decidable (_ ∧ _ ∧ _))

namespace Disk

/-- The place from which the path in a link is followed. -/
def linkBase (here : Loc) (t : Path) : Loc := if t.isAbsolute then [] else here

inductive Leads (d : Disk) : Loc → List Text → Nat → Loc → Prop
  | done {here : Loc} : Leads d here [] 0 here
  | stay {here : Loc} {s : Text} {rest : List Text} {c : Nat} {l : Loc} :
      d.isDirectory here = true → s = [] ∨ s = ['.'] → Leads d here rest c l →
      Leads d here (s :: rest) c l
  | back {here : Loc} {rest : List Text} {c : Nat} {l : Loc} :
      d.isDirectory here = true → Leads d here.dropLast rest c l →
      Leads d here (['.', '.'] :: rest) c l
  | name {here : Loc} {s : Text} {rest : List Text} {c : Nat} {l : Loc} :
      d.isDirectory here = true → IsPlain s → s.byteSize ≤ maxName →
      (∀ t, d.get? (here ++ [s]) ≠ some (.link t)) → Leads d (here ++ [s]) rest c l →
      Leads d here (s :: rest) c l
  | link {here : Loc} {s : Text} {t : Path} {rest : List Text} {c : Nat} {l : Loc} :
      d.isDirectory here = true → IsPlain s → s.byteSize ≤ maxName →
      d.get? (here ++ [s]) = some (.link t) →
      Leads d (linkBase here t) (t.steps ++ rest) c l →
      Leads d here (s :: rest) (c + 1) l

variable {d : Disk}

/-! ## The walk -/

theorem walkWith_true_cons (onLink : Loc → List Text → Except DiskError Loc) {here : Loc} {s : Text}
    {rest : List Text} (hd : d.isDirectory here = true) (hs : IsPlain s)
    (hb : s.byteSize ≤ maxName) :
    d.walkWith true onLink here (s :: rest) =
      match d.get? (here ++ [s]) with
      | some (.link t) => onLink (linkBase here t) (t.steps ++ rest)
      | _ => d.walkWith true onLink (here ++ [s]) rest := by
  have hb' : ¬ maxName < s.byteSize := by omega
  rw [walkWith, if_neg (by simp [hd]), if_neg (not_or.2 ⟨hs.1, hs.2.1⟩), if_neg hs.2.2, if_neg hb']
  rcases d.get? (here ++ [s]) with _ | i
  · rfl
  · cases i <;> rfl

/-- A walk that finds its way goes as the names lead, if the function for its links does. -/
theorem leads_of_walkWith {onLink : Loc → List Text → Except DiskError Loc} {n : Nat}
    (h : ∀ here a l, onLink here a = .ok l → ∃ c < n, Leads d here a c l) :
    ∀ (a : List Text) {here l : Loc}, d.walkWith true onLink here a = .ok l →
      ∃ c ≤ n, Leads d here a c l
  | [], here, l, hw => by
    simp only [walkWith, Except.ok.injEq] at hw
    exact ⟨0, n.zero_le, hw ▸ .done⟩
  | s :: rest, here, l, hw => by
    by_cases hd : d.isDirectory here = true
    case neg => simp [walkWith, hd] at hw
    by_cases hs : s = [] ∨ s = ['.']
    · simp only [walkWith, hd, Bool.not_true, Bool.false_eq_true, if_false, if_pos hs] at hw
      obtain ⟨c, hc, hl⟩ := leads_of_walkWith h rest hw
      exact ⟨c, hc, .stay hd hs hl⟩
    by_cases h2 : s = ['.', '.']
    · subst h2
      simp only [walkWith, hd, Bool.not_true, Bool.false_eq_true, if_false, if_neg hs,
        if_true] at hw
      obtain ⟨c, hc, hl⟩ := leads_of_walkWith h rest hw
      exact ⟨c, hc, .back hd hl⟩
    have hp : IsPlain s := ⟨fun e => hs (.inl e), fun e => hs (.inr e), h2⟩
    by_cases hb : s.byteSize ≤ maxName
    case neg =>
      simp [walkWith, hd, hs, h2, show maxName < s.byteSize by omega] at hw
    rw [walkWith_true_cons onLink hd hp hb] at hw
    split at hw
    · rename_i t ht
      obtain ⟨c, hc, hl⟩ := h _ _ _ hw
      exact ⟨c + 1, hc, .link hd hp hb ht hl⟩
    · rename_i hn
      obtain ⟨c, hc, hl⟩ := leads_of_walkWith h rest hw
      exact ⟨c, hc, .name hd hp hb hn hl⟩

theorem leads_of_walk : ∀ (n : Nat) {a : List Text} {here l : Loc},
    d.walk true n here a = .ok l → ∃ c ≤ n, Leads d here a c l
  | 0, a, _, _, h => leads_of_walkWith (fun _ _ _ h => by simp at h) a h
  | n + 1, a, _, _, h => leads_of_walkWith (fun _ _ _ h => by
      obtain ⟨c, hc, hl⟩ := leads_of_walk n h
      exact ⟨c, by omega, hl⟩) a h

theorem Leads.walk {here l : Loc} {a : List Text} {c : Nat} (h : Leads d here a c l) :
    ∀ n, c ≤ n → d.walk true n here a = .ok l := by
  induction h with
  | done => intro n _; cases n <;> rfl
  | stay hd hs _ ih =>
    intro n hn
    rw [← ih n hn]
    cases n <;> simp only [Disk.walk, walkWith, hd, Bool.not_true, Bool.false_eq_true, if_false,
      if_pos hs]
  | back hd _ ih =>
    intro n hn
    rw [← ih n hn]
    cases n <;> simp [Disk.walk, walkWith, hd]
  | name hd hp hb hl _ ih =>
    intro n hn
    rw [← ih n hn]
    cases n <;> simp only [Disk.walk] <;> rw [walkWith_true_cons _ hd hp hb] <;> split
    · exact absurd ‹_› (hl _)
    · rfl
    · exact absurd ‹_› (hl _)
    · rfl
  | link hd hp hb hl _ ih =>
    intro n hn
    obtain ⟨n, rfl⟩ : ∃ m, n = m + 1 := ⟨n - 1, by omega⟩
    rw [← ih n (by omega)]
    simp only [Disk.walk]
    rw [walkWith_true_cons _ hd hp hb, hl]

theorem walk_eq_ok_iff {here l : Loc} {a : List Text} {n : Nat} :
    d.walk true n here a = .ok l ↔ ∃ c ≤ n, Leads d here a c l :=
  ⟨leads_of_walk n, fun ⟨_, hc, h⟩ => h.walk n hc⟩

theorem checkPath_eq_ok_iff {p : Path} :
    checkPath p = .ok () ↔ p ≠ [] ∧ '\x00' ∉ p ∧ p.byteSize ≤ maxPath := by
  unfold checkPath
  split_ifs with h1 h2 h3
  · simp_all
  · simp_all
  · simp; omega
  · simp_all

theorem locate_eq_ok_iff {p : Path} {l : Loc} :
    d.locate true p = .ok l ↔
      checkPath p = .ok () ∧ ∃ c ≤ maxLinks, Leads d [] p.steps c l := by
  rw [← walk_eq_ok_iff]
  unfold locate
  rcases checkPath p with e | ⟨⟩
  · simp [bind, Except.bind]
  · simp [bind, Except.bind]

/-! ## Ways -/

theorem Leads.append {here m l : Loc} {a b : List Text} {c₁ c₂ : Nat} (h : Leads d here a c₁ m)
    (h' : Leads d m b c₂ l) : Leads d here (a ++ b) (c₁ + c₂) l := by
  induction h with
  | done => simpa using h'
  | stay hd hs _ ih => exact .stay hd hs (ih h')
  | back hd _ ih => exact .back hd (ih h')
  | name hd hp hb hl _ ih => exact .name hd hp hb hl (ih h')
  | link hd hp hb hl _ ih =>
    rw [Nat.add_right_comm]
    exact .link hd hp hb hl (by simpa using ih h')

theorem Leads.split {here l : Loc} {ab : List Text} {c : Nat} (h : Leads d here ab c l) :
    ∀ a b, ab = a ++ b → ∃ c₁ c₂ m, c = c₁ + c₂ ∧ Leads d here a c₁ m ∧ Leads d m b c₂ l := by
  induction h with
  | done =>
    intro a b h
    obtain ⟨rfl, rfl⟩ := List.append_eq_nil_iff.1 h.symm
    exact ⟨0, 0, _, rfl, .done, .done⟩
  | @stay here s rest c l hd hs hl ih =>
    rintro (_ | ⟨s', a⟩) b h
    · refine ⟨0, c, here, (Nat.zero_add _).symm, .done, ?_⟩
      rw [← show _ = b from h]
      exact .stay hd hs hl
    · obtain ⟨rfl, rfl⟩ : s = s' ∧ rest = a ++ b := by simpa using h
      obtain ⟨c₁, c₂, m, rfl, h₁, h₂⟩ := ih a b rfl
      exact ⟨c₁, c₂, m, rfl, .stay hd hs h₁, h₂⟩
  | @back here rest c l hd hl ih =>
    rintro (_ | ⟨s', a⟩) b h
    · refine ⟨0, c, here, (Nat.zero_add _).symm, .done, ?_⟩
      rw [← show _ = b from h]
      exact .back hd hl
    · obtain ⟨rfl, rfl⟩ : ['.', '.'] = s' ∧ rest = a ++ b := by simpa using h
      obtain ⟨c₁, c₂, m, rfl, h₁, h₂⟩ := ih a b rfl
      exact ⟨c₁, c₂, m, rfl, .back hd h₁, h₂⟩
  | @name here s rest c l hd hp hb hn hl ih =>
    rintro (_ | ⟨s', a⟩) b h
    · exact ⟨0, c, here, (Nat.zero_add _).symm, .done,
        by rw [← show _ = b from h]; exact .name hd hp hb hn hl⟩
    · obtain ⟨rfl, rfl⟩ : s = s' ∧ rest = a ++ b := by simpa using h
      obtain ⟨c₁, c₂, m, rfl, h₁, h₂⟩ := ih a b rfl
      exact ⟨c₁, c₂, m, rfl, .name hd hp hb hn h₁, h₂⟩
  | @link here s t rest c l hd hp hb hn hl ih =>
    rintro (_ | ⟨s', a⟩) b h
    · exact ⟨0, c + 1, here, (Nat.zero_add _).symm, .done,
        by rw [← show _ = b from h]; exact .link hd hp hb hn hl⟩
    · obtain ⟨rfl, rfl⟩ : s = s' ∧ rest = a ++ b := by simpa using h
      obtain ⟨c₁, c₂, m, rfl, h₁, h₂⟩ := ih (t.steps ++ a) b (List.append_assoc ..).symm
      exact ⟨c₁ + 1, c₂, m, by omega, .link hd hp hb hn h₁, h₂⟩

theorem leads_append {here l : Loc} {a b : List Text} {c : Nat} :
    Leads d here (a ++ b) c l ↔
      ∃ c₁ c₂ m, c = c₁ + c₂ ∧ Leads d here a c₁ m ∧ Leads d m b c₂ l :=
  ⟨fun h => h.split a b rfl, fun ⟨_, _, _, hc, h₁, h₂⟩ => hc ▸ h₁.append h₂⟩

theorem not_isPlain {s : Text} (h : s = [] ∨ s = ['.']) : ¬ IsPlain s := by
  rintro ⟨h1, h2, -⟩
  exact h.elim h1 h2

theorem Leads.unique {here l l' : Loc} {a : List Text} {c c' : Nat} (h : Leads d here a c l)
    (h' : Leads d here a c' l') : c = c' ∧ l = l' := by
  induction h generalizing c' l' with
  | done => cases h'; exact ⟨rfl, rfl⟩
  | stay hd hs _ ih =>
    cases h' with
    | stay _ _ h' => exact ih h'
    | back _ _ => simp at hs
    | name _ hp _ _ _ => exact absurd hp (not_isPlain hs)
    | link _ hp _ _ _ => exact absurd hp (not_isPlain hs)
  | back hd _ ih =>
    cases h' with
    | stay _ hs _ => simp at hs
    | back _ h' => exact ih h'
    | name _ hp _ _ _ => exact absurd rfl hp.2.2
    | link _ hp _ _ _ => exact absurd rfl hp.2.2
  | name hd hp hb hn _ ih =>
    cases h' with
    | stay _ hs _ => exact absurd hp (not_isPlain hs)
    | back _ _ => exact absurd rfl hp.2.2
    | name _ _ _ _ h' => exact ih h'
    | link _ _ _ hl _ => exact absurd hl (hn _)
  | link hd hp hb hl _ ih =>
    cases h' with
    | stay _ hs _ => exact absurd hp (not_isPlain hs)
    | back _ _ => exact absurd rfl hp.2.2
    | name _ _ _ hn _ => exact absurd hl (hn _)
    | link _ _ _ hl' h' =>
      obtain rfl : _ = _ := by simpa [hl] using hl'
      obtain ⟨rfl, rfl⟩ := ih h'
      exact ⟨rfl, rfl⟩

/-- Every name that is followed is short enough for a disk. -/
theorem Leads.byteSize_le {here l : Loc} {a : List Text} {c : Nat} (h : Leads d here a c l)
    {x : Text} (hx : x ∈ a) (hp : IsPlain x) : x.byteSize ≤ maxName := by
  induction h with
  | done => simp at hx
  | stay _ hs _ ih =>
    rcases List.mem_cons.1 hx with rfl | hx
    · exact absurd hp (not_isPlain hs)
    · exact ih hx
  | back _ _ ih =>
    rcases List.mem_cons.1 hx with rfl | hx
    · exact absurd rfl hp.2.2
    · exact ih hx
  | name _ _ hb _ _ ih =>
    rcases List.mem_cons.1 hx with rfl | hx
    · exact hb
    · exact ih hx
  | link _ _ hb _ _ ih =>
    rcases List.mem_cons.1 hx with rfl | hx
    · exact hb
    · exact ih (List.mem_append_right _ hx)

/-- A slash at the end of a path asks for a directory and leads no further. -/
theorem leads_steps {here l : Loc} {p : Path} {c : Nat} (h : Leads d here p.steps c l) :
    Leads d here p.names c l := by
  unfold Path.steps at h
  split at h
  · obtain ⟨c₁, c₂, m, rfl, h₁, h₂⟩ := leads_append.1 h
    cases h₂ with
    | stay _ _ h₂ => cases h₂; exact h₁
    | name _ hp _ _ _ => exact absurd rfl hp.1
    | link _ hp _ _ _ => exact absurd rfl hp.1
  · simpa using h

theorem Leads.steps {here l : Loc} {p : Path} {c : Nat} (h : Leads d here p.names c l)
    (hd : d.isDirectory l = true ∨ p.getLast? ≠ some '/') : Leads d here p.steps c l := by
  unfold Path.steps
  split
  · rename_i hp
    have hd : d.isDirectory l = true := hd.resolve_right (by simpa using hp)
    simpa using h.append (.stay hd (.inl rfl) .done)
  · simpa using h

/-! ## Disks that keep their directories and links -/

/-- What leads somewhere on the first disk does so on the second. -/
structure Keeps (d d' : Disk) : Prop where
  directory : ∀ {l}, d.isDirectory l = true → d'.isDirectory l = true
  link : ∀ {l t}, d'.get? l = some (.link t) ↔ d.get? l = some (.link t)

theorem Keeps.refl (d : Disk) : Keeps d d := ⟨id, Iff.rfl⟩

theorem Keeps.trans {d' d'' : Disk} (h : Keeps d d') (h' : Keeps d' d'') : Keeps d d'' where
  directory := h'.directory ∘ h.directory
  link := h'.link.trans h.link

theorem Leads.of_keeps {d' : Disk} (hk : Keeps d d') {here l : Loc} {a : List Text} {c : Nat}
    (h : Leads d here a c l) : Leads d' here a c l := by
  induction h with
  | done => exact .done
  | stay hd hs _ ih => exact .stay (hk.directory hd) hs ih
  | back hd _ ih => exact .back (hk.directory hd) ih
  | name hd hp hb hn _ ih =>
    exact .name (hk.directory hd) hp hb (fun t ht => hn t (hk.link.1 ht)) ih
  | link hd hp hb hl _ ih => exact .link (hk.directory hd) hp hb (hk.link.2 hl) ih

/-! ## Below a place without links -/

/-- No link stands at the place or below it. -/
def LinkFree (d : Disk) (l : Loc) : Prop := ∀ k t, l <+: k → d.get? k ≠ some (.link t)

theorem LinkFree.below {l k : Loc} (h : LinkFree d l) (hk : l <+: k) : LinkFree d k :=
  fun m t hm => h m t (hk.trans hm)

theorem LinkFree.of_keeps {d' : Disk} (hk : Keeps d d') {l : Loc} (h : LinkFree d l) :
    LinkFree d' l := fun k t hl ht => h k t hl (hk.link.1 ht)

theorem mem_items_of_get? {k : Loc} {i : Item} (h : d.get? k = some i) (hk : k ≠ []) :
    (k, i) ∈ d.items := by
  obtain ⟨n, r, rfl⟩ := List.exists_cons_of_ne_nil hk
  obtain ⟨a, b, hi, -⟩ := List.lookup_eq_some_iff.1 (show d.items.lookup (n :: r) = some i from h)
  rw [hi]
  simp

theorem get?_ne_of_items {i : Item} (hi : i ≠ .directory) (h : ∀ e ∈ d.items, e.2 ≠ i) (k : Loc) :
    d.get? k ≠ some i := by
  intro hk
  by_cases hn : k = []
  · subst hn
    exact hi (Option.some.inj hk).symm
  · exact h _ (mem_items_of_get? hk hn) rfl

theorem get?_ne_link_of_items (h : ∀ e ∈ d.items, ∀ t, e.2 ≠ .link t) (k : Loc) (t : Path) :
    d.get? k ≠ some (.link t) :=
  get?_ne_of_items (by simp) (fun e he => h e he t) k

/-- Names without double dots lead straight down from a place without links. -/
theorem Leads.eq_append {here l : Loc} {a : List Text} {c : Nat} (h : Leads d here a c l)
    (hf : LinkFree d here) (ha : ['.', '.'] ∉ a) : c = 0 ∧ l = here ++ a.filter (IsPlain ·) := by
  induction h with
  | done => simp
  | stay _ hs _ ih =>
    simpa [not_isPlain hs] using ih hf fun h => ha (List.mem_cons_of_mem _ h)
  | back _ _ _ => exact absurd List.mem_cons_self ha
  | name _ hp _ _ _ ih =>
    simpa [hp] using ih (hf.below (List.prefix_append _ _)) fun h => ha (List.mem_cons_of_mem _ h)
  | link _ _ _ hl _ _ => exact absurd hl (hf _ _ (List.prefix_append _ _))

end Disk

end FileShell
