import FileShell.Proofs.Disk.Places
import FileShell.Disk.Real

/-!
# Real paths of places

The lenient real path of a path spells out the place that the path leads to (`At.realPath`), if each
link can be looked up by its own path. A link that is being followed is never met again on a way
that leads somewhere, since the way behind it would be a part of itself (`Leads.trace`); and there
are never more such links than the way takes. So two paths have one real path exactly if they lead
to one place (`samePath_eq`).
-/

namespace FileShell

namespace Disk

variable {d : Disk} {p q : Path} {here l k : Loc} {a rest : List Text} {s : Text} {c n : Nat}
  {strict : Bool}

/-- No path that a link holds has a null character in it. -/
def LinksClean (d : Disk) : Prop := ∀ k t, d.get? k = some (.link t) → '\x00' ∉ t

/-- Every link has a path that it can be looked up by. -/
def LinksFit (d : Disk) : Prop := ∀ k t, d.get? k = some (.link t) → (Loc.path k).byteSize ≤ maxPath

theorem LinksFit.of_keeps {d' : Disk} (h : LinksFit d) (hk : Keeps d d') : LinksFit d' :=
  fun k t ht => h k t (hk.link.1 ht)

/-! ## Following pieces -/

/-- Empty pieces do not count on the way to a place. -/
theorem traceWith_filter (onLink : Loc → Loc → Path → Except DiskError Trace) :
    ∀ (a : List Text) (here : Loc),
      d.traceWith strict onLink here (a.filter (!·.isEmpty)) = .ok (.reached l) ↔
        d.traceWith strict onLink here a = .ok (.reached l)
  | [], _ => Iff.rfl
  | s :: rest, here => by
    have ih := traceWith_filter onLink rest
    by_cases hs : s = []
    · subst hs
      rw [List.filter_cons_of_neg (by simp), traceWith, if_pos (Or.inl rfl)]
      exact ih here
    rw [List.filter_cons_of_pos (by simpa using hs)]
    unfold traceWith
    split_ifs
    · exact ih _
    · exact ih _
    · exact Iff.rfl
    · exact Iff.rfl
    · exact ih _
    all_goals
      split
      · split
        · exact Iff.rfl
        -- what is left of the path is put behind the link it is stuck at
        · simp
        · exact ih _
      · exact ih _
      · first | exact ih _ | exact Iff.rfl

theorem trace_filter {active : List Loc} :
    d.trace strict n active here (a.filter (!·.isEmpty)) = .ok (.reached l) ↔
      d.trace strict n active here a = .ok (.reached l) := by
  cases n <;> exact traceWith_filter _ a _

theorem traceWith_name (onLink : Loc → Loc → Path → Except DiskError Trace) (hs : IsPlain s)
    (h0 : '\x00' ∉ s) (hn : ∀ t, d.get? (here ++ [s]) ≠ some (.link t)) :
    d.traceWith false onLink here (s :: rest) = d.traceWith false onLink (here ++ [s]) rest := by
  rw [traceWith, if_neg (not_or.2 ⟨hs.1, hs.2.1⟩), if_neg hs.2.2, if_neg (by simpa using h0)]
  split
  · rfl
  split
  · exact absurd ‹_› (hn _)
  · rfl
  · rfl

theorem trace_link {active : List Loc} {t : Path} (hfit : LinksFit d) (hs : IsPlain s)
    (h0 : '\x00' ∉ s) (ht : d.get? (here ++ [s]) = some (.link t)) (hk : here ++ [s] ∉ active)
    (h : d.trace false n ((here ++ [s]) :: active) (linkBase here t) (Text.split (· == '/') t) =
      .ok (.reached l)) :
    d.trace false (n + 1) active here (s :: rest) = d.trace false (n + 1) active l rest := by
  simp only [linkBase] at h
  simp only [trace]
  rw [traceWith, if_neg (not_or.2 ⟨hs.1, hs.2.1⟩), if_neg hs.2.2, if_neg (by simpa using h0),
    if_neg (not_lt.2 (hfit _ _ ht)), ht]
  simp only [List.contains_iff_mem, hk, if_false, h]

/-! ## Following a way -/

/-- The links being followed: each holds a path that takes at least `c` links to follow. -/
structure Following (d : Disk) (active : List Loc) (c : Nat) : Prop where
  nodup : active.Nodup
  link : ∀ k ∈ active, ∃ here s t, k = here ++ [s] ∧ d.get? k = some (.link t) ∧
    ∃ c' ≥ c, ∃ l, Leads d (linkBase here t) t.names c' l

theorem Following.mono {active : List Loc} {c' : Nat} (h : Following d active c) (hc : c' ≤ c) :
    Following d active c' where
  nodup := h.nodup
  link k hk := by
    obtain ⟨here, s, t, hk, ht, c₁, hc₁, hl⟩ := h.link k hk
    exact ⟨here, s, t, hk, ht, c₁, hc.trans hc₁, hl⟩

/-- A link whose path takes fewer links to follow is not one of those being followed. -/
theorem Following.not_mem {active : List Loc} {t : Path} (h : Following d active c)
    (ht : d.get? (here ++ [s]) = some (.link t)) {c' : Nat} (hc : c' < c)
    (hl : Leads d (linkBase here t) t.names c' l) : here ++ [s] ∉ active := by
  intro hk
  obtain ⟨here', s', t', hk', ht', c₁, hc₁, m, hm⟩ := h.link _ hk
  obtain ⟨rfl, -⟩ := List.append_inj' hk' rfl
  obtain rfl : t = t' := by simpa [ht] using ht'
  have := (hl.unique hm).1
  omega

theorem Following.cons {active : List Loc} {t : Path} (h : Following d active c)
    (ht : d.get? (here ++ [s]) = some (.link t)) {c' : Nat} (hc : c' < c)
    (hl : Leads d (linkBase here t) t.names c' l) : Following d ((here ++ [s]) :: active) c' where
  nodup := List.nodup_cons.2 ⟨h.not_mem ht hc hl, h.nodup⟩
  link k hk := by
    rcases List.mem_cons.1 hk with rfl | hk
    · exact ⟨here, s, t, rfl, ht, c', le_rfl, l, hl⟩
    · exact (h.mono hc.le).link k hk

/-- Names that lead somewhere are followed to that place, inside links that are being followed. -/
theorem Leads.trace (hd : LinksClean d) (hfit : LinksFit d) {here : Loc} {a : List Text} {c n : Nat}
    {l : Loc} {active : List Loc} (h : Leads d here a c l) (ha : ∀ x ∈ a, '\x00' ∉ x)
    (hf : Following d active c) (hn : c ≤ n) :
    d.trace false n active here a = .ok (.reached l) := by
  cases h with
  | done => cases n <;> rfl
  | @stay _ s rest _ _ _ hs h =>
    have ih := Leads.trace hd hfit h (fun x hx => ha x (List.mem_cons_of_mem s hx)) hf hn
    cases n <;> simpa only [Disk.trace, traceWith, if_pos hs] using ih
  | @back _ rest _ _ _ h =>
    have ih := Leads.trace hd hfit h (fun x hx => ha x (List.mem_cons_of_mem _ hx)) hf hn
    cases n <;> simpa [Disk.trace, traceWith] using ih
  | @name _ s rest _ _ _ hs _ hno h =>
    have ih := Leads.trace hd hfit h (fun x hx => ha x (List.mem_cons_of_mem s hx)) hf hn
    have step : ∀ f, d.traceWith false f here (s :: rest) =
        d.traceWith false f (here ++ [s]) rest := fun f =>
      traceWith_name f hs (ha s List.mem_cons_self) hno
    cases n <;> simp only [Disk.trace, step] <;> exact ih
  | @link _ s t rest c _ _ hs _ ht h =>
    obtain ⟨c₁, c₂, m, rfl, h₁, h₂⟩ := leads_append.1 h
    have h₁ := leads_steps h₁
    have hk := hf.not_mem ht (show c₁ < c₁ + c₂ + 1 by omega) h₁
    have hf₁ := hf.cons ht (show c₁ < c₁ + c₂ + 1 by omega) h₁
    obtain ⟨n, rfl⟩ : ∃ m, n = m + 1 := ⟨n - 1, by omega⟩
    have inner : d.trace false n ((here ++ [s]) :: active) (linkBase here t)
        (Text.split (· == '/') t) = .ok (.reached m) :=
      trace_filter.1 (Leads.trace hd hfit h₁
        (fun x hx hc => hd _ t ht (Path.mem_of_mem_names hx hc)) hf₁ (by omega))
    rw [trace_link hfit hs (ha s List.mem_cons_self) ht hk inner]
    exact Leads.trace hd hfit h₂ (fun x hx => ha x (List.mem_cons_of_mem s hx))
      (hf.mono (show c₂ ≤ c₁ + c₂ + 1 by omega)) (by omega)
termination_by (c, a.length)

theorem At.realPath (h : d.At p l) (hd : LinksClean d) (hfit : LinksFit d) (hp : '\x00' ∉ p)
    (hn : maxLinks ≤ n) : d.realPath n false p = .ok l.path := by
  obtain ⟨c, hc, h⟩ := h
  have hf : Following d [] c := ⟨List.nodup_nil, by simp⟩
  have ht : d.trace false n [] [] p.names = .ok (.reached l) :=
    h.trace hd hfit (fun x hx hc => hp (Path.mem_of_mem_names hx hc)) hf (hc.trans hn)
  unfold Disk.realPath
  rw [trace_filter.1 ht]

/-! ## Same paths -/

/-- Every name of the location can stand in a path. -/
def Spellable (l : Loc) : Prop := ∀ x ∈ l, '/' ∉ x ∧ x ≠ []

theorem Leads.spellable (h : Leads d here a c l) (hh : Spellable here) (ha : ∀ x ∈ a, '/' ∉ x) :
    Spellable l := by
  induction h with
  | done => exact hh
  | @stay _ s _ _ _ _ _ _ ih => exact ih hh fun x hx => ha x (List.mem_cons_of_mem s hx)
  | back _ _ ih =>
    exact ih (fun x hx => hh x ((List.dropLast_sublist _).mem hx)) fun x hx =>
      ha x (List.mem_cons_of_mem _ hx)
  | @name _ s _ _ _ _ hs _ _ _ ih =>
    refine ih (fun x hx => ?_) fun x hx => ha x (List.mem_cons_of_mem s hx)
    rcases List.mem_append.1 hx with hx | hx
    · exact hh x hx
    · obtain rfl := List.mem_singleton.1 hx
      exact ⟨ha x List.mem_cons_self, hs.1⟩
  | @link here s t rest _ _ _ _ _ _ _ ih =>
    refine ih (fun x hx => ?_) fun x hx => ?_
    · unfold linkBase at hx
      split at hx
      · simp at hx
      · exact hh x hx
    · rcases List.mem_append.1 hx with hx | hx
      · unfold Path.steps at hx
        rcases List.mem_append.1 hx with hx | hx
        · exact Path.not_mem_of_mem_names hx
        · split at hx <;> simp at hx
          simp [hx]
      · exact ha x (List.mem_cons_of_mem s hx)

theorem At.spellable (h : d.At p l) : Spellable l := by
  obtain ⟨c, -, h⟩ := h
  exact h.spellable (by simp [Spellable]) fun x hx => Path.not_mem_of_mem_names hx

theorem Spellable.names_path (h : Spellable l) : Path.names l.path = l := by
  rcases eq_or_ne l [] with rfl | hn
  · rfl
  · rw [Loc.path, ← List.nil_append ('/' :: _), Path.names_append_slash, Path.names_nil,
      List.nil_append, Path.names, Text.fields, Text.split_join '/' hn fun x hx => (h x hx).1]
    simpa [List.filter_eq_self] using fun x hx => (h x hx).2

theorem samePath_eq (h : d.At p l) (h' : d.At q k) (hd : LinksClean d) (hfit : LinksFit d)
    (hp : '\x00' ∉ p) (hq : '\x00' ∉ q) (hn : maxLinks ≤ n) :
    d.samePath n p q = .ok (l == k) := by
  unfold samePath
  rw [h.realPath hd hfit hp hn, h'.realPath hd hfit hq hn]
  have : l.path = k.path ↔ l = k := by
    refine ⟨fun e => ?_, congrArg _⟩
    rw [← h.spellable.names_path, e, h'.spellable.names_path]
  exact congrArg _ (Bool.eq_iff_iff.2 (by simpa using this))

end Disk

end FileShell
