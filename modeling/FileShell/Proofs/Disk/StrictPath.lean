import FileShell.Proofs.Disk.Canonical
import FileShell.Proofs.Disk.Sound

/-!
# Strict real paths and walks

A strict real path and a walk along the same names end at one place, however many links are on the
way (`Leads.eq_of_trace`); both can be taken in parts (`trace_append`). A place is settled if it is
a directory, no link is on the way to it, and its path is short enough: the places that the
canonical paths of directories spell out (`settled_of_isDir`, `Settled.isDir`). The strict real path
of a directory spells out a settled place (`exists_settled`).
-/

namespace FileShell

namespace Disk

variable {d : Disk} {p q : Path} {here l m k : Loc} {a b rest : List Text} {x : Text} {c n : Nat}
  {strict : Bool} {active : List Loc}

/-! ## Walks that follow too many links -/

/-- A walk that would lead somewhere fails if it may not follow enough links, and only for that. -/
theorem Leads.walk_eq_error (h : Leads d here a c l) :
    ∀ n < c, d.walk true n here a = .error .tooManyLinks := by
  induction h with
  | done => exact fun n hn => absurd hn n.not_lt_zero
  | stay hd hs _ ih =>
    intro n hn
    rw [← ih n hn]
    cases n <;> simp only [Disk.walk, walkWith, hd, Bool.not_true, Bool.false_eq_true, if_false,
      if_pos hs]
  | back hd _ ih =>
    intro n hn
    rw [← ih n hn]
    cases n <;> simp [Disk.walk, walkWith, hd]
  | name hd hp hb hl _ ih =>
    intro n hn
    rw [← ih n hn]
    cases n <;> simp only [Disk.walk] <;> rw [walkWith_true_cons _ hd hp hb] <;> split
    · exact absurd ‹_› (hl _)
    · rfl
    · exact absurd ‹_› (hl _)
    · rfl
  | link hd hp hb hl _ ih =>
    intro n hn
    rcases n with _ | n
    · rw [Disk.walk, walkWith_true_cons _ hd hp hb, hl]
    · rw [Disk.walk, walkWith_true_cons _ hd hp hb, hl]
      exact ih n (by omega)

theorem checkPath_of_locate_ne (hp : p ≠ []) (h0 : '\x00' ∉ p)
    (hlong : d.locate true p ≠ .error .tooLong) : checkPath p = .ok () := by
  refine checkPath_eq_ok_iff.2 ⟨hp, h0, not_lt.1 fun hb => hlong ?_⟩
  have hc : checkPath p = .error .tooLong := by
    unfold checkPath
    rw [if_neg (by simpa using hp), if_neg (by simpa using h0), if_pos hb]
  rw [Disk.locate, hc]
  rfl

/-- A path whose names lead to a directory is found there, unless it is too long or takes too many
links to follow. -/
theorem Leads.locate (h : Leads d [] p.names c l) (hd : d.isDirectory l = true)
    (hp : checkPath p = .ok ()) (hlinks : d.locate true p ≠ .error .tooManyLinks) :
    d.locate true p = .ok l := by
  have hsteps := h.steps (.inl hd)
  refine locate_eq_ok_iff.2 ⟨hp, c, not_lt.1 fun hc => hlinks ?_, hsteps⟩
  rw [Disk.locate, hp]
  exact hsteps.walk_eq_error _ hc

/-! ## Following pieces in parts -/

theorem traceWith_append {onLink : Loc → Loc → Path → Except DiskError Trace} :
    ∀ (a : List Text) {here : Loc}, d.traceWith strict onLink here a = .ok (.reached m) →
      d.traceWith strict onLink here (a ++ b) = d.traceWith strict onLink m b
  | [], here, h => by
    rw [traceWith] at h
    cases h
    rfl
  | s :: rest, here, h => by
    have ih {here : Loc} (h : d.traceWith strict onLink here rest = .ok (.reached m)) :=
      traceWith_append rest h
    rw [List.cons_append]
    rw [traceWith] at h ⊢
    split_ifs at h ⊢
    · exact ih h
    · exact ih h
    · exact ih h
    all_goals
      split at h
      · split at h
        · cases h
        · cases h
        · exact ih h
      · exact ih h
      · first | exact ih h | cases h

theorem trace_append (h : d.trace strict n active here a = .ok (.reached m)) :
    d.trace strict n active here (a ++ b) = d.trace strict n active m b := by
  cases n <;> exact traceWith_append a h

/-- A name of something that is no link leads to it. -/
theorem traceWith_down {onLink : Loc → Loc → Path → Except DiskError Trace} {i : Item}
    (hx : IsPlain x) (h0 : '\x00' ∉ x) (hb : (Loc.path (here ++ [x])).byteSize ≤ maxPath)
    (hi : d.get? (here ++ [x]) = some i) (hl : ∀ t, i ≠ .link t) :
    d.traceWith strict onLink here (x :: rest) =
      d.traceWith strict onLink (here ++ [x]) rest := by
  rw [traceWith, if_neg (not_or.2 ⟨hx.1, hx.2.1⟩), if_neg hx.2.2, if_neg (by simpa using h0),
    if_neg (not_lt.2 hb), hi]
  cases i with
  | link t => exact absurd rfl (hl t)
  | _ => rfl

/-! ## Walks and real paths -/

/-- Names that are followed to a place are followed to the one that they lead to. -/
theorem Leads.eq_of_trace {here l m : Loc} {a : List Text} {c n : Nat} {active : List Loc}
    (h : Leads d here a c l) (ht : d.trace true n active here a = .ok (.reached m)) : m = l := by
  cases h with
  | done => cases n <;> cases ht <;> rfl
  | @stay _ s rest _ _ _ hs h =>
    have ht : d.trace true n active here rest = .ok (.reached m) := by
      cases n <;> simpa only [Disk.trace, traceWith, if_pos hs] using ht
    exact Leads.eq_of_trace h ht
  | @back _ rest _ _ _ h =>
    have ht : d.trace true n active here.dropLast rest = .ok (.reached m) := by
      cases n <;> simpa [Disk.trace, traceWith] using ht
    exact Leads.eq_of_trace h ht
  | @name _ s rest _ _ _ hs _ hno h =>
    have step : ∀ f, d.traceWith true f here (s :: rest) = .ok (.reached m) →
        d.traceWith true f (here ++ [s]) rest = .ok (.reached m) := by
      intro f hf
      rw [traceWith, if_neg (not_or.2 ⟨hs.1, hs.2.1⟩), if_neg hs.2.2, if_pos rfl, if_pos rfl] at hf
      split_ifs at hf
      split at hf
      · exact absurd ‹_› (hno _)
      · exact hf
      · cases hf
    have ht : d.trace true n active (here ++ [s]) rest = .ok (.reached m) := by
      cases n <;> exact step _ ht
    exact Leads.eq_of_trace h ht
  | @link _ s t rest c _ _ hs _ hlink h =>
    obtain ⟨c₁, c₂, m', rfl, h₁, h₂⟩ := leads_append.1 h
    have h₁ := leads_steps h₁
    have step : ∀ f, d.traceWith true f here (s :: rest) = .ok (.reached m) →
        ∃ k, f (here ++ [s]) here t = .ok (.reached k) ∧
          d.traceWith true f k rest = .ok (.reached m) := by
      intro f hf
      rw [traceWith, if_neg (not_or.2 ⟨hs.1, hs.2.1⟩), if_neg hs.2.2, if_pos rfl, if_pos rfl,
        hlink] at hf
      split_ifs at hf
      dsimp only at hf
      split at hf
      · cases hf
      · cases hf
      · exact ⟨_, ‹_›, hf⟩
    -- the place that the link leads to is found first, with fewer links still to come
    rcases n with _ | n
    · obtain ⟨k, hk, -⟩ := step _ ht
      split at hk <;> cases hk
    · obtain ⟨k, hk, hrest⟩ := step _ ht
      split at hk
      · cases hk
      · have hk : d.trace true n ((here ++ [s]) :: active) (linkBase here t) t.names =
            .ok (.reached k) := trace_filter.2 hk
        obtain rfl := Leads.eq_of_trace h₁ hk
        have hrest : d.trace true (n + 1) active k rest = .ok (.reached m) := hrest
        exact Leads.eq_of_trace h₂ hrest
termination_by (c, a.length)

/-! ## Settled places -/

/-- Names with no link on the way lead straight down. -/
theorem Leads.eq_append_of_straight (h : Leads d here a c k) (hs : d.Straight (here ++ a)) :
    k = here ++ a := by
  induction h with
  | done => rw [List.append_nil]
  | stay _ hx _ _ => exact absurd (hs.plain _ (by simp)).1 (not_isPlain hx)
  | back _ _ _ => exact absurd rfl (hs.plain _ (by simp)).1.2.2
  | name _ _ _ _ _ ih => rw [ih (by simpa using hs), List.append_assoc, List.singleton_append]
  | @link here s _ rest _ _ _ _ _ ht _ _ =>
    exact absurd ht (hs.noLink (here ++ [s]) _ ⟨rest, by simp⟩)

/-- A directory that can be gone to: no link is on the way to it, and its path can be looked up. -/
structure Settled (d : Disk) (l : Loc) : Prop where
  straight : d.Straight l
  directory : d.isDirectory l = true
  fits : checkPath l.path = .ok ()

theorem settled_of_isDir (h : d.Straight l) (hd : d.isDir l.path = true) : d.Settled l := by
  obtain ⟨k, hk, hdir⟩ := isDir_iff.1 hd
  obtain ⟨_, -, hl⟩ := at_of_locate hk
  rw [h.names_path] at hl
  obtain rfl := hl.eq_append_of_straight h
  exact ⟨h, hdir, (locate_eq_ok_iff.1 hk).1⟩

theorem path_dropLast_sublist (l : Loc) : (Loc.path l.dropLast).Sublist l.path := by
  rcases List.eq_nil_or_concat l with rfl | ⟨a, x, rfl⟩
  · exact List.Sublist.refl _
  rw [List.concat_eq_append, List.dropLast_concat, path_concat]
  split_ifs with ha
  · subst ha
    exact List.Sublist.cons_cons '/' (List.nil_sublist x)
  · exact List.sublist_append_left _ _

theorem lasts_fits (d : Disk) : d.Lasts fun l => checkPath l.path = .ok () where
  root := rfl
  up h := checkPath_of_sublist h (path_dropLast_sublist _) (List.cons_ne_nil _ _)
  down := by
    intro l x h _ _ h0 hb _
    refine checkPath_eq_ok_iff.2 ⟨List.cons_ne_nil _ _, fun hm => ?_, hb⟩
    have hl := (checkPath_eq_ok_iff.1 h).2.1
    rw [path_concat] at hm
    rcases List.mem_append.1 hm with hm | hm
    · split_ifs at hm
      · cases hm
      · exact hl hm
    · exact h0 ((List.mem_cons.1 hm).resolve_left (by decide))

variable (hs : d.Sound)
include hs

theorem Settled.up (h : d.Settled l) : d.Settled l.dropLast where
  straight := h.straight.of_prefix (List.dropLast_prefix l)
  directory := hs.isDirectory_dropLast h.directory
  fits := d.lasts_fits.up h.fits

/-- What holds at the root and goes down from directory to directory holds at a settled place. -/
theorem Settled.descend {P : Loc → Prop} (h : d.Settled l) (root : P [])
    (down : ∀ a x, d.Settled (a ++ [x]) → d.isDirectory a = true → IsName x → P a → P (a ++ [x])) :
    P l := by
  induction l using List.reverseRecOn with
  | nil => exact root
  | append_singleton a x ih =>
    have hup : d.Settled a := by simpa using h.up hs
    have hx : IsName x := hs.isName (by rw [isDirectory_iff.1 h.directory]; rfl)
    exact down a x h hup.directory hx (ih hup)

/-- The names of a place without links on the way lead there. -/
theorem Straight.leads (h : d.Straight l) (hd : d.isDirectory l = true) : Leads d [] l 0 l := by
  induction l using List.reverseRecOn with
  | nil => exact .done
  | append_singleton a x ih =>
    obtain ⟨ha, hx⟩ := hs.above a x (by rw [isDirectory_iff.1 hd]; rfl)
    exact (ih (h.of_prefix (List.prefix_append a [x])) ha).append
      (.name ha hx.plain hx.short (h.noLink _ · List.prefix_rfl) .done)

theorem Settled.leads (h : d.Settled l) : Leads d [] l 0 l := h.straight.leads hs h.directory

theorem Settled.isDir (h : d.Settled l) : d.isDir l.path = true := by
  have hat : d.At l.path l := ⟨0, Nat.zero_le _, h.straight.names_path.symm ▸ h.leads hs⟩
  exact hat.isDir h.fits h.directory

/-- The path of a settled place is its own real path. -/
theorem Settled.trace (h : d.Settled l) :
    d.trace true n active [] (Text.split (· == '/') l.path) = .ok (.reached l) := by
  refine trace_filter.1 ?_
  rw [show (Text.split (· == '/') l.path).filter (!·.isEmpty) = l from h.straight.names_path]
  refine h.descend hs (P := fun l => d.trace true n active [] l = .ok (.reached l)) ?_ ?_
  · cases n <;> rfl
  · intro a x hax ha hx ih
    have step : ∀ f, d.traceWith true f a [x] = .ok (.reached (a ++ [x])) := fun f => by
      rw [traceWith_down hx.plain hx.noNull (checkPath_eq_ok_iff.1 hax.fits).2.2
        (isDirectory_iff.1 hax.directory) (by simp)]
      rfl
    rw [trace_append ih]
    cases n <;> exact step _

omit hs in
/-- The strict real path of a directory spells out a settled place, the one that its names lead
to. -/
theorem exists_settled (hd : d.isDir p = true) (hq : d.realPath n true p = .ok q) :
    ∃ l c, q = l.path ∧ d.Settled l ∧ Leads d [] p.names c l ∧
      d.trace true n [] [] (Text.split (· == '/') p) = .ok (.reached l) := by
  obtain ⟨k, hk, hdir⟩ := isDir_iff.1 hd
  obtain ⟨c, -, hl⟩ := at_of_locate hk
  obtain ⟨l, rfl, ht, hlasts⟩ := exists_of_realPath hq
  obtain rfl := hl.eq_of_trace (trace_filter.2 ht)
  exact ⟨l, c, rfl, ⟨hlasts _ d.lasts_straight, hdir, hlasts _ d.lasts_fits⟩, hl, ht⟩

end Disk

end FileShell
