import FileShell.Proofs.Disk.Nulls
import FileShell.Proofs.Disk.StrictPath
import FileShell.Proofs.Shell.Outcomes
import FileShell.Proofs.Shell.Stops

/-!
# Entering directories

From a settled place, a path enters another one if its names lead there and are followed there as
real paths are. Paths are entered one after the other by entering them at once, with a slash
between them (`Enters.append`). Where `cd` goes with an argument is where that enters, be it the
shortcut for the parent or a path (`Session.Goes.enters`, `Enters.goes`), so the shortcut agrees
with the paths (`cd_join`).
-/

namespace FileShell

namespace Disk

variable {d : Disk} {l m k : Loc} {x y : Path} {n : Nat}

/-- The path leads from the one place to the other, and real paths follow it there with so many
links one inside another. -/
structure Enters (d : Disk) (n : Nat) (l : Loc) (x : Path) (k : Loc) : Prop where
  noNull : '\x00' ∉ x
  leads : ∃ c, Leads d (linkBase l x) x.names c k
  trace : d.trace true n [] (linkBase l x) (Text.split (· == '/') x) =
    .ok (.reached k)

theorem linkBase_nil (p : Path) : linkBase [] p = [] := by simp [linkBase]

theorem enters_nil (d : Disk) (n : Nat) (l : Loc) : d.Enters n l [] l where
  noNull := List.not_mem_nil
  leads := ⟨0, .done⟩
  trace := by cases n <;> rfl

theorem enters_up (hd : d.isDirectory l = true) : d.Enters n l ['.', '.'] l.dropLast where
  noNull := by decide
  leads := ⟨0, .back hd .done⟩
  trace := by cases n <;> rfl

/-- A path that goes on behind a slash is entered from where its first part leads. -/
theorem Enters.append_iff (hx : d.Enters n l x m) (hne : x ≠ []) (hrel : y.isAbsolute = false) :
    d.Enters n l (x ++ '/' :: y) k ↔ d.Enters n m y k := by
  have hbase : linkBase l (x ++ '/' :: y) = linkBase l x := by
    obtain ⟨c, x, rfl⟩ := List.exists_cons_of_ne_nil hne
    rfl
  have hbase' : linkBase m y = m := by simp [linkBase, hrel]
  have hsplit : Text.split (· == '/') (x ++ '/' :: y) =
      Text.split (· == '/') x ++ Text.split (· == '/') y := Text.split_append (by simp) y x
  obtain ⟨c₁, h₁⟩ := hx.leads
  constructor
  · rintro ⟨h0, ⟨c, h⟩, ht⟩
    rw [hbase, Path.names_append_slash] at h
    obtain ⟨_, c₂, m', -, h₁', h₂⟩ := leads_append.1 h
    obtain rfl := (h₁.unique h₁').2
    rw [hbase, hsplit, trace_append hx.trace] at ht
    exact ⟨fun hm => h0 (by simp [hm]), ⟨c₂, hbase'.symm ▸ h₂⟩, hbase'.symm ▸ ht⟩
  · rintro ⟨h0, ⟨c₂, h₂⟩, ht⟩
    rw [hbase'] at h₂ ht
    refine ⟨by simpa using ⟨hx.noNull, h0⟩, ⟨c₁ + c₂, ?_⟩, ?_⟩
    · rw [hbase, Path.names_append_slash]
      exact h₁.append h₂
    · rw [hbase, hsplit, trace_append hx.trace, ht]

theorem Settled.enters (h : d.Settled l) (hs : d.Sound) : d.Enters n [] l.path l where
  noNull := (checkPath_eq_ok_iff.1 h.fits).2.1
  leads := ⟨0, h.straight.names_path.symm ▸ h.leads hs⟩
  trace := h.trace hs

end Disk

/-! ## Where `cd` goes -/

section

variable {d : Disk} {l k : Loc} {session : Session} {x : Path} {q : Path} {n : Nat}

/-- A path enters what the session resolves it to. -/
theorem Session.enters_resolve (hs : d.Sound) (h : d.Settled l)
    (hl : session.directory = l.path) :
    d.Enters n [] (session.resolve x) k ↔ d.Enters n l x k := by
  unfold Session.resolve
  split_ifs with habs
  · have hbase : Disk.linkBase l x = Disk.linkBase [] x := by simp [Disk.linkBase, habs]
    constructor <;> rintro ⟨h0, hx, ht⟩
    · exact ⟨h0, hbase ▸ hx, hbase ▸ ht⟩
    · exact ⟨h0, hbase ▸ hx, hbase ▸ ht⟩
  · rw [hl]
    exact (h.enters hs).append_iff (List.cons_ne_nil _ _) (by simpa using habs)

theorem Session.Goes.enters (hs : d.Sound) (h : d.Settled l) (hl : session.directory = l.path)
    (hg : session.Goes d n [x] q) : ∃ k, q = k.path ∧ d.Settled k ∧ d.Enters n l x k := by
  cases hg with
  | up hq =>
    rw [h.straight.parent?_eq hl] at hq
    split_ifs at hq
    exact ⟨l.dropLast, (Option.some.inj hq).symm, h.up hs, Disk.enters_up h.directory⟩
  | real _ hdir hq =>
    obtain ⟨k, c, rfl, hk, hleads, ht⟩ := Disk.exists_settled hdir hq
    have h0 : '\x00' ∉ session.resolve x := Disk.not_mem_of_isDir hdir
    refine ⟨k, rfl, hk, (Session.enters_resolve hs h hl).1 ⟨h0, ⟨c, ?_⟩, ?_⟩⟩ <;>
      rwa [Disk.linkBase_nil]

/-- What the session resolves the path to is found where it enters, unless it is too long or takes
too many links to follow. -/
theorem Disk.Enters.locate (hs : d.Sound) (h : d.Settled l) (hl : session.directory = l.path)
    (hx : d.Enters n l x k) (hk : d.isDirectory k = true)
    (hlong : d.locate true (session.resolve x) ≠ .error .tooLong)
    (hlinks : d.locate true (session.resolve x) ≠ .error .tooManyLinks) :
    d.locate true (session.resolve x) = .ok k := by
  obtain ⟨h0, ⟨c, hleads⟩, -⟩ := (Session.enters_resolve hs h hl).2 hx
  rw [Disk.linkBase_nil] at hleads
  exact hleads.locate hk (Disk.checkPath_of_locate_ne (session.resolve_ne_nil x) h0 hlong) hlinks

/-- An argument that enters the directory where its lookup ends is one to go to. -/
theorem Disk.Enters.goes (hs : d.Sound) (h : d.Settled l) (hl : session.directory = l.path)
    (hx : d.Enters n l x k) (hup : x ≠ ['.', '.']) (hk : d.isDirectory k = true)
    (hloc : d.locate true (session.resolve x) = .ok k) : session.Goes d n [x] k.path := by
  refine .real hup (Disk.isDir_iff.2 ⟨k, hloc, hk⟩) ?_
  unfold Disk.realPath
  rw [show d.trace true n [] [] (Text.split (· == '/') (session.resolve x)) =
    .ok (.reached k) by simpa only [linkBase_nil] using
      ((Session.enters_resolve hs h hl).2 hx).trace]

end

namespace Handler

variable {s : Storage} {session : Session} {w : World} {args : List Text} {q : Path}

theorem run_cd_of_goes (h : session.Goes w.disk (Storage.linksWithin s.nests) args q)
    (hr : ∀ p, s.refuses .canonicalize p = false) :
    ((cd s).run args session).run w = (.ok (session.goTo q), w) := by
  cases h with
  | home => rfl
  | up hq =>
    simp only [cd, if_true, hq]
    rfl
  | real hup hdir hq =>
    simp only [cd, hup, if_false, Act.run_bind, Act.run_lift, Storage.run_isDir, hdir,
      Act.run_failingWith, Storage.canonicalize, Storage.run_allow, Storage.run_ask, hr, hq,
      Bool.not_true, Bool.false_eq_true]
    rfl

theorem attempt_of_goes (h : session.Goes w.disk (Storage.linksWithin s.nests) args q)
    (hr : ∀ p, s.refuses .canonicalize p = false) :
    attempt (standard s) ⟨"cd".toList, args⟩ session w = ((session.goTo q, none), w) := by
  rw [run_attempt (route_cd args), run_cd_of_goes h hr]

/-- A `cd` that shows nothing has gone somewhere and done nothing else, whatever was shown before. -/
theorem goes_of_quiet
    (hq : (attempt (standard s) ⟨"cd".toList, args⟩ session w).2.shown = w.shown) :
    ∃ q, session.Goes w.disk (Storage.linksWithin s.nests) args q ∧ ∀ t,
      attempt (standard s) ⟨"cd".toList, args⟩ session ⟨w.disk, t⟩ =
        ((session.goTo q, none), ⟨w.disk, t⟩) := by
  obtain ⟨f, hf, hgoes⟩ := exists_run_cd s args session
  have hd (v : World) : attempt (standard s) ⟨"cd".toList, args⟩ session v = _ :=
    run_attempt (route_cd args)
  simp only [hf] at hd
  rcases hfd : f w.disk with e | session'
  · have hend : e.stop? = none := ends_cd s args session w e w (by rw [hf, hfd])
    rw [hd, hfd] at hq
    simp [CommandError.report_of_stop?_eq_none hend] at hq
  · obtain ⟨q, rfl, hq⟩ := hgoes _ _ hfd
    refine ⟨q, hq, fun t => ?_⟩
    rw [hd]
    simp only [hfd]

end Handler

/-! ## Lines -/

section

variable {s : Storage} {d : Disk} {l k : Loc} {session : Session} {x : Text}

theorem outcome_cd (hx : IsWord x ∧ '>' ∉ x) : outcome s ("cd ".toList ++ x) session d =
    let r := Handler.attempt (Handler.standard s) ⟨"cd".toList, [x]⟩ session ⟨d, []⟩
    ⟨r.2.shown, r.1.1, r.2.disk, r.1.2⟩ := by
  have hcd : IsWord "cd".toList ∧ '>' ∉ "cd".toList := by decide
  have hline : Command.render ⟨"cd".toList, [x]⟩ = "cd ".toList ++ x := rfl
  rw [← hline]
  exact outcome_render hcd (List.forall_mem_singleton.2 hx) rfl

theorem enters_of_cd (hs : d.Sound) (h : d.Settled l) (hl : session.directory = l.path)
    (hx : IsWord x ∧ '>' ∉ x) (hq : (outcome s ("cd ".toList ++ x) session d).shown = []) :
    ∃ k, d.Settled k ∧ d.Enters (Storage.linksWithin s.nests) l x k ∧
      outcome s ("cd ".toList ++ x) session d = ⟨[], session.goTo k.path, d, none⟩ := by
  rw [outcome_cd hx] at hq ⊢
  obtain ⟨q, hg, hrun⟩ := Handler.goes_of_quiet (w := ⟨d, []⟩) hq
  obtain ⟨k, rfl, hk, hxk⟩ := hg.enters hs h hl
  exact ⟨k, hk, hxk, by rw [hrun []]⟩

theorem cd_of_goes (hr : ∀ p, s.refuses .canonicalize p = false) (hx : IsWord x ∧ '>' ∉ x)
    {q : Path} (hg : session.Goes d (Storage.linksWithin s.nests) [x] q) :
    outcome s ("cd ".toList ++ x) session d = ⟨[], session.goTo q, d, none⟩ := by
  rw [outcome_cd hx, Handler.attempt_of_goes hg hr]

theorem cd_at_root (h : session.parent? = none) : outcome s "cd ..".toList session d =
    ⟨"Error: Already at root directory\n".toList, session, d, none⟩ := by
  have hcd : outcome s ("cd ".toList ++ ['.', '.']) session d = _ := outcome_cd (by decide)
  rw [Handler.run_attempt (Handler.route_cd _)] at hcd
  simp only [Handler.cd, h] at hcd
  exact hcd

/-- The shortcut for the parent goes there, and complains at the root. -/
theorem cd_up (hr : ∀ p, s.refuses .canonicalize p = false) (h : d.Settled l)
    (hl : session.directory = l.path) : outcome s "cd ..".toList session d =
      ⟨if l = [] then "Error: Already at root directory\n".toList else [],
        session.goTo (Loc.path l.dropLast), d, none⟩ := by
  have hparent := h.straight.parent?_eq hl
  split_ifs at hparent ⊢ with hroot
  · subst hroot
    have hstay : session.goTo (Loc.path []) = session := by
      rw [Session.goTo, ← hl]
    rw [cd_at_root hparent, List.dropLast_nil, hstay]
  · exact cd_of_goes hr (by decide) (.up hparent)

/-- With a slash the parent is looked up like any other path. -/
theorem cd_up_slash (hs : d.Sound) (hr : ∀ p, s.refuses .canonicalize p = false) (h : d.Settled l)
    (hl : session.directory = l.path)
    (hlong : d.locate true (session.resolve "../".toList) ≠ .error .tooLong) :
    outcome s "cd ../".toList session d = ⟨[], session.goTo (Loc.path l.dropLast), d, none⟩ := by
  have hup : d.Enters (Storage.linksWithin s.nests) l "../".toList l.dropLast :=
    ((Disk.enters_up h.directory).append_iff (by decide) rfl).2 (d.enters_nil _ _)
  have hat : d.At (session.resolve "../".toList) l.dropLast := by
    refine ⟨0, Nat.zero_le _, ?_⟩
    have hres : session.resolve "../".toList = l.path ++ '/' :: "../".toList := hl ▸ rfl
    rw [hres, Path.names_append_slash, h.straight.names_path]
    exact (h.leads hs).append (.back h.directory .done)
  have hloc : d.locate true (session.resolve "../".toList) = .ok l.dropLast :=
    hat.locate (Disk.checkPath_of_locate_ne (session.resolve_ne_nil _)
      ((Session.enters_resolve hs h hl).2 hup).noNull hlong) (.inl (h.up hs).directory)
  exact cd_of_goes hr (by decide) (hup.goes hs h hl (by decide) (h.up hs).directory hloc)

theorem isWord_append_slash {y : Text} (hx : IsWord x ∧ '>' ∉ x) (hy : IsWord y ∧ '>' ∉ y) :
    IsWord (x ++ '/' :: y) ∧ '>' ∉ x ++ '/' :: y := by
  have hblank : isBlank '/' = false := by decide
  refine ⟨⟨by simp, fun c hc => ?_⟩, by simpa using ⟨hx.2, hy.2⟩⟩
  rcases List.mem_append.1 hc with hc | hc
  · exact hx.1.2 c hc
  · rcases List.mem_cons.1 hc with rfl | hc
    · exact hblank
    · exact hy.1.2 c hc

/-- The shortcut for the parent agrees with the paths, as far as a lookup reaches. Two `cd`s that
show nothing, the second one by a relative path, go where one `cd` goes whose argument has a slash
between theirs; and `cd ../` goes where `cd ..` does, and shows nothing where that is refused. -/
theorem cd_join (hs : d.Sound) (hr : ∀ p, s.refuses .canonicalize p = false)
    (hc : d.Canonical session.directory) (hd : d.isDir session.directory = true) :
    (∀ x y o₁ o₂, (IsWord x ∧ '>' ∉ x) → (IsWord y ∧ '>' ∉ y) → Path.isAbsolute y = false →
      outcome s ("cd ".toList ++ x) session d = o₁ → o₁.shown = [] →
      outcome s ("cd ".toList ++ y) o₁.session o₁.disk = o₂ → o₂.shown = [] →
      d.locate true (session.resolve (x ++ '/' :: y)) ≠ .error .tooLong →
      d.locate true (session.resolve (x ++ '/' :: y)) ≠ .error .tooManyLinks →
      outcome s ("cd ".toList ++ x ++ '/' :: y) session d = o₂) ∧
    (d.locate true (session.resolve "../".toList) ≠ .error .tooLong →
      outcome s "cd ../".toList session d =
          { outcome s "cd ..".toList session d with shown := [] } ∧
        (outcome s "cd ..".toList session d).shown =
          if session.directory = ['/'] then "Error: Already at root directory\n".toList
          else []) := by
  obtain ⟨l, hl, hstraight⟩ := hc
  have h : d.Settled l := Disk.settled_of_isDir hstraight (hl ▸ hd)
  constructor
  · rintro x y _ _ hx hy hrel rfl hq₁ rfl hq₂ hlong hlinks
    obtain ⟨m, hm, hxm, h₁⟩ := enters_of_cd hs h hl hx hq₁
    rw [h₁] at hq₂ ⊢
    obtain ⟨k, hk, hyk, h₂⟩ := enters_of_cd hs hm rfl hy hq₂
    have hxy : d.Enters _ l (x ++ '/' :: y) k := (hxm.append_iff hx.1.1 hrel).2 hyk
    have hup : x ++ '/' :: y ≠ ['.', '.'] := fun he => by
      have hslash : '/' ∈ x ++ '/' :: y := by simp
      rw [he] at hslash
      exact absurd hslash (by decide)
    rw [h₂, List.append_assoc]
    exact cd_of_goes hr (isWord_append_slash hx hy)
      (hxy.goes hs h hl hup hk.directory (hxy.locate hs h hl hk.directory hlong hlinks))
  · intro hlong
    have hroot : session.directory = ['/'] ↔ l = [] := by
      rw [hl]
      refine ⟨fun he => ?_, fun he => he ▸ rfl⟩
      rw [← hstraight.names_path, he]
      rfl
    rw [cd_up hr h hl, cd_up_slash hs hr h hl hlong]
    exact ⟨rfl, if_congr hroot.symm rfl rfl⟩

end

theorem sound_crossroads : Shared.crossroads.Sound := by
  refine Disk.sound_of_items (by decide) (by decide +kernel) fun e he t ht => ?_
  simp only [Shared.crossroads, List.mem_cons, List.not_mem_nil, or_false] at he
  rcases he with rfl | rfl | rfl <;> cases ht
  decide

/-- From a directory beside a link through the link and up again, in two steps and in one. -/
theorem cd_join_crossroads :
    let s : Storage := { chunk := 512 }
    let session : Session := ⟨"/w".toList, "/".toList, true⟩
    outcome s "cd ../l".toList session Shared.crossroads =
        ⟨[], session.goTo "/w/d".toList, Shared.crossroads, none⟩ ∧
      outcome s "cd ../l/..".toList session Shared.crossroads =
        ⟨[], session, Shared.crossroads, none⟩ ∧
      outcome s "cd ../".toList session Shared.crossroads =
        ⟨[], session.goTo "/".toList, Shared.crossroads, none⟩ := by
  intro s session
  have hw : Shared.crossroads.Canonical session.directory := by
    refine ⟨["w".toList], rfl, (Disk.straight_nil _).concat (by decide) (by decide) fun t h => ?_⟩
    cases h
  have hr : ∀ p, s.refuses .canonicalize p = false := fun _ => rfl
  obtain ⟨hjoin, hup⟩ := cd_join sound_crossroads hr hw (by decide +kernel)
  have hlink : outcome s "cd ../l".toList session Shared.crossroads =
      ⟨[], session.goTo "/w/d".toList, Shared.crossroads, none⟩ := by decide +kernel
  have hparent : outcome s "cd ..".toList (session.goTo "/w/d".toList) Shared.crossroads =
      ⟨[], session, Shared.crossroads, none⟩ := by decide +kernel
  refine ⟨hlink, ?_, ?_⟩
  · exact hjoin "../l".toList "..".toList _ _ (by decide) (by decide) rfl hlink rfl hparent rfl
      (by decide +kernel) (by decide +kernel)
  · rw [(hup (by decide +kernel)).1]
    decide +kernel

end FileShell
