import FileShell.Proofs.Shell.Entering

/-!
# Where a `cd` lands

A `cd` that shows nothing takes its session to a directory that is there, unless it is one that the
disk is not asked for: alone it goes home, and with two dots to the parent, and these have to be
there by themselves (`Shared.cd_lands`). They are if every session and every home started that way
and no line has removed a directory. Otherwise they may be gone (`Shared.cd_to_nowhere`).
-/

namespace FileShell

/-- The directory that a `cd` with these arguments takes without asking the disk. -/
def Session.unasked? (session : Session) : List Text → Option Path
  | [] => some session.home
  | [p] => if p = ['.', '.'] then session.parent? else none
  | _ => none

variable {d : Disk} {session : Session} {args : List Text} {p q : Path} {n : Nat}

/-- The directory that `cd` goes to is there, if it is not one that the disk is not asked for. -/
theorem Session.Goes.isDir_iff (hs : d.Sound) (h : session.Goes d n args q) :
    d.isDir q = true ↔ ∀ r ∈ session.unasked? args, d.isDir r = true := by
  cases h with
  | home => simp [unasked?]
  | up hq => simp [unasked?, hq]
  | real hup hdir hq =>
    obtain ⟨k, _, rfl, hk, -⟩ := Disk.exists_settled hdir hq
    simp [unasked?, hup, hk.isDir hs]

/-- From a directory that is there, with a home that is one, every `cd` goes to one. -/
theorem Session.Goes.isDir (hs : d.Sound) (hc : d.Canonical session.directory)
    (hdir : d.isDir session.directory = true) (hhome : d.isDir session.home = true)
    (h : session.Goes d n args q) : d.isDir q = true := by
  obtain ⟨l, hl, hstraight⟩ := hc
  have hsettled : d.Settled l := Disk.settled_of_isDir hstraight (hl ▸ hdir)
  have harg {x : Text} (hx : session.Goes d n [x] q) : d.isDir q = true := by
    obtain ⟨k, rfl, hk, -⟩ := hx.enters hs hsettled hl
    exact hk.isDir hs
  cases h with
  | home => exact hhome
  | up hq => exact harg (.up hq)
  | real hup hp hq => exact harg (.real hup hp hq)

/-- Writing a file makes no directory and takes none away. -/
theorem Disk.Sound.isDir_write {m : Loc} (hs : d.Sound) (h : d.locateWrite p = .ok m) (b : Bytes)
    (q : Path) : (d.write m b).isDir q = d.isDir q := by
  obtain ⟨hne, hdir, -⟩ := hs.of_locateWrite h
  have hkeeps := hs.keeps_write h b
  have hsame := Disk.isDirectory_write b hne (by simpa [Disk.isDirectory] using hdir)
  have hback : Disk.Keeps (d.write m b) d := ⟨fun {l} hl => hsame l ▸ hl, hkeeps.link.symm⟩
  rw [Bool.eq_iff_iff, Disk.isDir_iff, Disk.isDir_iff]
  constructor
  · rintro ⟨l, hl, hd⟩
    exact ⟨l, Disk.locate_of_keeps hback hl, hback.directory hd⟩
  · rintro ⟨l, hl, hd⟩
    exact ⟨l, Disk.locate_of_keeps hkeeps hl, hkeeps.directory hd⟩

/-! ## Lines -/

/-- A line whose command is a `cd` that shows nothing goes where that goes, and leaves the
directories as they are. -/
theorem runLine_goes {s : Storage} {line : Text} {w : World} (hs : w.disk.Sound)
    (hc : Command.parse? (CommandLine.split line).command = some ⟨"cd".toList, args⟩)
    (hr : ∀ r, (CommandLine.split line).redirection = some r → r.target ≠ [])
    (hq : (Handler.dispatch (Handler.standard s) ⟨"cd".toList, args⟩ session
      ⟨w.disk, []⟩).2.shown = []) :
    ∃ q, session.Goes w.disk (Storage.linksWithin s.nests) args q ∧
      (runLine s line session w).1 = session.goTo q ∧
      ∀ p, (runLine s line session w).2.disk.isDir p = w.disk.isDir p := by
  obtain ⟨q, hg, hrun⟩ := Handler.goes_of_quiet (w := ⟨w.disk, []⟩) hq
  refine ⟨q, hg, ?_⟩
  unfold runLine execute
  dsimp only
  rw [hc, run_bind]
  rcases hred : (CommandLine.split line).redirection with _ | ⟨m, t⟩
  · have h : Handler.attempt (Handler.standard s) ⟨"cd".toList, args⟩ session w = _ :=
      hrun w.shown
    simp only [h, run_pure, implies_true, and_self]
  · have ht : t ≠ [] := hr _ hred
    dsimp only
    rw [run_executeRedirected (w := w) ht (hrun []), run_pure]
    refine ⟨rfl, fun p => ?_⟩
    rw [Storage.run_write_orShow]
    split
    · exact hs.isDir_write (Storage.locateWrite_of_writesAt? ‹_›) _ p
    · rfl

/-- A line whose command is no `rmdir`. -/
def CommandLine.KeepsDirectories (line : Text) : Prop :=
  ∀ c, Command.parse? (CommandLine.split line).command = some c → c.name ≠ "rmdir".toList

/-- A canonical path of a directory stays one if the line's command is no `rmdir`. -/
theorem isDir_runLine {s : Storage} {line : Text} {w : World} (hs : w.disk.Sound)
    (hline : CommandLine.KeepsDirectories line) (hc : w.disk.Canonical p)
    (hd : w.disk.isDir p = true) : (runLine s line session w).2.disk.isDir p = true := by
  have hleaves := leaves_runLine s line session hs
  have hs' : (runLine s line session w).2.disk.Sound :=
    hs.of_changes (only_runLine s line session w)
  obtain ⟨l, rfl, hl⟩ := hc
  obtain ⟨-, hdir, hfits⟩ := Disk.settled_of_isDir hl hd
  have hstays : ∀ c, Command.parse? (CommandLine.split line).command = some c →
      ¬ Removes w.disk session c l := by
    intro c hcmd hrem
    cases hrem with
    | rm _ hi hne => exact hne (Option.some.inj (hi.symm.trans (Disk.isDirectory_iff.1 hdir)))
    | rmdir => exact hline _ hcmd rfl
    | rmdirAll => exact hline _ hcmd rfl
  have hdir' : (runLine s line session w).2.disk.isDirectory l = true := by
    rw [Disk.isDirectory_iff] at hdir ⊢
    rcases hi : (runLine s line session w).2.disk.get? l with _ | i
    · obtain ⟨c, hcmd, hrem⟩ := hleaves.gone l _ hdir hi
      exact absurd hrem (hstays c hcmd)
    · rcases hleaves.kept l _ _ hdir hi with hsame | ⟨c, _, hcmd, -, hrem, -⟩
      · cases hsame
        rfl
      · exact absurd hrem (hstays c hcmd)
  have hsettled : (runLine s line session w).2.disk.Settled l :=
    ⟨hl.of_noNewLink hleaves.noNewLink, hdir', hfits⟩
  exact hsettled.isDir hs'

/-! ## Sessions that share a world -/

namespace Shared

variable {ι : Type} [DecidableEq ι]

/-- Every session is in a directory that is there, and every home is one. -/
def Housed (σ : Shared ι) : Prop := ∀ i,
  σ.world.disk.isDir (σ.sessions i).directory = true ∧ σ.world.disk.isDir (σ.sessions i).home = true

theorem Housed.run {σ : Shared ι} (hs : σ.world.disk.Sound) (hc : σ.Canonical) (h : σ.Housed)
    {e : Typed ι} (he : CommandLine.KeepsDirectories e.line) : (σ.run e).Housed := by
  have hkeep {p : Path} (hp : σ.world.disk.Canonical p) (hd : σ.world.disk.isDir p = true) :
      (σ.run e).world.disk.isDir p = true := isDir_runLine hs he hp hd
  intro i
  by_cases hi : i = e.who
  · subst hi
    obtain ⟨hdir, hhome⟩ := h e.who
    obtain ⟨hcdir, hchome⟩ := hc e.who
    obtain ⟨hkept, hmove⟩ := runLine_moves e.storage e.line (σ.sessions e.who) σ.world
    have hsession : (σ.run e).sessions e.who =
        (runLine e.storage e.line (σ.sessions e.who) σ.world).1 := Function.update_self ..
    rw [hsession]
    refine ⟨?_, hkept ▸ hkeep hchome hhome⟩
    by_cases hne : (runLine e.storage e.line (σ.sessions e.who) σ.world).1.directory =
        (σ.sessions e.who).directory
    · exact hne ▸ hkeep hcdir hdir
    · obtain ⟨c, -, -, hgoes, -⟩ := hmove hne
      exact hkeep (hgoes.canonical hcdir hchome) (hgoes.isDir hs hcdir hdir hhome)
  · have hsession : (σ.run e).sessions i = σ.sessions i := Function.update_of_ne hi _ _
    rw [hsession]
    exact ⟨hkeep (hc i).1 (h i).1, hkeep (hc i).2 (h i).2⟩

theorem Housed.runAll : ∀ (es : List (Typed ι)) {σ : Shared ι}, σ.world.disk.Sound →
    σ.Canonical → σ.Housed → (∀ e ∈ es, CommandLine.KeepsDirectories e.line) →
    (σ.runAll es).Housed
  | [], _, _, _, h, _ => h
  | e :: es, σ, hs, hc, h, he => by
    obtain ⟨he, hes⟩ := List.forall_mem_cons.1 he
    exact Housed.runAll es (hs.of_changes (only_runLine e.storage e.line (σ.sessions e.who) σ.world))
      (hc.run e) (h.run hs hc he) hes

/-- Right after a `cd` that shows nothing, its session is in a directory that is there, exactly if
that is so of the one it takes without asking the disk, should it take such a one. Sessions that
start in directories that are there, with homes that are, stay in such directories as long as no
line is an `rmdir`. -/
theorem cd_lands {σ : Shared ι} (hs : σ.world.disk.Sound) (hc : σ.Canonical)
    (es : List (Typed ι)) :
    (∀ (e : Typed ι) (args : List Text),
      Command.parse? (CommandLine.split e.line).command = some ⟨"cd".toList, args⟩ →
      (∀ r, (CommandLine.split e.line).redirection = some r → r.target ≠ []) →
      (Handler.dispatch (Handler.standard e.storage) ⟨"cd".toList, args⟩
        ((σ.runAll es).sessions e.who) ⟨(σ.runAll es).world.disk, []⟩).2.shown = [] →
      (((σ.runAll es).run e).world.disk.isDir
          (((σ.runAll es).run e).sessions e.who).directory = true ↔
        ∀ p ∈ ((σ.runAll es).sessions e.who).unasked? args,
          (σ.runAll es).world.disk.isDir p = true)) ∧
    (σ.Housed → (∀ e ∈ es, CommandLine.KeepsDirectories e.line) → (σ.runAll es).Housed) := by
  refine ⟨fun e args hparse hr hq => ?_, Housed.runAll es hs hc⟩
  have hs := sound_runAll es hs
  generalize σ.runAll es = τ at hq hs ⊢
  obtain ⟨q, hg, hsession, hdir⟩ := runLine_goes hs hparse hr hq
  have hgone : (τ.run e).sessions e.who = (τ.sessions e.who).goTo q :=
    (Function.update_self ..).trans hsession
  have hsame : (τ.run e).world.disk.isDir q = τ.world.disk.isDir q := hdir q
  rw [hgone, Session.goTo, hsame]
  exact hg.isDir_iff hs

/-- Two sessions, one of them in the inner one of two directories, where both are at home. -/
def lodgers : Shared Bool :=
  ⟨⟨crossroads, []⟩, fun i => ⟨if i then "/w/d".toList else "/".toList, "/w/d".toList, true⟩⟩

theorem canonical_lodgers : lodgers.Canonical := by
  have hd : crossroads.Straight ["w".toList, "d".toList] := by
    refine ((Disk.straight_nil _).concat (x := "w".toList) ?_ ?_ fun t h => ?_).concat ?_ ?_
      fun t h => ?_
    · decide
    · decide
    · cases h
    · decide
    · decide
    · cases h
  intro i
  refine ⟨?_, ["w".toList, "d".toList], rfl, hd⟩
  cases i
  · exact ⟨[], rfl, Disk.straight_nil _⟩
  · exact ⟨["w".toList, "d".toList], rfl, hd⟩

theorem housed_lodgers : lodgers.Housed := by
  intro i
  cases i <;> decide +kernel

/-- A session goes up from a directory that is no more to one that is still there; and it goes
through the link while the link is removed. -/
theorem cd_lands_lodgers :
    let inner : Typed Bool := ⟨{ chunk := 512 }, false, "rmdir w/d".toList⟩
    let up : Typed Bool := ⟨{ chunk := 512 }, true, "cd ..".toList⟩
    let link : Typed Bool := ⟨{ chunk := 512 }, false, "rm l".toList⟩
    ((lodgers.runAll [inner]).sessions true).directory = "/w/d".toList ∧
      (lodgers.runAll [inner]).world.disk.isDir "/w/d".toList = false ∧
      ((lodgers.runAll [inner]).run up).world.disk.isDir
        (((lodgers.runAll [inner]).run up).sessions true).directory = true ∧
      (lodgers.runAll [up, link]).Housed := by
  intro inner up link
  obtain ⟨hlands, -⟩ := cd_lands sound_crossroads canonical_lodgers [inner]
  obtain ⟨-, hstays⟩ := cd_lands sound_crossroads canonical_lodgers [up, link]
  have hup : Command.parse? (CommandLine.split up.line).command =
    some ⟨"cd".toList, [['.', '.']]⟩ := by decide +kernel
  refine ⟨by decide +kernel, by decide +kernel, ?_, ?_⟩
  · refine (hlands up _ hup (by decide +kernel) (by decide +kernel)).2 ?_
    decide +kernel
  · have hnames : ∀ e ∈ [up, link],
        ∀ c ∈ Command.parse? (CommandLine.split e.line).command, c.name ≠ "rmdir".toList := by
      decide +kernel
    exact hstays housed_lodgers hnames

/-- Once the directory and the one above it have been removed in the other session, `cd ..` and `cd`
show nothing and lead to directories that are not there. -/
theorem cd_to_nowhere :
    let gone := lodgers.runAll [⟨{ chunk := 512 }, false, "rmdir w/d".toList⟩,
      ⟨{ chunk := 512 }, false, "rmdir w".toList⟩]
    let up := gone.run ⟨{ chunk := 512 }, true, "cd ..".toList⟩
    let home := gone.run ⟨{ chunk := 512 }, true, "cd".toList⟩
    lodgers.Canonical ∧ lodgers.Housed ∧
      (up.world.shown = [] ∧ (up.sessions true).directory = "/w".toList ∧
        up.world.disk.isDir "/w".toList = false) ∧
      (home.world.shown = [] ∧ (home.sessions true).directory = "/w/d".toList ∧
        home.world.disk.isDir "/w/d".toList = false) := by
  refine ⟨canonical_lodgers, housed_lodgers, ?_, ?_⟩ <;> decide +kernel

end Shared

end FileShell
