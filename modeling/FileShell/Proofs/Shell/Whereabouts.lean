import FileShell.Proofs.Disk.Canonical
import FileShell.Proofs.Shell.Effects
import FileShell.Proofs.Shell.Redirection
import Mathlib.Logic.Function.Basic

/-!
# Where sessions are

Sessions share a world and take turns in it. Their directories are canonical and stay so, whatever
is typed in any of them and whichever calls are refused (`directories_canonical`): `cd` goes to
canonical paths alone, and no line makes a link. Nothing but a `cd` that succeeds moves a session,
and it moves no other one; it is not undone when its output cannot be written (`cd_despite_error`).
-/

namespace FileShell

/-- Where `cd` goes with its arguments: home, up, or to the real path of a directory, which is found
with so many links one inside another. -/
inductive Session.Goes (session : Session) (d : Disk) (n : Nat) : List Text → Path → Prop
  | home : session.Goes d n [] session.home
  | up {q : Path} : session.parent? = some q → session.Goes d n [['.', '.']] q
  | real {p q : Path} : p ≠ ['.', '.'] → d.isDir (session.resolve p) = true →
      d.realPath n true (session.resolve p) = .ok q → session.Goes d n [p] q

theorem Session.Goes.canonical {session : Session} {d : Disk} {n : Nat} {args : List Text}
    {q : Path} (h : session.Goes d n args q) (hdir : d.Canonical session.directory)
    (hhome : d.Canonical session.home) : d.Canonical q := by
  cases h with
  | home => exact hhome
  | up hq => exact hdir.parent? hq
  | real _ _ hq => exact Disk.canonical_of_realPath hq

namespace Handler

variable (s : Storage)

/-- `cd` asks the disk and leaves the world as it is. -/
theorem exists_run_cd (args : List Text) (session : Session) :
    ∃ f : Disk → Except CommandError Session,
      (∀ w, ((cd s).run args session).run w = (f w.disk, w)) ∧
      ∀ d session', f d = .ok session' →
        ∃ q, session' = session.goTo q ∧
          session.Goes d (Storage.linksWithin s.nests) args q := by
  rcases args with _ | ⟨p, _ | ⟨q, args⟩⟩
  · exact ⟨fun _ => .ok (session.goTo session.home), fun _ => rfl, fun _ _ h =>
      ⟨session.home, (Except.ok.inj h).symm, .home⟩⟩
  · by_cases hp : p = ['.', '.']
    · subst hp
      rcases hq : session.parent? with _ | q
      · refine ⟨fun _ => .error .atRoot, fun w => ?_, fun _ _ h => by cases h⟩
        simp only [cd, if_true, hq]
        rfl
      · refine ⟨fun _ => .ok (session.goTo q), fun w => ?_, fun _ _ h =>
          ⟨q, (Except.ok.inj h).symm, .up hq⟩⟩
        simp only [cd, if_true, hq]
        rfl
    · refine ⟨fun d =>
        if d.isDir (session.resolve p) then
          if s.refuses .canonicalize (session.resolve p) then .error .cannotChange
          else ((d.realPath (Storage.linksWithin s.nests) true (session.resolve p)).mapError
            fun _ => .cannotChange).map session.goTo
        else .error .noDirectory, fun w => ?_, fun d session' h => ?_⟩
      · simp only [cd, hp, if_false, Act.run_bind, Act.run_lift, Storage.run_isDir, Act.run_ite,
          Act.run_failingWith, Storage.canonicalize, Storage.run_allow, Storage.run_ask]
        rcases w.disk.isDir (session.resolve p)
        · rfl
        rcases s.refuses .canonicalize (session.resolve p)
        · simp only [Bool.not_true, Bool.false_eq_true, if_false, if_true]
          rcases w.disk.realPath (Storage.linksWithin s.nests) true (session.resolve p) with
            _ | q <;> rfl
        · rfl
      · dsimp only at h
        split_ifs at h with hdir
        rcases hq : d.realPath (Storage.linksWithin s.nests) true (session.resolve p) with _ | q
        · rw [hq] at h
          cases h
        · rw [hq] at h
          exact ⟨q, (Except.ok.inj h).symm, .real hp hdir hq⟩
  · exact ⟨fun _ => .error (.usage .cd), fun _ => rfl, fun _ _ h => by cases h⟩

variable {s} {c : Command} {session : Session} {w : World}

theorem route_cd (args : List Text) :
    route (standard s) ⟨"cd".toList, args⟩ = (some (cd s), args) :=
  route_of_ne (by decide) args

theorem eq_of_route_cd {args : List Text} (hr : route (standard s) c = (some (cd s), args)) :
    c = ⟨"cd".toList, args⟩ := by
  rcases (mem_of_route hr).2 with h | h
  · obtain ⟨name, as⟩ := c
    obtain rfl : name = "cd".toList := h.symm
    rw [(Prod.mk.inj ((route_cd as).symm.trans hr)).2]
  · exact absurd h (show ¬ "cd".toList = "cp -r".toList by decide)

/-- A command keeps the home of its session, and the directory too unless it is a `cd` that goes
somewhere and does nothing else. -/
theorem dispatch_moves (s : Storage) (c : Command) (session : Session) (w : World) :
    (dispatch (standard s) c session w).1.home = session.home ∧
      ((dispatch (standard s) c session w).1.directory ≠ session.directory →
        c.name = "cd".toList ∧
        session.Goes w.disk (Storage.linksWithin s.nests) c.args
          (dispatch (standard s) c session w).1.directory ∧
        ∀ t, dispatch (standard s) c session ⟨w.disk, t⟩ =
          ((dispatch (standard s) c session w).1, ⟨w.disk, t⟩)) := by
  rcases hr : route (standard s) c with ⟨_ | h, args⟩
  · unfold dispatch attempt
    rw [hr]
    exact ⟨rfl, fun hne => absurd rfl hne⟩
  have hd (v : World) : dispatch (standard s) c session v = _ := run_dispatch hr
  rcases eq_cd_or_does s (mem_of_route hr).1 with rfl | hdoes
  -- `cd` reads nothing but the disk, so what was shown before does not matter
  · obtain ⟨f, hf, hgoes⟩ := exists_run_cd s args session
    simp only [hf] at hd
    rw [hd]
    rcases hfd : f w.disk with e | session'
    · exact ⟨rfl, fun hne => absurd rfl hne⟩
    · obtain ⟨q, rfl, hq⟩ := hgoes _ _ hfd
      obtain rfl := eq_of_route_cd hr
      refine ⟨rfl, fun _ => ⟨rfl, hq, fun t => ?_⟩⟩
      rw [hd]
      simp only [hfd]
  · rw [hd]
    rcases hrun : (h.run args session).run w with ⟨_ | session', w'⟩
    · exact ⟨rfl, fun hne => absurd rfl hne⟩
    · have hsame := (hdoes args session).gives hrun
      exact ⟨hsame.2, fun hne => absurd hsame.1 hne⟩

end Handler

/-- A line keeps the home of its session, and the directory too unless its command is a `cd` that
goes somewhere and shows nothing; then all it can show is that its output could not be written. -/
theorem runLine_moves (s : Storage) (line : Text) (session : Session) (w : World) :
    (runLine s line session w).1.home = session.home ∧
      ((runLine s line session w).1.directory ≠ session.directory →
        ∃ c, Command.parse? (CommandLine.split line).command = some c ∧ c.name = "cd".toList ∧
          session.Goes w.disk (Storage.linksWithin s.nests) c.args
            (runLine s line session w).1.directory ∧
          Handler.dispatch (Handler.standard s) c session ⟨w.disk, []⟩ =
            ((runLine s line session w).1, ⟨w.disk, []⟩) ∧
          ((runLine s line session w).2.shown = w.shown ∨
            (CommandLine.split line).redirection.isSome ∧ (runLine s line session w).2.shown =
              w.shown ++ "Error writing to file\n".toList)) := by
  unfold runLine execute
  dsimp only
  rcases Command.parse? (CommandLine.split line).command with _ | c
  · exact ⟨rfl, fun hne => absurd rfl hne⟩
  rcases (CommandLine.split line).redirection with _ | ⟨m, p⟩
  · obtain ⟨hhome, hmove⟩ := Handler.dispatch_moves s c session w
    refine ⟨hhome, fun hne => ?_⟩
    obtain ⟨hname, hgoes, hrun⟩ := hmove hne
    refine ⟨c, rfl, hname, hgoes, hrun [], .inl ?_⟩
    exact congrArg (·.2.shown) (hrun w.shown)
  · rcases eq_or_ne p [] with rfl | hp
    · dsimp only
      rw [run_bind, executeRedirected_nil]
      exact ⟨rfl, fun hne => absurd rfl hne⟩
    obtain ⟨hhome, hmove⟩ := Handler.dispatch_moves s c session ⟨w.disk, []⟩
    rcases ha : Handler.attempt (Handler.standard s) c session ⟨w.disk, []⟩ with
      ⟨⟨after, stopped⟩, alone⟩
    have hd := Handler.dispatch_of_attempt ha
    rw [hd] at hhome hmove
    dsimp only
    rw [run_bind]
    rcases stopped with _ | r
    · rw [run_executeRedirected hp ha]
      refine ⟨hhome, fun hne => ?_⟩
      obtain ⟨hname, hgoes, hrun⟩ := hmove hne
      refine ⟨c, rfl, hname, hgoes, hrun [], ?_⟩
      obtain rfl : alone = ⟨w.disk, []⟩ := (Prod.mk.inj (hd.symm.trans (hrun []))).2
      rw [run_pure, Storage.run_write_orShow]
      split
      · exact .inl rfl
      · exact .inr ⟨rfl, by rw [List.append_assoc]; rfl⟩
    · rw [run_executeRedirected_stopped hp ha]
      refine ⟨hhome, fun hne => ?_⟩
      obtain ⟨hname, hgoes, hrun⟩ := hmove hne
      exact ⟨c, rfl, hname, hgoes, hrun [], .inl rfl⟩

/-! ## Sessions that share a world -/

/-- A world, and the sessions in it. -/
structure Shared (ι : Type) where
  world : World
  sessions : ι → Session

/-- A line, the session it is typed in, and the storage it is run with. -/
structure Typed (ι : Type) where
  storage : Storage
  who : ι
  line : Text

namespace Shared

variable {ι : Type} [DecidableEq ι]

/-- Runs a line in its session. -/
def run (σ : Shared ι) (e : Typed ι) : Shared ι where
  world := (runLine e.storage e.line (σ.sessions e.who) σ.world).2
  sessions := Function.update σ.sessions e.who
    (runLine e.storage e.line (σ.sessions e.who) σ.world).1

/-- Runs lines in the order they are typed. -/
def runAll (σ : Shared ι) (es : List (Typed ι)) : Shared ι := es.foldl run σ

/-- Every session is in a canonical directory, and so is every home. -/
def Canonical (σ : Shared ι) : Prop := ∀ i,
  σ.world.disk.Canonical (σ.sessions i).directory ∧ σ.world.disk.Canonical (σ.sessions i).home

theorem Canonical.run {σ : Shared ι} (h : σ.Canonical) (e : Typed ι) : (σ.run e).Canonical := by
  have hd : Disk.NoNewLink σ.world.disk (σ.run e).world.disk :=
    Disk.noNewLink_of_changes (only_runLine e.storage e.line _ σ.world)
  intro i
  by_cases hi : i = e.who
  · subst hi
    obtain ⟨hdir, hhome⟩ := h e.who
    obtain ⟨hkept, hmove⟩ := runLine_moves e.storage e.line (σ.sessions e.who) σ.world
    simp only [Shared.run, Function.update_self]
    constructor
    · by_cases hne : (runLine e.storage e.line (σ.sessions e.who) σ.world).1.directory =
          (σ.sessions e.who).directory
      · rw [hne]
        exact hdir.of_noNewLink hd
      · obtain ⟨c, -, -, hgoes, -⟩ := hmove hne
        exact (hgoes.canonical hdir hhome).of_noNewLink hd
    · rw [hkept]
      exact hhome.of_noNewLink hd
  · simp only [Shared.run, Function.update_of_ne hi]
    exact ⟨(h i).1.of_noNewLink hd, (h i).2.of_noNewLink hd⟩

theorem Canonical.runAll : ∀ (es : List (Typed ι)) {σ : Shared ι}, σ.Canonical →
    (σ.runAll es).Canonical
  | [], _, h => h
  | e :: es, _, h => Canonical.runAll es (h.run e)

/-- Sessions that start in canonical directories are in canonical directories whatever is typed in
them. A line moves its own session alone, and only if its command is a `cd` that succeeds; then
all the line can show is that its output could not be written. -/
theorem directories_canonical {σ : Shared ι} (h : σ.Canonical) (es : List (Typed ι)) :
    (∀ i, (σ.runAll es).world.disk.Canonical ((σ.runAll es).sessions i).directory) ∧
      ∀ (e : Typed ι) (i : ι), (((σ.runAll es).run e).sessions i).directory ≠
          ((σ.runAll es).sessions i).directory →
        i = e.who ∧ ∃ c, Command.parse? (CommandLine.split e.line).command = some c ∧
          c.name = "cd".toList ∧
          Handler.dispatch (Handler.standard e.storage) c ((σ.runAll es).sessions i)
              ⟨(σ.runAll es).world.disk, []⟩ =
            (((σ.runAll es).run e).sessions i, ⟨(σ.runAll es).world.disk, []⟩) ∧
          (((σ.runAll es).run e).world.shown = (σ.runAll es).world.shown ∨
            (CommandLine.split e.line).redirection.isSome ∧ ((σ.runAll es).run e).world.shown =
              (σ.runAll es).world.shown ++ "Error writing to file\n".toList) := by
  refine ⟨fun i => (Canonical.runAll es h i).1, fun e i hne => ?_⟩
  generalize σ.runAll es = τ at hne ⊢
  by_cases hi : i = e.who
  · subst hi
    have hupd : ((τ.run e).sessions e.who) =
        (runLine e.storage e.line (τ.sessions e.who) τ.world).1 := Function.update_self ..
    rw [hupd] at hne ⊢
    obtain ⟨c, hc, hname, -, hrun, hshown⟩ :=
      (runLine_moves e.storage e.line (τ.sessions e.who) τ.world).2 hne
    exact ⟨rfl, c, hc, hname, hrun, hshown⟩
  · have hupd : ((τ.run e).sessions i) = τ.sessions i := Function.update_of_ne hi _ _
    rw [hupd] at hne
    exact absurd rfl hne

/-- A link to a directory that is not beside it. -/
def crossroads : Disk where
  items := [
    (["w".toList], .directory),
    (["w".toList, "d".toList], .directory),
    (["l".toList], .link "/w/d".toList)]

/-- Two sessions that start beside the link. -/
def crossing : Shared Bool := ⟨⟨crossroads, []⟩, fun _ => ⟨"/".toList, "/w".toList, true⟩⟩

/-- One session goes through the link to the directory, which the other one then removes. -/
def crossed : List (Typed Bool) :=
  [⟨{ chunk := 512 }, true, "cd l".toList⟩, ⟨{ chunk := 512 }, false, "rmdir w/d".toList⟩]

theorem canonical_crossing : crossing.Canonical := by
  have hw : crossroads.Straight ["w".toList] := by
    refine (Disk.straight_nil crossroads).concat (by decide) (by decide) fun t h => ?_
    cases h
  exact fun i => ⟨⟨[], rfl, Disk.straight_nil crossroads⟩, ⟨["w".toList], rfl, hw⟩⟩

theorem directories_canonical_crossed :
    crossing.Canonical ∧
      (∀ i, (crossing.runAll crossed).world.disk.Canonical
        ((crossing.runAll crossed).sessions i).directory) ∧
      ((crossing.runAll crossed).sessions true).directory = "/w/d".toList ∧
      ((crossing.runAll crossed).sessions false).directory = "/".toList ∧
      (crossing.runAll crossed).world.disk.get? ["w".toList, "d".toList] = none := by
  refine ⟨canonical_crossing, (directories_canonical canonical_crossing crossed).1, ?_, ?_, ?_⟩ <;>
    decide +kernel

end Shared

/-- A `cd` is not undone when its output cannot be written, so a line that shows an error may move
its session. -/
theorem cd_despite_error :
    let session : Session := ⟨"/w".toList, "/".toList, true⟩
    let line := "cd d > x/f".toList
    (runLine { chunk := 512 } line session ⟨Shared.crossroads, []⟩).2.shown =
        "Error writing to file\n".toList ∧
      (runLine { chunk := 512 } line session ⟨Shared.crossroads, []⟩).1.directory =
        "/w/d".toList := by
  refine ⟨?_, ?_⟩ <;> decide +kernel

end FileShell
