import FileShell.Proofs.Storage.Runs
import FileShell.Shell.Run

/-!
# Dispatched lines

What a line without a redirection does: its command is routed to a handler by its name, and a
handler that fails has its error shown, unless it stops. So a line that comes to its end and shows
nothing is one whose handler has succeeded (`run_of_quiet`).
-/

namespace FileShell

variable {s : Storage} {line c : Text} {session : Session} {w : World}

/-- A session in an absolute directory resolves every path to an absolute one. -/
theorem Session.isAbsolute_resolve {session : Session} (h : session.directory.isAbsolute = true)
    (p : Path) : (session.resolve p).isAbsolute = true := by
  unfold resolve
  split
  · assumption
  · rcases hd : session.directory with _ | ⟨c, t⟩
    · simp [hd, Path.isAbsolute] at h
    · simpa [hd, Path.isAbsolute] using h

theorem Session.resolve_ne_nil (session : Session) (x : Path) : session.resolve x ≠ [] := by
  unfold resolve
  split
  · rename_i habs
    rintro rfl
    cases habs
  · simp

namespace CommandError

/-- The stop that a failure is, if it is one. -/
def stop? : CommandError → Option Stop
  | .stopped r => some r
  | _ => none

/-- What is shown of a failure: a line, or nothing if it is a stop. -/
def report : CommandError → Text
  | .stopped _ => []
  | e => "Error: ".toList ++ e.message ++ ['\n']

theorem eq_stopped_of_stop? {e : CommandError} {r : Stop} (h : e.stop? = some r) :
    e = .stopped r := by
  cases e with
  | stopped r' => exact congrArg _ (Option.some.inj h)
  | _ => cases h

theorem report_of_stop?_eq_none {e : CommandError} (h : e.stop? = none) :
    e.report = "Error: ".toList ++ e.message ++ ['\n'] := by
  cases e with
  | stopped r => cases h
  | _ => rfl

end CommandError

namespace Handler

theorem run_isThere (p : Path) (w : World) :
    isThere p w = (w.disk.pathExists p && !w.disk.isDir p, w) := rfl

theorem route_cp {a b : Text} (h : a ≠ treeFlag) :
    route (standard s) ⟨"cp".toList, [a, b]⟩ = (some (cp s), [a, b]) := by
  simp only [route, h, and_false, if_false]
  rfl

theorem route_cpTree (args : List Text) :
    route (standard s) ⟨"cp".toList, treeFlag :: args⟩ = (some (cpTree s), args) := by
  simp only [route, and_self, if_true]
  rfl

theorem route_of_ne {name : Text} (h : name ≠ "cp".toList) (args : List Text) :
    route (standard s) ⟨name, args⟩ = (find? (standard s) name, args) := by
  cases args with
  | nil => rfl
  | cons a args => simp only [route, h, false_and, if_false]

theorem route_zip (args : List Text) :
    route (standard s) ⟨"zip".toList, args⟩ = (some (zip s), args) :=
  route_of_ne (by decide) args

theorem route_unzip (args : List Text) :
    route (standard s) ⟨"unzip".toList, args⟩ = (some (unzip s), args) :=
  route_of_ne (by decide) args

theorem run_attempt {cmd : Command} {h : Handler} {args : List Text}
    (hr : route (standard s) cmd = (some h, args)) :
    attempt (standard s) cmd session w = match (h.run args session).run w with
      | (.ok session', w') => ((session', none), w')
      | (.error e, w') => ((session, e.stop?), { w' with shown := w'.shown ++ e.report }) := by
  unfold attempt
  rw [hr]
  simp only [run_bind]
  rcases (h.run args session).run w with ⟨e | session', w'⟩
  · cases e with
    | stopped r => simp [CommandError.stop?, CommandError.report]
    | _ => simp [CommandError.stop?, CommandError.report, run_showLine]
  · rfl

theorem dispatch_of_attempt {handlers : List Handler} {cmd : Command}
    {r : (Session × Option Stop) × World} (h : attempt handlers cmd session w = r) :
    dispatch handlers cmd session w = (r.1.1, r.2) := by
  rw [dispatch, run_bind, h]
  rfl

theorem run_dispatch {cmd : Command} {h : Handler} {args : List Text}
    (hr : route (standard s) cmd = (some h, args)) :
    dispatch (standard s) cmd session w = match (h.run args session).run w with
      | (.ok session', w') => (session', w')
      | (.error e, w') => (session, { w' with shown := w'.shown ++ e.report }) := by
  unfold dispatch
  rw [run_bind, run_attempt hr]
  rcases (h.run args session).run w with ⟨_ | _, w'⟩ <;> rfl

theorem disk_dispatch_some {cmd : Command} {h : Handler} {args : List Text}
    (hr : route (standard s) cmd = (some h, args)) :
    (dispatch (standard s) cmd session w).2.disk = ((h.run args session).run w).2.disk := by
  rw [run_dispatch hr]
  rcases (h.run args session).run w with ⟨_ | _, w'⟩ <;> rfl

theorem disk_dispatch_none {cmd : Command} {args : List Text}
    (hr : route (standard s) cmd = (none, args)) :
    (dispatch (standard s) cmd session w).2.disk = w.disk := by
  unfold dispatch attempt
  rw [hr]
  rfl

end Handler

theorem execute_eq {cmd : Command} (hl : CommandLine.split line = ⟨c, none⟩)
    (hc : Command.parse? c = some cmd) :
    execute s line session = Handler.attempt (Handler.standard s) cmd session := by
  unfold execute
  simp only [hl, hc]

/-- A line without a redirection is its command. -/
theorem runLine_eq {cmd : Command} (hl : CommandLine.split line = ⟨c, none⟩)
    (hc : Command.parse? c = some cmd) :
    runLine s line session = Handler.dispatch (Handler.standard s) cmd session := by
  rw [runLine, execute_eq hl hc]
  rfl

theorem runLine_of_ok {cmd : Command} {h : Handler} {args : List Text} {session' : Session}
    {w' : World} (hl : CommandLine.split line = ⟨c, none⟩) (hc : Command.parse? c = some cmd)
    (hr : Handler.route (Handler.standard s) cmd = (some h, args))
    (hrun : (h.run args session).run w = (.ok session', w')) :
    runLine s line session w = (session', w') := by
  rw [runLine_eq hl hc, Handler.run_dispatch hr, hrun]

/-- A line that comes to its end has a command that was not stopped. -/
theorem stop?_of_execute {cmd : Command} {h : Handler} {args : List Text} {e : CommandError}
    {w' : World} (hl : CommandLine.split line = ⟨c, none⟩) (hc : Command.parse? c = some cmd)
    (hr : Handler.route (Handler.standard s) cmd = (some h, args))
    (hend : (execute s line session w).1.2 = none)
    (hrun : (h.run args session).run w = (.error e, w')) : e.stop? = none := by
  rwa [execute_eq hl hc, Handler.run_attempt hr, hrun] at hend

/-- A handler that takes back nothing of what was shown, and is not stopped, has succeeded if
nothing more is shown. -/
theorem run_of_quiet {cmd : Command} {h : Handler} {args : List Text}
    (hl : CommandLine.split line = ⟨c, none⟩) (hc : Command.parse? c = some cmd)
    (hr : Handler.route (Handler.standard s) cmd = (some h, args))
    (hm : w.shown <+: ((h.run args session).run w).2.shown)
    (hend : ∀ e w', (h.run args session).run w = (.error e, w') → e.stop? = none)
    (hq : (runLine s line session w).2.shown = w.shown) :
    ∃ session', (h.run args session).run w = (.ok session', (runLine s line session w).2) := by
  rw [runLine_eq hl hc, Handler.run_dispatch hr] at hq ⊢
  rcases hrun : (h.run args session).run w with ⟨e | session', w'⟩
  · simp only [hrun] at hq hm
    have := hm.length_le
    rw [← hq, CommandError.report_of_stop?_eq_none (hend e w' hrun), List.length_append,
      List.length_append, List.length_singleton] at this
    omega
  · exact ⟨session', rfl⟩

end FileShell
