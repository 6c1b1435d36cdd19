import FileShell.Proofs.Disk.Steps
import FileShell.Proofs.Shell.Dispatch
import FileShell.Proofs.Shell.Splitting

/-!
# Redirected lines

A line that redirects is its command alone, with what it shows kept apart, and one write after it
(`redirected_line`). The target is resolved in the session that the command leaves, and opened on
the disk that it leaves. Errors of the command are written like anything it shows; only a target
that is missing or cannot be opened is shown. The null device swallows what is written to it, and
nothing is written if the command stops (`redirected_limits`).
-/

namespace FileShell

/-- What of the bytes held before is still there once a text was written. -/
def Mode.kept : Mode → Bytes → Bytes
  | .overwrite, _ => []
  | .append, b => b

namespace Storage

variable (s : Storage) (d : Disk) (p : Path)

/-- Where a text for the path is written, if the path can be opened for that. -/
def writesAt? : Option Loc :=
  if s.refuses .write p then none
  else match d.locateWrite p with
    | .ok l => some l
    | .error _ => none

variable {s d p} {l : Loc}

theorem locateWrite_of_writesAt? (h : s.writesAt? d p = some l) : d.locateWrite p = .ok l := by
  unfold writesAt? at h
  split_ifs at h
  split at h
  · rwa [← Option.some.inj h]
  · cases h

theorem ne_nil_of_writesAt? (h : s.writesAt? d p = some l) : l ≠ [] :=
  Disk.ne_nil_of_locateWrite (locateWrite_of_writesAt? h)

theorem run_write_orShow (s : Storage) (p : Path) (t : Text) (m : Mode) (line : Text) (w : World) :
    (s.write p t (m = .append)).orShow line w = match s.writesAt? w.disk p with
      | some l => ((), { w with
          disk := w.disk.write l (m.kept (w.disk.heldAt l) ++ Utf8.encode t) })
      | none => ((), { w with shown := w.shown ++ line ++ ['\n'] }) := by
  rw [run_orShow, run_write, writesAt?]
  rcases s.refuses .write p
  · simp only [Bool.false_eq_true, if_false]
    rcases w.disk.locateWrite p with e | l
    · rfl
    · cases m <;> rfl
  · rfl

end Storage

section Line

variable {s : Storage} {session after : Session} {w alone : World} {c b t : Text} {cmd : Command}
  {m : Mode} {stopped : Option Stop}

theorem runLine_of_execute {line : Text} {r : (Session × Option Stop) × World}
    (h : execute s line session w = r) : runLine s line session w = (r.1.1, r.2) := by
  rw [runLine, run_bind, h]
  rfl

/-- A line without a sign of redirection is its command. -/
theorem execute_plain (hc : '>' ∉ c) (hcmd : Command.parse? c = some cmd) :
    execute s c session = Handler.attempt (Handler.standard s) cmd session :=
  execute_eq (CommandLine.split_of_not_mem hc) (by rw [Command.parse?_strip, hcmd])

/-- Blanks between a command and a sign do not count, nor do blanks around the target. -/
theorem execute_redirected (hc : '>' ∉ c) (hcmd : Command.parse? c = some cmd)
    (hb : ∀ x ∈ b, isBlank x = true) (hm : m = .overwrite → ¬ ['>', '>'] <:+: '>' :: t) :
    execute s (c ++ b ++ m.sign ++ t) session = executeRedirected s cmd ⟨m, t.strip⟩ session := by
  have hcb : '>' ∉ c ++ b := by
    rw [List.mem_append, not_or]
    exact ⟨hc, fun h => absurd (hb _ h) (by decide)⟩
  unfold execute
  rw [CommandLine.split_append m hcb t hm]
  dsimp only
  rw [Command.parse?_strip, Command.parse?_append_blanks hb, hcmd]

theorem executeRedirected_nil (cmd : Command) (m : Mode) :
    executeRedirected s cmd ⟨m, []⟩ session w =
      ((session, none), { w with
        shown := w.shown ++ "Error: Missing redirection target\n".toList }) := by
  show (((session, none), { w with
    shown := w.shown ++ "Error: Missing redirection target".toList ++ ['\n'] }) :
      (Session × Option Stop) × World) = _
  rw [List.append_assoc]
  rfl

/-- The output of a command is gathered before its target is resolved and opened. -/
theorem run_executeRedirected {p : Path} (hp : p ≠ [])
    (ha : Handler.attempt (Handler.standard s) cmd session ⟨w.disk, []⟩ = ((after, none), alone)) :
    executeRedirected s cmd ⟨m, p⟩ session w = ((after, none),
      ((s.write (after.resolve p) alone.shown (m = .append)).orShow
        "Error writing to file".toList ⟨alone.disk, w.shown⟩).2) := by
  have he : p.isEmpty = false := by simpa using hp
  unfold executeRedirected capture
  simp only [he, Bool.false_eq_true, if_false, run_bind, ha, Option.isNone_none, if_true, run_pure]

/-- Nothing is written if the command stops. -/
theorem run_executeRedirected_stopped {p : Path} {r : Stop} (hp : p ≠ [])
    (ha : Handler.attempt (Handler.standard s) cmd session ⟨w.disk, []⟩ =
      ((after, some r), alone)) :
    executeRedirected s cmd ⟨m, p⟩ session w = ((after, some r), ⟨alone.disk, w.shown⟩) := by
  have he : p.isEmpty = false := by simpa using hp
  unfold executeRedirected capture
  simp only [he, Bool.false_eq_true, if_false, run_bind, ha, Option.isNone_some, run_pure]

/-- A line that redirects leaves the session that its command leaves. -/
theorem fst_executeRedirected {p : Path} (hp : p ≠ []) :
    (executeRedirected s cmd ⟨m, p⟩ session w).1 =
      (Handler.attempt (Handler.standard s) cmd session ⟨w.disk, []⟩).1 := by
  rcases ha : Handler.attempt (Handler.standard s) cmd session ⟨w.disk, []⟩ with
    ⟨⟨after, _ | r⟩, alone⟩
  · rw [run_executeRedirected hp ha]
  · rw [run_executeRedirected_stopped hp ha]

/-- A line that redirects to an empty target does nothing but say so. Any other runs its command
as if alone, with nothing shown yet, and writes what that shows over the file at the target or
after what it holds; the target is the one that the session names afterwards. Nothing is shown then,
and nothing else is changed, but for the null device, which is as before. If the target cannot be
opened, this is what is shown, and nothing else is changed at all. If the command stops, so does the
line, and nothing is written or shown. -/
theorem redirected_line (hc : '>' ∉ c) (hcmd : Command.parse? c = some cmd)
    (hb : ∀ x ∈ b, isBlank x = true) (hm : m = .overwrite → ¬ ['>', '>'] <:+: '>' :: t)
    (ha : execute s c session ⟨w.disk, []⟩ = ((after, stopped), alone)) :
    (t.strip = [] → execute s (c ++ b ++ m.sign ++ t) session w = ((session, none), { w with
      shown := w.shown ++ "Error: Missing redirection target\n".toList })) ∧
    (t.strip ≠ [] → ∀ r, stopped = some r →
      execute s (c ++ b ++ m.sign ++ t) session w = ((after, some r), ⟨alone.disk, w.shown⟩)) ∧
    (t.strip ≠ [] → stopped = none → match s.writesAt? alone.disk (after.resolve t.strip) with
      | some l => ∃ d,
          execute s (c ++ b ++ m.sign ++ t) session w = ((after, none), ⟨d, w.shown⟩) ∧
          ∀ k, d.get? k = if k = l ∧ alone.disk.get? l ≠ some .device
            then some (.file (m.kept (alone.disk.heldAt l) ++ Utf8.encode alone.shown))
            else alone.disk.get? k
      | none => execute s (c ++ b ++ m.sign ++ t) session w =
          ((after, none), ⟨alone.disk, w.shown ++ "Error writing to file\n".toList⟩)) := by
  rw [execute_redirected hc hcmd hb hm]
  rw [execute_plain hc hcmd] at ha
  refine ⟨fun ht => ?_, fun ht r hr => ?_, fun ht hend => ?_⟩
  · rw [ht, executeRedirected_nil]
  · subst hr
    exact run_executeRedirected_stopped ht ha
  · subst hend
    rw [run_executeRedirected ht ha, Storage.run_write_orShow]
    rcases hl : s.writesAt? alone.disk (after.resolve t.strip) with _ | l
    · dsimp only
      rw [List.append_assoc]
      rfl
    · exact ⟨_, rfl, Disk.get?_write _ (Storage.ne_nil_of_writesAt? hl)⟩

/-- A directory with a file in it. -/
def oneFile : Disk where
  items := [(["w".toList], .directory), (["w".toList, "f".toList], .file [104, 105])]

/-- A session in that directory. -/
def atOneFile : Session := ⟨"/w".toList, "/".toList, true⟩

/-- A file that is written to after it was read. -/
theorem redirected_line_oneFile :
    ∃ d, execute { chunk := 512 } "cat f >> f".toList atOneFile ⟨oneFile, "ok\n".toList⟩ =
        ((atOneFile, none), ⟨d, "ok\n".toList⟩) ∧
      d.get? ["w".toList, "f".toList] = some (.file ([104, 105] ++ Utf8.encode "hi\n".toList)) := by
  obtain ⟨⟨⟨after, stopped⟩, alone⟩, ha⟩ :
      ∃ r, execute { chunk := 512 } "cat f".toList atOneFile ⟨oneFile, []⟩ = r := ⟨_, rfl⟩
  have hblank : ∀ x ∈ [' '], isBlank x = true := by
    intro x hx
    rw [List.mem_singleton.1 hx]
    decide
  have hafter : (after, stopped) = (atOneFile, none) :=
    (congrArg Prod.fst ha).symm.trans (by decide +kernel)
  obtain ⟨rfl, rfl⟩ := Prod.mk.inj hafter
  have halone : alone = _ := (congrArg Prod.snd ha).symm
  have h := (redirected_line (m := .append) (w := ⟨oneFile, "ok\n".toList⟩) (t := " f".toList)
    (by decide) (show Command.parse? _ = some ⟨"cat".toList, ["f".toList]⟩ by decide) hblank
    (fun h => by cases h) ha).2.2 (by decide) rfl
  have hopen : Storage.writesAt? { chunk := 512 } alone.disk
      (atOneFile.resolve (Text.strip " f".toList)) = some ["w".toList, "f".toList] := by
    rw [halone]
    decide +kernel
  rw [hopen] at h
  obtain ⟨d, hd, hget⟩ := h
  refine ⟨d, hd, (hget _).trans ?_⟩
  rw [halone]
  decide +kernel

/-- The null device in the root directory. -/
def sink : Disk where
  items := [(["n".toList], .device)]

/-- Directories in one another, and an empty one. -/
def burrow : Disk where
  items := [(["s".toList], .directory), (["s".toList, "t".toList], .directory),
    (["d".toList], .directory)]

/-- What is written to the null device is gone, and nothing is said. A command that takes more calls
than may nest stops the line, and nothing is written. -/
theorem redirected_limits :
    let session : Session := ⟨"/".toList, "/".toList, true⟩
    let run := execute { chunk := 512, nests := 1 } "cp -r s d > f".toList session ⟨burrow, []⟩
    ((runLine { chunk := 512 } "echo hi".toList session ⟨sink, []⟩).2.shown = "hi\n".toList ∧
      (runLine { chunk := 512 } "echo hi > /n".toList session ⟨sink, []⟩).2.shown = [] ∧
      (runLine { chunk := 512 } "echo hi > /n".toList session ⟨sink, []⟩).2.disk.heldAt
        ["n".toList] ≠ Utf8.encode "hi\n".toList) ∧
    run.1.2 = some .recursion ∧ run.2.disk.get? ["f".toList] = none ∧ run.2.shown = [] := by
  refine ⟨⟨?_, ?_, ?_⟩, ?_, ?_, ?_⟩ <;> decide +kernel

end Line

end FileShell
