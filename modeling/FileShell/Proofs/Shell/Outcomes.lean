import FileShell.Proofs.Shell.Removal

/-!
# What lines give

The outcome of a line is what it shows, the session and the disk that it leaves, and the stop if it
did not come to its end. Each line has a sink of its own, so what was shown before does not matter.
Lines may be typed in one session or, in any order, in several that share a disk; a line that stops
leaves a session and a disk for the next one as any other does.

Lines that only read leave the disk as it is. So a session in which such lines alone are typed does
not notice the others that only read: each of its lines has the outcome that it has when the lines
of the session are run alone (`interleaved_reads`).
-/

namespace FileShell

/-- What a line shows, the session and the disk it leaves, and what stopped it. -/
structure Outcome where
  shown : Text
  session : Session
  disk : Disk
  stopped : Option Stop
  deriving DecidableEq

def outcome (s : Storage) (line : Text) (session : Session) (d : Disk) : Outcome where
  shown := (execute s line session ⟨d, []⟩).2.shown
  session := (execute s line session ⟨d, []⟩).1.1
  disk := (execute s line session ⟨d, []⟩).2.disk
  stopped := (execute s line session ⟨d, []⟩).1.2

/-- The outcomes of lines that are typed in one session, closed or not. -/
def outcomes (s : Storage) : List Text → Session → Disk → List Outcome
  | [], _, _ => []
  | line :: lines, session, d =>
    outcome s line session d :: outcomes s lines (outcome s line session d).session
      (outcome s line session d).disk

section

variable {ι : Type} [DecidableEq ι]

/-- The outcomes of lines that are typed in several sessions, each with its session. -/
def interleaved (s : Storage) : List (ι × Text) → (ι → Session) → Disk → List (ι × Outcome)
  | [], _, _ => []
  | (i, line) :: es, sessions, d =>
    (i, outcome s line (sessions i) d) :: interleaved s es
      (Function.update sessions i (outcome s line (sessions i) d).session)
      (outcome s line (sessions i) d).disk

end

section

variable {s : Storage} {session session' : Session} {d d' : Disk} {t : Text}
  {stopped : Option Stop}

theorem outcome_plain {line : Text} {c : Command} (hl : '>' ∉ line)
    (hc : Command.parse? line = some c)
    (h : Handler.attempt (Handler.standard s) c session ⟨d, []⟩ = ((session', stopped), ⟨d', t⟩)) :
    outcome s line session d = ⟨t, session', d', stopped⟩ := by
  rw [outcome, execute_plain hl hc, h]

/-- A line that is made of words is their command. -/
theorem outcome_render {name : Text} {args : List Text} (hn : IsWord name ∧ '>' ∉ name)
    (ha : ∀ a ∈ args, IsWord a ∧ '>' ∉ a)
    (h : Handler.attempt (Handler.standard s) ⟨name, args⟩ session ⟨d, []⟩ =
      ((session', stopped), ⟨d', t⟩)) :
    outcome s (Command.render ⟨name, args⟩) session d = ⟨t, session', d', stopped⟩ :=
  outcome_plain (Command.not_mem_render (by decide) hn.2 fun a h => (ha a h).2)
    (Command.parse?_render hn.1 fun a h => (ha a h).1) h

end

/-! ## Lines that only read -/

namespace Handler

/-- The names of the commands that only read. -/
def reading : List Text :=
  ["cd", "pwd", "ls", "cat", "wc", "echo", "exit"].map String.toList

theorem only_of_mem_reading {s : Storage} {h : Handler} (hm : h ∈ standard s)
    (hn : h.name ∈ reading) (args : List Text) (session : Session) :
    Only (fun _ _ => False) (h.run args session).run := by
  simp only [standard, List.mem_cons, List.not_mem_nil, or_false] at hm
  rcases hm with rfl | rfl | rfl | rfl | rfl | rfl | rfl | rfl | rfl | rfl | rfl | rfl | rfl | rfl |
    rfl
  · exact (does_pwd args session).only
  · exact only_cd s args session
  · exact (does_ls s args session).only
  · exact absurd hn (show "mkdir".toList ∉ reading by decide)
  · exact absurd hn (show "rmdir".toList ∉ reading by decide)
  · exact absurd hn (show "touch".toList ∉ reading by decide)
  · exact absurd hn (show "rm".toList ∉ reading by decide)
  · exact absurd hn (show "cp".toList ∉ reading by decide)
  · exact absurd hn (show "cp -r".toList ∉ reading by decide)
  · exact (does_cat s args session).only
  · exact (does_wc s args session).only
  · exact (does_echo args session).only
  · exact absurd hn (show "zip".toList ∉ reading by decide)
  · exact absurd hn (show "unzip".toList ∉ reading by decide)
  · exact (does_exit args session).only

/-- A command that only reads, or that there is none of, leaves the disk as it is. -/
theorem disk_attempt {s : Storage} {c : Command}
    (hc : c.name ∈ reading ∨ find? (standard s) c.name = none) (session : Session) (w : World) :
    (attempt (standard s) c session w).2.disk = w.disk := by
  show (dispatch (standard s) c session w).2.disk = w.disk
  have hcp : c.name ≠ "cp".toList := by
    intro hn
    rw [hn] at hc
    rcases hc with hc | hc
    · exact absurd hc (by decide)
    · cases hc
  obtain ⟨name, args⟩ := c
  have hr := route_of_ne (s := s) hcp args
  rcases hf : find? (standard s) name with _ | h
  · rw [hf] at hr
    exact disk_dispatch_none hr
  · rw [hf] at hr
    obtain ⟨hm, rfl⟩ := mem_of_find? hf
    have hread : h.name ∈ reading := hc.resolve_right (by simp [hf])
    rw [disk_dispatch_some hr]
    exact Act.disk_of_only (only_of_mem_reading hm hread args session) w

end Handler

/-- A line without a redirection whose command, if it has one, only reads or does not exist. -/
structure CommandLine.Reads (s : Storage) (line : Text) : Prop where
  plain : '>' ∉ line
  command : ∀ c, Command.parse? line = some c →
    c.name ∈ Handler.reading ∨ Handler.find? (Handler.standard s) c.name = none

theorem disk_outcome {s : Storage} {line : Text} (h : CommandLine.Reads s line)
    (session : Session) (d : Disk) : (outcome s line session d).disk = d := by
  unfold outcome
  rcases hc : Command.parse? line with _ | c
  · unfold execute
    rw [CommandLine.split_of_not_mem h.plain]
    simp only [Command.parse?_strip, hc]
    rfl
  · rw [execute_plain h.plain hc]
    exact Handler.disk_attempt (h.command c hc) session ⟨d, []⟩

section

variable {ι : Type} [DecidableEq ι] {s : Storage} {es : List (ι × Text)}

theorem disk_interleaved (h : ∀ e ∈ es, CommandLine.Reads s e.2) (sessions : ι → Session)
    (d : Disk) : ∀ o ∈ interleaved s es sessions d, o.2.disk = d := by
  induction es generalizing sessions with
  | nil => intro o ho; cases ho
  | cons e es ih =>
    obtain ⟨hread, h⟩ := List.forall_mem_cons.1 h
    have hd := disk_outcome hread (sessions e.1) d
    intro o ho
    unfold interleaved at ho
    rcases List.mem_cons.1 ho with rfl | ho
    · exact hd
    · rw [hd] at ho
      exact ih h _ o ho

/-- The outcomes in one session are those of its lines alone. -/
theorem filter_interleaved (h : ∀ e ∈ es, CommandLine.Reads s e.2) (sessions : ι → Session)
    (d : Disk) (i : ι) : ((interleaved s es sessions d).filter (·.1 = i)).map (·.2) =
      outcomes s ((es.filter (·.1 = i)).map (·.2)) (sessions i) d := by
  induction es generalizing sessions with
  | nil => rfl
  | cons e es ih =>
    obtain ⟨j, line⟩ := e
    obtain ⟨hread, h⟩ := List.forall_mem_cons.1 h
    have hd := disk_outcome hread (sessions j) d
    unfold interleaved
    rw [hd]
    by_cases hj : j = i
    · subst hj
      rw [List.filter_cons_of_pos (by simp), List.filter_cons_of_pos (by simp), List.map_cons,
        List.map_cons, ih h, Function.update_self, outcomes, hd]
    · rw [List.filter_cons_of_neg (by simpa using hj), List.filter_cons_of_neg (by simpa using hj),
        ih h, Function.update_of_ne (Ne.symm hj)]

/-- Sessions in which lines are typed that only read do not see each other. In whatever order the
lines of the sessions come, each has the outcome that it has when the lines of its session are run
alone, and the disk stays as it is throughout. -/
theorem interleaved_reads {lists : ι → List Text}
    (hread : ∀ i, ∀ line ∈ lists i, CommandLine.Reads s line)
    (hmix : ∀ i, (es.filter (·.1 = i)).map (·.2) = lists i) (sessions : ι → Session) (d : Disk) :
    (∀ i, ((interleaved s es sessions d).filter (·.1 = i)).map (·.2) =
        outcomes s (lists i) (sessions i) d) ∧
      ∀ o ∈ interleaved s es sessions d, o.2.disk = d := by
  have h : ∀ e ∈ es, CommandLine.Reads s e.2 := fun e he => by
    refine hread e.1 e.2 ?_
    rw [← hmix e.1]
    exact List.mem_map.2 ⟨e, List.mem_filter.2 ⟨he, by simp⟩, rfl⟩
  refine ⟨fun i => ?_, disk_interleaved h sessions d⟩
  rw [filter_interleaved h, hmix]

end

/-- Lines of two sessions: one exits and goes on, the other one types nothing and what no command
is called. -/
def chatter : List (Bool × Text) :=
  [(true, "cd d".toList), (false, "cat ../l".toList), (false, "".toList), (true, "ls".toList),
   (true, "exit now".toList), (false, "look here".toList), (true, "cd ../nowhere".toList),
   (false, "pwd".toList)]

theorem reads_chatter (s : Storage) (i : Bool) :
    ∀ line ∈ (chatter.filter (·.1 = i)).map (·.2), CommandLine.Reads s line := by
  have hplain : ∀ e ∈ chatter, '>' ∉ e.2 := by decide
  have hname : ∀ e ∈ chatter, ∀ c ∈ Command.parse? e.2,
      c.name ∈ Handler.reading ∨ c.name = "look".toList := by decide
  intro line hline
  obtain ⟨e, he, rfl⟩ := List.mem_map.1 hline
  replace he := (List.mem_filter.1 he).1
  refine ⟨hplain e he, fun c hc => ?_⟩
  rcases hname e he c hc with hread | hlook
  · exact .inl hread
  · rw [hlook]
    exact .inr rfl

theorem interleaved_reads_chatter :
    let s : Storage := { chunk := 512 }
    let sessions : Bool → Session := fun i =>
      if i then ⟨"/".toList, "/".toList, true⟩ else ⟨"/d".toList, "/".toList, true⟩
    let os := interleaved s chatter sessions Shared.leaflet
    (∀ i, (os.filter (·.1 = i)).map (·.2) =
        outcomes s ((chatter.filter (·.1 = i)).map (·.2)) (sessions i) Shared.leaflet) ∧
      (∀ o ∈ os, o.2.disk = Shared.leaflet) ∧
      os.map (fun o => (o.2.shown, o.2.session.directory, o.2.session.active)) = [
        ("".toList, "/d".toList, true), ("hi\n".toList, "/d".toList, true),
        ("Error: Command not recognized.\n".toList, "/d".toList, true),
        ("e\n".toList, "/d".toList, true), ("Exiting CLI...\n".toList, "/d".toList, false),
        ("Command not found: look\n".toList, "/d".toList, true),
        ("Error: Directory does not exist\n".toList, "/d".toList, false),
        ("/d\n".toList, "/d".toList, true)] := by
  intro s sessions os
  obtain ⟨halone, hdisk⟩ := @interleaved_reads Bool _ s chatter _ (reads_chatter s)
    (fun _ => rfl) sessions Shared.leaflet
  refine ⟨halone, hdisk, ?_⟩
  decide +kernel

end FileShell
