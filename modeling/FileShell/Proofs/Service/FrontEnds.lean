import FileShell.Program.Terminal
import FileShell.Proofs.Service.LifeCycle

/-!
# The ways to run lines

Lines can be sent to a session by request, typed at a prompt, or given with the program's arguments.
Each way is compared with `reference`, which runs one line after another until the session is
closed: requests (`serve_lines`) go on to be answered after that, the prompt (`run_lines`) ends
before a line that says `exit` as well, and the program's arguments (`run_runLines`) need nothing
more. A line that stops is not the last one that is sent, but it is the last one that is typed or
given (`untilStop`). All three are put together in `front_ends`.
-/

namespace FileShell

/-- The outcomes of lines that are run in a session until it is closed. -/
def reference (s : Storage) : List Text → Session → Disk → List Outcome
  | [], _, _ => []
  | line :: lines, session, d =>
    if session.active then
      outcome s line session d :: reference s lines (outcome s line session d).session
        (outcome s line session d).disk
    else []

/-- The outcomes up to the first line that stops. -/
def untilStop : List Outcome → List Outcome
  | [] => []
  | o :: os => if o.stopped.isSome then [o] else o :: untilStop os

/-- What stopped a line, if one stopped. -/
def stopOf (os : List Outcome) : Option Stop := os.findSome? (·.stopped)

/-- The session and the disk that are left after outcomes. -/
def left (session : Session) (d : Disk) (os : List Outcome) : Session × Disk :=
  os.foldl (fun _ o => (o.session, o.disk)) (session, d)

section

variable {s : Storage} {line : Text} {session : Session} {d : Disk}

theorem reference_of_closed (h : session.active = false) (lines : List Text) :
    reference s lines session d = [] := by
  cases lines with
  | nil => rfl
  | cons line lines => rw [reference, h, if_neg Bool.false_ne_true]

theorem reference_cons (h : session.active = true) (lines : List Text) :
    reference s (line :: lines) session d =
      outcome s line session d :: reference s lines (outcome s line session d).session
        (outcome s line session d).disk := if_pos h

theorem outcome_strip (s : Storage) (line : Text) (session : Session) (d : Disk) :
    outcome s line.strip session d = outcome s line session d := by
  unfold outcome execute
  rw [CommandLine.split_strip]

/-- A line that is run with a sink of its own has its outcome, and shows nothing besides. -/
theorem run_capture_execute (s : Storage) (line : Text) (session : Session) (w : World) :
    (capture (execute s line session)).run w =
      let o := outcome s line session w.disk
      (((o.session, o.stopped), o.shown), ⟨o.disk, w.shown⟩) := rfl

/-- A session that a line closes was not stopped by it. -/
theorem stopped_of_closed (h : session.active = true)
    (hclosed : (outcome s line session d).session.active = false) :
    (outcome s line session d).stopped = none := by
  rcases hstop : (outcome s line session d).stopped with _ | r
  · rfl
  · have hsame : (outcome s line session d).session = session := session_of_stopped hstop
    rw [hsame, h] at hclosed
    cases hclosed

end

/-! ## Requests -/

namespace Site

variable {id : Text}

theorem serve_unknown {σ : Site} (hk : ¬ σ.registry.Knows id) :
    ∀ {lines : List Text} {qs : List Request},
      qs.map σ.ask? = lines.map (fun line => some (.run id line)) →
      (σ.serve qs).map (fun x => (x.response, x.disk)) =
        List.replicate lines.length (Http.unknown ⟨id⟩, σ.world.disk)
  | [], qs, h => by
    rw [List.map_eq_nil_iff.1 h]
    rfl
  | line :: lines, qs, h => by
    obtain ⟨q, qs, rfl, hq, hqs⟩ := List.map_eq_cons_iff.1 h
    have ha := answer_unknown hq rfl hk
    rw [serve, ha, List.map_cons, serve_unknown hk hqs]
    rfl

/-- Lines that are sent to a session have the outcomes of the reference run, and those that come
after it are told that there is no such session. -/
theorem serve_lines :
    ∀ {lines : List Text} {qs : List Request} {σ : Site} {session : Session},
      σ.registry.get id = .ok session → session.active = true →
      qs.map σ.ask? = lines.map (fun line => some (.run id line)) →
      let os := reference σ.service.storage lines session σ.world.disk
      (σ.serve qs).map (fun x => (x.response, x.disk)) =
        os.map (fun o => (o.response, o.disk)) ++
          List.replicate (lines.length - os.length)
            (Http.unknown ⟨id⟩, (left session σ.world.disk os).2)
  | [], qs, _, _, _, _, h => by
    rw [List.map_eq_nil_iff.1 h]
    rfl
  | line :: lines, qs, σ, session, hget, hactive, h => by
    obtain ⟨q, qs, rfl, hq, hqs⟩ := List.map_eq_cons_iff.1 h
    have ha := answer_run hq hget hactive
    obtain ⟨o, ho⟩ : ∃ o, outcome σ.service.storage line session σ.world.disk = o := ⟨_, rfl⟩
    dsimp only
    rw [reference_cons hactive, ho, serve, List.map_cons, List.map_cons, List.cons_append]
    rw [ho] at ha
    dsimp only at ha
    rcases hclosed : o.session.active with _ | _
    · -- the session is closed and dropped: nothing is left of the reference run
      have hstop : o.stopped = none := by
        rw [← ho] at hclosed ⊢
        exact stopped_of_closed hactive hclosed
      rw [hclosed, hstop] at ha
      have hgone : ¬ (σ.answer q).2.registry.Knows id := by
        rw [ha]
        exact fun hk => (Registry.knows_discard.1 hk).2 rfl
      have hasked : qs.map (σ.answer q).2.ask? =
          lines.map (fun line => some (.run id line)) := by
        rw [ha]
        exact hqs
      rw [serve_unknown hgone hasked, reference_of_closed hclosed, ha]
      rfl
    · rw [hclosed, Bool.or_true, if_pos rfl] at ha
      have hput : (σ.registry.put id o.session).get id = .ok o.session := by
        rw [Registry.get_put (Registry.knows_of_get hget), if_pos rfl]
      rw [ha]
      have ih := serve_lines (σ := ⟨{ σ.service with registry := σ.registry.put id o.session },
        ⟨o.disk, σ.world.shown⟩⟩) hput hclosed hqs
      refine congrArg _ (ih.trans ?_)
      rw [List.length_cons, List.length_cons, Nat.succ_sub_succ]
      rfl

end Site

/-! ## The prompt -/

namespace Prompt

theorem run_closed (s : Storage) (user : Text) {session : Session} (h : session.active = false)
    (input : List (Option Text)) (w : World) :
    (run s user input session).run w = (([], session, none), w) := by
  unfold run
  rw [h]
  rfl

theorem run_ended (s : Storage) (user : Text) {session : Session} (h : session.active = true)
    {input : List (Option Text)} (hin : ∀ line, input.head? ≠ some (some line)) (w : World) :
    (run s user input session).run w =
      (([⟨promptOf user session, '\n' :: farewell user⟩], session, none), w) := by
  rcases input with _ | ⟨_ | line, input⟩
  · unfold run
    rw [h]
    rfl
  · unfold run
    rw [h]
    rfl
  · exact absurd rfl (hin line)

theorem run_exit (s : Storage) (user : Text) {session : Session} (h : session.active = true)
    {line : Text} (hexit : isExit line.strip = true) (input : List (Option Text)) (w : World) :
    (run s user (some line :: input) session).run w =
      (([⟨promptOf user session, farewell user⟩], session, none), w) := by
  unfold run
  rw [h]
  dsimp only
  rw [hexit]
  rfl

theorem run_line (s : Storage) (user : Text) {session : Session} (h : session.active = true)
    {line : Text} (hexit : isExit line.strip = false) (input : List (Option Text)) (w : World) :
    (run s user (some line :: input) session).run w =
      let o := outcome s line session w.disk
      let r := (run s user input o.session).run ⟨o.disk, w.shown⟩
      if o.stopped.isSome then
        (([⟨promptOf user session, o.shown⟩], o.session, o.stopped), ⟨o.disk, w.shown⟩)
      else ((⟨promptOf user session, o.shown⟩ :: r.1.1, r.1.2), r.2) := by
  rw [← outcome_strip, run, h]
  dsimp only
  rw [hexit]
  show ((capture (execute s line.strip session) >>= _).run w :
    (List Turn × Session × Option Stop) × World) = _
  rw [StateT.run_bind, run_capture_execute]
  dsimp only [bind]
  split_ifs <;> rfl

/-- What is shown at the end, with a line that says `exit` or for want of lines. A session that was
closed by a line ends with that. -/
def parting (user : Text) (session : Session) (said : Bool) : Text :=
  if session.active then (if said then farewell user else '\n' :: farewell user) else []

/-- A prompt runs the lines before the first one that says `exit`, as the reference run does, but
for the lines after one that stops. -/
theorem run_lines (s : Storage) (user : Text) {rest : List (Option Text)}
    (hrest : ∀ line, rest.head? ≠ some (some line)) :
    ∀ (lines : List Text) (session : Session) (w : World),
      let before := lines.takeWhile fun line => !isExit line.strip
      let os := untilStop (reference s before session w.disk)
      let final := left session w.disk os
      ∃ turns, (run s user (lines.map some ++ rest) session).run w =
          ((turns, final.1, stopOf os), ⟨final.2, w.shown⟩) ∧
        turns.map (·.prompt) =
          ((session :: (os.filter (·.stopped.isNone)).map (·.session)).filter (·.active)).map
            (promptOf user) ∧
        turns.flatMap (·.shown) = os.flatMap (·.shown) ++
          if (stopOf os).isSome then []
          else parting user final.1 (lines.any fun line => isExit line.strip)
  | lines, session, w => by
    rcases h : session.active with _ | _
    · dsimp only
      rw [reference_of_closed h]
      exact ⟨[], run_closed s user h _ w, by simp [untilStop, h],
        by simp [untilStop, stopOf, left, parting, h]⟩
    rcases lines with _ | ⟨line, lines⟩
    · refine ⟨_, run_ended s user h hrest w, ?_, ?_⟩
      · simp [reference, untilStop, h]
      · simp [reference, untilStop, stopOf, left, parting, h]
    dsimp only
    rcases hexit : isExit line.strip with _ | _
    · have hline := run_line s user h hexit (lines.map some ++ rest) w
      obtain ⟨o, ho⟩ : ∃ o, outcome s line session w.disk = o := ⟨_, rfl⟩
      rw [List.takeWhile_cons_of_pos (by simp [hexit]), reference_cons h, ho, untilStop]
      rw [ho] at hline
      dsimp only at hline
      rw [List.map_cons, List.cons_append, hline]
      rcases hstop : o.stopped with _ | r
      · obtain ⟨turns, hrun, hprompt, hshown⟩ :=
          run_lines s user hrest lines o.session ⟨o.disk, w.shown⟩
        refine ⟨⟨promptOf user session, o.shown⟩ :: turns, ?_, ?_, ?_⟩
        · rw [if_neg (by simp), hrun]
          simp [stopOf, left, hstop]
        · rw [List.map_cons, hprompt]
          simp [hstop, h]
        · rw [List.flatMap_cons, hshown, List.any_cons, hexit]
          simp [stopOf, left, hstop]
      · refine ⟨[⟨promptOf user session, o.shown⟩], ?_, ?_, ?_⟩
        · simp [stopOf, left, hstop]
        · simp [hstop, h]
        · simp [stopOf, hstop]
    · rw [List.takeWhile_cons_of_neg (by simp [hexit])]
      refine ⟨_, run_exit s user h hexit _ w, ?_, ?_⟩
      · simp [reference, untilStop, h]
      · simp [reference, untilStop, stopOf, left, parting, h, hexit]

end Prompt

/-! ## Lines among the arguments -/

namespace Terminal

variable (print : Text → Text)

theorem run_runLines_cons (s : Storage) (line : Text) (lines : List Text) (session : Session)
    (w : World) : (runLines print s (line :: lines) session).run w =
      let o := outcome s line session w.disk
      let r := (runLines print s lines o.session).run ⟨o.disk, w.shown⟩
      if o.stopped.isSome || !o.session.active then ((print o.shown, o.stopped), ⟨o.disk, w.shown⟩)
      else ((print o.shown ++ r.1.1, r.1.2), r.2) := by
  rw [runLines, StateT.run_bind, run_capture_execute]
  dsimp only [bind]
  split_ifs <;> rfl

/-- The program runs the lines as the reference run does, but for those after one that stops. -/
theorem run_runLines (s : Storage) : ∀ (lines : List Text) {session : Session},
    session.active = true → ∀ w : World,
      let os := untilStop (reference s lines session w.disk)
      (runLines print s lines session).run w =
        ((os.flatMap fun o => print o.shown, stopOf os), ⟨(left session w.disk os).2, w.shown⟩)
  | [], _, _, _ => rfl
  | line :: lines, session, h, w => by
    obtain ⟨o, ho⟩ : ∃ o, outcome s line session w.disk = o := ⟨_, rfl⟩
    dsimp only
    rw [reference_cons h, run_runLines_cons, ho, untilStop]
    dsimp only
    rcases hstop : o.stopped with _ | r
    · rcases hclosed : o.session.active with _ | _
      · rw [reference_of_closed hclosed]
        simp [untilStop, stopOf, left, hstop]
      · rw [run_runLines s lines hclosed]
        simp [stopOf, left, hstop]
    · simp [stopOf, left, hstop]

end Terminal

/-- Whichever way lines come, they have the outcomes of the reference run of them: of all lines if
they are sent by request, of those up to the first one that stops if they are given with the
program's arguments, and of those before the first one that says `exit` as well if they are typed at
a prompt, where the input ends or is interrupted then. How requests are taken in and what the
console prints for a text does not matter. -/
theorem front_ends (s : Storage) (lines : List Text) {session : Session}
    (hactive : session.active = true) (w : World) :
    (∀ (routing : Routing) (fresh : Session) (r : Registry) (id : Text) (qs : List Request),
      r.get id = .ok session →
      qs.map routing.ask? = lines.map (fun line => some (.run id line)) →
      let os := reference s lines session w.disk
      ((⟨⟨routing, s, fresh, r⟩, w⟩ : Site).serve qs).map (fun x => (x.response, x.disk)) =
        os.map (fun o => (o.response, o.disk)) ++
          List.replicate (lines.length - os.length)
            (Http.unknown ⟨id⟩, (left session w.disk os).2)) ∧
    (∀ (user : Text) (rest : List (Option Text)), (∀ line, rest.head? ≠ some (some line)) →
      let before := lines.takeWhile fun line => !Prompt.isExit line.strip
      let os := untilStop (reference s before session w.disk)
      let final := left session w.disk os
      ∃ turns, (Prompt.run s user (lines.map some ++ rest) session).run w =
          ((turns, final.1, stopOf os), ⟨final.2, w.shown⟩) ∧
        turns.map (·.prompt) =
          ((session :: (os.filter (·.stopped.isNone)).map (·.session)).filter (·.active)).map
            (Prompt.promptOf user) ∧
        turns.flatMap (·.shown) = os.flatMap (·.shown) ++
          if (stopOf os).isSome then []
          else Prompt.parting user final.1 (lines.any fun line => Prompt.isExit line.strip)) ∧
    ∀ print : Text → Text,
      let os := untilStop (reference s lines session w.disk)
      (Terminal.runLines print s lines session).run w =
        ((os.flatMap fun o => print o.shown, stopOf os), ⟨(left session w.disk os).2, w.shown⟩) :=
  ⟨fun routing fresh r _ _ hget hqs =>
      Site.serve_lines (σ := ⟨⟨routing, s, fresh, r⟩, w⟩) hget hactive hqs,
    fun user _ hrest => Prompt.run_lines s user hrest lines session w,
    fun print => Terminal.run_runLines print s lines hactive w⟩

/-- The prompt closes at the third line, which is no command, and the session at the fourth. -/
def asides : List Text :=
  ["cd d".toList, " echo hi > f".toList, " Exit ".toList, "exit now > g".toList, "pwd".toList]

theorem front_ends_asides :
    let s : Storage := { chunk := 512 }
    let session : Session := ⟨"/".toList, "/".toList, true⟩
    let r := ((Registry.empty fun _ => "n".toList).create session).2
    let qs := asides.map fun line =>
      (⟨"POST".toList, "/sessions/n/commands".toList, some line⟩ : Request)
    let os := reference s asides session Shared.leaflet
    session.active = true ∧ r.get "n".toList = .ok session ∧
      ((⟨⟨.standard, s, session, r⟩, ⟨Shared.leaflet, []⟩⟩ : Site).serve qs).map
          (fun x => (x.response, x.disk)) =
        os.map (fun o => (o.response, o.disk)) ++
          [(Http.unknown ⟨"n".toList⟩, (left session Shared.leaflet os).2)] ∧
      os.map (fun o => (o.shown, o.stopped)) = [("".toList, none), ("".toList, none),
        ("Command not found: Exit\n".toList, none), ("".toList, none)] ∧
      let typed := untilStop (reference s (asides.take 2) session Shared.leaflet)
      let final := left session Shared.leaflet typed
      ∃ turns, (Prompt.run s "u".toList (asides.map some ++ [none]) session).run
          ⟨Shared.leaflet, []⟩ = ((turns, final.1, none), ⟨final.2, []⟩) ∧
        turns.map (·.prompt) =
          ["u@CLI:/$ ".toList, "u@CLI:/d$ ".toList, "u@CLI:/d$ ".toList] ∧
        turns.flatMap (·.shown) = Prompt.farewell "u".toList := by
  intro s session r qs os
  obtain ⟨hserve, hprompt, -⟩ := front_ends s asides (rfl : session.active = true)
    ⟨Shared.leaflet, []⟩
  have hask : qs.map Routing.standard.ask? =
      asides.map (fun line => some (.run "n".toList line)) := by
    decide +kernel
  have hlength : os.length = 4 := by decide +kernel
  have hbefore : asides.takeWhile (fun line => !Prompt.isExit line.strip) = asides.take 2 := by
    decide +kernel
  have hstop : stopOf (untilStop (reference s (asides.take 2) session Shared.leaflet)) = none := by
    decide +kernel
  obtain ⟨turns, hrun, hprompts, hshown⟩ := hprompt "u".toList [none] (fun _ h => by cases h)
  rw [hbefore] at hrun hprompts hshown
  rw [hstop] at hrun hshown
  refine ⟨rfl, rfl, (hserve .standard session r "n".toList qs rfl hask).trans ?_, by decide +kernel,
    turns, hrun, hprompts.trans ?_, hshown.trans ?_⟩
  · rw [hlength]
    rfl
  · decide +kernel
  · decide +kernel

end FileShell
