import FileShell.Proofs.Service.Registry
import FileShell.Proofs.Shell.Closing
import FileShell.Proofs.Shell.Outcomes
import FileShell.Service.Http

/-!
# What requests do

A request that asks for one of four things has it done; any other one is turned down and leaves all
as it is. Which is which is up to the routing. Requests are answered one after another at a site,
which is a service with the world that lines are run in. A line that is run by request has the
outcome that it has anywhere (`answer_run`). All that a request can do to a registry in which the
sessions are active is said once, in `Registry.Serves`.
-/

namespace FileShell

variable {s : Storage} {session : Session} {w : World} {r : Stop}

/-- A command that stops leaves its session as it was. -/
theorem Handler.session_of_stopped {c : Command}
    (h : (attempt (standard s) c session w).1.2 = some r) :
    (attempt (standard s) c session w).1.1 = session := by
  rcases hr : route (standard s) c with ⟨_ | hd, args⟩
  · unfold attempt
    rw [hr]
    rfl
  · rw [run_attempt hr] at h ⊢
    rcases hrun : (hd.run args session).run w with ⟨e | session', w'⟩
    · rfl
    · rw [hrun] at h
      cases h

/-- A line that stops leaves its session as it was. -/
theorem session_of_stopped {line : Text} (h : (execute s line session w).1.2 = some r) :
    (execute s line session w).1.1 = session := by
  rcases hl : CommandLine.split line with ⟨command, redirection⟩
  unfold execute at h ⊢
  rw [hl] at h ⊢
  rcases hc : Command.parse? command with _ | c
  · rfl
  simp only [hc] at h ⊢
  rcases redirection with _ | ⟨m, p⟩
  · exact Handler.session_of_stopped h
  dsimp only at h ⊢
  rcases eq_or_ne p [] with rfl | hp
  · rw [executeRedirected_nil]
  · rw [fst_executeRedirected hp] at h ⊢
    exact Handler.session_of_stopped h

/-- A line leaves an active session active unless it runs `exit`. -/
theorem active_outcome (s : Storage) (line : Text) (session : Session) (d : Disk) :
    (outcome s line session d).session.active =
      (session.active && !CommandLine.closes line) := active_runLine s line session ⟨d, []⟩

/-- What a request to run a line is answered, given its outcome. -/
def Outcome.response (o : Outcome) : Response :=
  if o.stopped.isSome then ⟨500, .failure⟩ else ⟨200, .result o.shown o.session⟩

/-- A service, with the world that lines are run in. -/
structure Site where
  service : Http.Service
  world : World

namespace Site

def registry (σ : Site) : Registry := σ.service.registry

def withRegistry (σ : Site) (r : Registry) : Site := { σ with service.registry := r }

/-- What a request asks for. -/
def ask? (σ : Site) (q : Request) : Option Ask := σ.service.routing.ask? q

/-- Answers one request. -/
def answer (σ : Site) (q : Request) : Response × Site :=
  let r := (Http.respond σ.service q).run σ.world
  (r.1.1, ⟨r.1.2, r.2⟩)

variable {σ : Site} {q : Request} {id line : Text} {session : Session}

theorem answer_of_ask {a : Ask} (h : σ.ask? q = some a) : σ.answer q =
    (((Http.grant σ.service a).run σ.world).1.1,
      ⟨((Http.grant σ.service a).run σ.world).1.2, ((Http.grant σ.service a).run σ.world).2⟩) := by
  unfold ask? at h
  unfold answer Http.respond
  rw [h]

theorem answer_of_none (h : σ.ask? q = none) :
    ∃ a : Response, σ.answer q = (a, σ) ∧ a.status ∈ [404, 405, 422] ∧ a.body.inactive = false := by
  unfold ask? at h
  unfold answer Http.respond
  rw [h]
  exact ⟨_, rfl, σ.service.routing.status_turnDown q, σ.service.routing.inactive_turnDown q⟩

theorem answer_create (h : σ.ask? q = some .create) : σ.answer q =
    (⟨201, .session (σ.registry.create σ.service.fresh).1 σ.service.fresh⟩,
      σ.withRegistry (σ.registry.create σ.service.fresh).2) :=
  answer_of_ask h

theorem answer_unknown {a : Ask} (h : σ.ask? q = some a) (hid : a.id? = some id)
    (hk : ¬ σ.registry.Knows id) : σ.answer q = (Http.unknown ⟨id⟩, σ) := by
  have hget : σ.service.registry.get id = .error ⟨id⟩ := Registry.get_of_not_knows hk
  rw [answer_of_ask h]
  rcases a with _ | i | ⟨i, line⟩ | i
  · cases hid
  · obtain rfl := Option.some.inj hid
    simp only [Http.grant, Http.showSession, hget]
    rfl
  · obtain rfl := Option.some.inj hid
    simp only [Http.grant, Http.runCommand, hget]
    rfl
  · obtain rfl := Option.some.inj hid
    have hr : σ.service.registry.remove i = .error ⟨i⟩ := Registry.remove_of_not_knows hk
    simp only [Http.grant, Http.dropSession, hr]
    rfl

theorem answer_look (h : σ.ask? q = some (.look id)) (hget : σ.registry.get id = .ok session) :
    σ.answer q = (⟨200, .session id session⟩, σ) := by
  rw [answer_of_ask h]
  simp only [Http.grant, Http.showSession, show σ.service.registry.get id = _ from hget]
  rfl

theorem answer_drop (h : σ.ask? q = some (.drop id)) (hk : σ.registry.Knows id) :
    σ.answer q = (⟨204, .none⟩, σ.withRegistry (σ.registry.discard id).2) := by
  have hr : σ.service.registry.remove id = .ok (σ.registry.discard id).2 :=
    Registry.remove_of_knows hk
  rw [answer_of_ask h]
  simp only [Http.grant, Http.dropSession, hr]
  rfl

/-- A line that is run by request has its own outcome; the session is dropped if it is closed. If
the line stops, the session stays. -/
theorem answer_run (h : σ.ask? q = some (.run id line)) (hget : σ.registry.get id = .ok session)
    (hactive : session.active = true) :
    let o := outcome σ.service.storage line session σ.world.disk
    let r := σ.registry.put id o.session
    σ.answer q = (o.response, ⟨{ σ.service with
      registry := if o.stopped.isSome || o.session.active then r else (r.discard id).2 },
        ⟨o.disk, σ.world.shown⟩⟩) := by
  intro o r
  have hrun : capture (execute σ.service.storage line session) σ.world =
      (((o.session, o.stopped), o.shown), ⟨o.disk, σ.world.shown⟩) := rfl
  rw [answer_of_ask h]
  simp only [Http.grant, Http.runCommand, show σ.service.registry.get id = _ from hget, hactive,
    Bool.not_true, Bool.false_eq_true, if_false]
  rw [StateT.run_bind, show (capture (execute σ.service.storage line session)).run σ.world = _
    from hrun]
  dsimp only [bind, Outcome.response]
  rcases hstop : o.stopped with _ | e
  · rcases hopen : o.session.active <;> rfl
  · rfl

end Site

/-! ## What a request does to a registry -/

/-- What a request is answered, and the registry afterwards, if the sessions are active. -/
inductive Registry.Serves (r : Registry) (fresh : Session) :
    Option Ask → Response → Registry → Prop
  | aside {a : Response} : a.status ∈ [404, 405, 422] → a.body.inactive = false →
      r.Serves fresh none a r
  | create : r.Serves fresh (some .create) ⟨201, .session (r.idOf r.created) fresh⟩
      (r.create fresh).2
  | unknown {a : Ask} {id : Text} : a.id? = some id → ¬ r.Knows id →
      r.Serves fresh (some a) (Http.unknown ⟨id⟩) r
  | look {id : Text} {session : Session} : r.get id = .ok session →
      r.Serves fresh (some (.look id)) ⟨200, .session id session⟩ r
  | drop {id : Text} : r.Knows id →
      r.Serves fresh (some (.drop id)) ⟨204, .none⟩ (r.discard id).2
  | stopped {id line : Text} {session : Session} : r.get id = .ok session →
      r.Serves fresh (some (.run id line)) ⟨500, .failure⟩ (r.put id session)
  | run {id line shown : Text} {session : Session} : r.Knows id → session.active = true →
      CommandLine.closes line = false →
      r.Serves fresh (some (.run id line)) ⟨200, .result shown session⟩ (r.put id session)
  | exit {id line shown : Text} {session : Session} : r.Knows id → session.active = false →
      CommandLine.closes line = true →
      r.Serves fresh (some (.run id line)) ⟨200, .result shown session⟩
        ((r.put id session).discard id).2

namespace Site

variable {σ : Site}

theorem serves_answer
    (hactive : ∀ id session, σ.registry.get id = .ok session → session.active = true)
    (q : Request) :
    ∃ r, (σ.answer q).2.service = { σ.service with registry := r } ∧
      σ.registry.Serves σ.service.fresh (σ.ask? q) (σ.answer q).1 r := by
  rcases hq : σ.ask? q with _ | a
  · obtain ⟨a, ha, hstatus, hbody⟩ := answer_of_none (σ := σ) hq
    rw [ha]
    exact ⟨_, rfl, .aside hstatus hbody⟩
  rcases hid : a.id? with _ | id
  · rcases a with _ | _ | _ | _ <;> cases hid
    rw [answer_create hq]
    exact ⟨_, rfl, .create⟩
  by_cases hk : σ.registry.Knows id
  · obtain ⟨session, hget⟩ := hk
    rcases a with _ | i | ⟨i, line⟩ | i <;> cases hid
    · rw [answer_look hq hget]
      exact ⟨_, rfl, .look hget⟩
    · rw [answer_run hq hget (hactive _ _ hget)]
      refine ⟨_, rfl, ?_⟩
      obtain ⟨o, ho⟩ : ∃ o, outcome σ.service.storage line session σ.world.disk = o := ⟨_, rfl⟩
      have hclose : o.session.active = !CommandLine.closes line := by
        rw [← ho, active_outcome, hactive _ _ hget, Bool.true_and]
      dsimp only
      rw [ho, Outcome.response]
      rcases hstop : o.stopped with _ | r
      · simp only [Option.isSome_none, Bool.false_eq_true, if_false, Bool.false_or]
        split_ifs with hactive
        · exact .run ⟨session, hget⟩ hactive (by simpa [hactive] using hclose)
        · exact .exit ⟨session, hget⟩ (by simpa using hactive) (by simpa [hactive] using hclose)
      · have hsame : o.session = session := by
          rw [← ho] at hstop ⊢
          exact session_of_stopped hstop
        rw [hsame]
        exact .stopped hget
    · rw [answer_drop hq ⟨session, hget⟩]
      exact ⟨_, rfl, .drop ⟨session, hget⟩⟩
  · rw [answer_unknown hq hid hk]
    exact ⟨_, rfl, .unknown hid hk⟩

end Site

end FileShell
