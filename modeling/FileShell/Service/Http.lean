import FileShell.Service.Registry
import FileShell.Shell.Run

/-!
# Sessions over HTTP

There are four things that a request can ask for: to create a session, to look at one, to run a line
in it, and to drop it. A session that exits is dropped. Which request asks for what is up to the
framework that takes requests in (`Routing`); it answers all others itself.
-/

namespace FileShell

structure Request where
  method : Text
  path : Text
  /-- The line that the body carries, if it carries one. -/
  line : Option Text

inductive Body
  | none
  | session (id : Text) (s : Session)
  | result (shown : Text) (s : Session)
  | detail (t : Text)
  /-- What is wrong with the request, or that running its line stopped, in words that are left
  open. -/
  | failure

structure Response where
  status : Nat
  body : Body

/-- Whether an answer says of a session that it is not active. -/
def Body.inactive : Body → Bool
  | .session _ s | .result _ s => !s.active
  | .none | .detail _ | .failure => false

/-- What a request can ask for. -/
inductive Ask
  | create
  | look (id : Text)
  | run (id line : Text)
  | drop (id : Text)
  deriving DecidableEq

/-- The session that is asked about. -/
def Ask.id? : Ask → Option Text
  | .create => none
  | .look id | .run id _ | .drop id => some id

/-- How requests are taken in. -/
structure Routing where
  /-- What a request asks for, if its path, method and body go together. -/
  ask? : Request → Option Ask
  /-- What a request is told that asks for nothing. -/
  turnDown : Request → Response
  status_turnDown : ∀ q, (turnDown q).status ∈ [404, 405, 422]
  inactive_turnDown : ∀ q, (turnDown q).body.inactive = false

namespace Http

/-- The service: how requests are taken in and lines are run, where sessions start, and the sessions
there are. -/
structure Service where
  routing : Routing
  storage : Storage
  fresh : Session
  registry : Registry

def unknown (e : UnknownSession) : Response := ⟨404, .detail e.message⟩

def createSession (v : Service) : Response × Service :=
  let (id, r) := v.registry.create v.fresh
  (⟨201, .session id v.fresh⟩, { v with registry := r })

def showSession (v : Service) (id : Text) : Response :=
  match v.registry.get id with
  | .error e => unknown e
  | .ok s => ⟨200, .session id s⟩

def dropSession (v : Service) (id : Text) : Response × Service :=
  match v.registry.remove id with
  | .error e => (unknown e, v)
  | .ok r => (⟨204, .none⟩, { v with registry := r })

/-- Runs a line in a session. If the run stops, the session is still there. -/
def runCommand (v : Service) (id line : Text) : StateM World (Response × Service) := do
  match v.registry.get id with
  | .error e => return (unknown e, v)
  | .ok s =>
    if !s.active then return (⟨409, .detail "Session has exited".toList⟩, v)
    let ((s, stopped), shown) ← capture (execute v.storage line s)
    let r := v.registry.put id s
    if stopped.isSome then return (⟨500, .failure⟩, { v with registry := r })
    let r := if s.active then r else (r.discard id).2
    return (⟨200, .result shown s⟩, { v with registry := r })

/-- What is done for a request that asks for something. -/
def grant (v : Service) : Ask → StateM World (Response × Service)
  | .create => return createSession v
  | .look id => return (showSession v id, v)
  | .run id line => runCommand v id line
  | .drop id => return dropSession v id

/-- Answers one request. -/
def respond (v : Service) (q : Request) : StateM World (Response × Service) :=
  match v.routing.ask? q with
  | some a => grant v a
  | none => return (v.routing.turnDown q, v)

end Http

end FileShell
