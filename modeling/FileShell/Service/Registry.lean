import FileShell.Shell.Session

/-!
# Registries

A registry keeps sessions under ids. Each registered session has a lock of its own. Ids are handed
out by number, and no number comes twice, so an id that was dropped is never known again.
-/

namespace FileShell

structure UnknownSession where
  id : Text

def UnknownSession.message (e : UnknownSession) : Text := "Unknown session: ".toList ++ e.id

/-- A session under its id; the number tells its lock from all others. -/
structure Registered where
  id : Text
  number : Nat
  session : Session

structure Registry where
  /-- The id of the session with a given number. -/
  idOf : Nat → Text
  created : Nat
  sessions : List Registered

namespace Registry

def empty (idOf : Nat → Text) : Registry := ⟨idOf, 0, []⟩

def size (r : Registry) : Nat := r.sessions.length

/-- Registers a session and gives its id. -/
def create (r : Registry) (s : Session) : Text × Registry :=
  let id := r.idOf r.created
  (id, { r with created := r.created + 1, sessions := r.sessions ++ [⟨id, r.created, s⟩] })

def find (r : Registry) (id : Text) : Except UnknownSession Registered :=
  match r.sessions.find? (·.id == id) with
  | some e => .ok e
  | none => .error ⟨id⟩

def get (r : Registry) (id : Text) : Except UnknownSession Session :=
  (r.find id).map (·.session)

/-- The number of the lock of a session. -/
def lock (r : Registry) (id : Text) : Except UnknownSession Nat :=
  (r.find id).map (·.number)

/-- The session afterwards, in place of the session before. -/
def put (r : Registry) (id : Text) (s : Session) : Registry :=
  { r with sessions := r.sessions.map fun e => if e.id = id then { e with session := s } else e }

/-- Drops a session and says whether it was there. -/
def discard (r : Registry) (id : Text) : Bool × Registry :=
  (r.sessions.any (·.id == id), { r with sessions := r.sessions.filter (·.id != id) })

def remove (r : Registry) (id : Text) : Except UnknownSession Registry :=
  match r.discard id with
  | (true, r) => .ok r
  | (false, _) => .error ⟨id⟩

end Registry

end FileShell
