import FileShell.Service.Http
import FileShell.Text.Percent

/-!
# A routing

A way to take requests in. Sessions are created at one path, looked at and dropped at a path with
their id, and lines are run at a path below that. A request to run a line needs a body that carries
the line; that is looked at before the session is. A query after the path is not looked at, a slash
too many at its end does no harm, and an answer to a request for the head alone has no body.
-/

namespace FileShell

/-- What a path is about. -/
inductive Resource
  | sessions
  | session (id : Text)
  | commands (id : Text)
  deriving DecidableEq

namespace Resource

def ofPieces : List Text → Option Resource
  | [[], a] => if a = "sessions".toList then some .sessions else none
  | [[], a, id] => if a = "sessions".toList ∧ id ≠ [] then some (.session id) else none
  | [[], a, id, b] =>
    if a = "sessions".toList ∧ id ≠ [] ∧ b = "commands".toList then some (.commands id) else none
  | _ => none

/-- A path with slashes at its end is taken without them if it is nothing as it stands. -/
def ofPath (p : Text) : Option Resource :=
  let p := Percent.decode (p.takeWhile fun c => c != '?' && c != '#')
  match ofPieces (Text.split (· == '/') p) with
  | some r => some r
  | none => ofPieces (Text.split (· == '/') (Text.trimEnd (· == '/') p))

end Resource

namespace Routing

/-- What a request asks for, if its path, method and body go together. -/
def askOf (q : Request) : Option Ask :=
  match Resource.ofPath q.path with
  | none => none
  | some .sessions => if q.method = "POST".toList then some .create else none
  | some (.session id) =>
    if q.method = "GET".toList then some (.look id)
    else if q.method = "DELETE".toList then some (.drop id)
    else none
  | some (.commands id) => if q.method = "POST".toList then q.line.map (.run id) else none

/-- What is wrong with a request that asks for nothing. -/
def complaint (q : Request) : Response :=
  match Resource.ofPath q.path with
  | none => ⟨404, .detail "Not Found".toList⟩
  | some (.commands _) =>
    if q.method = "POST".toList then ⟨422, .failure⟩
    else ⟨405, .detail "Method Not Allowed".toList⟩
  | some _ => ⟨405, .detail "Method Not Allowed".toList⟩

def turnDownOf (q : Request) : Response :=
  if q.method = "HEAD".toList then { complaint q with body := .none } else complaint q

theorem status_complaint (q : Request) : (complaint q).status ∈ [404, 405, 422] := by
  unfold complaint
  split
  · simp
  · split <;> simp
  · simp

theorem inactive_complaint (q : Request) : (complaint q).body.inactive = false := by
  unfold complaint
  split
  · rfl
  · split <;> rfl
  · rfl

def standard : Routing where
  ask? := askOf
  turnDown := turnDownOf
  status_turnDown q := by
    unfold turnDownOf
    split
    · exact status_complaint q
    · exact status_complaint q
  inactive_turnDown q := by
    unfold turnDownOf
    split
    · rfl
    · exact inactive_complaint q

end Routing

end FileShell
