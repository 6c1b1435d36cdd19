import FileShell.Shell.Error
import FileShell.Shell.Line
import FileShell.Shell.Session
import FileShell.Storage.Basic

/-!
# Dispatch

A handler runs the command of its name in a session and gives the session afterwards. A command is
routed by its name; `cp` with `-r` for its first argument goes to the handler `cp -r`, without that
argument. A handler that fails leaves the session as it was, and its error is shown. A stop is not
shown: it is what becomes of the line.
-/

namespace FileShell

structure Handler where
  name : Text
  run : List Text → Session → Act CommandError Session

namespace Handler

/-- Of handlers of one name the last counts. -/
def find? (handlers : List Handler) (name : Text) : Option Handler :=
  (handlers.filter (·.name == name)).getLast?

def treeFlag : Text := "-r".toList

/-- The handler for a command, if there is one, and the arguments it is given. -/
def route (handlers : List Handler) (c : Command) : Option Handler × List Text :=
  match c.args with
  | a :: rest =>
    if c.name = "cp".toList ∧ a = treeFlag then (find? handlers "cp -r".toList, rest)
    else (find? handlers c.name, c.args)
  | [] => (find? handlers c.name, [])

/-- Runs a command and gives the session afterwards, and why the run stopped if it did. -/
def attempt (handlers : List Handler) (c : Command) (session : Session) :
    StateM World (Session × Option Stop) := do
  match route handlers c with
  | (none, _) =>
    showLine ("Command not found: ".toList ++ c.name)
    return (session, none)
  | (some h, args) =>
    match ← (h.run args session).run with
    | .ok session => return (session, none)
    | .error (.stopped r) => return (session, some r)
    | .error e =>
      showLine ("Error: ".toList ++ e.message)
      return (session, none)

/-- The session after a command. -/
def dispatch (handlers : List Handler) (c : Command) (session : Session) :
    StateM World Session := do
  return (← attempt handlers c session).1

end Handler

end FileShell
