import FileShell.Shell.Archives
import FileShell.Shell.Directories
import FileShell.Shell.Files
import FileShell.Shell.Navigation

/-!
# Running lines

A line is split at its redirection and its command is run. The output of a redirected command is
gathered and written to the target, which is resolved once the command has run. A line without a
command is refused whatever it redirects. If the command stops, so does the line: what it gathered
is lost and nothing is written.
-/

namespace FileShell

namespace Handler

/-- `exit` closes the session, whatever its arguments. -/
def exit : Handler where
  name := "exit".toList
  run _ session := do
    showLine "Exiting CLI...".toList
    return session.close

/-- All commands of the shell. -/
def standard (s : Storage) : List Handler :=
  [pwd, cd s, ls s, mkdir s, rmdir s, touch s, rm s, cp s, cpTree s, cat s, wc s, echo, zip s,
   unzip s, exit]

end Handler

/-- Runs a command and writes what it shows to the target of a redirection. -/
def executeRedirected (s : Storage) (c : Command) (r : Redirection) (session : Session) :
    StateM World (Session × Option Stop) := do
  if r.target.isEmpty then
    showLine "Error: Missing redirection target".toList
    return (session, none)
  else
    let ((session, stopped), out) ← capture (Handler.attempt (Handler.standard s) c session)
    if stopped.isNone then
      (s.write (session.resolve r.target) out (r.mode = .append)).orShow
        "Error writing to file".toList
    return (session, stopped)

/-- Runs one line in a session and gives the session afterwards, and why the run stopped if it
did. -/
def execute (s : Storage) (line : Text) (session : Session) :
    StateM World (Session × Option Stop) := do
  let l := CommandLine.split line
  match Command.parse? l.command with
  | none =>
    showLine "Error: Command not recognized.".toList
    return (session, none)
  | some c =>
    match l.redirection with
    | some r => executeRedirected s c r session
    | none => Handler.attempt (Handler.standard s) c session

/-- The session after a line. -/
def runLine (s : Storage) (line : Text) (session : Session) : StateM World Session := do
  return (← execute s line session).1

end FileShell
