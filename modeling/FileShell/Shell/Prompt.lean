import FileShell.Shell.Run

/-!
# Prompting

An interactive session prompts for lines and runs them while it is active. It ends with a farewell
when the input ends or is interrupted, and at a line that says `exit` in any case. A line that stops
ends it at once.
-/

namespace FileShell

/-- One turn: the prompt, and what is shown after it. -/
structure Turn where
  prompt : Text
  shown : Text

namespace Prompt

def promptOf (user : Text) (s : Session) : Text :=
  user ++ "@CLI:".toList ++ s.directory ++ "$ ".toList

def farewell (user : Text) : Text :=
  "CLI session closed by user (".toList ++ user ++ ")\n".toList

/-- No other characters than these letters and their capitals have them for lower case. -/
def isExit (line : Text) : Bool := line.map Char.toLower == "exit".toList

/-- Runs the lines that are typed; a line that is none is an interruption. Gives the turns, the
session afterwards, and why the run stopped if it did. -/
def run (s : Storage) (user : Text) : List (Option Text) → Session →
    StateM World (List Turn × Session × Option Stop)
  | input, session => do
    if !session.active then return ([], session, none)
    let prompt := promptOf user session
    match input with
    | [] | none :: _ => return ([⟨prompt, '\n' :: farewell user⟩], session, none)
    | some line :: rest =>
      if isExit line.strip then return ([⟨prompt, farewell user⟩], session, none)
      let ((session, stopped), shown) ← capture (execute s line.strip session)
      if stopped.isSome then return ([⟨prompt, shown⟩], session, stopped)
      let (turns, session, stopped) ← run s user rest session
      return (⟨prompt, shown⟩ :: turns, session, stopped)

end Prompt

end FileShell
