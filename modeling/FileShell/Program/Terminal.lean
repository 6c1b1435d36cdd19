import FileShell.Program.Options
import FileShell.Program.Settings
import FileShell.Shell.Prompt

/-!
# The shell as a program

The program runs the lines given with `-c`, in order, or else prompts for lines on its input. The
session starts in the directory of the settings, or in the one given with `--cwd`. Its exit status
is 2 if the arguments or that directory are wrong. What the lines show goes to a console, which is
given by what it prints for a text. A line that stops ends the program.
-/

namespace FileShell

namespace Terminal

inductive Key
  | help
  | directory
  | command
  deriving DecidableEq

def options : List (OptionSpec Key) :=
  [⟨.help, ["-h".toList, "--help".toList], false⟩, ⟨.directory, ["--cwd".toList], true⟩,
   ⟨.command, ["-c".toList, "--command".toList], true⟩]

/-- How a run of the program ends. -/
inductive Ending
  /-- The arguments settle it: help was asked for, or they are wrong. -/
  | usage (status : Nat)
  | misconfigured (e : ConfigurationError)
  | unknownLevel (level : Text)
  | finished (status : Nat) (out err : Text)
  | stopped (r : Stop) (out : Text)

def unknownLevelMessage (level : Text) : Text := "Unknown level: ".toList ++ level.quoted

def levels : List Text :=
  ["CRITICAL", "FATAL", "ERROR", "WARN", "WARNING", "INFO", "DEBUG", "NOTSET"].map String.toList

variable (print : Text → Text)

/-- Runs lines until the session is closed or a line stops, and gives what the console shows. -/
def runLines (s : Storage) : List Text → Session → StateM World (Text × Option Stop)
  | [], _ => return ([], none)
  | line :: lines, session => do
    let ((session, stopped), shown) ← capture (execute s line session)
    if stopped.isSome || !session.active then return (print shown, stopped)
    let (out, stopped) ← runLines s lines session
    return (print shown ++ out, stopped)

def interact (s : Storage) (user : Text) (input : Text) (session : Session) :
    StateM World (Text × Option Stop) := do
  let (turns, _, stopped) ← Prompt.run s user (input.feedLines.map some) session
  return (turns.flatMap fun t => t.prompt ++ print t.shown, stopped)

/-- How a run ends that has put something out. -/
def ending : Text × Option Stop → Ending
  | (out, none) => .finished 0 out []
  | (out, some r) => .stopped r out

/-- The values of an option, in order. -/
def valuesOf (os : List (Key × Option Text)) (key : Key) : List Text :=
  os.filterMap fun (k, v) => if k = key then v else none

def notDirectoryMessage (p : Path) : Text := "termcli: not a directory: ".toList ++ p ++ ['\n']

/-- Runs the program that was started in a directory with arguments and an input. -/
def run (env : Environment) (directory : Path) (args : List Text) (input : Text) :
    StateM World Ending := do
  match Settings.load env (← get).disk directory with
  | .error e => return .misconfigured e
  | .ok settings =>
    let (os, right) := Options.parse options args
    if os.any (·.1 = .help) then return .usage 0
    if !right then return .usage 2
    if !levels.contains settings.logLevel then return .unknownLevel settings.logLevel
    let asked := (valuesOf os .directory).getLast?.getD []
    let real := Settings.realDirectory (← get).disk directory (Settings.expandHome env asked)
    let start := if asked.isEmpty then settings.start else real
    if !asked.isEmpty && !(← get).disk.isDir start then
      return .finished 2 [] (notDirectoryMessage asked)
    let s : Storage := { chunk := settings.chunk }
    let session : Session := { directory := start, home := settings.home }
    match valuesOf os .command with
    | [] => return ending (← interact print s settings.user input session)
    | lines => return ending (← runLines print s lines session)

end Terminal

end FileShell
