import FileShell.Program.Options
import FileShell.Program.Settings

/-!
# The server as a program

Where the server listens, from its arguments and the environment. The port of the environment is
read whether or not the arguments give another.
-/

namespace FileShell

namespace Server

inductive Key
  | help
  | host
  | port
  | reload
  deriving DecidableEq

def options : List (OptionSpec Key) :=
  [⟨.help, ["-h".toList, "--help".toList], false⟩, ⟨.host, ["--host".toList], true⟩,
   ⟨.port, ["--port".toList], true⟩, ⟨.reload, ["--reload".toList], false⟩]

structure Plan where
  application : Text
  host : Text
  port : Int
  reload : Bool
  logLevel : Text

inductive Ending
  | usage (status : Nat)
  | badPort (value : Text) (e : IntegerError)
  | serve (p : Plan)

def badPortMessage (value : Text) : IntegerError → Text
  | .malformed => "invalid literal for int() with base 10: ".toList ++ value.quoted
  | .tooLong n =>
    "Exceeds the limit (4300 digits) for integer string conversion: value has ".toList ++
      (toString n).toList ++
      " digits; use sys.set_int_max_str_digits() to increase the limit".toList

/-- Takes the options in order; help and a port that is no number settle the run at once. -/
def apply (p : Plan) : List (Key × Option Text) → Except Nat Plan
  | [] => .ok p
  | (.help, _) :: _ => .error 0
  | (.reload, _) :: os => apply { p with reload := true } os
  | (.host, v) :: os => apply { p with host := v.getD [] } os
  | (.port, v) :: os =>
    match Integer.parse (v.getD []) with
    | .ok n => apply { p with port := n } os
    | .error _ => .error 2

def run (env : Environment) (args : List Text) : Ending :=
  let port := (env.get? "PORT").getD "8000".toList
  match Integer.parse port with
  | .error e => .badPort port e
  | .ok n =>
    let plan : Plan := {
      application := "termcli.main:app".toList
      host := (env.get? "HOST").getD "127.0.0.1".toList
      port := n
      reload := ["1".toList, "true".toList, "True".toList].contains ((env.get? "RELOAD").getD [])
      logLevel := "warning".toList }
    let (os, right) := Options.parse options args
    match apply plan os with
    | .error status => .usage status
    | .ok p => if right then .serve p else .usage 2

end Server

end FileShell
