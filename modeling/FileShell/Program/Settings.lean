import FileShell.Disk.Real
import FileShell.Text.Integer
import FileShell.Text.Quoted
import FileShell.Text.Upper

/-!
# Settings

What the environment settles: where sessions start and are at home, how many bytes are moved at a
time, how much is logged, and the name of the user. A variable that is empty counts as missing.
Directories may start with a tilde, and their real paths are taken.
-/

namespace FileShell

abbrev Environment := List (Text × Text)

inductive ConfigurationError
  | notInteger (key value : Text)
  | notPositive (key : Text) (value : Int)

def ConfigurationError.message : ConfigurationError → Text
  | .notInteger key value =>
    "Environment variable ".toList ++ key ++ " must be an integer, got ".toList ++ value.quoted
  | .notPositive key value =>
    "Environment variable ".toList ++ key ++ " must be positive, got ".toList ++
      Integer.render value

namespace Environment

def get? (env : Environment) (key : String) : Option Text := env.lookup key.toList

/-- The value of a variable, or another if the variable is missing or empty. -/
def getOr (env : Environment) (key : String) (default : Text) : Text :=
  match env.get? key with
  | some (c :: t) => c :: t
  | _ => default

end Environment

structure Settings where
  start : Path
  home : Path
  chunk : Nat
  logLevel : Text
  user : Text

namespace Settings

/-- The homes of users that a tilde may name. -/
def homes : List (Text × Path) := [("root".toList, "/root".toList)]

/-- The path with a tilde at its start replaced by the home it stands for. -/
def expandHome (env : Environment) : Path → Path
  | '~' :: t =>
    let user := t.takeWhile (· != '/')
    let rest := t.dropWhile (· != '/')
    let home := if user.isEmpty then some ((env.get? "HOME").getD []) else homes.lookup user
    match home with
    | none => '~' :: t
    | some home =>
      let p := Text.trimEnd (· == '/') home ++ rest
      if p.isEmpty then ['/'] else p
  | p => p

/-- The real path of a directory that is seen from another. There are never more links inside one
another than there are items. -/
def realDirectory (d : Disk) (directory p : Path) : Path :=
  match d.realPath d.items.length false (directory.join p) with
  | .ok q => q
  | .error _ => p

def chunkKey : String := "TERMCLI_CHUNK_SIZE"

def readChunk (env : Environment) : Except ConfigurationError Nat :=
  match env.get? chunkKey with
  | none | some [] => .ok 512
  | some t =>
    match Integer.parse t with
    | .error _ => .error (.notInteger chunkKey.toList t)
    | .ok n => if n ≤ 0 then .error (.notPositive chunkKey.toList n) else .ok n.toNat

/-- The first of the variables that name a user and are not empty. -/
def defaultUser (env : Environment) : Text :=
  ((["LOGNAME", "USER", "LNAME", "USERNAME"].filterMap env.get?).find? (!·.isEmpty)).getD
    "user".toList

/-- The settings of a program that is started in a directory. -/
def load (env : Environment) (d : Disk) (directory : Path) : Except ConfigurationError Settings := do
  let real p := realDirectory d directory (expandHome env p)
  let chunk ← readChunk env
  return {
    start := real (env.getOr "TERMCLI_START_DIR" directory)
    home := real (env.getOr "TERMCLI_HOME" ['~'])
    chunk
    logLevel := (env.getOr "TERMCLI_LOG_LEVEL" "WARNING".toList).upper
    user := env.getOr "TERMCLI_USER" (defaultUser env) }

end Settings

end FileShell
