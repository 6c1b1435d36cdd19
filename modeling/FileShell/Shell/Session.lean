import FileShell.Path

/-!
# Sessions

A session has a current directory, against which it resolves paths, and a home directory. It stays
active until it is closed. The parent of a directory is found from the path alone.
-/

namespace FileShell

structure Session where
  directory : Path
  home : Path
  active : Bool := true
  deriving DecidableEq

namespace Session

/-- A new session; it has to start in an absolute directory. -/
def start? (directory home : Path) : Option Session :=
  if directory.isAbsolute then some { directory, home } else none

def startMessage : Text := "Session requires an absolute starting directory".toList

def resolve (s : Session) (p : Path) : Path :=
  if p.isAbsolute then p else s.directory ++ '/' :: p

/-- The directory above the current one, unless that is the root. -/
def parent? (s : Session) : Option Path :=
  let trimmed := Text.trimEnd (· == '/') s.directory
  let p := Path.parent (if trimmed.isEmpty then ['/'] else trimmed)
  if p.isEmpty || p == s.directory then none else some p

def goTo (s : Session) (p : Path) : Session := { s with directory := p }

def close (s : Session) : Session := { s with active := false }

def describe (s : Session) : Text :=
  "Session(current_directory='".toList ++ s.directory ++ "', active=".toList ++
    (if s.active then "True" else "False").toList ++ [')']

end Session

end FileShell
