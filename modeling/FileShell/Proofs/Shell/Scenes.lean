import FileShell.Proofs.Storage.Runs
import FileShell.Shell.Run

/-!
# Lines as they are played

The shell told as it goes: a session that commands change in place, errors that are caught, and
stops that nobody catches. Three commands are told anew. Two of them change their session. The
third is `unzip`, which asks whether an entry stays in its destination: that stops at a path that is
not absolute, since what it means depends on the directory the program was started in, which may be
gone. The others leave their session as it is, and may stop by themselves.
-/

namespace FileShell

/-- A session and the world it is in. -/
structure Scene where
  session : Session
  world : World

/-- Something done in a scene, which may stop. -/
abbrev Play (α : Type) := ExceptT Stop (StateM Scene) α

/-- Something done in a scene that may fail with an error, or stop. -/
abbrev Deed (ε α : Type) := ExceptT ε (ExceptT Stop (StateM Scene)) α

namespace Play

def ofWorld {α : Type} (m : StateM World α) : Play α :=
  ExceptT.mk fun σ => (.ok (m σ.world).1, { σ with world := (m σ.world).2 })

/-- Runs a play with a sink of its own and gives what it showed; if it stops, that is lost. -/
def capture (m : Play Unit) : Play Text :=
  ExceptT.mk fun σ =>
    let (r, σ') := m.run { σ with world.shown := [] }
    (r.map fun _ => σ'.world.shown, { σ' with world.shown := σ.world.shown })

end Play

namespace Deed

variable {ε ε' α : Type}

/-- An action on the world leaves the session alone. -/
def ofAct (m : Act ε α) : Deed ε α := ExceptT.mk (Play.ofWorld m.run)

def stop (r : Stop) : Deed ε α := ExceptT.mk (throw r)

def ofExcept : Except Stop α → Deed ε α
  | .ok a => return a
  | .error r => stop r

/-- The same deed with another error; a stop stays what it is. -/
def failingWith (m : Deed ε α) (e : ε') : Deed ε' α := m.adapt fun _ => e

end Deed

/-! ## Unpacking -/

namespace Path

/-- The normal form of a path that does not depend on where the program was started. -/
def tryAbsolute (p : Path) : Except Stop Path :=
  if p.isAbsolute then .ok p.normalize else .error .relativePath

def tryWithin (root p : Path) : Except Stop Bool := do
  let root ← tryAbsolute root
  let p ← tryAbsolute p
  return common root p == root

def tryBelow (destination : Path) (parts : List Text) : Except Stop (Option Path) := do
  if parts.isEmpty || parts.contains ['.', '.'] then return none
  let target := parts.foldl join destination
  if ← tryWithin destination target then return some target
  return none

end Path

namespace Deed

variable (s : Storage)

/-- `Unpacking.unpackAll`; where an entry goes is asked before its name is looked at. -/
def unpackAll {ε : Type} (r : Reader) (destination : Path) : List Entry → Deed ε (List Entry)
  | [] => return []
  | e :: es => do
    let target ← ofExcept (Path.tryBelow destination (Entry.parts e.name))
    match if Path.isAbsolute e.name then none else target with
    | none =>
      ofAct (liftM (showLine ("Warning: Skipping unsafe entry ".toList ++ e.name)))
      unpackAll r destination es
    | some target =>
      match ← ofAct (liftM (Unpacking.unpackEntry s r e target).run) with
      | .ok () => return e :: (← unpackAll r destination es)
      | .error () =>
        ofAct (liftM (showLine ("Error: Cannot extract ".toList ++ e.name)))
        unpackAll r destination es

def unpack (archive destination : Path) : Deed ArchiveError (List Entry) := do
  let r ← ofAct (Reader.openAt s archive)
  unpackAll s r destination r.entries

/-! ## Commands -/

/-- Puts the session into another directory. -/
def goTo (p : Path) : Deed CommandError Unit :=
  modify fun σ => { σ with session := σ.session.goTo p }

def cd : List Text → Deed CommandError Unit
  | [] => do goTo (← get).session.home
  | [p] => do
    let session := (← get).session
    if p = ['.', '.'] then
      match session.parent? with
      | none => throw .atRoot
      | some parent => goTo parent
    else
      let target := session.resolve p
      if !(← ofAct (liftM (Storage.isDir target))) then throw .noDirectory
      goTo (← ofAct ((s.canonicalize target).failingWith .cannotChange))
  | _ => throw (.usage .cd)

def exit (_ : List Text) : Deed CommandError Unit := do
  ofAct (liftM (showLine "Exiting CLI...".toList))
  modify fun σ => { σ with session := σ.session.close }

def unzip (args : List Text) : Deed CommandError Unit := do
  match Handler.unzipArgs args with
  | .error u => throw (.usage u)
  | .ok (archive, destination) =>
    let session := (← get).session
    let archive := session.resolve archive
    if !(← ofAct (liftM (Storage.isFile archive))) then throw .noArchive
    let destination ← match destination with
      | none => pure session.directory
      | some d => do
        ofAct ((s.makeDirs (session.resolve d) true).failingWith .cannotMakeDestination)
        pure (session.resolve d)
    let _ ← (unpack s archive destination).failingWith .cannotUnpack
    return ()

/-- A command that leaves its session as it is. If it stops, there is no error to be caught. -/
def plain (h : Handler) (args : List Text) : Deed CommandError Unit := do
  match ← ofAct (liftM (h.run args (← get).session).run) with
  | .ok _ => return ()
  | .error (.stopped r) => stop r
  | .error e => throw e

/-- What a handler does, told as a deed. -/
def ofHandler (h : Handler) : List Text → Deed CommandError Unit :=
  if h.name = "cd".toList then cd s
  else if h.name = "exit".toList then exit
  else if h.name = "unzip".toList then unzip s
  else plain h

end Deed

/-! ## Lines -/

namespace Play

variable (s : Storage)

/-- Runs the handler of a command and shows its error, if it fails with one. -/
def dispatch (c : Command) : Play Unit := do
  match Handler.route (Handler.standard s) c with
  | (none, _) => ofWorld (showLine ("Command not found: ".toList ++ c.name))
  | (some h, args) =>
    match ← (Deed.ofHandler s h args).run with
    | .ok () => return ()
    | .error e => ofWorld (showLine ("Error: ".toList ++ e.message))

def executeRedirected (c : Command) (r : Redirection) : Play Unit := do
  if r.target.isEmpty then ofWorld (showLine "Error: Missing redirection target".toList)
  else
    let out ← capture (dispatch s c)
    let path := (← get).session.resolve r.target
    ofWorld ((s.write path out (r.mode = .append)).orShow "Error writing to file".toList)

/-- Runs one line and says whether the session is still active. -/
def execute (line : Text) : Play Bool := do
  let l := CommandLine.split line
  match Command.parse? l.command with
  | none => ofWorld (showLine "Error: Command not recognized.".toList)
  | some c =>
    match l.redirection with
    | some r => executeRedirected s c r
    | none => dispatch s c
  return (← get).session.active

end Play

end FileShell
