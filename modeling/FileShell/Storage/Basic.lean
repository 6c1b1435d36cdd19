import FileShell.Disk.Change
import FileShell.Disk.Real

/-!
# Storage

A run reads and changes a world: a disk, and the text shown so far. An action on the world may
fail, and what it did before it failed stays done. Some failures are accounted for by no command;
these are stops, and they pass through whatever handles the others. The storage is the way to the
disk that the commands use. It moves bytes in chunks of a chosen size, and it may be set to refuse
calls: a call is refused by its kind and the path it is made for, paths being compared in normal
form. What else a run depends on are two limits of the machine: how large a request for bytes can
be, and how many calls may nest.
-/

namespace FileShell

structure World where
  disk : Disk
  shown : Text

abbrev Act (ε α : Type) := ExceptT ε (StateM World) α

/-- Shows a text followed by a line feed. -/
def showLine (t : Text) : StateM World Unit :=
  modify fun w => { w with shown := w.shown ++ t ++ ['\n'] }

/-- Runs with nothing shown yet, and keeps what it shows apart. -/
def capture {α : Type} (m : StateM World α) : StateM World (α × Text) := fun w =>
  let (a, w') := m { w with shown := [] }
  ((a, w'.shown), { w' with shown := w.shown })

/-- The same action with another failure. -/
def Act.failingWith {ε ε' α : Type} (m : Act ε α) (e : ε') : Act ε' α :=
  m.adapt fun _ => e

/-- Shows a line in place of a failure. -/
def Act.orShow {ε : Type} (m : Act ε Unit) (line : Text) : StateM World Unit := do
  match ← m.run with
  | .ok () => return ()
  | .error _ => showLine line

/-- Why a run stops that no command accounts for. -/
inductive Stop
  /-- A path with a null character was asked for its real path. -/
  | nullCharacter
  /-- A path that is not absolute was compared, and there is no directory to start from. -/
  | relativePath
  /-- More calls inside one another than may nest. -/
  | recursion
  deriving DecidableEq

def Stop.message : Stop → Text
  | .nullCharacter => "embedded null byte".toList
  | .relativePath => "[Errno 2] No such file or directory".toList
  | .recursion => "maximum recursion depth exceeded".toList

/-- What stops a run that asks for real paths. -/
def Stop.ofDisk : DiskError → Stop
  | .tooDeep => .recursion
  | _ => .nullCharacter

inductive StorageError
  | stopped (r : Stop)
  | refused
  | list (p : Path)
  | makeDir (p : Path)
  | removeDir (p : Path)
  | create (p : Path)
  | delete (p : Path)
  | copy (source target : Path)
  | read (p : Path)
  | write (p : Path)
  | canonicalize (p : Path)
  deriving DecidableEq

def StorageError.message : StorageError → Text
  | .stopped r => r.message
  | .refused => "injected".toList
  | .list p => "Failed to list ".toList ++ p
  | .makeDir p => "Failed to create directory ".toList ++ p
  | .removeDir p => "Failed to remove directory ".toList ++ p
  | .create p => "Failed to create file ".toList ++ p
  | .delete p => "Failed to delete file ".toList ++ p
  | .copy p q => "Failed to copy ".toList ++ p ++ " to ".toList ++ q
  | .read p => "Failed to read ".toList ++ p
  | .write p => "Failed to write ".toList ++ p
  | .canonicalize p => "Cannot canonicalize ".toList ++ p

/-- Shows a line in place of a failure, unless it is a stop. -/
def Act.reporting (m : Act StorageError Unit) (line : Text) : Act StorageError Unit := do
  match ← ExceptT.lift m.run with
  | .ok () => return ()
  | .error (.stopped r) => throw (.stopped r)
  | .error _ => showLine line

/-- The kinds of call that can be refused. -/
inductive Call
  | list
  | makeDirs
  | removeDir
  | create
  | delete
  | copy
  | write
  | writeStream
  | canonicalize
  | openWriter
  | openReader
  | addDirectory
  | addFile
  | openEntry
  deriving DecidableEq

structure Storage where
  /-- How many bytes are moved at a time. -/
  chunk : Nat
  /-- Files are not read in requests for so many bytes, or more. -/
  memory : Nat := 0x10000000000
  /-- How many calls may nest: one inside another for each directory that is gone into, for each
  link that is followed inside another one, and for each missing directory above one that is to be
  made. Those that the links of one walk may take are not counted. -/
  nests : Nat := 900
  refuses : Call → Path → Bool := fun _ _ => false
  /-- After how many lines reading a file is cut off. -/
  cutAfter : Path → Option Nat := fun _ => none

namespace Storage

/-- Refuses each kind of call at the paths listed with it, and cuts reading off where listed. -/
def ofRefusals (chunk : Nat) (calls : List (Call × Path)) (cuts : List (Path × Nat)) : Storage where
  chunk := chunk
  refuses c p := calls.any fun (c', p') => c' = c && p'.normalize == p.normalize
  cutAfter p := (cuts.find? fun (p', _) => p'.normalize == p.normalize).map (·.2)

/-- Fails if the storage refuses the call. -/
def allow {ε : Type} (s : Storage) (c : Call) (p : Path) (e : ε) : Act ε Unit :=
  if s.refuses c p then throw e else return ()

/-- An action that asks the disk for a value. -/
def ask {ε α : Type} (f : Disk → Except DiskError α) (e : ε) : Act ε α := do
  match f (← get).disk with
  | .ok a => return a
  | .error _ => throw e

/-- An action that changes the disk in one step, or not at all. -/
def change {ε : Type} (f : Disk → Except DiskError Disk) (e : ε) : Act ε Unit := do
  match f (← get).disk with
  | .ok d => modify fun w => { w with disk := d }
  | .error _ => throw e

def pathExists (p : Path) : StateM World Bool := return (← get).disk.pathExists p

def isDir (p : Path) : StateM World Bool := return (← get).disk.isDir p

def isFile (p : Path) : StateM World Bool := return (← get).disk.isFile p

/-- How deep links may nest where so many calls may. -/
def linksWithin (n : Nat) : Nat := Disk.maxLinks + n

/-- Whether the two paths lead to the same place, with room for so many calls. -/
def samePath (n : Nat) (p q : Path) : Act StorageError Bool := do
  match (← get).disk.samePath (linksWithin n) p q with
  | .ok same => return same
  | .error e => throw (.stopped (.ofDisk e))

/-- The names in a directory, in order. -/
def list (s : Storage) (p : Path) : Act StorageError (List Text) := do
  s.allow .list p .refused
  ask (·.list p) (.list p)

/-- The names in a directory; none if it cannot be listed. -/
def namesIn (s : Storage) (d : Disk) (p : Path) : List Text :=
  if s.refuses .list p then []
  else match d.list p with
    | .ok names => names
    | .error _ => []

/-- Makes a directory and the missing ones above it; nothing is made if too many are missing. -/
def making (s : Storage) (existOk : Bool) (d : Disk) (p : Path) : Except DiskError Unit × Disk :=
  if s.nests < d.missingAbove p then (.error .tooDeep, d) else d.makeDirs existOk p

def makeDirs (s : Storage) (p : Path) (existOk : Bool) : Act StorageError Unit := do
  s.allow .makeDirs p .refused
  let (r, d) := s.making existOk (← get).disk p
  modify fun w => { w with disk := d }
  match r with
  | .ok () => return ()
  | .error _ => throw (.makeDir p)

def removeDir (s : Storage) (p : Path) : Act StorageError Unit := do
  s.allow .removeDir p .refused
  change (·.removeDir p) (.removeDir p)

def delete (s : Storage) (p : Path) : Act StorageError Unit := do
  s.allow .delete p .refused
  change (·.delete p) (.delete p)

/-- Creates an empty file and says so, unless something is there already, be it a broken link. -/
def create (s : Storage) (p : Path) : Act StorageError Bool := do
  s.allow .create p .refused
  let d := (← get).disk
  if (d.find? false p).isSome then return false
  match d.create p with
  | .ok d => modify fun w => { w with disk := d }; return true
  | .error .occupied => return false
  | .error _ => throw (.create p)

def canonicalize (s : Storage) (p : Path) : Act StorageError Path := do
  s.allow .canonicalize p .refused
  ask (·.realPath (linksWithin s.nests) true p) (.canonicalize p)

end Storage

end FileShell
