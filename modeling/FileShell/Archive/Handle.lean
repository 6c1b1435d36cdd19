import FileShell.Archive.Contents
import FileShell.Archive.Writing
import FileShell.Storage.Files

/-!
# Open archives

An archive is open for writing or for reading. A writer empties the file when it opens and gathers
members; the file gets its bytes when the writer is closed. A reader works on the bytes the file
had when it was opened, and finds an entry by its name: the last entry of that name. Should the
file be written to while a reader is open, this is what is read only as far as the bytes stand in
the reader's buffer, which holds 4096 of them.
-/

namespace FileShell

inductive ArchiveError
  | stopped (r : Stop)
  | refused
  | create (p : Path)
  | absent (p : Path)
  | damaged (p : Path)
  | unsupported (p : Path)
  | addDirectory (name : Text)
  | addFile (source : Path) (name : Text)
  | readEntry (name : Text)
  deriving DecidableEq

def ArchiveError.message : ArchiveError → Text
  | .stopped r => r.message
  | .refused => "injected".toList
  | .create p => "Failed to create archive ".toList ++ p
  | .absent p => "Archive does not exist: ".toList ++ p
  | .damaged p => "Not a valid zip archive ".toList ++ p
  | .unsupported p => "Failed to open archive ".toList ++ p
  | .addDirectory n => "Failed to add directory entry ".toList ++ n
  | .addFile p n => "Failed to add ".toList ++ p ++ " as ".toList ++ n
  | .readEntry n => "Failed to read entry ".toList ++ n

structure Writer where
  place : Loc
  members : List Member
  closed : Bool

namespace Writer

def openAt (s : Storage) (p : Path) : Act ArchiveError Writer := do
  s.allow .openWriter p .refused
  return ⟨← Storage.openWrite p (.create p), [], false⟩

/-- A member's name is stored up to its first NUL. -/
def storedName (name : Text) : Text := name.takeWhile (· != '\x00')

def maxName : Nat := 65535

/-- Adds a directory, whose name ends in one slash. -/
def addDirectory (s : Storage) (w : Writer) (name : Text) : Except ArchiveError Entry × Writer :=
  let full := Text.trimEnd (· == '/') name ++ ['/']
  if s.refuses .addDirectory name then (.error .refused, w)
  else if w.closed || maxName < (storedName full).byteSize then (.error (.addDirectory full), w)
  else (.ok ⟨full, true, 0⟩, { w with members := w.members ++ [⟨storedName full, true, []⟩] })

/-- Adds what the file at `source` holds. The name is stored in normal form and without slashes
in front. If the source fails while it is read, what came before stays in the archive. -/
def addFile (s : Storage) (d : Disk) (w : Writer) (source : Path) (name : Text) :
    Except ArchiveError Entry × Writer :=
  let full := Text.trimStart (· == '/') (Path.normalize name)
  if s.refuses .addFile source then (.error .refused, w)
  else match d.read source with
    | .error _ => (.error (.addFile source name), w)
    | .ok b =>
      if w.closed || full.isEmpty || maxName < (storedName full).byteSize then
        (.error (.addFile source name), w)
      else
        let (b, held) := (Stream.ofFile s.memory b).drain s.chunk
        let w := { w with members := w.members ++ [⟨storedName full, false, b⟩] }
        (if held then .ok ⟨name, false, b.length⟩ else .error (.addFile source name), w)

/-- Writes the archive out; a writer that is closed already stays as it is. -/
def close (w : Writer) : StateM World Writer := do
  if !w.closed then Storage.put w.place (Member.archive w.members)
  return { w with closed := true }

end Writer

structure Reader where
  archive : Archive
  closed : Bool

namespace Reader

def openAt (s : Storage) (p : Path) : Act ArchiveError Reader := do
  s.allow .openReader p .refused
  let d := (← get).disk
  if !d.isFile p then throw (.absent p)
  let b ← Storage.ask (·.read p) (.unsupported p)
  match Archive.ofBytes b with
  | .ok a => return ⟨a, false⟩
  | .error .damaged => throw (.damaged p)
  | .error .unsupported => throw (.unsupported p)

def entries (r : Reader) : List Entry :=
  r.archive.listings.map fun l => ⟨l.name, l.isDir, l.size⟩

/-- The contents of the last entry of the name. -/
def contents (s : Storage) (r : Reader) (name : Text) : Except ArchiveError Contents :=
  if s.refuses .openEntry name then .error .refused
  else if r.closed then .error (.readEntry name)
  else match r.archive.indexOf? name >>= r.archive.contents? with
    | some c => .ok c
    | none => .error (.readEntry name)

def close (r : Reader) : Reader := { r with closed := true }

end Reader

end FileShell
