import FileShell.Storage.Basic
import FileShell.Storage.Stream
import FileShell.Text.Lines

/-!
# Files of a storage

Copying, reading and writing. A file that is written is emptied first, so a file copied onto
itself ends up empty, and a copy that fails halfway leaves what was written by then. A text file is
read as lines; reading may be cut off, and the lines before the cut still count.
-/

namespace FileShell

/-- The lines that could be read, and what stopped the reading if anything did. -/
structure Reading where
  lines : List Text
  stopped : Option StorageError

namespace Storage

/-- Empties the file at a path, or creates it, and says where it is. -/
def openWrite {ε : Type} (p : Path) (e : ε) : Act ε Loc := do
  let l ← ask (·.locateWrite p) e
  modify fun w => { w with disk := w.disk.write l [] }
  return l

def put (l : Loc) (b : Bytes) : StateM World Unit :=
  modify fun w => { w with disk := w.disk.write l b }

def copy (s : Storage) (source target : Path) : Act StorageError Unit := do
  s.allow .copy source .refused
  let e := StorageError.copy source target
  let l ← ask (fun d => do let l ← d.locate true source; let _ ← d.bytesAt l; return l) e
  let m ← openWrite target e
  let b ← ask (·.bytesAt l) e
  let (b, held) := (Stream.ofFile s.memory b).drain s.chunk
  put m b
  if !held then throw e

/-- The lines of a text file; what is not well-formed in it is read as replacement characters. -/
def readLines (s : Storage) (p : Path) : StateM World Reading := do
  let lines := ((← get).disk.read p).map fun b => (Utf8.decode b).lines
  match s.cutAfter p, lines with
  | none, .ok ls => return ⟨ls, none⟩
  | none, .error _ => return ⟨[], some (.read p)⟩
  | some n, .ok ls => return ⟨ls.take n, some .refused⟩
  | some _, .error _ => return ⟨[], some .refused⟩

/-- Writes a text over a file or after what it holds. -/
def write (s : Storage) (p : Path) (t : Text) (append : Bool) : Act StorageError Unit := do
  s.allow .write p .refused
  let l ← ask (·.locateWrite p) (.write p)
  let old := match (← get).disk.bytesAt l with
    | .ok b => b
    | .error _ => []
  put l ((if append then old else []) ++ Utf8.encode t)

def writeStream (s : Storage) (p : Path) (source : Stream) : Act StorageError Unit := do
  s.allow .writeStream p .refused
  let l ← openWrite p (.write p)
  let (b, held) := source.drain s.chunk
  put l b
  if !held then throw (.write p)

end Storage

end FileShell
