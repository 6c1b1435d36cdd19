import FileShell.Archive.Handle

/-!
# Packing

Putting files and trees into a new archive. A directory comes before what is in it, and what is in
it comes in the order of the names. The archive never takes in the file it is written to. What
cannot be added is reported by the label it was asked for under, and the rest goes on; a directory
that cannot be listed counts as empty. A tree that takes more calls than may nest stops the run;
the archive then gets what was added by then.
-/

namespace FileShell

/-- What is asked to be packed: the path, and the text it was asked for by. -/
structure PackItem where
  label : Text
  path : Path

/-- An archive on its way: the writer, the entries added, and the lines shown. -/
structure Packing where
  writer : Writer
  added : List Entry
  shown : List Text

/-- A part of packing, which may stop. -/
abbrev Packer := ExceptT Stop (StateM Packing) Unit

namespace Packing

def say (k : Packing) (line : Text) : Packing := { k with shown := k.shown ++ [line] }

/-- Takes note of an attempt to add something. -/
def note (k : Packing) (label : Text) : Except ArchiveError Entry × Writer → Packing
  | (.ok e, w) => { k with writer := w, added := k.added ++ [e] }
  | (.error _, w) =>
    { k with writer := w }.say ("Error: Cannot add ".toList ++ label ++ " to zip file".toList)

/-- What packing looks at: the storage, the disk with the archive on it, and the archive's path. -/
structure Setting where
  storage : Storage
  disk : Disk
  archive : Path

variable (c : Setting)

/-- Adds a file that is not the archive, with room for so many calls. -/
def packFile (n : Nat) (path : Path) (name label : Text) : Packer := do
  match c.disk.samePath (Storage.linksWithin n) path c.archive with
  | .error e => throw (.ofDisk e)
  | .ok true => return ()
  | .ok false => modify fun k => k.note label (k.writer.addFile c.storage c.disk path name)

/-- What is done for one name of a directory; `deeper` adds a directory below. -/
def packChild (n : Nat) (deeper : Path → Text → Text → Packer) (path : Path)
    (name label child : Text) : Packer :=
  let path := path.join child
  let name := Entry.joinParts [name, child]
  let label := Entry.joinParts [label, child]
  if c.disk.isDir path then deeper path name label else packFile c n path name label

/-- Adds a directory and what is below it, with room for so many calls inside one another. -/
def packTree : Nat → Path → Text → Text → Packer
  | 0, _, _, _ => throw .recursion
  | n + 1, path, name, label => do
    let (r, w) := (← get).writer.addDirectory c.storage name
    modify fun k => k.note label (r, w)
    if r.isOk then
      (c.storage.namesIn c.disk path).forM (packChild c n (packTree n) path name label)

def packItem (recursive : Bool) (i : PackItem) : Packer := do
  let room := c.storage.nests
  if !c.disk.pathExists i.path then
    modify fun k => k.say ("Warning: ".toList ++ i.label ++ " does not exist, skipping".toList)
  else if c.disk.isDir i.path then
    if recursive then packTree c room i.path (Path.baseName i.path.normalize) i.label
  else if c.disk.isFile i.path then packFile c room i.path (Path.baseName i.path) i.label

end Packing

/-- The path with the suffix of archives, added if it is not there. -/
def archivePath (p : Path) : Path :=
  if ".zip".toList.isSuffixOf p then p else p ++ ".zip".toList

/-- Packs the items into a new archive and gives the entries written. The archive is closed even if
packing stops. -/
def pack (s : Storage) (archive : Path) (items : List PackItem) (recursive : Bool) :
    Act ArchiveError (List Entry) := do
  let w ← Writer.openAt s archive
  let c : Packing.Setting := ⟨s, (← get).disk, archive⟩
  let (r, k) := (items.forM (Packing.packItem c recursive)).run.run ⟨w, [], []⟩
  k.shown.forM fun line => showLine line
  let _ ← k.writer.close
  match r with
  | .ok () => return k.added
  | .error r => throw (.stopped r)

end FileShell
