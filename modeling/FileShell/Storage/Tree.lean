import FileShell.Storage.Files

/-!
# Copying trees

A directory is copied to a place of its own name inside the destination. Its names are read before
the copy exists, and the copy is passed over where the walk meets it, so a tree can be copied into
itself. What cannot be copied is reported and the rest goes on; a directory that cannot be listed
is copied empty. A tree that takes more calls than may nest stops the run, with the copy left as it
is by then.
-/

namespace FileShell

namespace Storage

/-- What is done for one name of a directory that is copied; `deeper` copies a directory below. -/
def copyChild (s : Storage) (root : Path) (n : Nat) (deeper : Path → Path → Act StorageError Unit)
    (source target : Path) (child : Text) : Act StorageError Unit := do
  let path := source.join child
  if ← samePath n path root then return ()
  if ← isDir path then
    (deeper path (target.join child)).reporting ("Error copying directory: ".toList ++ child)
  else (s.copy path (target.join child)).orShow ("Error copying file: ".toList ++ child)

/-- Copies what is in `source` into `target`, with room for so many calls inside one another;
`root` is the copy as a whole. -/
def copyInto (s : Storage) (root : Path) : Nat → Path → Path → Act StorageError Unit
  | 0, _, _ => throw (.stopped .recursion)
  | n + 1, source, target => do
    let children := s.namesIn (← get).disk source
    s.makeDirs target true
    children.forM (s.copyChild root n (copyInto s root n) source target)

/-- Copies a directory into another and gives the path of the copy. -/
def copyTree (s : Storage) (source destination : Path) : Act StorageError Path := do
  let target := destination.join (Path.baseName source.normalize)
  s.copyInto target s.nests source target
  return target

end Storage

end FileShell
