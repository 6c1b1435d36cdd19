import FileShell.Archive.Handle

/-!
# Unpacking

Putting the entries of an archive below a destination, in the order of the archive. An entry is
left out with a warning if its name leads anywhere else: if it starts with a slash, has no
component, or has two dots for one. An entry that fails is reported, and the next ones go on.
-/

namespace FileShell

namespace Path

/-- The path of the components below a destination, if it stays there. -/
def below? (destination : Path) (parts : List Text) : Option Path :=
  if parts.isEmpty || parts.contains ['.', '.'] then none
  else
    let target := parts.foldl join destination
    if isWithin destination target then some target else none

end Path

namespace Unpacking

/-- Where an entry goes, unless its name is not safe. -/
def target? (destination : Path) (name : Text) : Option Path :=
  if Path.isAbsolute name then none else Path.below? destination (Entry.parts name)

def unpackEntry (s : Storage) (r : Reader) (e : Entry) (target : Path) : Act Unit Unit := do
  if e.isDir then (s.makeDirs target true).failingWith ()
  else
    (s.makeDirs (Path.parent target) true).failingWith ()
    match r.contents s e.name with
    | .error _ => throw ()
    | .ok c => (s.writeStream target c.stream).failingWith ()

/-- Unpacks the entries in order and gives those that came out. -/
def unpackAll (s : Storage) (r : Reader) (destination : Path) :
    List Entry → StateM World (List Entry)
  | [] => return []
  | e :: es => do
    match target? destination e.name with
    | none =>
      showLine ("Warning: Skipping unsafe entry ".toList ++ e.name)
      unpackAll s r destination es
    | some target =>
      match ← (unpackEntry s r e target).run with
      | .ok () => return e :: (← unpackAll s r destination es)
      | .error () =>
        showLine ("Error: Cannot extract ".toList ++ e.name)
        unpackAll s r destination es

end Unpacking

/-- Unpacks an archive below a directory and gives the entries that came out. -/
def unpack (s : Storage) (archive destination : Path) : Act ArchiveError (List Entry) := do
  let r ← Reader.openAt s archive
  Unpacking.unpackAll s r destination r.entries

end FileShell
