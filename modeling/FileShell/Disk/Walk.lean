import FileShell.Disk.Basic

/-!
# Walking a path

Where a path leads on a disk. The walk goes name by name from the root; it needs a directory
before each step, goes back over two dots, and takes the path of a link in the link's place. At
most forty links are followed on one walk, so every walk ends. A link that stands last is followed
only on demand, or if a slash comes after it. The last name may be one that nothing has yet.
-/

namespace FileShell

/-- Why the disk refuses. -/
inductive DiskError
  | missing
  | notDirectory
  | isDirectory
  | occupied
  | notEmpty
  | tooManyLinks
  | tooLong
  | malformed
  /-- The question takes more calls inside one another than may nest. -/
  | tooDeep
  deriving DecidableEq

namespace Path

/-- The steps of a walk: the names, and an empty step after a slash at the end. -/
def steps (p : Path) : List Text :=
  names p ++ if p.getLast? == some '/' then [[]] else []

end Path

namespace Disk

def maxName : Nat := 255

def maxPath : Nat := 4095

def maxLinks : Nat := 40

/-- A walk that hands each link it has to follow to another function. -/
def walkWith (d : Disk) (follow : Bool) (onLink : Loc → List Text → Except DiskError Loc) :
    Loc → List Text → Except DiskError Loc
  | here, [] => .ok here
  | here, s :: rest =>
    if !d.isDirectory here then
      .error (if (d.get? here).isSome then .notDirectory else .missing)
    else if s = [] ∨ s = ['.'] then walkWith d follow onLink here rest
    else if s = ['.', '.'] then walkWith d follow onLink here.dropLast rest
    else if maxName < s.byteSize then .error .tooLong
    else match d.get? (here ++ [s]) with
      | some (.link target) =>
        if follow || !rest.isEmpty then
          onLink (if target.isAbsolute then [] else here) (target.steps ++ rest)
        else walkWith d follow onLink (here ++ [s]) rest
      | _ => walkWith d follow onLink (here ++ [s]) rest

/-- A walk that follows at most so many links. -/
def walk (d : Disk) (follow : Bool) : Nat → Loc → List Text → Except DiskError Loc
  | 0 => walkWith d follow fun _ _ => .error .tooManyLinks
  | n + 1 => walkWith d follow (walk d follow n)

/-- A path that can be looked up at all. -/
def checkPath (p : Path) : Except DiskError Unit :=
  if p.isEmpty then .error .missing
  else if p.contains '\x00' then .error .malformed
  else if maxPath < p.byteSize then .error .tooLong
  else .ok ()

/-- The location that a path names, whether or not anything stands there. -/
def locate (d : Disk) (follow : Bool) (p : Path) : Except DiskError Loc := do
  checkPath p
  d.walk follow maxLinks [] p.steps

/-- What stands where the path leads. -/
def find? (d : Disk) (follow : Bool) (p : Path) : Option Item :=
  match d.locate follow p with
  | .ok l => d.get? l
  | .error _ => none

def pathExists (d : Disk) (p : Path) : Bool := (d.find? true p).isSome

def isDir (d : Disk) (p : Path) : Bool := d.find? true p == some .directory

def isFile (d : Disk) (p : Path) : Bool :=
  match d.find? true p with
  | some (.file _) => true
  | _ => false

/-- The directory in which the last name of the path stands, and that name. -/
def locateLast (d : Disk) (p : Path) : Except DiskError (Loc × Text) := do
  checkPath p
  match p.names.getLast? with
  | none => .error .occupied
  | some name =>
    let l ← d.walk true maxLinks [] (p.names.dropLast ++ [[]])
    if maxName < name.byteSize then .error .tooLong
    return (l, name)

end Disk

end FileShell
