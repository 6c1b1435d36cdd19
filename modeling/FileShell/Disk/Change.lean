import FileShell.Disk.Walk

/-!
# Changing a disk

The single changes: a directory made or removed, an entry deleted, a file created or written.
Each either gives the new disk or says why not. A slash at the end of a path asks for a directory,
so no file is created, written or deleted through such a path. Making a directory with the missing
ones above it is a row of single changes: those that were made stay when a later one is refused.
-/

namespace FileShell

namespace Disk

def isDots (name : Text) : Bool := name == ['.'] || name == ['.', '.']

def endsInSlash (p : Path) : Bool := p.getLast? == some '/'

def makeDir (d : Disk) (p : Path) : Except DiskError Disk := do
  let (l, name) ← d.locateLast p
  if isDots name || (d.get? (l ++ [name])).isSome then .error .occupied
  return d.insert (l ++ [name]) .directory

def removeDir (d : Disk) (p : Path) : Except DiskError Disk := do
  let (l, name) ← d.locateLast p
  if isDots name then .error .notEmpty
  match d.get? (l ++ [name]) with
  | none => .error .missing
  | some .directory =>
    if (d.childNames (l ++ [name])).isEmpty then return d.erase (l ++ [name])
    else .error .notEmpty
  | some _ => .error .notDirectory

/-- Deletes what is not a directory; a link is deleted itself. -/
def delete (d : Disk) (p : Path) : Except DiskError Disk := do
  if endsInSlash p then .error .notDirectory
  let (l, name) ← d.locateLast p
  if isDots name then .error .isDirectory
  match d.get? (l ++ [name]) with
  | none => .error .missing
  | some .directory => .error .isDirectory
  | some _ => return d.erase (l ++ [name])

/-- Creates an empty file where nothing stands, not even a link. -/
def create (d : Disk) (p : Path) : Except DiskError Disk := do
  if endsInSlash p then .error .isDirectory
  let (l, name) ← d.locateLast p
  if isDots name || (d.get? (l ++ [name])).isSome then .error .occupied
  return d.insert (l ++ [name]) (.file [])

/-- The location that writing to the path writes at. -/
def locateWrite (d : Disk) (p : Path) : Except DiskError Loc := do
  if endsInSlash p then .error .isDirectory
  let l ← d.locate true p
  if d.isDirectory l then .error .isDirectory
  return l

/-- Puts a file at the location, over what it held; a device swallows the bytes. -/
def write (d : Disk) (l : Loc) (bytes : Bytes) : Disk :=
  match d.get? l with
  | some .device => d
  | _ => d.insert l (.file bytes)

/-- The bytes at a location. -/
def bytesAt (d : Disk) (l : Loc) : Except DiskError Bytes :=
  match d.get? l with
  | none => .error .missing
  | some .directory => .error .isDirectory
  | some (.file b) => .ok b
  | some (.link _) => .error .tooManyLinks
  | some .device => .ok []

def read (d : Disk) (p : Path) : Except DiskError Bytes := do
  d.bytesAt (← d.locate true p)

def list (d : Disk) (p : Path) : Except DiskError (List Text) := do
  let l ← d.locate true p
  match d.get? l with
  | none => .error .missing
  | some .directory => return d.childNames l
  | some _ => .error .notDirectory

end Disk

namespace Path

/-- The path above the last name and that name; slashes at the end do not count. -/
def splitLast (p : Path) : Path × Text :=
  if (baseName p).isEmpty then (parent (parent p), baseName (parent p))
  else (parent p, baseName p)

theorem length_splitLast_lt {p : Path} (h : (splitLast p).2 ≠ []) :
    (splitLast p).1.length < p.length := by
  have h₁ := length_parent_le p
  have h₂ := length_parent_le (parent p)
  have h₃ := length_baseName_le p
  have h₄ := length_baseName_le (parent p)
  unfold splitLast at h ⊢
  split <;> rename_i hb <;> simp only [hb, if_true, if_false, Bool.false_eq_true] at h ⊢
  all_goals
    have := List.length_pos_iff.2 h
    omega

end Path

namespace Disk

/-- The directory itself, once those above it are there. -/
def makeLastDir (existOk : Bool) (d : Disk) (p : Path) : Except DiskError Unit × Disk :=
  match d.makeDir p with
  | .ok d' => (.ok (), d')
  | .error e => if existOk && d.isDir p then (.ok (), d) else (.error e, d)

set_option linter.unusedVariables false in
/-- How many directories above the path are missing, as far as they are looked for. -/
def missingAbove (d : Disk) (p : Path) : Nat :=
  let above := p.splitLast
  if h : above.2 ≠ [] ∧ above.1 ≠ [] ∧ d.pathExists above.1 = false then
    missingAbove d above.1 + 1
  else 0
  termination_by p.length
  decreasing_by exact Path.length_splitLast_lt h.1

set_option linter.unusedVariables false in
/-- Makes a directory and the missing ones above it. That one above is there already by the time
its turn comes is no failure; nor is a last name that is a single dot. -/
def makeDirs (existOk : Bool) (d : Disk) (p : Path) : Except DiskError Unit × Disk :=
  let above := p.splitLast
  if h : above.2 ≠ [] ∧ above.1 ≠ [] ∧ d.pathExists above.1 = false then
    match makeDirs existOk d above.1 with
    | (.error .occupied, d') | (.ok (), d') =>
      if above.2 = ['.'] then (.ok (), d') else makeLastDir existOk d' p
    | (.error e, d') => (.error e, d')
  else makeLastDir existOk d p
  termination_by p.length
  decreasing_by exact Path.length_splitLast_lt h.1

end Disk

end FileShell
