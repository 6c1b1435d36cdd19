import FileShell.Disk.Walk

/-!
# Real paths

The path of the same place without links. Names are taken one by one and a link gives way to the
path it holds. The strict form needs every part to be there. The lenient form keeps parts that are
missing as they are written, goes back over them lexically, and stops at a link that leads back to
itself: from there on the path stays as it is. Each part is looked up by its own path; one whose
path is too long counts as missing, be it a link or not. Following a link inside another one takes
a call inside another, and only so many may nest.
-/

namespace FileShell

/-- How far the names of a path could be followed. -/
inductive Trace
  | reached (l : Loc)
  | stuck (p : Path)

namespace Disk

/-- Follows the pieces of a path, with a function for the links among them. -/
def traceWith (d : Disk) (strict : Bool) (onLink : Loc → Loc → Path → Except DiskError Trace) :
    Loc → List Text → Except DiskError Trace
  | here, [] => .ok (.reached here)
  | here, s :: rest =>
    if s = [] ∨ s = ['.'] then traceWith d strict onLink here rest
    else if s = ['.', '.'] then traceWith d strict onLink here.dropLast rest
    else if s.contains '\x00' then .error .malformed
    else if maxPath < (Loc.path (here ++ [s])).byteSize then
      if strict then .error .tooLong else traceWith d strict onLink (here ++ [s]) rest
    else match d.get? (here ++ [s]) with
      | some (.link target) =>
        match onLink (here ++ [s]) here target with
        | .error e => .error e
        | .ok (.stuck p) => .ok (.stuck (p.join (Text.join ['/'] rest)))
        | .ok (.reached l) => traceWith d strict onLink l rest
      | some _ => traceWith d strict onLink (here ++ [s]) rest
      | none =>
        if strict then .error .missing else traceWith d strict onLink (here ++ [s]) rest

/-- What comes of a link that is met again while it is being followed. -/
def metAgain (strict : Bool) (l : Loc) : Except DiskError Trace :=
  if strict then .error .tooManyLinks else .ok (.stuck l.path)

/-- Follows a path through links nested at most so deep; `active` are the links being followed. -/
def trace (d : Disk) (strict : Bool) : Nat → List Loc → Loc → List Text → Except DiskError Trace
  | 0, active => traceWith d strict fun l _ _ =>
    if active.contains l then metAgain strict l else .error .tooDeep
  | n + 1, active => traceWith d strict fun l here target =>
    if active.contains l then metAgain strict l
    else
      trace d strict n (l :: active) (if target.isAbsolute then [] else here)
        (Text.split (· == '/') target)

/-- The real path, if links need not be followed more than `nests` deep. -/
def realPath (d : Disk) (nests : Nat) (strict : Bool) (p : Path) : Except DiskError Path :=
  match d.trace strict nests [] [] (Text.split (· == '/') p) with
  | .error e => .error e
  | .ok (.reached l) => .ok l.path
  | .ok (.stuck q) => .ok q.absolute

/-- Whether two paths have one lenient real path. -/
def samePath (d : Disk) (nests : Nat) (p q : Path) : Except DiskError Bool := do
  let a ← d.realPath nests false p
  let b ← d.realPath nests false q
  return a == b

end Disk

end FileShell
