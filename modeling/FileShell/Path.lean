import FileShell.Text.Basic

/-!
# Paths

A path is a text with slashes between its names. The operations here look at the text alone and at
no disk: joining, taking the last name off, and the normal form, in which no name is empty or a
single dot and two dots have been worked out against the name before them. Two slashes at the very
start are kept by the normal form; any other number of them is one.
-/

namespace FileShell

abbrev Path := Text

namespace Path

def isAbsolute (p : Path) : Bool := p.head? == some '/'

/-- The names of the path: its maximal runs of characters other than slashes. -/
def names (p : Path) : List Text := Text.fields (· == '/') p

/-- The second path seen from the first: itself if it is absolute. -/
def join (p q : Path) : Path :=
  if isAbsolute q then q
  else if p.isEmpty || p.getLast? == some '/' then p ++ q
  else p ++ '/' :: q

/-- What follows the last slash. -/
def baseName (p : Path) : Text := (p.reverse.takeWhile (· != '/')).reverse

/-- What comes before the last name, without the slashes at its end unless it is all slashes. -/
def parent (p : Path) : Path :=
  let front := p.take (p.length - (baseName p).length)
  if front.all (· == '/') then front else Text.trimEnd (· == '/') front

/-- One name of an unfinished normal form, kept in reverse. -/
def climb (absolute : Bool) (done : List Text) (name : Text) : List Text :=
  if name = ['.'] then done
  else if name ≠ ['.', '.'] then name :: done
  else match done with
    | [] => if absolute then [] else [name]
    | last :: rest => if last = ['.', '.'] then name :: done else rest

/-- How many slashes the normal form of the path begins with. -/
def leadingSlashes : Path → Nat
  | '/' :: '/' :: '/' :: _ => 1
  | '/' :: '/' :: _ => 2
  | '/' :: _ => 1
  | _ => 0

def normalize (p : Path) : Path :=
  let slashes := List.replicate (leadingSlashes p) '/'
  let names := ((names p).foldl (climb (isAbsolute p)) []).reverse
  let q := slashes ++ Text.join ['/'] names
  if q.isEmpty then ['.'] else q

/-- The normal form of the path seen from the root. -/
def absolute (p : Path) : Path := normalize (join ['/'] p)

def commonPrefix : List Text → List Text → List Text
  | x :: xs, y :: ys => if x = y then x :: commonPrefix xs ys else []
  | _, _ => []

/-- The longest path that both begin with, name by name. -/
def common (p q : Path) : Path := '/' :: Text.join ['/'] (commonPrefix (names p) (names q))

/-- Whether the second path is the first or lies below it, by their normal forms alone. -/
def isWithin (root p : Path) : Bool := common (absolute root) (absolute p) == absolute root

theorem length_parent_le (p : Path) : (parent p).length ≤ p.length - (baseName p).length := by
  have hd (l : List Char) (f : Char → Bool) : (l.dropWhile f).length ≤ l.length :=
    (List.dropWhile_suffix f).length_le
  unfold parent
  simp only
  split
  · simp only [List.length_take]; omega
  · simp only [Text.trimEnd, List.length_reverse]
    refine Nat.le_trans (hd _ _) ?_
    simp only [List.length_reverse, List.length_take]
    omega

theorem length_baseName_le (p : Path) : (baseName p).length ≤ p.length := by
  simpa [baseName] using (List.takeWhile_prefix (· != '/') (l := p.reverse)).length_le

end Path

end FileShell
