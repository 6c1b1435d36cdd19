import FileShell.Path
import FileShell.Text.Utf8

/-!
# Disks

A disk says what stands at each location. A location is the list of names that leads to it from
the root; the root itself is always a directory. What stands there is a directory, a file with its
bytes, a link with the path it holds, or the null device, which takes any bytes and gives none; no
other device is known here. The names in a directory are those one step below it, in the order of
their code points.
-/

namespace FileShell

abbrev Loc := List Text

namespace Loc

/-- The path that spells the location out. -/
def path (l : Loc) : Path := '/' :: Text.join ['/'] l

end Loc

inductive Item
  | directory
  | file (bytes : Bytes)
  | link (target : Path)
  /-- The null device, at whatever locations it stands. -/
  | device
  deriving DecidableEq

structure Disk where
  items : List (Loc × Item)
  deriving DecidableEq

namespace Disk

def empty : Disk := ⟨[]⟩

def get? (d : Disk) : Loc → Option Item
  | [] => some .directory
  | l => d.items.lookup l

def erase (d : Disk) (l : Loc) : Disk := ⟨d.items.filter (·.1 != l)⟩

def insert (d : Disk) (l : Loc) (i : Item) : Disk := ⟨(l, i) :: (d.erase l).items⟩

/-- The last name of a location one step below the directory. -/
def childName? (l : Loc) (k : Loc) : Option Text :=
  match k.reverse with
  | [] => none
  | name :: r => if r.reverse = l then some name else none

def textLe : Text → Text → Bool
  | [], _ => true
  | _ :: _, [] => false
  | a :: s, b :: t => a.toNat < b.toNat || (a == b && textLe s t)

/-- The names in a directory. -/
def childNames (d : Disk) (l : Loc) : List Text :=
  (d.items.filterMap fun e => childName? l e.1).mergeSort textLe

def isDirectory (d : Disk) (l : Loc) : Bool := d.get? l == some .directory

theorem lookup_filter_ne (l k : Loc) :
    ∀ items : List (Loc × Item),
      (items.filter (·.1 != l)).lookup k = if k = l then none else items.lookup k
  | [] => by simp
  | (m, i) :: items => by
    have ih := lookup_filter_ne l k items
    by_cases hm : m = l
    · subst hm
      by_cases hk : k = m
      · simpa [hk] using ih
      · simp [hk, List.lookup_cons, beq_false_of_ne hk] at ih ⊢; exact ih
    · by_cases hk : k = l
      · subst hk
        simp [hm, beq_false_of_ne (Ne.symm hm), List.lookup_cons] at ih ⊢; exact ih
      · simp [hm, List.lookup_cons, ih, hk]

theorem get?_erase (d : Disk) (l k : Loc) (h : k ≠ []) :
    (d.erase l).get? k = if k = l then none else d.get? k := by
  cases k with
  | nil => exact absurd rfl h
  | cons a k => exact lookup_filter_ne l (a :: k) d.items

theorem get?_insert (d : Disk) (l k : Loc) (i : Item) (h : l ≠ []) :
    (d.insert l i).get? k = if k = l then some i else d.get? k := by
  cases k with
  | nil => simp [get?, h.symm]
  | cons a k =>
    by_cases hk : a :: k = l
    · simp [get?, insert, hk]
    · have := lookup_filter_ne l (a :: k) d.items
      simp [get?, insert, List.lookup_cons, beq_false_of_ne hk, hk, erase] at this ⊢
      exact this

end Disk

end FileShell
