import FileShell.Text.Basic

/-!
# Archive entries

An entry has a name, a size, and says whether it is a directory. Names use slashes on every host.
-/

namespace FileShell

structure Entry where
  name : Text
  isDir : Bool
  size : Nat
  deriving DecidableEq

namespace Entry

/-- The components of a name: what stands between its slashes, less the empty ones. -/
def parts (name : Text) : List Text := Text.fields (· == '/') name

/-- A name of components; slashes at their ends do not count, nor do empty components. -/
def joinParts (ps : List Text) : Text :=
  Text.join ['/'] ((ps.filter (!·.isEmpty)).map (Text.trim (· == '/')))

end Entry

end FileShell
