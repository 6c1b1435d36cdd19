import FileShell.Shell.Dispatch

/-!
# Directories

The commands `mkdir` and `rmdir`. `mkdir` makes each of its directories with the missing ones above
it, and goes on after one that fails. `rmdir` removes an empty directory, and `rmdir *` every empty
directory in the current one.
-/

namespace FileShell

namespace Handler

def mkdir (s : Storage) : Handler where
  name := "mkdir".toList
  run names session := do
    if names.isEmpty then throw (.usage .mkdir)
    names.forM fun name =>
      (s.makeDirs (session.resolve name) false).orShow
        ("Error: Failed to create directory ".toList ++ name)
    return session

def removeWhenEmpty (s : Storage) (p : Path) : Act StorageError Unit := do
  if (← s.list p).isEmpty then s.removeDir p

/-- Removes what is named if it is an empty directory, and passes over what is no directory. -/
def removeIfEmpty (s : Storage) (directory : Path) (name : Text) : StateM World Unit := do
  let path := directory.join name
  if ← Storage.isDir path then
    (removeWhenEmpty s path).orShow ("Error: Failed to remove directory ".toList ++ name)

def removeAllEmpty (s : Storage) (directory : Path) : Act CommandError Unit := do
  let names ← (s.list directory).failingWith .cannotReadCurrent
  names.forM fun name => removeIfEmpty s directory name

def removeOne (s : Storage) (target : Path) : Act CommandError Unit := do
  if !(← Storage.pathExists target) then throw .noDirectory
  if !(← Storage.isDir target) then throw .notDirectory
  let names ← (s.list target).failingWith .cannotRemoveDirectory
  if !names.isEmpty then throw .notEmpty
  (s.removeDir target).failingWith .cannotRemoveDirectory

def rmdir (s : Storage) : Handler where
  name := "rmdir".toList
  run
    | [name], session => do
      if name = ['*'] then removeAllEmpty s session.directory
      else removeOne s (session.resolve name)
      return session
    | _, _ => throw (.usage .rmdir)

end Handler

end FileShell
