import FileShell.Shell.Dispatch

/-!
# Moving about

The commands `pwd`, `cd` and `ls`. `cd` alone goes home without asking the disk, and `cd ..` goes
to the parent of the path; any other directory has to be there, and its real path is taken.
-/

namespace FileShell

namespace Handler

def pwd : Handler where
  name := "pwd".toList
  run
    | [], session => do
      showLine session.directory
      return session
    | _, _ => throw (.usage .pwd)

def cd (s : Storage) : Handler where
  name := "cd".toList
  run
    | [], session => return session.goTo session.home
    | [p], session => do
      if p = ['.', '.'] then
        match session.parent? with
        | none => throw .atRoot
        | some parent => return session.goTo parent
      else
        let target := session.resolve p
        if !(← Storage.isDir target) then throw .noDirectory
        return session.goTo (← (s.canonicalize target).failingWith .cannotChange)
    | _, _ => throw (.usage .cd)

def ls (s : Storage) : Handler where
  name := "ls".toList
  run
    | [], session => do
      let names ← (s.list session.directory).failingWith .cannotReadDirectory
      names.forM fun name => showLine name
      return session
    | _, _ => throw (.usage .ls)

end Handler

end FileShell
