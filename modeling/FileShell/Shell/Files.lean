import FileShell.Shell.Dispatch
import FileShell.Storage.Tree
import FileShell.Text.Blank

/-!
# Files

The commands `touch`, `rm`, `cp`, `cp -r`, `cat`, `wc` and `echo`. `wc` counts the lines, the
words, and the characters that are not line ends.
-/

namespace FileShell

namespace Handler

def touch (s : Storage) : Handler where
  name := "touch".toList
  run
    | [name], session => do
      let _ ← (s.create (session.resolve name)).failingWith .cannotCreate
      return session
    | _, _ => throw (.usage .touch)

def rm (s : Storage) : Handler where
  name := "rm".toList
  run
    | [name], session => do
      let target := session.resolve name
      if !(← Storage.pathExists target) then throw .noFile
      if ← Storage.isDir target then throw .removingDirectory
      (s.delete target).failingWith .cannotDelete
      return session
    | _, _ => throw (.usage .rm)

/-- Whether something that is not a directory is there. -/
def isThere (p : Path) : StateM World Bool := do
  return (← Storage.pathExists p) && !(← Storage.isDir p)

def cp (s : Storage) : Handler where
  name := "cp".toList
  run
    | [a, b], session => do
      let source := session.resolve a
      let target := session.resolve b
      if !(← isThere source) then throw .copyingNoFile
      (s.copy source target).failingWith .cannotCopy
      return session
    | _, _ => throw (.usage .cp)

def cpTree (s : Storage) : Handler where
  name := "cp -r".toList
  run
    | [a, b], session => do
      let source := session.resolve a
      let destination := session.resolve b
      if !(← Storage.isDir source) then throw .copyingNoDirectory
      (s.makeDirs destination true).failingWith .cannotCopyDirectory
      let _ ← (s.copyTree source destination).adapt
        (CommandError.cannotCopyDirectory.overStorage)
      return session
    | _, _ => throw (.usage .cpTree)

def showFile (s : Storage) (session : Session) (name : Text) : StateM World Unit := do
  let path := session.resolve name
  if !(← isThere path) then
    showLine ("Error: File ".toList ++ name ++ " does not exist".toList)
  else
    let r ← s.readLines path
    r.lines.forM fun line => showLine line
    if r.stopped.isSome then showLine ("Error: Cannot read file ".toList ++ name)

def cat (s : Storage) : Handler where
  name := "cat".toList
  run names session := do
    if names.isEmpty || 2 < names.length then throw (.usage .cat)
    names.forM fun name => showFile s session name
    return session

/-- A line count, a word count and a character count. -/
structure Counts where
  lines : Nat
  words : Nat
  chars : Nat
  deriving DecidableEq

def Counts.of (lines : List Text) : Counts where
  lines := lines.length
  words := (lines.flatMap fun l => l.words).length
  chars := lines.flatten.length

def wc (s : Storage) : Handler where
  name := "wc".toList
  run
    | [name], session => do
      let path := session.resolve name
      if !(← isThere path) then throw .noFile
      let r ← s.readLines path
      if r.stopped.isSome then throw .cannotRead
      let n := Counts.of r.lines
      showLine (Text.join [' '] ([n.lines, n.words, n.chars].map (fun k => (toString k).toList) ++
        [Path.baseName path]))
      return session
    | _, _ => throw (.usage .wc)

def echo : Handler where
  name := "echo".toList
  run args session := do
    showLine (Text.join [' '] args)
    return session

end Handler

end FileShell
