import FileShell.Archive.Packing
import FileShell.Archive.Unpacking
import FileShell.Shell.Dispatch

/-!
# Archives

The commands `zip`, which goes into directories only with `-r`, and `unzip`, which unpacks into the
current directory unless `-d` names another; that one is made if it is missing.
-/

namespace FileShell

namespace Handler

def zipItems (s : Storage) (recursive : Bool) (session : Session) :
    List Text → Act CommandError Session
  | archive :: a :: rest => do
    let items := (a :: rest).map fun label => ⟨label, session.resolve label⟩
    let _ ← (pack s (archivePath (session.resolve archive)) items recursive).adapt
      (CommandError.cannotPack.overArchive)
    return session
  | _ => throw (.usage .zip)

def zip (s : Storage) : Handler where
  name := "zip".toList
  run
    | a :: rest, session =>
      if a = "-r".toList then zipItems s true session rest else zipItems s false session (a :: rest)
    | [], session => zipItems s false session []

/-- The archive and the destination that the arguments of `unzip` name. -/
def unzipArgs : List Text → Except UsageError (Text × Option Text)
  | [] => .error .unzip
  | [archive] => .ok (archive, none)
  | archive :: option :: rest =>
    if option ≠ "-d".toList then .error .unzipOption
    else match rest with
      | [] => .error .unzipDestination
      | [destination] => .ok (archive, some destination)
      | _ => .error .unzipOption

def unzip (s : Storage) : Handler where
  name := "unzip".toList
  run args session := do
    match unzipArgs args with
    | .error u => throw (.usage u)
    | .ok (archive, destination) =>
      let archive := session.resolve archive
      if !(← Storage.isFile archive) then throw .noArchive
      let destination ← match destination with
        | none => pure session.directory
        | some d => do
          (s.makeDirs (session.resolve d) true).failingWith .cannotMakeDestination
          pure (session.resolve d)
      let _ ← (unpack s archive destination).failingWith .cannotUnpack
      return session

end Handler

end FileShell
