import FileShell.Archive.Handle

/-!
# Errors of commands

The ways in which a command can fail as a whole, each with its text. A stop below a command stays a
stop; any other failure there becomes one that the command accounts for.
-/

namespace FileShell

/-- How a command was called wrongly. -/
inductive UsageError
  | pwd
  | cd
  | ls
  | mkdir
  | rmdir
  | touch
  | rm
  | cp
  | cpTree
  | cat
  | wc
  | zip
  | unzip
  | unzipOption
  | unzipDestination
  deriving DecidableEq

inductive CommandError
  | stopped (r : Stop)
  | usage (u : UsageError)
  | noDirectory
  | atRoot
  | cannotChange
  | cannotReadDirectory
  | cannotReadCurrent
  | notDirectory
  | notEmpty
  | cannotRemoveDirectory
  | cannotCreate
  | noFile
  | removingDirectory
  | cannotDelete
  | copyingNoFile
  | cannotCopy
  | copyingNoDirectory
  | cannotCopyDirectory
  | cannotRead
  | cannotPack
  | noArchive
  | cannotMakeDestination
  | cannotUnpack
  /-- A failure in a handler's own words. -/
  | custom (text : Text)
  deriving DecidableEq

def UsageError.message : UsageError → String
  | .pwd => "pwd takes no arguments"
  | .cd => "cd takes at most one directory"
  | .ls => "ls takes no arguments"
  | .mkdir => "mkdir requires at least one directory name"
  | .rmdir => "rmdir requires exactly one argument"
  | .touch => "touch requires exactly one filename"
  | .rm => "rm requires exactly one filename"
  | .cp => "cp requires source and destination files"
  | .cpTree => "cp -r requires source and destination directories"
  | .cat => "cat requires one or two filenames"
  | .wc => "wc requires exactly one filename"
  | .zip => "zip requires archive name and at least one file"
  | .unzip => "unzip requires zip file name"
  | .unzipOption => "usage: unzip <archive> [-d <destination>]"
  | .unzipDestination => "unzip -d requires a destination directory"

def CommandError.message : CommandError → Text
  | .stopped r => r.message
  | .usage u => u.message.toList
  | .noDirectory => "Directory does not exist".toList
  | .atRoot => "Already at root directory".toList
  | .cannotChange => "Cannot change to directory".toList
  | .cannotReadDirectory => "Cannot read directory".toList
  | .cannotReadCurrent => "Cannot read current directory".toList
  | .notDirectory => "Not a directory".toList
  | .notEmpty => "Directory is not empty".toList
  | .cannotRemoveDirectory => "Failed to remove directory".toList
  | .cannotCreate => "Cannot create file".toList
  | .noFile => "File does not exist".toList
  | .removingDirectory => "Cannot remove directory with rm, use rmdir".toList
  | .cannotDelete => "Failed to delete file".toList
  | .copyingNoFile => "Source file does not exist or is a directory".toList
  | .cannotCopy => "Cannot copy file".toList
  | .copyingNoDirectory => "Source directory does not exist".toList
  | .cannotCopyDirectory => "Cannot copy directory".toList
  | .cannotRead => "Cannot read file".toList
  | .cannotPack => "Cannot create zip file".toList
  | .noArchive => "Zip file does not exist".toList
  | .cannotMakeDestination => "Cannot create destination directory".toList
  | .cannotUnpack => "Cannot extract zip file".toList
  | .custom t => t

namespace CommandError

/-- What becomes of a failure of the storage. -/
def overStorage (e : CommandError) : StorageError → CommandError
  | .stopped r => .stopped r
  | _ => e

/-- What becomes of a failure of an archive. -/
def overArchive (e : CommandError) : ArchiveError → CommandError
  | .stopped r => .stopped r
  | _ => e

end CommandError

end FileShell
