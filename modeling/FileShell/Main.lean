import FileShell.Program.Terminal
import FileShell.Shell.Console

/-!
# The command line

The shell on a disk in memory that holds one empty directory, where it starts. The environment,
the arguments and the input are those of the process; all input is read before the first line runs.
-/

namespace FileShell

namespace Main

def directory : Path := "/home".toList

def disk : Disk := Disk.empty.insert (Path.names directory) .directory

def known : List String :=
  ["TERMCLI_START_DIR", "TERMCLI_HOME", "TERMCLI_CHUNK_SIZE", "TERMCLI_LOG_LEVEL",
   "TERMCLI_USER", "LOGNAME", "USER", "LNAME", "USERNAME"]

/-- The variables of the environment that count here; the home is the directory on the disk. -/
def environment : IO Environment := do
  let found ← known.filterMapM fun v => do
    return (← IO.getEnv v).map fun t => (v.toList, t.toList)
  return ("HOME".toList, directory) :: found

end Main

end FileShell

open FileShell in
def main (args : List String) : IO UInt32 := do
  let env ← Main.environment
  let input ← (← IO.getStdin).readToEnd
  let world : World := ⟨Main.disk, []⟩
  let program := Terminal.run Console.render env Main.directory (args.map String.toList) input.toList
  match (program.run world).1 with
  | .usage status => return status.toUInt32
  | .misconfigured e =>
    IO.eprintln (String.ofList e.message)
    return 1
  | .unknownLevel level =>
    IO.eprintln (String.ofList (Terminal.unknownLevelMessage level))
    return 1
  | .finished status out err =>
    IO.print (String.ofList out)
    IO.eprint (String.ofList err)
    return status.toUInt32
  | .stopped r out =>
    IO.print (String.ofList out)
    IO.eprintln (String.ofList r.message)
    return 1
