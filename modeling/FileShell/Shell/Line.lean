import FileShell.Text.Blank

/-!
# Lines

What a line of input says. It may end in a redirection, which starts at the first `>>`, or at the
first `>` of a line without `>>`. What stands before it is a command: the words between its blanks,
the first of which is the name. There is no quoting.
-/

namespace FileShell

structure Command where
  name : Text
  args : List Text
  deriving DecidableEq

namespace Command

/-- None if the text has no word. -/
def parse? (t : Text) : Option Command :=
  match t.words with
  | [] => none
  | name :: args => some ⟨name, args⟩

def render (c : Command) : Text := Text.join [' '] (c.name :: c.args)

end Command

/-- Whether a redirection replaces what a file holds or goes on after it. -/
inductive Mode
  | overwrite
  | append
  deriving DecidableEq

structure Redirection where
  mode : Mode
  target : Text
  deriving DecidableEq

structure CommandLine where
  command : Text
  redirection : Option Redirection
  deriving DecidableEq

namespace CommandLine

def split (line : Text) : CommandLine :=
  let t := line.strip
  match Text.cut? ['>', '>'] t with
  | some (a, b) => ⟨a.strip, some ⟨.append, b.strip⟩⟩
  | none =>
    match Text.cut? ['>'] t with
    | some (a, b) => ⟨a.strip, some ⟨.overwrite, b.strip⟩⟩
    | none => ⟨t, none⟩

end CommandLine

end FileShell
