import FileShell.Text.Digit

/-!
# Options

The options of a program, read from its arguments. A long option may be cut short as long as one
option only goes on like that, and may have its value after an equals sign. A short one may have
its value, or more short options, joined to it. An argument that starts with a dash is an option,
unless it is a negative number or has a space in it. Nothing but options is accepted.
-/

namespace FileShell

structure OptionSpec (κ : Type) where
  key : κ
  names : List Text
  takesValue : Bool

namespace Options

/-- What is attached to the name of an option: nothing, a text joined to it, or one after an
equals sign. -/
inductive Attached
  | nothing
  | joined (t : Text)
  | assigned (t : Text)

/-- One argument: an option, a text that may be the value of the option before it, or something
that is neither. -/
inductive Token (κ : Type)
  | option (spec : OptionSpec κ) (a : Attached)
  | value (t : Text)
  | stray

def isNumber (t : Text) : Bool :=
  let digits (t : Text) := t.all fun c => (digitValue? c).isSome
  match t with
  | '-' :: t =>
    match Text.cut? ['.'] t with
    | none => !t.isEmpty && digits t
    | some (a, b) => digits a && !b.isEmpty && digits b
  | _ => false

variable {κ : Type}

def named? (specs : List (OptionSpec κ)) (name : Text) : Option (OptionSpec κ) :=
  specs.find? (·.names.contains name)

/-- The options that the argument may mean when it is cut short or joined to a value. -/
def candidates (specs : List (OptionSpec κ)) (t : Text) : List (OptionSpec κ × Attached) :=
  match t with
  | '-' :: '-' :: _ =>
    let (start, a) := match Text.cut? ['='] t with
      | some (start, v) => (start, Attached.assigned v)
      | none => (t, .nothing)
    specs.flatMap fun s => (s.names.filter start.isPrefixOf).map fun _ => (s, a)
  | _ =>
    match named? specs (t.take 2) with
    | some s => [(s, .joined (t.drop 2))]
    | none => []

/-- What an argument is; none if it could be several options. -/
def token? (specs : List (OptionSpec κ)) (t : Text) : Option (Token κ) :=
  if t.head? ≠ some '-' ∨ t = ['-'] then some (.value t)
  else
    let whole := (named? specs t).map fun s => (s, Attached.nothing)
    let assigned := do
      let (name, v) ← Text.cut? ['='] t
      return (← named? specs name, Attached.assigned v)
    match whole <|> assigned with
    | some (s, a) => some (.option s a)
    | none =>
      match candidates specs t with
      | [(s, a)] => some (.option s a)
      | [] => some (if isNumber t || t.contains ' ' then .value t else .stray)
      | _ => none

/-- The tokens of all arguments; after two dashes alone there are no more options. -/
def tokens? (specs : List (OptionSpec κ)) : List Text → Option (List (Token κ))
  | [] => some []
  | t :: ts =>
    if t = ['-', '-'] then some (.stray :: ts.map .value)
    else do return (← token? specs t) :: (← tokens? specs ts)

/-- What one argument says: the options in it with their values, whether the last took the value
that follows, and whether part of it was no option. -/
structure Said (κ : Type) where
  options : List (κ × Option Text)
  tookNext : Bool
  unread : Bool

/-- Reads a flag and the short options joined to it. -/
def flags (specs : List (OptionSpec κ)) (next : Option Text) (key : κ) :
    Text → Option (Said κ)
  | [] => some ⟨[(key, none)], false, false⟩
  | '-' :: _ => none
  | c :: t =>
    match named? specs ['-', c] with
    | none => some ⟨[(key, none)], false, true⟩
    | some s =>
      let more (said : Said κ) : Said κ := { said with options := (key, none) :: said.options }
      if s.takesValue then
        match t, next with
        | [], none => none
        | [], some v => some ⟨[(key, none), (s.key, some v)], true, false⟩
        | '=' :: v, _ => some ⟨[(key, none), (s.key, some v)], false, false⟩
        | v, _ => some ⟨[(key, none), (s.key, some v)], false, false⟩
      else
        match t with
        | '=' :: _ => none
        | t => (flags specs next s.key t).map more

/-- Reads an option; none if its value is missing, or it has one that it does not take. -/
def say (specs : List (OptionSpec κ)) (s : OptionSpec κ) (a : Attached) (next : Option Text) :
    Option (Said κ) :=
  match s.takesValue, a, next with
  | true, .nothing, none => none
  | true, .nothing, some v => some ⟨[(s.key, some v)], true, false⟩
  | true, .joined v, _ | true, .assigned v, _ => some ⟨[(s.key, some v)], false, false⟩
  | false, .nothing, _ => some ⟨[(s.key, none)], false, false⟩
  | false, .joined t, _ => flags specs next s.key t
  | false, .assigned _, _ => none

/-- The options in order, up to one that is wrong, and whether all was right. -/
def read (specs : List (OptionSpec κ)) : List (Token κ) → List (κ × Option Text) × Bool
  | [] => ([], true)
  | .value _ :: ts | .stray :: ts => ((read specs ts).1, false)
  | .option s a :: .value v :: ts =>
    match say specs s a (some v) with
    | none => ([], false)
    | some said =>
      let (os, ok) := read specs ts
      (said.options ++ os, ok && said.tookNext && !said.unread)
  | .option s a :: ts =>
    match say specs s a none with
    | none => ([], false)
    | some said =>
      let (os, ok) := read specs ts
      (said.options ++ os, ok && !said.unread)

/-- The options that the arguments give, in order, and whether the arguments were right. -/
def parse (specs : List (OptionSpec κ)) (args : List Text) : List (κ × Option Text) × Bool :=
  match tokens? specs args with
  | none => ([], false)
  | some ts => read specs ts

end Options

end FileShell
