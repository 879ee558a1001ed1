import BusinessClass.Text.Basic

/-!
# Command lines

A command takes one file, flags such as `--tree` and options with a value, which stands behind the
name or behind an equals sign. Nothing may be given twice, and what follows `--` is a file even if
it starts with a hyphen.
-/

namespace BusinessClass

namespace Command

/-- Where a command writes, and how it ends. -/
structure Outcome where
  /-- The exit code. -/
  exit : Nat
  /-- What is written to standard output. -/
  stdout : Text := []
  /-- What is written to standard error. -/
  stderr : Text := []
deriving DecidableEq, Repr

/-- The files that a command can read, by name. -/
abbrev Files := Text → Option Text

/-- The value of an option. -/
inductive ValueKind
  /-- A number that fits in 64 bits. -/
  | number
  /-- The name of a file. -/
  | path
deriving DecidableEq, Repr

/-- What a command accepts besides its file. -/
structure Signature where
  /-- The names of flags. -/
  flags : List Text
  /-- The names of options and the kinds of their values. -/
  valued : List (Text × ValueKind)

/-- The arguments of a command, sorted out. -/
structure Arguments where
  file : Option Text := none
  flags : List Text := []
  values : List (Text × Text) := []

/-- Why arguments are not sorted out. -/
inductive Stop
  /-- They are refused. -/
  | refused
  /-- They ask for help. -/
  | help
deriving DecidableEq, Repr

/-- The numbers that an option takes lie below this bound. -/
def numberBound : Nat := 0x10000000000000000

/-- The number that a text spells in decimal digits, a plus sign allowed in front. -/
def number? (t : Text) : Option Nat :=
  let digits := match t with
    | '+' :: rest => rest
    | _ => t
  if digits.isEmpty || !digits.all Char.isDigit then none
  else
    let n := Text.digitsValue digits
    if n < numberBound then some n else none

/-- Whether a text is a value of the kind. -/
def ValueKind.accepts : ValueKind → Text → Bool
  | .number, t => (number? t).isSome
  | .path, t => !t.isEmpty

namespace Arguments

/-- Whether a flag is given. -/
def has (a : Arguments) (name : String) : Bool := a.flags.contains name.toList

/-- The value that is given for an option. -/
def value? (a : Arguments) (name : String) : Option Text := a.values.lookup name.toList

/-- The number that is given for an option. -/
def number? (a : Arguments) (name : String) : Option Nat := (a.value? name).bind Command.number?

/-- Takes up a file name; there can be only one, and it is not empty. -/
def addFile (a : Arguments) (name : Text) : Except Stop Arguments :=
  if a.file.isSome || name.isEmpty then .error .refused else .ok { a with file := some name }

/-- Takes up a flag, which can be given once. -/
def addFlag (a : Arguments) (name : Text) : Except Stop Arguments :=
  if a.flags.contains name then .error .refused else .ok { a with flags := a.flags ++ [name] }

/-- Takes up the value of an option, which can be given once. -/
def addValue (a : Arguments) (name : Text) (kind : ValueKind) (value : Text) :
    Except Stop Arguments :=
  if (a.values.lookup name).isSome || !kind.accepts value then .error .refused
  else .ok { a with values := a.values ++ [(name, value)] }

/-- Takes up file names. -/
def addFiles : Arguments → List Text → Except Stop Arguments
  | a, [] => .ok a
  | a, name :: rest => do addFiles (← a.addFile name) rest

/-- Sorts out arguments from the front. -/
def sort (s : Signature) (a : Arguments) : List Text → Except Stop Arguments
  | [] => .ok a
  | arg :: rest =>
    if arg = "--".toList then a.addFiles rest
    else if arg = "--help".toList || "-h".toList.isPrefixOf arg then .error .help
    else if "--".toList.isPrefixOf arg then
      let name := arg.takeWhile (· != '=')
      match arg.dropWhile (· != '='), s.flags.contains name, s.valued.lookup name, rest with
      | [], true, _, rest => do (← a.addFlag name).sort s rest
      | _ :: value, _, some kind, rest => do (← a.addValue name kind value).sort s rest
      | [], _, some kind, value :: rest =>
        if value.length > 1 && value.head? == some '-' then .error .refused
        else do (← a.addValue name kind value).sort s rest
      | _, _, _, _ => .error .refused
    else if arg.length > 1 && arg.head? == some '-' then .error .refused
    else do (← a.addFile arg).sort s rest

/-- Sorts out arguments; a file has to be given. -/
def ofList (s : Signature) (args : List Text) : Except Stop (Arguments × Text) := do
  let a ← sort s {} args
  match a.file with
  | some file => return (a, file)
  | none => .error .refused

end Arguments

/-- The names of files that arguments may mention. -/
def mentioned (args : List Text) : List Text :=
  args ++ args.map fun arg => (arg.dropWhile (· != '=')).drop 1

/-- Runs a command on its arguments: refused arguments end with code two, help is written. -/
def run (s : Signature) (usage : Text) (args : List Text) (body : Arguments → Text → Outcome) :
    Outcome :=
  match Arguments.ofList s args with
  | .ok (a, file) => body a file
  | .error .help => { exit := 0, stdout := usage }
  | .error .refused => { exit := 2, stderr := "error: bad arguments\n".toList }

/-- The outcome for a file that cannot be used. -/
def unusable (what : String) (name : Text) : Outcome :=
  { exit := 1, stderr := "Error: ".toList ++ what.toList ++ " '".toList ++ name ++ "'\n".toList }

end Command

end BusinessClass
