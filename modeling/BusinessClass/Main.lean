import BusinessClass.Command.ShowLines
import BusinessClass.Command.WriteJson

/-!
# The command line

The first argument names the command: `lines` shows the lines of a source, `json` writes the class
as JSON.
-/

open BusinessClass

/-- The files among some names that can be read. -/
def readFiles (names : List Text) : IO (List (Text × Text)) := do
  let mut files := []
  for name in names do
    try
      let content ← IO.FS.readFile (String.ofList name)
      files := files ++ [(name, content.toList)]
    catch _ => pure ()
  return files

/-- Runs a command on the files that its arguments mention. -/
def runCommand (command : Command.Files → List Text → Command.Outcome) (args : List String) :
    IO UInt32 := do
  let args := args.map String.toList
  let files ← readFiles (Command.mentioned args)
  let outcome := command (fun name => files.lookup name) args
  IO.print (String.ofList outcome.stdout)
  IO.eprint (String.ofList outcome.stderr)
  return outcome.exit.toUInt32

/-- Runs the command that the first argument names. -/
def main (args : List String) : IO UInt32 :=
  match args with
  | "lines" :: rest => runCommand Command.ShowLines.run rest
  | "json" :: rest => runCommand Command.WriteJson.run rest
  | _ => do
    IO.eprintln "usage: lines|json [OPTIONS] <FILE>"
    return 2
