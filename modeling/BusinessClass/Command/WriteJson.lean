import BusinessClass.Command.Arguments
import BusinessClass.Diagnostic.Encoding
import BusinessClass.Diagnostic.Report
import BusinessClass.Options.Decoding

/-!
# Writing a class as JSON

This command reads a class source and writes the document with its diagnostics as JSON. Reports of
the diagnostics go to standard error, and an error among them makes the command fail.
-/

namespace BusinessClass

namespace Command

namespace WriteJson

/-- What the command accepts. -/
def accepts : Signature where
  flags := ["--compact".toList]
  valued := [("--options".toList, .path)]

/-- The help of the command. -/
def usage : Text := Text.stack
  ["Parse a BusinessClass file and print the model as JSON".toList,
    [],
    "Usage: parse_to_json [OPTIONS] <FILE>".toList,
    [],
    "Arguments:".toList,
    "  <FILE>  Source file to parse".toList,
    [],
    "Options:".toList,
    "      --options <OPTIONS>  JSON file with parse options (missing fields keep their ".toList
      ++ "defaults)".toList,
    "      --compact            Print compact JSON instead of pretty JSON".toList,
    "  -h, --help               Print help".toList,
    []]

/-- Reads a source and writes it. -/
def write (a : Arguments) (file source : Text) (o : Options) : Outcome :=
  let reading := Document.read (o.withSourceName file) source
  let layout := if a.has "--compact" then Json.compact else Json.pretty
  { exit := if reading.hasErrors then 1 else 0
    stdout := layout reading.toJson ++ ['\n']
    stderr := reading.diagnostics.flatMap (Report.text file source) }

/-- Runs the command. -/
def run (files : Files) (args : List Text) : Outcome :=
  Command.run accepts usage args fun a file =>
    match files file with
    | none => unusable "reading" file
    | some source =>
      match a.value? "--options" with
      | none => write a file source {}
      | some path =>
        match files path with
        | none => unusable "reading options" path
        | some text =>
          match Options.ofJsonText? text with
          | none => unusable "parsing options" path
          | some o => write a file source o

end WriteJson

end Command

end BusinessClass
