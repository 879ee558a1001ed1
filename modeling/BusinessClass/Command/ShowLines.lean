import BusinessClass.Command.Arguments
import BusinessClass.Document.Reading
import BusinessClass.Outline.Building

/-!
# Showing the lines of a source

This command lists the lines of a source with their depths, or the outline that they form. It can be
kept to the lines around a given one.
-/

namespace BusinessClass

namespace Command

namespace ShowLines

/-- What the command accepts. -/
def accepts : Signature where
  flags := ["--tree".toList]
  valued := [("--line".toList, .number), ("--tab-width".toList, .number)]

/-- The help of the command. -/
def usage : Text := Text.stack
  ["Dump normalized lines or the indentation tree".toList,
    [],
    "Usage: debug_lines [OPTIONS] <FILE>".toList,
    [],
    "Arguments:".toList,
    "  <FILE>  Source file to inspect".toList,
    [],
    "Options:".toList,
    "      --tree                   Print the indentation tree instead of ".toList
      ++ "the flat line list".toList,
    "      --line <LINE>            Only show lines within 5 of this line number".toList,
    "      --tab-width <TAB_WIDTH>  Spaces per indentation level [default: 4]".toList,
    "  -h, --help                   Print help".toList,
    []]

/-- Whether a line is close enough to the one asked for. -/
def isNear (number : Nat) : Option Nat → Bool
  | none => true
  | some target => target - 5 ≤ number && number ≤ target + 5

/-- A line in the list of lines. -/
def showLine (l : SourceLine) : Text :=
  "Line ".toList ++ Text.padLeft 5 (Text.ofNat l.number) ++ ": depth ".toList
    ++ Text.padLeft 2 (Text.ofNat l.depth) ++ " | ".toList ++ l.text

/-- A node in the outline. -/
def showNode (level : Nat) (n : Node) : Text :=
  Text.padLeft 5 (Text.ofNat n.line) ++ " ".toList ++ List.replicate (2 * level) ' ' ++ n.text
    ++ " (depth ".toList ++ Text.ofNat n.depth ++ ", ".toList ++ Text.ofNat (n.size - 1)
    ++ " nested)".toList

mutual

/-- The lines of a tree; nodes that are left out do not hide what is under them. -/
def showTree (target : Option Nat) (level : Nat) : Node → List Text
  | ⟨text, depth, line, span, children⟩ =>
    (if isNear line target then [showNode level ⟨text, depth, line, span, children⟩] else [])
      ++ showForest target (level + 1) children

/-- The lines of a forest. -/
def showForest (target : Option Nat) (level : Nat) : List Node → List Text
  | [] => []
  | n :: ns => showTree target level n ++ showForest target level ns

end

/-- Texts with a line feed behind each. -/
def unlines (ts : List Text) : Text := ts.flatMap (· ++ ['\n'])

/-- What is shown of a source. -/
def shown (a : Arguments) (o : Options) (source : Text) : List Text :=
  let target := a.number? "--line"
  let lines := Source.lines o source
  if a.has "--tree" then showForest target 0 (Forest.build 0 lines)
  else (lines.filter fun l => isNear l.number target).map showLine

/-- Runs the command. -/
def run (files : Files) (args : List Text) : Outcome :=
  Command.run accepts usage args fun a file =>
    match files file with
    | none => unusable "reading" file
    | some source =>
      let o : Options := { tabWidth := (a.number? "--tab-width").getD 4 }
      { exit := 0
        stdout := unlines (shown a o source)
        stderr := unlines ((Document.indentationNotes o source).map Diagnostic.text) }

end ShowLines

end Command

end BusinessClass
