import BusinessClass.Diagnostic.Basic
import BusinessClass.Text.Width

/-!
# Reports

A report shows a diagnostic with the line it is about, an underline below the place, and a hint.
Offsets are counted in characters here, and a report has its own idea of a line, which also ends at
form feeds and the Unicode line separators. A place outside the source is not shown. A place is drawn
on the line that it starts on: the frame that leads along several lines when a place ends on a later
one is left out of the picture, whose head, with the line and the column, is the same for both.

* `Report.lines` cuts a source into the lines of a report.
* `Report.body` is the picture of a place, `Report.text` the whole report.
-/

namespace BusinessClass

namespace Report

/-- Whether a line of a report ends with this character. -/
def isLineEnd (c : Char) : Bool :=
  c == '\n' || c == '\r' || c == '\x0b' || c == '\x0c' || c == '\u0085' || c == '\u2028'
    || c == '\u2029'

/-- The lines of a source with their endings; a carriage return and a line feed are one ending. -/
def lines : Text → List Text
  | [] => []
  | '\r' :: '\n' :: cs => ['\r', '\n'] :: lines cs
  | c :: cs => if isLineEnd c then [c] :: lines cs else Text.consHead c (lines cs)

/-- A line of a report with its place. -/
structure Line where
  text : Text
  /-- Number of the line, counted from one. -/
  number : Nat
  /-- Offset of the line in characters. -/
  offset : Nat
deriving DecidableEq, Repr

/-- The last line that starts at or before the offset; `line` is the line in front of the rest. -/
def lineAt (offset : Nat) (line : Line) : List Text → Line
  | [] => line
  | next :: rest =>
    let start := line.offset + line.text.length
    if offset < start then line else lineAt offset ⟨next, line.number + 1, start⟩ rest

/-- The line of a source that an offset belongs to; the empty source has none. -/
def line? (source : Text) (offset : Nat) : Option Line :=
  match lines source with
  | [] => none
  | first :: rest => some (lineAt offset ⟨first, 1, 0⟩ rest)

/-- How many cells a character takes that stands at the given column: a tab reaches to the next
multiple of four, any other blank takes one cell. -/
def width (column : Nat) (c : Char) : Nat :=
  if c = '\t' then 4 - column % 4 else if isBlank c then 1 else cells c

/-- A character at a column as it is shown: blanks become spaces. -/
def shown (column : Nat) (c : Char) : Text :=
  if isBlank c then List.replicate (width column c) ' ' else [c]

/-- The characters of a line with their columns. -/
def columns (column : Nat) : Text → List (Nat × Char)
  | [] => []
  | c :: cs => (column, c) :: columns (column + 1) cs

/-- The characters of a line that are shown: all but the blanks at its end. -/
def Line.visible (l : Line) : Text := l.text.trimEnd

/-- A line as it is shown. -/
def shownLine (l : Line) : Text := (columns 0 l.visible).flatMap fun (column, c) => shown column c

/-- A place in a line: the columns from `start` up to and excluding `stop`, and the line. -/
structure Place where
  line : Line
  start : Nat
  stop : Nat

namespace Place

/-- The column that the message hangs from. -/
def middle (p : Place) : Nat := (p.start + p.stop) / 2 - p.line.offset

/-- The columns below the line that are drawn in, with their widths: a column is as wide as the
character above it, and behind the end of the line it has one cell. -/
def drawn (p : Place) : List (Nat × Nat) :=
  let count := p.stop - p.line.offset + 2
  let visible := columns 0 p.line.visible
  (visible.take count).map (fun (column, c) => (column, width column c))
    ++ ((List.range count).drop visible.length).map (·, 1)

/-- The cells of a column: a character, and what fills the rest if the column is wide. -/
def fill (wide : Nat) (c rest : Char) : Text :=
  match wide with
  | 0 => []
  | more + 1 => c :: List.replicate more rest

/-- One column of the underline. -/
def underlineAt (p : Place) (column wide : Nat) : Text :=
  if p.start = p.stop then
    if column = p.middle then fill wide '│' ' ' else fill wide ' ' ' '
  else if p.start ≤ p.line.offset + column ∧ p.line.offset + column < p.stop then
    if column = p.middle then fill wide '┬' '─' else fill wide '─' '─'
  else fill wide ' ' ' '

/-- One column of the arrow from the underline to the message. -/
def arrowAt (p : Place) (column wide : Nat) : Text :=
  if column < p.middle then fill wide ' ' ' '
  else if column = p.middle then fill wide '╰' '─'
  else fill wide '─' '─'

/-- The row below the line that marks the place. -/
def underline (p : Place) : Text := p.drawn.flatMap fun (column, wide) => p.underlineAt column wide

/-- The row that leads from the place to the message. -/
def arrow (p : Place) : Text := p.drawn.flatMap fun (column, wide) => p.arrowAt column wide

end Place

/-- The lines of the picture of a place. -/
def body (label : Text) (p : Place) (hint : Option Text) : List Text :=
  let number := Text.ofNat p.line.number
  let margin := List.replicate (number.length + 2) ' '
  let column := Text.ofNat (p.start - p.line.offset + 1)
  let help := match hint with
    | none => []
    | some hint => [margin ++ "│ ".toList, margin ++ "│ Help: ".toList ++ hint]
  [margin ++ "╭─[".toList ++ label ++ ":".toList ++ number ++ ":".toList ++ column ++ "]".toList,
    margin ++ "│".toList,
    " ".toList ++ number ++ " │ ".toList ++ shownLine p.line,
    margin ++ "│ ".toList ++ p.underline,
    margin ++ "│ ".toList ++ p.arrow ++ " here".toList]
    ++ help ++ [List.replicate (number.length + 2) '─' ++ "╯".toList]

/-- The place of a span in a source, if it lies inside. -/
def place? (source : Text) (s : Span) : Option Place :=
  let last := if s.start = s.stop then s.start else max s.start (s.stop - 1)
  if last ≤ source.length then (line? source s.start).map fun line => ⟨line, s.start, s.stop⟩
  else none

/-- The severity at the head of a report. -/
def title : Diagnostic.Severity → Text
  | .error => "Error: ".toList
  | .warning => "Warning: ".toList

/-- The lines of the report of a diagnostic about a source. -/
def linesOf (label source : Text) (d : Diagnostic) : List Text :=
  let picture := match d.span.bind (place? source) with
    | none => []
    | some p => body label p d.kind.hint?
  (title d.severity ++ d.kind.message) :: picture

/-- The report of a diagnostic about a source, which is named by its label. -/
def text (label source : Text) (d : Diagnostic) : Text :=
  (linesOf label source d).flatMap (· ++ ['\n'])

end Report

end BusinessClass
