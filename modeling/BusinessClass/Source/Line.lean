import BusinessClass.Options.Basic
import BusinessClass.Source.Indent
import BusinessClass.Text.Span

/-!
# Source lines

A source is cut into physical lines, which end with a line feed, a carriage return or both. A
physical line without content and a comment say nothing. Every other one is either a source line
with a depth, or a line whose indentation is malformed.

* `Source.pieces` cuts a text without losing a character.
* `Source.physicalLines` numbers the pieces from one and locates them in bytes.
* `Source.scan` gives every line that says something, in order; `Source.lines` and
  `Source.malformed` are its two halves.
-/

namespace BusinessClass

/-- A line of the source with its indentation resolved. -/
structure SourceLine where
  /-- Content between indentation and trailing blanks. -/
  text : Text
  /-- Depth in levels. -/
  depth : Nat
  /-- Number of the physical line, counted from one. -/
  number : Nat
  /-- Where `text` stands in the source. -/
  span : Span
deriving DecidableEq, Repr

/-- A line of the source whose indentation stands for no depth. -/
structure MalformedLine where
  /-- What is wrong with the indentation. -/
  error : IndentError
  /-- Number of the physical line, counted from one. -/
  number : Nat
  /-- Where the content of the line stands in the source. -/
  span : Span
deriving DecidableEq, Repr

/-- A line between two line endings. -/
structure PhysicalLine where
  /-- Everything before the line ending. -/
  text : Text
  /-- Number of the line, counted from one. -/
  number : Nat
  /-- Byte offset of the line in the source. -/
  offset : Nat
deriving DecidableEq, Repr

namespace PhysicalLine

/-- The line without the blanks at its end. -/
def body (l : PhysicalLine) : Text := l.text.trimEnd

/-- The blanks in front of the content. -/
def indent (l : PhysicalLine) : Text := l.body.indent

/-- The line without the blanks at either end. -/
def content (l : PhysicalLine) : Text := l.body.trimStart

/-- Where the content stands in the source. -/
def span (l : PhysicalLine) : Span where
  start := l.offset + l.indent.byteSize
  stop := l.offset + l.body.byteSize

/-- What the line says, if it is neither empty nor a comment. -/
def read (o : Options) (l : PhysicalLine) : Option (Except MalformedLine SourceLine) :=
  -- dropped before its indentation is measured: a comment is never malformed
  if l.content.isEmpty || o.isComment l.content then none
  else match Indent.measure l.indent o.levelWidth with
    | .ok depth => some (.ok ⟨l.content, depth, l.number, l.span⟩)
    | .error e => some (.error ⟨e, l.number, l.span⟩)

end PhysicalLine

namespace Source

/-- The byte order mark that may stand in front of a source. -/
def byteOrderMark : Char := '\uFEFF'

/-- A source cut after each line ending: content and ending of every piece. Only the last ending
may be empty, and then the content is not. -/
def pieces : Text → List (Text × Text)
  | [] => []
  | '\n' :: cs => ([], ['\n']) :: pieces cs
  -- the pair before the single return, so that it ends one line and not two
  | '\r' :: '\n' :: cs => ([], ['\r', '\n']) :: pieces cs
  | '\r' :: cs => ([], ['\r']) :: pieces cs
  | c :: cs =>
    match pieces cs with
    | [] => [([c], [])]
    | (content, ending) :: rest => (c :: content, ending) :: rest

/-- Numbers and locates pieces, from the given number and byte offset on. -/
def locate (number offset : Nat) : List (Text × Text) → List PhysicalLine
  | [] => []
  | (content, ending) :: rest =>
    ⟨content, number, offset⟩
      :: locate (number + 1) (offset + content.byteSize + ending.byteSize) rest

/-- The physical lines of a source; a byte order mark in front belongs to none of them. -/
def physicalLines : Text → List PhysicalLine
  | [] => []
  | c :: cs =>
    if c = byteOrderMark then locate 1 byteOrderMark.utf8Size (pieces cs)
    else locate 1 0 (pieces (c :: cs))

/-- What the lines of a source say, in order. -/
def scan (o : Options) (source : Text) : List (Except MalformedLine SourceLine) :=
  (physicalLines source).filterMap (PhysicalLine.read o)

/-- The lines of a source that have a depth. -/
def lines (o : Options) (source : Text) : List SourceLine :=
  (scan o source).filterMap Except.toOption

/-- The lines of a source whose indentation is malformed. -/
def malformed (o : Options) (source : Text) : List MalformedLine :=
  (scan o source).filterMap fun
    | .ok _ => none
    | .error e => some e

end Source

end BusinessClass
