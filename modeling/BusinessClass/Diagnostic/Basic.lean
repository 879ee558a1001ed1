import BusinessClass.Text.Span

/-!
# Diagnostics

Reading never stops at a problem. Each becomes a diagnostic: what is wrong, how bad it is, and
where. `Diagnostic.Kind.message` words the problem, `Diagnostic.text` adds place and severity.
-/

namespace BusinessClass

namespace Diagnostic

/-- How bad a problem is. -/
inductive Severity
  | error
  | warning
deriving DecidableEq, Repr

namespace Severity

/-- The severity in a message. -/
def text : Severity → Text
  | .error => "error".toList
  | .warning => "warning".toList

end Severity

/-- What is wrong. -/
inductive Kind
  /-- The blanks in front of a line stand for no depth. -/
  | malformedIndentation (reason : Text)
  /-- A line in the place of a declaration is no header. -/
  | unrecognizedHeader (text reason : Text)
  /-- A line stands in front of all sections. -/
  | unknownSectionContent (text : Text)
  /-- A line in the place of an action is no typed header. -/
  | malformedActionHeader (text : Text)
  /-- Nothing stands under the header of a Set Rules group. -/
  | unterminatedSetRuleGroup (name : Text)
  /-- A section was opened before; the contents were joined. -/
  | duplicateSection (name : Text)
  /-- A Set Rules group is nested deeper than allowed. -/
  | depthLimitExceeded (name : Text) (limit : Nat)
  /-- There are sections but no class header. -/
  | missingClassHeader
  /-- There is neither class header nor section. -/
  | emptyDocument
deriving DecidableEq, Repr

namespace Kind

/-- How bad such a problem is. -/
def severity : Kind → Severity
  | .malformedIndentation _ | .unrecognizedHeader _ _ | .unknownSectionContent _
  | .malformedActionHeader _ | .emptyDocument => .error
  | .unterminatedSetRuleGroup _ | .duplicateSection _ | .depthLimitExceeded _ _
  | .missingClassHeader => .warning

/-- A piece of source in a message. -/
def ticked (t : Text) : Text := "`".toList ++ t ++ "`".toList

/-- The problem in words. -/
def message : Kind → Text
  | .malformedIndentation reason => "malformed indentation: ".toList ++ reason
  | .unrecognizedHeader text reason =>
    "unrecognized declaration header ".toList ++ ticked text ++ ": ".toList ++ reason
  | .unknownSectionContent text => ticked text ++ " appears before any section header".toList
  | .malformedActionHeader text => "malformed action header ".toList ++ ticked text
  | .unterminatedSetRuleGroup name =>
    "set rules group ".toList ++ ticked name ++ " has no rules".toList
  | .duplicateSection name =>
    "section ".toList ++ ticked name ++ " is declared more than once; contents merged".toList
  | .depthLimitExceeded name limit =>
    "set rules group ".toList ++ ticked name ++ " exceeds the nesting budget of ".toList
      ++ Text.ofNat limit
  | .missingClassHeader => "missing `is a BusinessClass` class header".toList
  | .emptyDocument => "no class header and no sections found".toList

/-- What to do about the problem, where there is something to say. -/
def hint? : Kind → Option Text
  | .malformedIndentation _ =>
    some "indent with tabs, or with whole multiples of the configured tab width".toList
  | .unknownSectionContent _ =>
    some "declarations must sit under a section such as `Persistent Fields`".toList
  | .malformedActionHeader _ =>
    some "actions are declared as `Name is a Create Action`".toList
  | _ => none

end Kind

end Diagnostic

/-- A problem with its place. -/
structure Diagnostic where
  kind : Diagnostic.Kind
  severity : Diagnostic.Severity
  /-- Number of the line, zero for the document as a whole. -/
  line : Nat
  /-- Where the content of the line stands in the source. -/
  span : Option Span
  /-- The name of the source. -/
  sourceName : Option Text
deriving DecidableEq, Repr

namespace Diagnostic

/-- A problem at a place, with the severity of its kind. -/
def make (kind : Kind) (line : Nat) (span : Option Span) : Diagnostic :=
  ⟨kind, kind.severity, line, span, none⟩

/-- A problem of the document as a whole. -/
def ofDocument (kind : Kind) : Diagnostic := make kind 0 none

/-- The diagnostic filed under a name. -/
def withSourceName (d : Diagnostic) (name : Option Text) : Diagnostic :=
  { d with sourceName := name }

/-- Whether the problem is an error. -/
def isError (d : Diagnostic) : Bool := d.severity == .error

/-- The name of the source and the line in front of a message. -/
def place (d : Diagnostic) : Text :=
  match d.sourceName, d.line with
  | none, 0 => []
  | none, line => Text.ofNat line ++ ": ".toList
  | some name, 0 => name ++ ": ".toList
  | some name, line => name ++ ":".toList ++ Text.ofNat line ++ ": ".toList

/-- The diagnostic in one line. -/
def text (d : Diagnostic) : Text :=
  d.place ++ d.severity.text ++ ": ".toList ++ d.kind.message

end Diagnostic

end BusinessClass
