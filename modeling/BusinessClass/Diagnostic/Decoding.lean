import BusinessClass.Diagnostic.Encoding
import BusinessClass.Document.Decoding

/-!
# Diagnostics from JSON values

The decoders undo the encoders of `BusinessClass.Diagnostic.Encoding`. A severity is taken as given,
whatever the kind of problem.
-/

namespace BusinessClass

open Json

namespace Diagnostic

/-- A severity from a JSON value. -/
def Severity.ofJson? (budget : Nat) (j : Json) : Option Severity := do
  let name ← j.choice? .direct budget
  if name = "Error".toList then return .error
  else if name = "Warning".toList then return .warning
  else none

/-- A kind of problem with one text. -/
def Kind.oneText? (budget : Nat) (name : String) (make : Text → Kind) (j : Json) :
    Option Kind := do
  match ← j.fields? budget [name] with
  | [text] => return make (← required? text? text)
  | _ => none

/-- A kind of problem without further fields; an array must be used up by the tag. -/
def Kind.bare? (kind : Kind) : Json → Option Kind
  | .object _ => some kind
  | .array [] => some kind
  | _ => none

/-- A kind of problem from the name of its kind and the value of its fields. -/
def Kind.ofVariant? (budget : Nat) (name : Text) (j : Json) : Option Kind :=
  if name = "MalformedIndentation".toList then
    Kind.oneText? budget "reason" .malformedIndentation j
  else if name = "UnrecognizedHeader".toList then do
    match ← j.fields? budget ["text", "reason"] with
    | [text, reason] =>
      return .unrecognizedHeader (← required? text? text) (← required? text? reason)
    | _ => none
  else if name = "UnknownSectionContent".toList then
    Kind.oneText? budget "text" .unknownSectionContent j
  else if name = "MalformedActionHeader".toList then
    Kind.oneText? budget "text" .malformedActionHeader j
  else if name = "UnterminatedSetRuleGroup".toList then
    Kind.oneText? budget "name" .unterminatedSetRuleGroup j
  else if name = "DuplicateSection".toList then Kind.oneText? budget "name" .duplicateSection j
  else if name = "DepthLimitExceeded".toList then do
    match ← j.fields? budget ["name", "limit"] with
    | [name, limit] =>
      return .depthLimitExceeded (← required? text? name) (← required? natural? limit)
    | _ => none
  else if name = "MissingClassHeader".toList then Kind.bare? .missingClassHeader j
  else if name = "EmptyDocument".toList then Kind.bare? .emptyDocument j
  else none

/-- A kind of problem from a JSON value, which has to be usable as a whole. -/
def Kind.ofJson? (budget : Nat) (j : Json) : Option Kind :=
  if j.isUsable budget then do
    let (tag, rest) ← j.tagged? "kind"
    Kind.ofVariant? budget (← tag.tagName? .direct []) rest
  else none

/-- A diagnostic from a JSON value. -/
def ofJson? (budget : Nat) (j : Json) : Option Diagnostic := do
  let inner := budget - 1
  match ← j.fields? budget ["kind", "severity", "line", "span", "source_name"] with
  | [kind, severity, line, span, sourceName] =>
    return {
      kind := ← required? (Kind.ofJson? inner) kind
      severity := ← required? (Severity.ofJson? inner) severity
      line := ← required? natural? line
      span := ← optional? (Span.ofJson? inner) span
      sourceName := ← optional? text? sourceName }
  | _ => none

/-- A kind of problem from a JSON text. -/
def Kind.ofJsonText? (t : Text) : Option Kind := (Json.read? t).bind (Kind.ofJson? nestingLimit)

/-- A diagnostic from a JSON text. -/
def ofJsonText? (t : Text) : Option Diagnostic := (Json.read? t).bind (ofJson? nestingLimit)

end Diagnostic

namespace Reading

/-- A document with its diagnostics from a JSON value. -/
def ofJson? (budget : Nat) (j : Json) : Option Reading := do
  let inner := budget - 1
  match ← j.fields? budget ["document", "diagnostics"] with
  | [document, diagnostics] =>
    return ⟨← required? (Document.ofJson? inner) document,
      ← required? (list? inner (Diagnostic.ofJson? (inner - 1))) diagnostics⟩
  | _ => none

/-- A document with its diagnostics from a JSON text. -/
def ofJsonText? (t : Text) : Option Reading := (Json.read? t).bind (ofJson? nestingLimit)

end Reading

end BusinessClass
