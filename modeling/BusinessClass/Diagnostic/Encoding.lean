import BusinessClass.Document.Encoding

/-!
# Diagnostics as JSON values

The kind of a diagnostic is an object that carries its name in the member `kind`.
-/

namespace BusinessClass

namespace Diagnostic

/-- A severity as a JSON value. -/
def Severity.toJson : Severity → Json
  | .error => .string "Error".toList
  | .warning => .string "Warning".toList

/-- A kind of problem with its fields. -/
def Kind.ofVariant (name : String) (fields : List (String × Text)) : Json :=
  .ofMembers (("kind", .string name.toList) :: fields.map fun f => (f.1, .string f.2))

/-- A kind of problem as a JSON value. -/
def Kind.toJson : Kind → Json
  | .malformedIndentation reason => Kind.ofVariant "MalformedIndentation" [("reason", reason)]
  | .unrecognizedHeader text reason =>
    Kind.ofVariant "UnrecognizedHeader" [("text", text), ("reason", reason)]
  | .unknownSectionContent text => Kind.ofVariant "UnknownSectionContent" [("text", text)]
  | .malformedActionHeader text => Kind.ofVariant "MalformedActionHeader" [("text", text)]
  | .unterminatedSetRuleGroup name => Kind.ofVariant "UnterminatedSetRuleGroup" [("name", name)]
  | .duplicateSection name => Kind.ofVariant "DuplicateSection" [("name", name)]
  | .depthLimitExceeded name limit =>
    .ofMembers [("kind", .string "DepthLimitExceeded".toList), ("name", .string name),
      ("limit", .natural limit)]
  | .missingClassHeader => Kind.ofVariant "MissingClassHeader" []
  | .emptyDocument => Kind.ofVariant "EmptyDocument" []

/-- A diagnostic as a JSON value. -/
def toJson (d : Diagnostic) : Json :=
  .ofMembers [("kind", d.kind.toJson), ("severity", d.severity.toJson), ("line", .natural d.line),
    ("span", (d.span.map Span.toJson).getD .null), ("source_name", .ofText? d.sourceName)]

end Diagnostic

namespace Reading

/-- A document with its diagnostics as a JSON value. -/
def toJson (r : Reading) : Json :=
  .ofMembers [("document", r.document.toJson),
    ("diagnostics", .array (r.diagnostics.map Diagnostic.toJson))]

end Reading

end BusinessClass
