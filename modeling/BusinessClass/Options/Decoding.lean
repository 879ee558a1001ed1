import BusinessClass.Json.Decoder
import BusinessClass.Options.Basic

/-!
# Options from JSON values

Every option may be left out and then keeps its default. The options may also be written as an
array in the order of the fields, which may stop early.
-/

namespace BusinessClass

open Json

namespace LocalSetRule

/-- The name of a rule. -/
def name : LocalSetRule → Text
  | .asField => "as_field".toList
  | .asSetDefinition => "as_set_definition".toList

/-- The rule with exactly this name. -/
def ofName? (text : Text) : Option LocalSetRule :=
  [asField, asSetDefinition].find? fun rule => rule.name == text

/-- A rule from a JSON value. -/
def ofJson? (budget : Nat) (j : Json) : Option LocalSetRule :=
  (j.choice? .direct budget).bind ofName?

end LocalSetRule

namespace Options

/-- Options from a JSON value. -/
def ofJson? (budget : Nat) (j : Json) : Option Options := do
  let inner := budget - 1
  match ← j.openFields? budget
    ["tab_width", "comment_marker", "max_depth", "extra_qualifiers", "local_set_rule",
     "source_name"] with
  | [tabWidth, commentMarker, maxDepth, extraQualifiers, localSetRule, sourceName] =>
    let defaults : Options := {}
    return {
      tabWidth := ← default? defaults.tabWidth natural? tabWidth
      commentMarker := ← default? defaults.commentMarker text? commentMarker
      maxDepth := ← default? defaults.maxDepth (orNull? natural?) maxDepth
      extraQualifiers := ← default? defaults.extraQualifiers (texts? inner) extraQualifiers
      localSetRule :=
        ← default? defaults.localSetRule (orNull? (LocalSetRule.ofJson? inner)) localSetRule
      sourceName := ← default? defaults.sourceName (orNull? text?) sourceName }
  | _ => none

/-- Options from a JSON text. -/
def ofJsonText? (t : Text) : Option Options := (Json.read? t).bind (ofJson? nestingLimit)

/-- Options as a JSON value. -/
def toJson (o : Options) : Json :=
  .ofMembers [("tab_width", .natural o.tabWidth), ("comment_marker", .string o.commentMarker),
    ("max_depth", (o.maxDepth.map .natural).getD .null),
    ("extra_qualifiers", .ofTexts o.extraQualifiers),
    ("local_set_rule", .ofText? (o.localSetRule.map LocalSetRule.name)),
    ("source_name", .ofText? o.sourceName)]

end Options

end BusinessClass
