import BusinessClass.Document.Reading
import BusinessClass.Json.Writer

/-!
# Documents as JSON values

Records are objects with their fields in a fixed order. Declarations carry their variant in the
member `variant`; the contents of sub-sections and the items of rules are objects with the members
`kind` and `content`. Class-level rule blocks are left out when there are none.
-/

namespace BusinessClass

namespace Span

/-- A span as a JSON value. -/
def toJson (s : Span) : Json :=
  .ofMembers [("start", .natural s.start), ("end", .natural s.stop)]

end Span

namespace SourceLine

/-- A source line as a JSON value. -/
def toJson (l : SourceLine) : Json :=
  .ofMembers [("text", .string l.text), ("depth", .natural l.depth), ("number", .natural l.number),
    ("span", l.span.toJson)]

end SourceLine

namespace Node

mutual

/-- A node as a JSON value. -/
def toJson : Node → Json
  | ⟨text, depth, line, span, children⟩ =>
    .ofMembers [("text", .string text), ("depth", .natural depth), ("line", .natural line),
      ("span", span.toJson), ("children", .array (toJsons children))]

/-- Some nodes as JSON values. -/
def toJsons : List Node → List Json
  | [] => []
  | n :: ns => n.toJson :: toJsons ns

end

/-- A forest as a JSON value. -/
def forestJson (forest : List Node) : Json := .array (toJsons forest)

end Node

namespace Article

/-- An article as a JSON value. -/
def toJson : Article → Json
  | .a => .string "A".toList
  | .an => .string "An".toList

end Article

namespace Header

/-- A header as a JSON value. -/
def toJson (h : Header) : Json :=
  .ofMembers [("name", .string h.name), ("article", (h.article.map Article.toJson).getD .null),
    ("type_name", .ofText? h.typeName), ("qualifiers", .ofTexts h.qualifiers),
    ("line", .natural h.line), ("span", h.span.toJson)]

end Header

namespace ActionKind

/-- The kind of an action as a JSON value. -/
def toJson : ActionKind → Json
  | .createAction => .string "CreateAction".toList
  | .updateAction => .string "UpdateAction".toList
  | .deleteAction => .string "DeleteAction".toList
  | .instanceAction => .string "InstanceAction".toList
  | .setAction => .string "SetAction".toList
  | .purgeAction => .string "PurgeAction".toList
  | .importAction => .string "ImportAction".toList
  | .other typeName => .ofMembers [("Other", .string typeName)]

end ActionKind

namespace GroupKey

/-- A group key as a JSON value. -/
def toJson : GroupKey → Json
  | .empty => .string "Empty".toList
  | .general => .string "General".toList
  | .path segments => .ofMembers [("Path", .ofTexts segments)]

end GroupKey

namespace SetRuleGroup

mutual

/-- A group as a JSON value. -/
def toJson : SetRuleGroup → Json
  | ⟨key, line, entrance, exit, rules, children⟩ =>
    .ofMembers [("key", key.toJson), ("line", .natural line), ("entrance", .ofText? entrance),
      ("exit", .ofText? exit), ("rules", .ofText? rules), ("children", .array (toJsons children))]

/-- Some groups as JSON values. -/
def toJsons : List SetRuleGroup → List Json
  | [] => []
  | g :: gs => g.toJson :: toJsons gs

end

end SetRuleGroup

namespace Json

/-- A value under the name of its kind. -/
def ofContent (kind : String) (content : Json) : Json :=
  .ofMembers [("kind", .string kind.toList), ("content", content)]

end Json

namespace RuleItem

/-- An item of the rules of an action as a JSON value. -/
def toJson : RuleItem → Json
  | .text lines => .ofContent "Text" (.string lines)
  | .group g => .ofContent "SetRules" g.toJson

end RuleItem

namespace ActionRules

/-- The rules of an action as a JSON value. -/
def toJson (rules : ActionRules) : Json :=
  .ofMembers [("items", .array (rules.items.map RuleItem.toJson))]

end ActionRules

namespace InstanceSelection

/-- An instance selection as a JSON value. -/
def toJson (s : InstanceSelection) : Json :=
  .ofMembers [("expression", .ofText? s.expression), ("text", .string s.text)]

end InstanceSelection

namespace RuleBlock

/-- A rule block as a JSON value. -/
def toJson (b : RuleBlock) : Json :=
  .ofMembers [("header", b.header.toJson), ("body", .string b.body)]

end RuleBlock

namespace Declaration

/-- A declaration of a variant with its fields. -/
def ofVariant (variant : String) (header : Header) (fields : List (String × Json)) : Json :=
  .ofMembers ([("variant", .string variant.toList), ("header", header.toJson)] ++ fields)

/-- The fields of a relation. -/
def relationFields (d : Relation) : List (String × Json) :=
  [("cardinality", .ofText? d.view.cardinality), ("target", .ofText? d.view.target),
    ("field_mapping", .ofText? d.view.fieldMapping), ("mappings", .ofTexts d.view.mappings),
    ("instance_selection", .ofText? d.view.instanceSelection), ("body", Node.forestJson d.body)]

end Declaration

mutual

/-- A declaration as a JSON value. -/
def Declaration.toJson : Declaration → Json
  | .field d => Declaration.ofVariant "Field" d.header [("body", Node.forestJson d.body)]
  | .relation d => Declaration.ofVariant "Relation" d.header (Declaration.relationFields d)
  | .setDefinition d => Declaration.ofVariant "SetDef" d.header [("body", Node.forestJson d.body)]
  | .condition d =>
    Declaration.ofVariant "Condition" d.header [("definition", .string d.definition)]
  | .action ⟨header, kind, body, sections⟩ =>
    Declaration.ofVariant "Action" header [("kind", kind.toJson), ("body", Node.forestJson body),
      ("sections", .object (Action.sectionMembers sections))]
  | .ruleBlock d => Declaration.ofVariant "RuleBlock" d.header [("body", .string d.body)]

/-- The sub-sections of an action as members of a JSON object. -/
def Action.sectionMembers : List (ActionSectionKind × ActionSection) → List (Text × Json)
  | [] => []
  | (kind, content) :: rest => (kind.name, content.toJson) :: Action.sectionMembers rest

/-- The content of a sub-section as a JSON value. -/
def ActionSection.toJson : ActionSection → Json
  | .fields ds => .ofContent "Fields" (.array (Declaration.toJsons ds))
  | .entries nodes => .ofContent "Entries" (Node.forestJson nodes)
  | .rules t => .ofContent "Rules" (.string t)
  | .selection s => .ofContent "Selection" s.toJson
  | .actionRules rules => .ofContent "ActionRules" rules.toJson

/-- Some declarations as JSON values. -/
def Declaration.toJsons : List Declaration → List Json
  | [] => []
  | d :: ds => d.toJson :: Declaration.toJsons ds

end

namespace Section

/-- A section as a JSON value. -/
def toJson (s : Section) : Json :=
  .ofMembers [("kind", .string s.kind.name), ("line", .natural s.line),
    ("declarations", .array (Declaration.toJsons s.declarations))]

end Section

namespace Document

/-- The member for class-level rule blocks, left out when there are none. -/
def classRulesMember (d : Document) : List (String × Json) :=
  if d.classRules.isEmpty then []
  else [("class_rules", .object (d.classRules.map fun e => (e.1.name, e.2.toJson)))]

/-- A document as a JSON value. -/
def toJson (d : Document) : Json :=
  .ofMembers ([("name", .ofText? d.name), ("class_type", .ofText? d.classType),
    ("owner", .ofText? d.owner), ("prefix", .ofText? d.classPrefix),
    ("sections", .object (d.sections.map fun e => (e.1.name, e.2.toJson)))]
    ++ d.classRulesMember ++ [("closed_from_empty", .bool d.closedFromEmpty)])

end Document

end BusinessClass
