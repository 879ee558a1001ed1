import BusinessClass.Document.Basic
import BusinessClass.SetRules.Reading

/-!
# Writing a class

A document is written as lines, one tab per level. Each part is a list of lines at level zero, and
`Lines.indent` moves lines one level in. Typed headers carry their qualifiers, bare headers have
them on lines below; opaque text keeps its own indentation; a group is written as its rules, its
entrance and exit rules, and the nested groups.
-/

namespace BusinessClass

namespace Lines

/-- Moves lines one level in. -/
def indent (ls : List Text) : List Text := ls.map ('\t' :: ·)

/-- The text of lines, each closed by a line feed. -/
def text (ls : List Text) : Text := ls.flatMap (· ++ ['\n'])

@[simp] theorem indent_append (s t : List Text) : indent (s ++ t) = indent s ++ indent t := by
  simp [indent]

end Lines

namespace Forest

/-- The lines of a forest relative to its shallowest root. -/
def renderLines (forest : List Node) : List Text := (text forest (minDepth forest)).lines

end Forest

namespace Header

/-- The header line, and below a bare header its qualifiers, one to a line; then the body. -/
def renderWith (h : Header) (body : List Text) : List Text :=
  let qualifiers := if h.typeName.isNone then h.qualifiers else []
  h.render :: Lines.indent (qualifiers ++ body)

end Header

namespace SetRuleGroup

/-- The lines of entrance or exit rules, if there are any. -/
def renderPart (header : Text) : Option Text → List Text
  | none => []
  | some t => header :: Lines.indent t.lines

mutual

/-- The lines of a group. -/
def renderLines : SetRuleGroup → List Text
  | ⟨key, _, entrance, exit, rules, children⟩ =>
    key.header :: Lines.indent ((rules.getD []).lines ++ renderPart entranceHeader entrance
      ++ renderPart exitHeader exit ++ renderAll children)

/-- The lines of some groups. -/
def renderAll : List SetRuleGroup → List Text
  | [] => []
  | g :: gs => g.renderLines ++ renderAll gs

end

end SetRuleGroup

namespace RuleItem

/-- The lines of an item of the rules of an action. -/
def renderLines : RuleItem → List Text
  | .text lines => lines.lines
  | .group g => g.renderLines

end RuleItem

mutual

/-- The lines of a declaration. -/
def Declaration.renderLines : Declaration → List Text
  | .field d => d.header.renderWith (Forest.renderLines d.body)
  | .relation d => d.header.renderWith (Forest.renderLines d.body)
  | .setDefinition d => d.header.renderWith (Forest.renderLines d.body)
  | .condition d => d.header.renderWith d.definition.lines
  | .action d => Action.renderLines d
  | .ruleBlock d => d.header.renderWith d.body.lines

/-- The lines of an action. -/
def Action.renderLines : Action → List Text
  | ⟨header, _, body, sections⟩ =>
    header.renderWith (Forest.renderLines body ++ Action.renderSections sections)

/-- The lines of the sub-sections of an action. -/
def Action.renderSections : List (ActionSectionKind × ActionSection) → List Text
  | [] => []
  | (kind, content) :: rest =>
    kind.name :: Lines.indent (ActionSection.renderLines content) ++ Action.renderSections rest

/-- The lines of the content of a sub-section. -/
def ActionSection.renderLines : ActionSection → List Text
  | .fields ds => Declaration.renderAll ds
  | .entries nodes => Forest.renderLines nodes
  | .rules t => t.lines
  | .selection s => s.text.lines
  | .actionRules rules => rules.items.flatMap RuleItem.renderLines

/-- The lines of some declarations. -/
def Declaration.renderAll : List Declaration → List Text
  | [] => []
  | d :: ds => Declaration.renderLines d ++ Declaration.renderAll ds

end

namespace Document

/-- The lines of the class properties. -/
def renderProperties (d : Document) : List Text :=
  (d.owner.map ("owned by ".toList ++ ·)).toList
    ++ (d.classPrefix.map ("prefix is ".toList ++ ·)).toList

/-- The lines of a section. -/
def renderSection (s : Section) : List Text :=
  s.kind.name :: Lines.indent (Declaration.renderAll s.declarations)

/-- The lines of a class-level rule block. -/
def renderBlock (e : ClassBlockKind × RuleBlock) : List Text :=
  e.1.name :: Lines.indent e.2.body.lines

/-- The lines of everything but the class header. -/
def renderBody (d : Document) : List Text :=
  d.renderProperties ++ (Catalog.values d.sections).flatMap renderSection
    ++ d.classRules.flatMap renderBlock

/-- The lines of a document; without a name it has no class header. -/
def renderLines (d : Document) : List Text :=
  match d.name with
  | none => d.renderBody
  | some name =>
    let classType := d.classType.getD "BusinessClass".toList
    (name ++ " is a ".toList ++ classType) :: Lines.indent d.renderBody

/-- A document as source text. -/
def render (d : Document) : Text := Lines.text d.renderLines

end Document

end BusinessClass
