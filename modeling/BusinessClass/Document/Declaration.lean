import BusinessClass.Document.Catalog
import BusinessClass.Document.Vocabulary
import BusinessClass.Header.Basic
import BusinessClass.Outline.Node
import BusinessClass.SetRules.Group

/-!
# Declarations

What the sections of a class declare: fields, relations, sets, conditions, rule blocks and actions.
An action has sub-sections of its own, some of which hold declarations again.
-/

namespace BusinessClass

/-- A field or an action parameter. -/
structure Field where
  header : Header
  /-- The nested lines that are no qualifiers. -/
  body : List Node
deriving Repr

/-- What the lines of a relation say about it. -/
structure RelationView where
  /-- The word before `relation to`, such as `one-to-many`. -/
  cardinality : Option Text := none
  /-- The related class. -/
  target : Option Text := none
  /-- What `Field Mapping` uses. -/
  fieldMapping : Option Text := none
  /-- The lines that start with `related.`. -/
  mappings : List Text := []
  /-- The filter of the first `where` clause that has one. -/
  instanceSelection : Option Text := none
deriving DecidableEq, Repr

/-- A relation to another class. -/
structure Relation where
  header : Header
  view : RelationView
  body : List Node
deriving Repr

/-- A set definition. -/
structure SetDefinition where
  header : Header
  body : List Node
deriving Repr

namespace SetDefinition

/-- The lines directly under the header. -/
def properties (s : SetDefinition) : List Text := s.body.map Node.text

/-- Whether the set is marked `Primary`. -/
def isPrimary (s : SetDefinition) : Bool := s.body.any (Node.headerIs · "Primary".toList)

/-- The fields listed under `Sort Order`. -/
def sortFields (s : SetDefinition) : List Text :=
  (s.body.filter (Node.headerIs · "Sort Order".toList)).flatMap fun n => n.children.map Node.text

end SetDefinition

/-- A named condition. -/
structure Condition where
  header : Header
  /-- The lines of the condition. -/
  definition : Text
deriving DecidableEq, Repr

/-- A named block of rules. -/
structure RuleBlock where
  header : Header
  /-- The lines of the block. -/
  body : Text
deriving DecidableEq, Repr

/-- The instance selection of an action. -/
structure InstanceSelection where
  /-- The text in the parentheses of `where (…)`. -/
  expression : Option Text
  /-- The whole clause. -/
  text : Text
deriving DecidableEq, Repr

mutual

/-- An action of a class. -/
structure Action where
  header : Header
  kind : ActionKind
  /-- The lines before the first sub-section that are no qualifiers. -/
  body : List Node
  /-- The sub-sections in order of their first header. -/
  sections : List (ActionSectionKind × ActionSection)

/-- The content of a sub-section of an action. -/
inductive ActionSection
  /-- Parameters or local fields. -/
  | fields (declarations : List Declaration)
  /-- Lines kept as an outline. -/
  | entries (nodes : List Node)
  /-- Rule lines. -/
  | rules (text : Text)
  /-- An instance selection. -/
  | selection (selection : InstanceSelection)
  /-- Rules and Set Rules groups. -/
  | actionRules (rules : ActionRules)

/-- A declaration in a section of a class. -/
inductive Declaration
  | field (field : Field)
  | relation (relation : Relation)
  | setDefinition (definition : SetDefinition)
  | condition (condition : Condition)
  | action (action : Action)
  | ruleBlock (block : RuleBlock)

end

namespace Declaration

/-- The header of a declaration. -/
def header : Declaration → Header
  | .field d => d.header
  | .relation d => d.header
  | .setDefinition d => d.header
  | .condition d => d.header
  | .action d => d.header
  | .ruleBlock d => d.header

/-- The name that is declared. -/
def name (d : Declaration) : Text := d.header.name

/-- The field, if the declaration is one. -/
def field? : Declaration → Option Field
  | .field d => some d
  | _ => none

/-- The relation, if the declaration is one. -/
def relation? : Declaration → Option Relation
  | .relation d => some d
  | _ => none

/-- The action, if the declaration is one. -/
def action? : Declaration → Option Action
  | .action d => some d
  | _ => none

/-- The set definition, if the declaration is one. -/
def setDefinition? : Declaration → Option SetDefinition
  | .setDefinition d => some d
  | _ => none

end Declaration

namespace Action

/-- A sub-section of the action. -/
def section? (a : Action) (kind : ActionSectionKind) : Option ActionSection :=
  Catalog.get? a.sections kind

/-- The declarations of a sub-section that holds some. -/
def declarations (a : Action) (kind : ActionSectionKind) : List Declaration :=
  match a.section? kind with
  | some (.fields ds) => ds
  | _ => []

/-- The parameters that are fields. -/
def parameters (a : Action) : List Field := (a.declarations .parameters).filterMap (·.field?)

/-- The local fields, set definitions left out. -/
def localFields (a : Action) : List Field := (a.declarations .localFields).filterMap (·.field?)

/-- The lines of a sub-section that is kept as an outline. -/
def entries (a : Action) (kind : ActionSectionKind) : List Text :=
  match a.section? kind with
  | some (.entries nodes) => nodes.map Node.text
  | _ => []

/-- The instance selection of the action. -/
def selection? (a : Action) : Option InstanceSelection :=
  match a.section? .instanceSelection with
  | some (.selection s) => some s
  | _ => none

/-- The rules of the action. -/
def rules? (a : Action) : Option ActionRules :=
  match a.section? .actionRules with
  | some (.actionRules rules) => some rules
  | _ => none

/-- The groups of the action that are nested in no other group. -/
def groups (a : Action) : List SetRuleGroup :=
  match a.rules? with
  | some rules => rules.groups
  | none => []

/-- Whether the action works on a set. -/
def isSetAction (a : Action) : Bool := a.kind == .setAction

/-- The first group of that name in the order of the rules. -/
def findGroup? (a : Action) (name : Text) : Option SetRuleGroup :=
  SetRuleGroup.findAmong? name a.groups

end Action

end BusinessClass
