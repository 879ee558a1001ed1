import BusinessClass.Document.Encoding
import BusinessClass.Json.Decoder

/-!
# Documents from JSON values

The decoders undo the encoders of `BusinessClass.Document.Encoding` and take some further forms:
fields in any order or as an array, optional fields left out, choices as objects. A decoder's first
argument is the number of containers that may still be nested in each other.
-/

namespace BusinessClass

open Json

namespace Span

/-- A span from a JSON value; it has no members besides its own. -/
def ofJson? (budget : Nat) (j : Json) : Option Span := do
  let known := match j with
    | .object ms => ms.all fun m => m.1 == "start".toList || m.1 == "end".toList
    | _ => true
  match known, ← j.fields? budget ["start", "end"] with
  | true, [start, stop] => return ⟨← required? natural? start, ← required? natural? stop⟩
  | _, _ => none

end Span

namespace Node

/-- A node from a JSON value. -/
def ofJson? : Nat → Json → Option Node
  | budget + 2, j => do
    match ← j.fields? (budget + 2) ["text", "depth", "line", "span", "children"] with
    | [text, depth, line, span, children] =>
      return {
        text := ← required? text? text
        depth := ← required? natural? depth
        line := ← required? natural? line
        span := ← required? (Span.ofJson? (budget + 1)) span
        children := ← required? (list? (budget + 1) (fun c => ofJson? budget c)) children }
    | _ => none
  | _, _ => none

/-- A forest from a JSON value. -/
def forestOfJson? (budget : Nat) (j : Json) : Option (List Node) :=
  list? budget (ofJson? (budget - 1)) j

end Node

namespace Article

/-- An article from a JSON value. -/
def ofJson? (reach : Reach) (budget : Nat) (j : Json) : Option Article := do
  let name ← j.choice? reach budget
  if name = "A".toList then return .a
  else if name = "An".toList then return .an
  else none

end Article

namespace Header

/-- A header from a JSON value. -/
def ofJson? (reach : Reach) (budget : Nat) (j : Json) : Option Header := do
  let inner := budget - 1
  match ← j.fields? budget ["name", "article", "type_name", "qualifiers", "line", "span"] with
  | [name, article, typeName, qualifiers, line, span] =>
    return {
      name := ← required? text? name
      article := ← optional? (Article.ofJson? reach inner) article
      typeName := ← optional? text? typeName
      qualifiers := ← required? (texts? inner) qualifiers
      line := ← required? natural? line
      span := ← required? (Span.ofJson? inner) span }
  | _ => none

end Header

namespace RuleBlock

/-- A rule block from a JSON value. -/
def ofJson? (reach : Reach) (budget : Nat) (j : Json) : Option RuleBlock := do
  match ← j.fields? budget ["header", "body"] with
  | [header, body] =>
    return ⟨← required? (Header.ofJson? reach (budget - 1)) header, ← required? text? body⟩
  | _ => none

end RuleBlock

namespace ActionKind

/-- The kind of an action from a JSON value. -/
def ofJson? (budget : Nat) : Json → Option ActionKind
  | .object [(name, j)] =>
    if name = "Other".toList then (j.text?).map .other
    else if budget ≠ 0 ∧ isUnit .held j then ofName? name
    else none
  | j => (j.text?).bind ofName?
where
  /-- The kind with exactly this name. -/
  ofName? (name : Text) : Option ActionKind :=
    (named.find? fun k => k.1 == name).map Prod.snd

end ActionKind

namespace GroupKey

/-- A group key from a JSON value. -/
def ofJson? (budget : Nat) : Json → Option GroupKey
  | .object [(name, j)] =>
    if name = "Path".toList then (texts? (budget - 1) j).map .path
    else if budget ≠ 0 ∧ isUnit .held j then ofName? name
    else none
  | j => (j.text?).bind ofName?
where
  /-- The key without a path that has exactly this name. -/
  ofName? (name : Text) : Option GroupKey :=
    if name = "Empty".toList then some .empty
    else if name = "General".toList then some .general
    else none

end GroupKey

namespace SetRuleGroup

/-- A group from a JSON value. -/
def ofJson? : Nat → Json → Option SetRuleGroup
  | budget + 2, j => do
    match ← j.fields? (budget + 2) ["key", "line", "entrance", "exit", "rules", "children"] with
    | [key, line, entrance, exit, rules, children] =>
      return {
        key := ← required? (GroupKey.ofJson? (budget + 1)) key
        line := ← required? natural? line
        entrance := ← optional? text? entrance
        exit := ← optional? text? exit
        rules := ← optional? text? rules
        children := ← required? (list? (budget + 1) (fun c => ofJson? budget c)) children }
    | _ => none
  | _, _ => none

end SetRuleGroup

namespace Json

/-- The kind and the content of a value that names its kind. -/
def content? (budget : Nat) (j : Json) : Option (Text × Json) := do
  match ← j.fields? budget ["kind", "content"] with
  | [some kind, some content] => return (← kind.choice? .held (budget - 1), content)
  | _ => none

end Json

namespace RuleItem

/-- An item of the rules of an action from a JSON value. -/
def ofJson? (budget : Nat) (j : Json) : Option RuleItem := do
  let (kind, content) ← j.content? budget
  if kind = "Text".toList then (content.text?).map .text
  else if kind = "SetRules".toList then (SetRuleGroup.ofJson? (budget - 1) content).map .group
  else none

end RuleItem

namespace ActionRules

/-- The rules of an action from a JSON value. -/
def ofJson? (budget : Nat) (j : Json) : Option ActionRules := do
  match ← j.fields? budget ["items"] with
  | [items] => return ⟨← required? (list? (budget - 1) (RuleItem.ofJson? (budget - 2))) items⟩
  | _ => none

end ActionRules

namespace InstanceSelection

/-- An instance selection from a JSON value. -/
def ofJson? (budget : Nat) (j : Json) : Option InstanceSelection := do
  match ← j.fields? budget ["expression", "text"] with
  | [expression, text] => return ⟨← optional? text? expression, ← required? text? text⟩
  | _ => none

end InstanceSelection

namespace Catalog

variable {κ α : Type} [DecidableEq κ]

/-- A keyed entry from a member of an object. -/
def keyed? (key? : Text → Option κ) (decode : Json → Option α) (m : Text × Json) :
    Option (κ × α) := do
  return (← key? m.1, ← decode m.2)

/-- Keyed entries from a JSON object. A repeated key keeps its first place and takes its last
entry. -/
def ofJson? (budget : Nat) (key? : Text → Option κ) (decode : Json → Option α) (j : Json) :
    Option (Catalog κ α) :=
  (j.members budget).bind fun ms => (ms.mapM (keyed? key? decode)).map ofList

end Catalog

namespace Relation

/-- A relation from the value of its fields. -/
def ofJson? (budget : Nat) (j : Json) : Option Relation := do
  let inner := budget - 1
  match ← j.fields? budget
    ["header", "cardinality", "target", "field_mapping", "mappings", "instance_selection",
     "body"] with
  | [header, cardinality, target, fieldMapping, mappings, instanceSelection, body] =>
    return {
      header := ← required? (Header.ofJson? .held inner) header
      view := {
        cardinality := ← optional? text? cardinality
        target := ← optional? text? target
        fieldMapping := ← optional? text? fieldMapping
        mappings := ← required? (texts? inner) mappings
        instanceSelection := ← optional? text? instanceSelection }
      body := ← required? (Node.forestOfJson? inner) body }
  | _ => none

end Relation

namespace Field

/-- A header and a body from the value of a record. -/
def ofJson? (budget : Nat) (j : Json) : Option Field := do
  let inner := budget - 1
  match ← j.fields? budget ["header", "body"] with
  | [header, body] =>
    return ⟨← required? (Header.ofJson? .held inner) header,
      ← required? (Node.forestOfJson? inner) body⟩
  | _ => none

end Field

namespace Condition

/-- A condition from the value of its fields. -/
def ofJson? (budget : Nat) (j : Json) : Option Condition := do
  match ← j.fields? budget ["header", "definition"] with
  | [header, definition] =>
    return ⟨← required? (Header.ofJson? .held (budget - 1)) header, ← required? text? definition⟩
  | _ => none

end Condition

namespace Action

/-- An action from the value of its fields; `decode` reads the content of a sub-section. -/
def ofJson? (budget : Nat) (decode : Json → Option ActionSection) (j : Json) : Option Action := do
  let inner := budget - 1
  match ← j.fields? budget ["header", "kind", "body", "sections"] with
  | [header, kind, body, sections] =>
    return {
      header := ← required? (Header.ofJson? .held inner) header
      kind := ← required? (ActionKind.ofJson? inner) kind
      body := ← required? (Node.forestOfJson? inner) body
      sections := ← required? (Catalog.ofJson? inner ActionSectionKind.ofName? decode) sections }
  | _ => none

end Action

/-- The names of the variants of a declaration. -/
def Declaration.variants : List String :=
  ["Field", "Relation", "SetDef", "Condition", "Action", "RuleBlock"]

mutual

/-- A declaration from a JSON value. -/
def Declaration.ofJson? (reach : Reach) : Nat → Json → Option Declaration
  | budget + 2, j => do
    let (tag, rest) ← j.tagged? "variant"
    let variant ← tag.tagName? reach Declaration.variants
    if variant = "Field".toList then (Field.ofJson? (budget + 2) rest).map .field
    else if variant = "Relation".toList then (Relation.ofJson? (budget + 2) rest).map .relation
    else if variant = "SetDef".toList then
      (Field.ofJson? (budget + 2) rest).map fun d => .setDefinition ⟨d.header, d.body⟩
    else if variant = "Condition".toList then (Condition.ofJson? (budget + 2) rest).map .condition
    else if variant = "Action".toList then
      (Action.ofJson? (budget + 2) (fun c => ActionSection.ofJson? budget c) rest).map .action
    else if variant = "RuleBlock".toList then
      (RuleBlock.ofJson? .held (budget + 2) rest).map .ruleBlock
    else none
  | _, _ => none

/-- The content of a sub-section from a JSON value. -/
def ActionSection.ofJson? : Nat → Json → Option ActionSection
  | budget + 1, j => do
    let (kind, content) ← j.content? (budget + 1)
    if kind = "Fields".toList then
      match budget with
      | inner + 1 =>
        (list? (inner + 1) (fun c => Declaration.ofJson? .held inner c) content).map .fields
      | 0 => none
    else if kind = "Entries".toList then (Node.forestOfJson? budget content).map .entries
    else if kind = "Rules".toList then (content.text?).map .rules
    else if kind = "Selection".toList then
      (InstanceSelection.ofJson? budget content).map .selection
    else if kind = "ActionRules".toList then (ActionRules.ofJson? budget content).map .actionRules
    else none
  | 0, _ => none

end

namespace Declaration

/-- A declaration of a section from a JSON value, which has to be usable as a whole. -/
def ofUsable? (budget : Nat) (j : Json) : Option Declaration :=
  if j.isUsable budget then ofJson? .direct budget j else none

end Declaration

namespace SectionKind

/-- A section kind from a JSON value. -/
def ofJson? (budget : Nat) (j : Json) : Option SectionKind :=
  (j.choice? .direct budget).bind ofName?

end SectionKind

namespace Section

/-- A section from a JSON value. -/
def ofJson? (budget : Nat) (j : Json) : Option Section := do
  let inner := budget - 1
  match ← j.fields? budget ["kind", "line", "declarations"] with
  | [kind, line, declarations] =>
    return {
      kind := ← required? (SectionKind.ofJson? inner) kind
      line := ← required? natural? line
      declarations := ← required? (list? inner (Declaration.ofUsable? (inner - 1))) declarations }
  | _ => none

end Section

namespace Document

/-- A document from a JSON value. -/
def ofJson? (budget : Nat) (j : Json) : Option Document := do
  let inner := budget - 1
  let sectionsOf := Catalog.ofJson? inner SectionKind.ofName? (Section.ofJson? (inner - 1))
  let blocksOf := Catalog.ofJson? inner ClassBlockKind.ofName?
    (RuleBlock.ofJson? .direct (inner - 1))
  match ← j.fields? budget
    ["name", "class_type", "owner", "prefix", "sections", "class_rules", "closed_from_empty"] with
  | [name, classType, owner, classPrefix, sections, classRules, closedFromEmpty] =>
    return {
      name := ← optional? text? name
      classType := ← optional? text? classType
      owner := ← optional? text? owner
      classPrefix := ← optional? text? classPrefix
      sections := ← required? sectionsOf sections
      classRules := ← default? [] blocksOf classRules
      closedFromEmpty := ← required? bool? closedFromEmpty }
  | _ => none

/-- A document from a JSON text. -/
def ofJsonText? (t : Text) : Option Document := (Json.read? t).bind (ofJson? nestingLimit)

end Document

namespace Node

/-- A node from a JSON text. -/
def ofJsonText? (t : Text) : Option Node := (Json.read? t).bind (ofJson? nestingLimit)

end Node

end BusinessClass
