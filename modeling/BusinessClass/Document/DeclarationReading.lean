import BusinessClass.Diagnostic.Noted
import BusinessClass.Document.RelationView
import BusinessClass.SetRules.Reading

/-!
# Reading declarations

A declaration is a node whose line is a header. The lines under it that hold qualifiers alone, and
have nothing under them, join the qualifiers of the header; the other lines are its body. An action
is a typed header with sub-sections under it.

* `Declaration.split` reads header and body.
* `Action.distribute` hands the lines under an action to its header, body and sub-sections.
* `Declaration.read` reads one declaration of a section.
-/

namespace BusinessClass

namespace Node

/-- The qualifiers of a line that holds nothing else and has nothing under it. -/
def qualifiers? (o : Options) (n : Node) : Option (List Text) :=
  if n.isLeaf then Qualifier.line? o.phrases n.text else none

end Node

namespace Header

/-- Whether the declaration is a set among local fields that becomes a set definition. -/
def isLocalSet (o : Options) (h : Header) : Bool :=
  o.definesLocalSets && h.typeName.any (Text.sameLetters · "set".toList)

end Header

namespace Declaration

/-- Reads header and body of a declaration. -/
def split (o : Options) (n : Node) : Except Diagnostic (Header × List Node) :=
  match Header.ofText o.phrases n.text n.line n.span with
  | .error e => .error (n.note (.unrecognizedHeader n.text e.message))
  | .ok header =>
    let qualifiers := n.children.filterMap (Node.qualifiers? o)
    let body := n.children.filter fun child => (child.qualifiers? o).isNone
    .ok (header.addQualifiers qualifiers.flatten, body)

/-- Reads a declaration whose header and body make it up; a line that is no header gives none. -/
def ofSplit (o : Options) (n : Node) (make : Header → List Node → Declaration) :
    Noted (Option Declaration) :=
  match split o n with
  | .ok (header, body) => ⟨some (make header body), []⟩
  | .error e => ⟨none, [e]⟩

/-- A field, or the set definition that a set among local fields becomes. -/
def ofField (o : Options) (isLocal : Bool) (header : Header) (body : List Node) : Declaration :=
  if isLocal && header.isLocalSet o then .setDefinition ⟨header, body⟩ else .field ⟨header, body⟩

/-- The lines of a body relative to its shallowest line. -/
def bodyText (body : List Node) : Text := Forest.text body (Forest.minDepth body)

end Declaration

namespace Action

/-- The lines under an action, handed out. -/
structure Parts where
  /-- The qualifiers before the first sub-section. -/
  qualifiers : List Text := []
  /-- The other lines before the first sub-section. -/
  body : List Node := []
  /-- The lines of each sub-section. -/
  sections : Catalog ActionSectionKind (List Node) := []
  /-- The sub-section that is open. -/
  current : Option ActionSectionKind := none
  /-- The sub-section headers that were seen before. -/
  repeated : List (ActionSectionKind × Node) := []

namespace Parts

/-- Adds lines to a sub-section. -/
def addTo (p : Parts) (kind : ActionSectionKind) (nodes : List Node) : Parts :=
  { p with sections := Catalog.upsert kind (fun old => old.getD [] ++ nodes) p.sections }

/-- Hands out one line: a sub-section header opens its sub-section, which takes what follows until
the next such header; before the first one stand qualifiers and the body. -/
def add (o : Options) (p : Parts) (n : Node) : Parts :=
  match ActionSectionKind.ofHeader? n.text with
  | some kind =>
    -- judged by the sub-sections that were open before this line
    let repeated :=
      if Catalog.contains p.sections kind then p.repeated ++ [(kind, n)] else p.repeated
    { p.addTo kind n.children with current := some kind, repeated := repeated }
  | none =>
    match p.current with
    | some kind => p.addTo kind [n]
    | none =>
      match n.qualifiers? o with
      | some qs => { p with qualifiers := p.qualifiers ++ qs }
      | none => { p with body := p.body ++ [n] }

end Parts

/-- Hands out the lines under an action. -/
def distribute (o : Options) (children : List Node) : Parts := children.foldl (Parts.add o) {}

/-- The depth that the text of a sub-section is relative to: that of its shallowest line, but no
deeper than the level below sub-section headers. -/
def baseDepth (depth : Nat) (nodes : List Node) : Nat :=
  ((nodes.map Node.depth).min?.map (min · (depth + 2))).getD (depth + 2)

/-- Reads the content of a sub-section; `depth` is the depth of the action. -/
def readSection (o : Options) (depth : Nat) (kind : ActionSectionKind) (nodes : List Node) :
    Noted ActionSection :=
  let base := baseDepth depth nodes
  let fields (isLocal : Bool) : Noted ActionSection :=
    let ds := Noted.gather (fun n => Declaration.ofSplit o n (Declaration.ofField o isLocal)) nodes
    ⟨.fields ds.value, ds.notes⟩
  match kind with
  | .parameters => fields false
  | .localFields => fields true
  | .queueMappingFields | .sortOrder | .accumulators => ⟨.entries nodes, []⟩
  | .parameterRules => ⟨.rules (Forest.text nodes base), []⟩
  | .instanceSelection =>
    let text := Forest.text nodes base
    ⟨.selection ⟨WhereClause.filter? text, text⟩, []⟩
  | .actionRules =>
    let rules := ActionRules.read o base nodes
    ⟨.actionRules rules.value, rules.notes⟩

/-- Reads the contents of all sub-sections in order. -/
def readSections (o : Options) (depth : Nat) (pending : Catalog ActionSectionKind (List Node)) :
    Noted (List (ActionSectionKind × ActionSection)) :=
  Noted.gather (fun (kind, nodes) =>
    let content := readSection o depth kind nodes
    ⟨some (kind, content.value), content.notes⟩) pending

/-- The problem of a sub-section header that was seen before. -/
def repeatedSection (name : Text) (e : ActionSectionKind × Node) : Diagnostic :=
  e.2.note (.duplicateSection (name ++ ".".toList ++ e.1.name))

/-- Reads an action; a line that is no typed header gives none. -/
def read (o : Options) (n : Node) : Noted (Option Action) :=
  match Header.recognize o.phrases n.text n.line n.span with
  | .error _ => ⟨none, [n.note (.malformedActionHeader n.text)]⟩
  | .ok header =>
    let parts := distribute o n.children
    let sections := readSections o n.depth parts.sections
    ⟨some
      { header := header.addQualifiers parts.qualifiers
        kind := ActionKind.ofType (header.typeName.getD [])
        body := parts.body
        sections := sections.value },
      parts.repeated.map (repeatedSection header.name) ++ sections.notes⟩

end Action

namespace Declaration

/-- Reads one declaration of a section; a line that is no header gives none. -/
def read (o : Options) (kind : SectionKind) (n : Node) : Noted (Option Declaration) :=
  match kind with
  | .actions =>
    let a := Action.read o n
    ⟨a.value.map .action, a.notes⟩
  | .localFields => ofSplit o n (ofField o true)
  | .conditions => ofSplit o n fun header body => .condition ⟨header, bodyText body⟩
  | .relations => ofSplit o n fun header body => .relation ⟨header, .ofBody body, body⟩
  | .sets => ofSplit o n fun header body => .setDefinition ⟨header, body⟩
  | .fieldRules | .ruleBlocks =>
    ofSplit o n fun header body => .ruleBlock ⟨header, bodyText body⟩
  | .persistentFields | .contextFields | .transientFields | .derivedFields =>
    ofSplit o n (ofField o false)

/-- Reads the declarations of a section in order. -/
def readAll (o : Options) (kind : SectionKind) (nodes : List Node) : Noted (List Declaration) :=
  Noted.gather (read o kind) nodes

end Declaration

end BusinessClass
