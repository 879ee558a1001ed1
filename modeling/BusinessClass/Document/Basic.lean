import BusinessClass.Document.Declaration

/-!
# Class documents

The model of one class source: its name and type, owner and prefix, its sections in the order of
their first headers, and the class-level rule blocks.
-/

namespace BusinessClass

/-- A section of a class. -/
structure Section where
  kind : SectionKind
  /-- Line of the first header of the section. -/
  line : Nat
  declarations : List Declaration

namespace Section

/-- The first declaration of that name. -/
def get? (s : Section) (name : Text) : Option Declaration :=
  s.declarations.find? fun d => d.name == name

end Section

/-- A class source. -/
structure Document where
  /-- The name of the class. -/
  name : Option Text := none
  /-- The type in the class header as written. -/
  classType : Option Text := none
  /-- Who owns the class. -/
  owner : Option Text := none
  /-- The prefix of the class. -/
  classPrefix : Option Text := none
  /-- The sections in order of their first header. -/
  sections : Catalog SectionKind Section := []
  /-- The class-level rule blocks in order of their first header. -/
  classRules : Catalog ClassBlockKind RuleBlock := []
  /-- Whether the source had neither class header nor section. -/
  closedFromEmpty : Bool := false

namespace Document

/-- The document of a source with neither class header nor section. -/
def closedEmpty : Document := { closedFromEmpty := true }

/-- Whether the document has no name, no section and no rule block. -/
def isEmpty (d : Document) : Bool := d.name.isNone && d.sections.isEmpty && d.classRules.isEmpty

/-- A section of the document. -/
def section? (d : Document) (kind : SectionKind) : Option Section := Catalog.get? d.sections kind

/-- All declarations in source order. -/
def declarations (d : Document) : List Declaration :=
  (Catalog.values d.sections).flatMap Section.declarations

/-- The actions of the document. -/
def actions (d : Document) : List Action :=
  match d.section? .actions with
  | some s => s.declarations.filterMap (·.action?)
  | none => []

/-- The first action of that name. -/
def action? (d : Document) (name : Text) : Option Action :=
  d.actions.find? fun a => a.header.name == name

/-- A class-level rule block of the document. -/
def classRule? (d : Document) (kind : ClassBlockKind) : Option RuleBlock :=
  Catalog.get? d.classRules kind

end Document

end BusinessClass
