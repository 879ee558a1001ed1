import BusinessClass.Document.Basic
import BusinessClass.Document.DeclarationReading

/-!
# Reading a class

A class source is an outline. Its first root may be the class header; what stands under it and the
other roots are the items of the class: class properties, section headers, headers of class-level
rule blocks, and content. A section takes the lines under each of its headers and the content that
follows it until another section or a rule block is opened.

* `ClassItem.ofText` says what kind of item a line is.
* `Document.Draft.add` takes up one item.
* `Document.classify` makes a document of an outline, `Document.read` of a source.
-/

namespace BusinessClass

/-- What a line directly under a class header is. -/
inductive ClassItem
  /-- `owned by` and the owner. -/
  | owner (name : Text)
  /-- `prefix is` and the prefix. -/
  | classPrefix (text : Text)
  /-- The header of a section. -/
  | opensSection (kind : SectionKind)
  /-- The header of a class-level rule block. -/
  | opensBlock (kind : ClassBlockKind)
  /-- Anything else. -/
  | content
deriving DecidableEq, Repr

namespace ClassItem

/-- The class property that three words state. -/
def property? : List Text → Option ClassItem
  | [a, b, value] =>
    if Text.sameLetters a "owned".toList && Text.sameLetters b "by".toList then
      some (.owner value)
    else if Text.sameLetters a "prefix".toList && b == "is".toList then some (.classPrefix value)
    else none
  | _ => none

/-- What kind of item a line is. -/
def ofText (text : Text) : ClassItem :=
  match property? text.words, SectionKind.ofHeader? text, ClassBlockKind.ofHeader? text with
  | some p, _, _ => p
  | none, some kind, _ => .opensSection kind
  | none, none, some kind => .opensBlock kind
  | none, none, none => .content

end ClassItem

/-- A document with the diagnostics of its reading. -/
structure Reading where
  document : Document
  diagnostics : List Diagnostic

namespace Reading

/-- Whether one of the problems is an error. -/
def hasErrors (r : Reading) : Bool := r.diagnostics.any Diagnostic.isError

/-- The document, if no problem is an error. -/
def result (r : Reading) : Except (List Diagnostic) Document :=
  if r.hasErrors then .error r.diagnostics else .ok r.document

end Reading

namespace Document

/-- A document in the making. -/
structure Draft where
  document : Document
  /-- The section that is open. -/
  current : Option SectionKind
  notes : List Diagnostic

namespace Draft

/-- The problem of a header that was seen before. -/
def repeated (n : Node) (isKnown : Bool) (name : Text) : List Diagnostic :=
  if isKnown then [n.note (.duplicateSection name)] else []

/-- Adds declarations to a section, which is opened on the given line if it is new. -/
def addTo (d : Draft) (kind : SectionKind) (line : Nat) (ds : Noted (List Declaration)) : Draft :=
  let extend : Option Section → Section
    | none => ⟨kind, line, ds.value⟩
    | some s => { s with declarations := s.declarations ++ ds.value }
  { d with
    document := { d.document with sections := Catalog.upsert kind extend d.document.sections }
    notes := d.notes ++ ds.notes }

/-- Takes up the header of a section with the lines under it. -/
def openSection (o : Options) (d : Draft) (kind : SectionKind) (n : Node) : Draft :=
  let isKnown := Catalog.contains d.document.sections kind
  let noted := { d with current := some kind, notes := d.notes ++ repeated n isKnown kind.name }
  noted.addTo kind n.line (Declaration.readAll o kind n.children)

/-- Takes up a class-level rule block; the lines of a repeated one are added. -/
def openBlock (d : Draft) (kind : ClassBlockKind) (n : Node) : Draft :=
  let isKnown := Catalog.contains d.document.classRules kind
  let extend : Option RuleBlock → RuleBlock
    | none => ⟨⟨kind.name, none, none, [], n.line, n.span⟩, n.bodyText⟩
    | some b => { b with body := Text.merge [b.body, n.bodyText] }
  { document := { d.document with classRules := Catalog.upsert kind extend d.document.classRules }
    -- content behind a rule block belongs to no section
    current := none
    notes := d.notes ++ repeated n isKnown kind.name }

/-- Takes up one item of a class. -/
def add (o : Options) (d : Draft) (n : Node) : Draft :=
  match ClassItem.ofText n.text with
  -- a property leaves the open section open
  | .owner name => { d with document := { d.document with owner := some name } }
  | .classPrefix text => { d with document := { d.document with classPrefix := some text } }
  | .opensSection kind => d.openSection o kind n
  | .opensBlock kind => d.openBlock kind n
  | .content =>
    match d.current with
    | some kind => d.addTo kind n.line (Declaration.readAll o kind [n])
    | none => { d with notes := d.notes ++ [n.note (.unknownSectionContent n.text)] }

end Draft

/-- The header of a class, if the line is one. -/
def classHeader? (o : Options) (n : Node) : Option Header :=
  match Header.recognize o.phrases n.text n.line n.span with
  | .ok header => if header.typeName.any isClassType then some header else none
  | .error _ => none

/-- The class header of an outline and the items of the class: what stands under the header, and
the other roots. -/
def classRoot? (o : Options) : List Node → Option (Header × List Node)
  | [] => none
  | root :: roots => (classHeader? o root).map fun header => (header, root.children ++ roots)

namespace Draft

/-- Takes up the items of a class in order; `notes` are the problems found before. -/
def ofItems (o : Options) (start : Document) (notes : List Diagnostic) (items : List Node) :
    Draft :=
  items.foldl (add o) ⟨start, none, notes⟩

/-- Closes a draft that has a class header. -/
def close (d : Draft) : Reading := ⟨d.document, d.notes⟩

/-- Closes a draft without class header. Without a section and a rule block it becomes the empty
document, whatever else was noted. -/
def closeHeadless (d : Draft) : Reading :=
  if d.document.sections.isEmpty && d.document.classRules.isEmpty then
    ⟨closedEmpty, [.ofDocument .emptyDocument]⟩
  else ⟨d.document, d.notes ++ [.ofDocument .missingClassHeader]⟩

end Draft

/-- The document of an outline; `notes` are the problems found before. -/
def classify (o : Options) (notes : List Diagnostic) (forest : List Node) : Reading :=
  match classRoot? o forest with
  | some (header, items) =>
    (Draft.ofItems o { name := some header.name, classType := header.typeName } notes items).close
  | none => (Draft.ofItems o {} notes forest).closeHeadless

/-- The problem of a line with malformed indentation. -/
def malformedLine (l : MalformedLine) : Diagnostic :=
  .make (.malformedIndentation l.error.message) l.number (some l.span)

/-- The problems with the indentation of a source. -/
def indentationNotes (o : Options) (source : Text) : List Diagnostic :=
  (Source.malformed o source).map malformedLine

/-- Reads a class source. Reading always gives a document. -/
def read (o : Options) (source : Text) : Reading :=
  let r := classify o (indentationNotes o source) (Forest.ofLines 0 (Source.lines o source))
  { r with diagnostics := r.diagnostics.map (·.withSourceName o.sourceName) }

end Document

end BusinessClass
