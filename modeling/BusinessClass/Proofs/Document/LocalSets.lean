import BusinessClass.Proofs.Document.Contents

/-!
# Sets among local fields

A rule of the options says whether a set among local fields is a field or a set definition. It relabels what was
read: where a header stands, what it holds and what is noted about it do not depend on the rule.

* `Document.mapLocals` changes the declarations among the local fields of a class and of its actions;
  `LocalSetRule.relabel` says what a rule does to one of them.
* `Declaration.read_withLocalSetRule` covers both kinds of local fields, those of a class and those of an action.
* `Document.Draft.add_withLocalSetRule` is one step and `Document.classify_withLocalSetRule` the whole run.
* `Document.relabels_read_withLocalSetRule` compares reading with a rule and without one.
-/

namespace BusinessClass

/-- The options without a rule for sets among local fields. -/
def Options.unruled (o : Options) : Options := { o with localSetRule := none }

/-! ### The local fields of a document -/

/-- A field of type `Set` as a set definition, any other declaration as it is. -/
def Declaration.asSetDefinition : Declaration → Declaration
  | .field f =>
    if f.header.typeName.any (Text.sameLetters · "set".toList) then .setDefinition ⟨f.header, f.body⟩ else .field f
  | other => other

/-- What the rule makes of a declaration among local fields. -/
def LocalSetRule.relabel : LocalSetRule → Declaration → Declaration
  | .asField => id
  | .asSetDefinition => Declaration.asSetDefinition

/-- The sub-section of an action with other declarations, if it is the one of local fields. -/
def ActionSection.mapLocals (m : Declaration → Declaration) (kind : ActionSectionKind) : ActionSection → ActionSection
  | .fields ds => .fields (if kind = .localFields then ds.map m else ds)
  | other => other

/-- The action with other declarations among its local fields. -/
def Action.mapLocals (m : Declaration → Declaration) (a : Action) : Action :=
  { a with sections := a.sections.map fun e => (e.1, e.2.mapLocals m e.1) }

namespace Declaration

/-- The declaration with other local fields, if it is an action. -/
def mapLocals (m : Declaration → Declaration) : Declaration → Declaration
  | .action a => .action (a.mapLocals m)
  | other => other

/-- The declaration of a section with other local fields: among local fields another declaration, elsewhere
with other local fields inside. -/
def mapLocalsIn (m : Declaration → Declaration) (kind : SectionKind) (d : Declaration) : Declaration :=
  if kind = .localFields then m d else d.mapLocals m

end Declaration

/-- The section with other local fields. -/
def Section.mapLocals (m : Declaration → Declaration) (kind : SectionKind) (s : Section) : Section :=
  { s with declarations := s.declarations.map (Declaration.mapLocalsIn m kind) }

/-- The document with other declarations among the local fields of the class and of its actions. -/
def Document.mapLocals (m : Declaration → Declaration) (d : Document) : Document :=
  { d with sections := d.sections.map fun e => (e.1, e.2.mapLocals m e.1) }

theorem ActionSection.mapLocals_id (kind : ActionSectionKind) (c : ActionSection) : c.mapLocals id kind = c := by
  cases c with
  | fields ds =>
    rw [mapLocals, List.map_id, ite_self]
  | _ => rfl

theorem Action.mapLocals_id (a : Action) : a.mapLocals id = a := by
  obtain ⟨header, kind, body, sections⟩ := a
  have same : sections.map (fun e => (e.1, e.2.mapLocals id e.1)) = sections := by
    simp only [ActionSection.mapLocals_id]
    exact List.map_id' sections
  exact congrArg (Action.mk header kind body) same

theorem Declaration.mapLocalsIn_id (kind : SectionKind) (d : Declaration) : d.mapLocalsIn id kind = d := by
  have inside : d.mapLocals id = d := by
    cases d with
    | action a => exact congrArg Declaration.action a.mapLocals_id
    | _ => rfl
  rw [mapLocalsIn, inside]
  exact ite_self d

theorem Document.mapLocals_id (d : Document) : d.mapLocals id = d := by
  have declarations (kind : SectionKind) : Declaration.mapLocalsIn id kind = id :=
    funext (Declaration.mapLocalsIn_id kind)
  have sections : d.sections.map (fun e => (e.1, e.2.mapLocals id e.1)) = d.sections := by
    simp only [Section.mapLocals, declarations, List.map_id]
    exact List.map_id' d.sections
  rw [mapLocals, sections]

/-! ### Values that change under their notes -/

namespace Noted

variable {α β γ : Type}

/-- Another value with the same notes. -/
def map (f : α → β) (x : Noted α) : Noted β := ⟨f x.value, x.notes⟩

/-- Changing the value of every part changes all values that are gathered. -/
theorem gather_map (f : β → γ) (read : α → Noted (Option β)) (parts : List α) :
    gather (fun part => (read part).map (Option.map f)) parts = (gather read parts).map (List.map f) := by
  induction parts with
  | nil => rfl
  | cons part parts ih =>
    rw [gather, ih, gather]
    cases value : (read part).value <;> simp [map, value]

end Noted

variable (o : Options) (rule : LocalSetRule)

/-! ### Declarations -/

namespace Declaration

/-- Another declaration made of the same header and body has the same notes. -/
theorem ofSplit_map (n : Node) (make : Header → List Node → Declaration) (f : Declaration → Declaration) :
    ofSplit o n (fun header body => f (make header body)) = (ofSplit o n make).map (Option.map f) := by
  rw [ofSplit, ofSplit]
  cases split o n <;> rfl

/-- What a rule does to one local field. -/
theorem ofField_withLocalSetRule (header : Header) (body : List Node) :
    ofField (o.withLocalSetRule rule) true header body = rule.relabel (ofField o.unruled true header body) := by
  cases rule <;> rfl

/-- The local fields of an action and those of a class are read in the same way. -/
theorem ofSplit_withLocalSetRule (n : Node) :
    ofSplit (o.withLocalSetRule rule) n (ofField (o.withLocalSetRule rule) true)
      = (ofSplit o.unruled n (ofField o.unruled true)).map (Option.map rule.relabel) := by
  have make : ofField (o.withLocalSetRule rule) true
      = fun header body => rule.relabel (ofField o.unruled true header body) := by
    funext header body
    exact ofField_withLocalSetRule o rule header body
  rw [make]
  exact ofSplit_map o.unruled n _ rule.relabel

end Declaration

/-! ### Actions -/

namespace Action

/-- What a rule does to a sub-section. -/
theorem readSection_withLocalSetRule (depth : Nat) (kind : ActionSectionKind) (ns : List Node) :
    readSection (o.withLocalSetRule rule) depth kind ns
      = (readSection o.unruled depth kind ns).map (ActionSection.mapLocals rule.relabel kind) := by
  cases kind with
  | localFields =>
    have fields := Noted.gather_map rule.relabel
      (fun n => Declaration.ofSplit o.unruled n (Declaration.ofField o.unruled true)) ns
    simp only [← Declaration.ofSplit_withLocalSetRule] at fields
    simp only [readSection, fields]
    rfl
  | actionRules =>
    -- Reading groups recurses with the options, so that the two sides have to be compared along it.
    have bound : (o.withLocalSetRule rule).maxDepth = o.unruled.maxDepth := rfl
    simp only [readSection, ActionRules.read_congr bound]
    rfl
  | _ => rfl

/-- What a rule does to an action. -/
theorem read_withLocalSetRule (n : Node) :
    read (o.withLocalSetRule rule) n = (read o.unruled n).map (Option.map (mapLocals rule.relabel)) := by
  cases header : Header.recognize o.phrases n.text n.line n.span with
  | error e =>
    rw [read_of_error (o := o.withLocalSetRule rule) header, read_of_error (o := o.unruled) header]
    rfl
  | ok h =>
    rw [read_of_ok (o := o.withLocalSetRule rule) header, read_of_ok (o := o.unruled) header]
    simp only [readSection_withLocalSetRule, Noted.map, Option.map_some, mapLocals, List.map_map]
    rfl

end Action

namespace Declaration

/-- What a rule does to a declaration of a section. -/
theorem read_withLocalSetRule (kind : SectionKind) (n : Node) :
    read (o.withLocalSetRule rule) kind n
      = (read o.unruled kind n).map (Option.map (mapLocalsIn rule.relabel kind)) := by
  by_cases actions : kind = .actions
  · subst actions
    rw [read, Action.read_withLocalSetRule, read]
    simp only [Noted.map, Option.map_map]
    rfl
  · have make : build (o.withLocalSetRule rule) kind
        = fun header body => mapLocalsIn rule.relabel kind (build o.unruled kind header body) := by
      funext header body
      cases kind with
      | localFields => exact ofField_withLocalSetRule o rule header body
      | _ => rfl
    rw [read_eq_build actions, read_eq_build actions, make]
    exact ofSplit_map o.unruled n _ _

theorem readAll_withLocalSetRule (kind : SectionKind) (ns : List Node) :
    readAll (o.withLocalSetRule rule) kind ns
      = (readAll o.unruled kind ns).map (List.map (mapLocalsIn rule.relabel kind)) := by
  rw [readAll, readAll, ← Noted.gather_map]
  exact congrArg (Noted.gather · ns) (funext (read_withLocalSetRule o rule kind))

end Declaration

/-! ### Classes -/

/-- The reading with other local fields. -/
def Reading.mapLocals (m : Declaration → Declaration) (r : Reading) : Reading :=
  { r with document := r.document.mapLocals m }

namespace Document

namespace Draft

/-- The draft with other local fields. -/
def mapLocals (m : Declaration → Declaration) (d : Draft) : Draft := { d with document := d.document.mapLocals m }

/-- Other local fields open no section and close none. -/
theorem contains_mapLocals (m : Declaration → Declaration) (d : Draft) (kind : SectionKind) :
    Catalog.contains (d.mapLocals m).document.sections kind = Catalog.contains d.document.sections kind := by
  have entry : Catalog.get? (d.mapLocals m).document.sections kind
      = (Catalog.get? d.document.sections kind).map (Section.mapLocals m kind) :=
    Catalog.get?_map_key kind (Section.mapLocals m) d.document.sections
  rw [Catalog.contains, entry, Option.isSome_map, Catalog.contains]

/-- Adding declarations with other local fields gives a section with other local fields. -/
theorem addTo_mapLocals (m : Declaration → Declaration) (d : Draft) (kind : SectionKind) (line : Nat)
    (ds : Noted (List Declaration)) :
    (d.mapLocals m).addTo kind line (ds.map (List.map (Declaration.mapLocalsIn m kind)))
      = (d.addTo kind line ds).mapLocals m := by
  refine congrArg (fun sections => Draft.mk { d.document with sections := sections } d.current (d.notes ++ ds.notes))
    (Catalog.upsert_map_key kind (Section.mapLocals m) (fun s => ?_) d.document.sections)
  cases s with
  | none => rfl
  | some s =>
    show Section.mapLocals m kind ⟨s.kind, s.line, s.declarations ++ ds.value⟩ = _
    rw [Section.mapLocals, List.map_append]
    rfl

theorem openSection_withLocalSetRule (d : Draft) (kind : SectionKind) (n : Node) :
    (d.mapLocals rule.relabel).openSection (o.withLocalSetRule rule) kind n
      = (d.openSection o.unruled kind n).mapLocals rule.relabel := by
  rw [openSection, openSection, contains_mapLocals, Declaration.readAll_withLocalSetRule]
  let noted : Draft := { d with
    current := some kind
    notes := d.notes ++ repeated n (Catalog.contains d.document.sections kind) kind.name }
  exact addTo_mapLocals rule.relabel noted kind n.line (Declaration.readAll o.unruled kind n.children)

/-- Taking up one item. -/
theorem add_withLocalSetRule (d : Draft) (n : Node) :
    (d.mapLocals rule.relabel).add (o.withLocalSetRule rule) n = (d.add o.unruled n).mapLocals rule.relabel := by
  rw [add, add]
  cases ClassItem.ofText n.text with
  | owner name => rfl
  | classPrefix text => rfl
  | opensSection kind => exact openSection_withLocalSetRule o rule d kind n
  | opensBlock kind => rfl
  | content =>
    have current : (d.mapLocals rule.relabel).current = d.current := rfl
    simp only [current]
    cases d.current with
    | none => rfl
    | some kind =>
      simp only [Declaration.readAll_withLocalSetRule]
      exact addTo_mapLocals rule.relabel d kind n.line (Declaration.readAll o.unruled kind [n])

/-- Taking up all items. -/
theorem ofItems_withLocalSetRule {start : Document} (sections : start.sections = []) (notes : List Diagnostic)
    (items : List Node) :
    ofItems (o.withLocalSetRule rule) start notes items
      = (ofItems o.unruled start notes items).mapLocals rule.relabel := by
  have fold : ∀ d : Draft, items.foldl (add (o.withLocalSetRule rule)) (d.mapLocals rule.relabel)
      = (items.foldl (add o.unruled) d).mapLocals rule.relabel := by
    induction items with
    | nil => exact fun d => rfl
    | cons n ns ih =>
      intro d
      rw [List.foldl_cons, List.foldl_cons, add_withLocalSetRule, ih]
  -- Without a section there is nothing to relabel yet.
  have empty : start.mapLocals rule.relabel = start := by
    rw [Document.mapLocals, sections, List.map_nil, ← sections]
  have first := fold ⟨start, none, notes⟩
  rwa [mapLocals, empty] at first

theorem closeHeadless_mapLocals (m : Declaration → Declaration) (d : Draft) :
    (d.mapLocals m).closeHeadless = d.closeHeadless.mapLocals m := by
  have empty : ((d.mapLocals m).document.sections.isEmpty && (d.mapLocals m).document.classRules.isEmpty)
      = (d.document.sections.isEmpty && d.document.classRules.isEmpty) :=
    congrArg (· && _) List.isEmpty_map
  rw [closeHeadless, empty, closeHeadless]
  split <;> rfl

end Draft

/-- What a rule does to the reading of an outline. -/
theorem classify_withLocalSetRule (notes : List Diagnostic) (f : List Node) :
    classify (o.withLocalSetRule rule) notes f = (classify o.unruled notes f).mapLocals rule.relabel := by
  have root : classRoot? (o.withLocalSetRule rule) f = classRoot? o.unruled f := rfl
  rw [classify, root, classify]
  cases classRoot? o.unruled f with
  | some r => exact congrArg Draft.close (Draft.ofItems_withLocalSetRule o rule rfl notes r.2)
  | none =>
    have items : Draft.ofItems (o.withLocalSetRule rule) {} notes f
        = (Draft.ofItems o.unruled {} notes f).mapLocals rule.relabel :=
      Draft.ofItems_withLocalSetRule o rule rfl notes f
    exact (congrArg Draft.closeHeadless items).trans (Draft.closeHeadless_mapLocals rule.relabel _)

/-- A rule for sets among local fields relabels them. A rule that keeps them as fields is no different from no rule;
a rule that makes them set definitions has the same problems noted, and the document differs among the local fields
of the class and of its actions only. -/
theorem relabels_read_withLocalSetRule (source : Text) :
    read (o.withLocalSetRule .asField) source = read o.unruled source ∧
      (read (o.withLocalSetRule .asSetDefinition) source).diagnostics = (read o.unruled source).diagnostics ∧
      (read (o.withLocalSetRule .asSetDefinition) source).document
        = (read o.unruled source).document.mapLocals Declaration.asSetDefinition := by
  have read_eq (rule : LocalSetRule) :
      read (o.withLocalSetRule rule) source = (read o.unruled source).mapLocals rule.relabel := by
    rw [read, classify_withLocalSetRule, read]
    rfl
  refine ⟨?_, ?_, ?_⟩
  · rw [read_eq, LocalSetRule.relabel, Reading.mapLocals, mapLocals_id]
  · rw [read_eq, Reading.mapLocals]
  · rw [read_eq, Reading.mapLocals, LocalSetRule.relabel]

/-- A set among the local fields of the class or of an action becomes a set definition, a set among parameters stays
a field. -/
example : (read (Options.withLocalSetRule {} .asSetDefinition) (Lines.text (
    ["A is a BusinessClass", "Local Fields", "\tB is a Set", "Actions", "\tC is a Set Action", "\t\tParameters",
      "\t\t\tD is a Set", "\t\tLocal Fields", "\t\t\tE is a SET"].map String.toList))).document.allDeclarations.map
    (·.setDefinition?.isSome) = [true, false, false, true] := by
  decide +kernel

end Document

end BusinessClass
