import BusinessClass.Proofs.Document.WrittenNotes

/-!
# The skeleton of a document

The skeleton of a document is what its headers say: the sections and rule blocks in order, the header lines of all
declarations, and the sub-sections of actions with the number of declarations in them. Whatever a source looks
like, writing its document and reading the text again keeps the skeleton, also where groups change their order or
the first line is taken for a class header.

* `Declaration.skeleton_relocate` and `Document.skeleton_relocate`: a skeleton has no places.
* `Declaration.Writable.skeleton_reread`: a written declaration is read as one with the same skeleton.
* `Document.Writable.skeleton_classify`: so is a written document.
* `Document.skeleton_read_render`: the same for every source, with what is noted on the way.
-/

namespace BusinessClass

open Forest (outline settle)

/-! ### Skeletons -/

/-- What the header line of a declaration says. A bare header has its qualifiers on lines of their own. -/
structure Headline where
  name : Text
  article : Option Article
  typeName : Option Text
  qualifiers : List Text
deriving DecidableEq, Repr

/-- The header line of a declaration. -/
def Header.headline (h : Header) : Headline :=
  ⟨h.name, h.article, h.typeName, if h.typeName.isSome then h.qualifiers else []⟩

/-- The variants of declarations. -/
inductive DeclarationVariant
  | field
  | relation
  | setDefinition
  | condition
  | action
  | ruleBlock
deriving DecidableEq, Repr

/-- The kind of an action and its sub-sections, those that hold declarations with the number of them. -/
structure ActionSkeleton where
  kind : ActionKind
  sections : List (ActionSectionKind × Option Nat)
deriving DecidableEq, Repr

/-- What the header lines of a declaration say. -/
structure DeclarationSkeleton where
  variant : DeclarationVariant
  headline : Headline
  action : Option ActionSkeleton
deriving DecidableEq, Repr

/-- What the header lines of a section say. -/
structure SectionSkeleton where
  kind : SectionKind
  declarations : List DeclarationSkeleton
deriving DecidableEq, Repr

/-- What the header lines of a document other than the class header say. -/
structure DocumentSkeleton where
  sections : Catalog SectionKind SectionSkeleton
  classRules : List ClassBlockKind
deriving DecidableEq, Repr

/-- The number of declarations in a sub-section that holds declarations. -/
def ActionSection.size? : ActionSection → Option Nat
  | .fields ds => some ds.length
  | _ => none

def Action.skeleton (a : Action) : ActionSkeleton := ⟨a.kind, a.sections.map fun e => (e.1, e.2.size?)⟩

namespace Declaration

def variant : Declaration → DeclarationVariant
  | .field _ => .field
  | .relation _ => .relation
  | .setDefinition _ => .setDefinition
  | .condition _ => .condition
  | .action _ => .action
  | .ruleBlock _ => .ruleBlock

def skeleton (d : Declaration) : DeclarationSkeleton :=
  ⟨d.variant, d.header.headline, d.action?.map Action.skeleton⟩

end Declaration

def Section.skeleton (s : Section) : SectionSkeleton := ⟨s.kind, s.declarations.map Declaration.skeleton⟩

def Document.skeleton (d : Document) : DocumentSkeleton :=
  ⟨d.sections.map fun e => (e.1, e.2.skeleton), Catalog.keys d.classRules⟩

/-! ### Moving -/

variable (ρ : Relocation)

theorem ActionSection.size?_relocate (c : ActionSection) : (c.relocate ρ).size? = c.size? := by
  cases c with
  | fields ds => rw [relocate, size?, size?, Declaration.relocateAll_eq_map, List.length_map]
  | _ => rfl

theorem Action.skeleton_relocate (a : Action) : (a.relocate ρ).skeleton = a.skeleton := by
  obtain ⟨header, kind, body, sections⟩ := a
  rw [relocate, relocateSections_eq_map, skeleton, skeleton, List.map_map]
  simp only [Function.comp_def, ActionSection.size?_relocate]

/-- A declaration that was moved has the same skeleton. -/
theorem Declaration.skeleton_relocate (d : Declaration) : (d.relocate ρ).skeleton = d.skeleton := by
  cases d with
  | action a =>
    have action := congrArg (fun s => (⟨.action, a.header.headline, some s⟩ : DeclarationSkeleton))
      (a.skeleton_relocate ρ)
    obtain ⟨header, kind, body, sections⟩ := a
    exact action
  | _ => rfl

theorem Section.skeleton_relocate (s : Section) : (s.relocate ρ).skeleton = s.skeleton := by
  rw [skeleton, skeleton, relocate, List.map_map]
  exact congrArg (SectionSkeleton.mk _) (List.map_congr_left fun d _ => d.skeleton_relocate ρ)

/-- A document that was moved has the same skeleton. -/
theorem Document.skeleton_relocate (d : Document) : (d.relocate ρ).skeleton = d.skeleton := by
  rw [skeleton, skeleton, relocate, List.map_map, Catalog.keys_map]
  simp only [Function.comp_def, Section.skeleton_relocate]

/-! ### Declarations -/

namespace Declaration

variable {kind : SectionKind} {h : Header} {body : List Node}

/-- Header and body make a declaration whose skeleton depends on the header line alone. -/
theorem skeleton_make (kind : SectionKind) {h' : Header} (headline : h'.headline = h.headline)
    (body body' : List Node) : (make kind h' body').skeleton = (make kind h body).skeleton := by
  cases kind <;> exact congrArg (fun line => (⟨_, line, none⟩ : DeclarationSkeleton)) headline

/-- The header line of a written declaration is read as it is, however its lines below are split. -/
theorem Splits.headline_split (splits : Splits h body) {h' : Header} {body' : List Node}
    (split : split {} (node h body) = .ok (h', body')) : h'.headline = h.headline := by
  cases splits.readable with
  | typed typed =>
    have apart : Apart h body := by
      intro untyped
      rw [typed.typeName] at untyped
      cases untyped
    rw [splits.split_node apart] at split
    cases split
    rfl
  | bare bare =>
    -- Qualifiers below a bare header may be read as lines of the body, but the header line is the name alone.
    obtain ⟨header, read, rfl, -⟩ := split_eq_ok split
    have name : Header.ofText [] h.name 0 ⟨0, 0⟩ = .ok header := by
      rw [← bare.render_eq]
      exact read
    rw [bare.read] at name
    cases name
    rw [Header.headline, Header.headline, bare.article, bare.typeName]
    rfl

theorem Splits.skeleton_reread (simple : kind ≠ .actions) (splits : Splits h body) :
    (reread kind (make kind h body)).map skeleton = [(make kind h body).skeleton] := by
  obtain ⟨h', body', split, -⟩ := splits.split_node_lines
  rw [splits.reread_of_split simple split, List.map_singleton, skeleton_make kind (splits.headline_split split) body body']

/-- Declarations that are read again one by one keep their skeletons. -/
theorem map_skeleton_reread {ds : List Declaration}
    (each : ∀ d ∈ ds, (reread kind d).map skeleton = [d.skeleton]) :
    (ds.flatMap (reread kind)).map skeleton = ds.map skeleton := by
  rw [List.map_flatMap, List.map_eq_flatMap]
  exact List.flatMap_congr each

end Declaration

/-- A sub-section that is read again holds as many declarations. -/
theorem ActionSection.Writable.size?_reread {k : ActionSectionKind} {c : ActionSection} (h : c.Writable k) :
    (reread k c).size? = c.size? := by
  cases h with
  | @fields _ ds kind fields =>
    have each : ∀ d ∈ ds, (Declaration.reread .persistentFields d).map Declaration.skeleton = [d.skeleton] := by
      intro d hd
      obtain ⟨h, body, rfl, splits⟩ := fields d hd
      exact splits.skeleton_reread (by decide : SectionKind.persistentFields ≠ .actions)
    have length := congrArg List.length (Declaration.map_skeleton_reread each)
    rw [List.length_map, List.length_map] at length
    rw [reread_fields kind fields, size?, size?, List.length_map, length]
  | entries kind tidy => rw [reread_entries kind]; rfl
  | rules block => rw [reread_rules block]
  | selection block => rw [reread_selection block]
  | actionRules writable => rw [reread_actionRules]; rfl

/-- A written declaration is read as one declaration with the same skeleton. -/
theorem Declaration.Writable.skeleton_reread {kind : SectionKind} {d : Declaration} (h : d.Writable kind) :
    (reread kind d).map skeleton = [d.skeleton] := by
  cases h with
  | simple simple splits => exact splits.skeleton_reread simple
  | @action a writable =>
    have sections : (a.sections.map fun e => (e.1, ActionSection.reread e.1 e.2)).map (fun e => (e.1, e.2.size?))
        = a.sections.map fun e => (e.1, e.2.size?) := by
      rw [List.map_map]
      exact List.map_congr_left fun e he => Prod.ext rfl (writable.sections e he).size?_reread
    rw [writable.reread_action, List.map_singleton]
    exact congrArg (fun s => [(⟨.action, a.header.headline, some ⟨a.kind, s⟩⟩ : DeclarationSkeleton)]) sections

/-! ### Documents -/

theorem Section.skeleton_reread {s : Section} (writable : ∀ x ∈ s.declarations, x.Writable s.kind) :
    s.reread.skeleton = s.skeleton := by
  have each := Declaration.map_skeleton_reread fun x hx => (writable x hx).skeleton_reread
  have moved : Declaration.skeleton ∘ Declaration.relocate (.shift 1) = Declaration.skeleton :=
    funext fun x => x.skeleton_relocate (.shift 1)
  rw [skeleton, skeleton, reread, List.map_map, moved, each]

namespace Document

variable {d : Document}

theorem Writable.skeleton_reread (h : d.Writable) : d.reread.skeleton = d.skeleton := by
  have sections : ∀ e ∈ d.sections, (e.1, e.2.reread.skeleton) = (e.1, e.2.skeleton) := fun e he =>
    congrArg (Prod.mk e.1) (Section.skeleton_reread (h.values e.2 (List.mem_map_of_mem he)))
  rw [skeleton, skeleton, reread, List.map_map, Catalog.keys_map]
  exact congrArg (DocumentSkeleton.mk · _) (List.map_congr_left sections)

/-- The outline of a written document is read as a document with the same skeleton. -/
theorem Writable.skeleton_classify (h : d.Writable) :
    (classify {} [] (outline d.renderLines)).document.skeleton = d.skeleton := by
  cases hn : d.name with
  | some name => rw [h.document_classify_titled hn, skeleton_relocate, h.skeleton_reread]
  | none =>
    by_cases untitled : d.Untitled
    · obtain ⟨header, root⟩ := h.classRoot?_untitled untitled
      have lines : d.renderLines = d.renderBody := by rw [renderLines, hn]
      have parts := congrArg skeleton (h.foldl_add_parts
        (e := ⟨{ name := some header.name, classType := header.typeName }, none, []⟩) rfl rfl).1
      rw [lines, classify, root, ← h.skeleton_reread]
      exact parts
    · rw [h.document_classify_headless hn untitled, h.skeleton_reread]

/-- The text of a written document is read as a document with the same skeleton. -/
theorem Writable.skeleton_read (h : d.Writable) : (read {} d.render).document.skeleton = d.skeleton := by
  rw [← skeleton_relocate .unplace, h.relocate_document_read, h.skeleton_classify]

/-- Whatever the source, the document that is read from it, unless it is empty, is written as a text that is read
without an error and without a repeated section, and with the same skeleton. -/
theorem skeleton_read_render (source : Text) (open_ : (read {} source).document.closedFromEmpty = false) :
    (∀ x ∈ (read {} (read {} source).document.render).diagnostics,
        x.severity ≠ .error ∧ ∀ name, x.kind ≠ .duplicateSection name) ∧
      (read {} (read {} source).document.render).document.skeleton = (read {} source).document.skeleton := by
  have writable := writable_read source
  constructor
  · intro x hx
    obtain ⟨warning, other⟩ := writable.mild_read_render open_ x hx
    rw [warning]
    exact ⟨by decide, other⟩
  · exact writable.skeleton_read

/-- A source with malformed, repeated and stray lines, without class header and with a prefix that is taken for one
when it is written first. The body of `A` hangs from its qualifier when it is written below it. -/
def tangledSource : Text := Lines.text (
  ["Conditions", "\tA", "\t\t\t\tx", "\t\t\ty", "\t\trequired", " \tz", "prefix is BusinessClass", "Actions",
    "\tB is a Set Action", "\t\tParameters", "\t\t\tC", "\t\tSort Order", "\t\tparameters",
    "\t\t\tD is Alpha size 5", "conditions", "\tE", "Create Rules", "\tw"].map String.toList)

theorem skeleton_read_render_tangledSource :
    (read {} tangledSource).document.closedFromEmpty = false ∧
      (read {} tangledSource).hasErrors = true ∧
      (∀ x ∈ (read {} (read {} tangledSource).document.render).diagnostics,
        x.severity ≠ .error ∧ ∀ name, x.kind ≠ .duplicateSection name) ∧
      (read {} (read {} tangledSource).document.render).document.skeleton =
        ⟨[(.conditions, ⟨.conditions, [⟨.condition, ⟨['A'], none, none, []⟩, none⟩,
            ⟨.condition, ⟨['E'], none, none, []⟩, none⟩]⟩),
          (.actions, ⟨.actions, [⟨.action, ⟨['B'], some .a, some "Set Action".toList, []⟩,
            some ⟨.setAction, [(.parameters, some 2), (.sortOrder, none)]⟩⟩]⟩)], [.createRules]⟩ := by
  have open_ : (read {} tangledSource).document.closedFromEmpty = false := by decide +kernel
  obtain ⟨mild, same⟩ := skeleton_read_render tangledSource open_
  refine ⟨open_, by decide +kernel, mild, same.trans ?_⟩
  decide +kernel

end Document

end BusinessClass
