import BusinessClass.Proofs.Diagnostic.Relocation
import BusinessClass.Proofs.Document.Rereading

/-!
# Problems with written documents

When a document that was read is written and read again, hardly anything is noted: every line is read as what it
was written for, and no header is written twice. What remains are warnings, namely that a group has nothing under
its header and that the class header is missing.

* `Diagnostic.IsMild`: a warning that is not about a repeated header.
* `Action.Writable.mild_read_node` and `Declaration.Writable.mild_readAll`: what is noted about a written
  declaration.
* `Document.Writable.diagnostics_read_render`: what is noted about a text is noted about the outline of its lines.
* `Document.Writable.mild_classify` and `Document.Writable.mild_read_render`: what is noted about a written document.
-/

namespace BusinessClass

open Forest (outline settle)
open Declaration (leaf)

/-- A warning that is not about a header that was seen before. -/
def Diagnostic.IsMild (d : Diagnostic) : Prop := d.severity = .warning ∧ ∀ name, d.kind ≠ .duplicateSection name

theorem Diagnostic.isMild_relocate (ρ : Relocation) {d : Diagnostic} : (d.relocate ρ).IsMild ↔ d.IsMild := by
  rw [IsMild, IsMild, severity_relocate, kind_relocate]

theorem mild_map_relocate (ρ : Relocation) {notes : List Diagnostic} :
    (∀ x ∈ notes.map (Diagnostic.relocate ρ), x.IsMild) ↔ ∀ x ∈ notes, x.IsMild := by
  rw [List.forall_mem_map]
  exact forall₂_congr fun _ _ => Diagnostic.isMild_relocate ρ

/-! ### Rules -/

/-- Whatever is noted in a group is a warning about the group or one nested in it. -/
theorem SetRuleGroup.mild_read (o : Options) (f : List Node) : ∀ (level : Nat) (key : GroupKey), ∀ n ∈ f,
    ∀ x ∈ (read o level key n).notes, x.IsMild := by
  induction f using Forest.induction with
  | nil => simp
  | cons n ns ihc ih =>
    intro level key m hm x hx
    rcases List.mem_cons.1 hm with rfl | hm
    · rw [notes_read] at hx
      rcases List.mem_append.1 hx with hx | hx
      · rw [unterminated] at hx
        split at hx
        · rw [List.mem_singleton.1 hx]
          exact ⟨rfl, fun name same => by cases same⟩
        · cases hx
      · obtain ⟨c, hc, hx⟩ := List.mem_flatMap.1 hx
        rcases inner_cases c with none | ⟨key', opens⟩
        · rw [(none o level).2] at hx
          cases hx
        · rw [(opens o level).2, openingNotes] at hx
          split at hx
          · exact ihc (level + 1) key' c hc x hx
          · rw [List.mem_singleton.1 hx]
            exact ⟨rfl, fun name same => by cases same⟩
    · exact ih level key m hm x hx

theorem ActionRules.mild_read (o : Options) (base : Nat) (f : List Node) :
    ∀ x ∈ (read o base f).notes, x.IsMild := by
  intro x hx
  rw [notes_read] at hx
  obtain ⟨n, -, hx⟩ := List.mem_flatMap.1 hx
  rw [runNotes] at hx
  cases group : GroupKey.ofHeader? n.text with
  | none =>
    rw [group] at hx
    cases hx
  | some key =>
    rw [group, Option.elim_some, SetRuleGroup.openingNotes] at hx
    split at hx
    · exact SetRuleGroup.mild_read o [n] 1 key n (List.mem_singleton_self n) x hx
    · rw [List.mem_singleton.1 hx]
      exact ⟨rfl, fun name same => by cases same⟩

/-! ### Declarations -/

/-- Nothing is noted about a written declaration other than an action. -/
theorem Declaration.Splits.notes_node {h : Header} {body : List Node} (splits : Splits h body)
    (make : Header → List Node → Declaration) : (ofSplit {} (node h body) make).notes = [] := by
  obtain ⟨h', body', split, -⟩ := splits.split_node_lines
  rw [ofSplit, split]

/-- Nothing is noted about written fields. -/
theorem Declaration.notes_outline_fields {ds : List Declaration} (fields : ∀ d ∈ ds, d.IsField)
    (make : Header → List Node → Declaration) :
    (Noted.gather (fun n => ofSplit {} n make) (outline (renderAll ds))).notes = [] := by
  have each : ∀ d ∈ ds, ∃ h body, Splits h body ∧ d.renderLines = h.renderWith (Forest.renderLines body) := by
    intro d hd
    obtain ⟨h, body, rfl, splits⟩ := fields d hd
    exact ⟨h, body, splits, by rw [renderLines]⟩
  have flush : ∀ d ∈ ds, Lines.Flush d.renderLines := by
    intro d hd
    obtain ⟨h, body, splits, lines⟩ := each d hd
    exact lines ▸ splits.flush
  rw [renderAll_eq_flatMap, Forest.outline_flatMap flush, Noted.notes_gather, List.flatMap_assoc,
    List.flatMap_eq_nil_iff]
  intro d hd
  obtain ⟨h, body, splits, lines⟩ := each d hd
  rw [lines, splits.outline_renderWith, List.flatMap_singleton, splits.notes_node]

namespace Action

/-- The content of a written sub-section is read without a problem, empty groups aside. -/
theorem mild_readSection {k : ActionSectionKind} {c : ActionSection} (h : c.Writable k) (ρ : Relocation)
    (depth : Nat) :
    ∀ x ∈ (readSection {} depth k ((outline c.renderLines).map (Node.relocate ρ))).notes, x.IsMild := by
  rw [notes_readSection_relocate ρ {} depth depth, mild_map_relocate]
  cases h with
  | @fields _ ds kind fields =>
    have none (isLocal : Bool) := Declaration.notes_outline_fields fields (Declaration.ofField {} isLocal)
    have noted : (readSection {} depth k (outline (ActionSection.fields ds).renderLines)).notes = [] := by
      rw [ActionSection.renderLines]
      cases k with
      | parameters => exact none false
      | localFields => exact none true
      | _ => cases kind
    rw [noted]
    exact List.forall_mem_nil _
  | entries kind tidy =>
    cases k with
    | queueMappingFields | sortOrder | accumulators => exact List.forall_mem_nil _
    | _ => cases kind
  | rules block => exact List.forall_mem_nil _
  | selection block => exact List.forall_mem_nil _
  | @actionRules rules writable =>
    exact ActionRules.mild_read {} (baseDepth depth (outline (ActionSection.actionRules rules).renderLines)) _

/-- All that is noted about a written action is noted about the content of its sub-sections. -/
theorem Writable.notes_read_node {a : Action} (h : a.Writable) : (read {} a.node).notes = a.sections.flatMap fun e =>
    (readSection {} a.node.depth e.1 ((outline e.2.renderLines).map (Node.relocate (.shift 2)))).notes := by
  obtain ⟨ls, typed⟩ := h.header
  obtain ⟨-, -, sections, repeated⟩ := h.distribute_node
  have recognized : Header.recognize ({} : Options).phrases a.node.text a.node.line a.node.span
      = .ok (a.header.relocate .unplace) := typed.recognize_render 0 ⟨0, 0⟩
  rw [read_of_ok recognized, repeated, sections, List.map_nil, List.nil_append, List.flatMap_map]

/-- A written action is read without a problem, empty groups aside. -/
theorem Writable.mild_read_node {a : Action} (h : a.Writable) : ∀ x ∈ (read {} a.node).notes, x.IsMild := by
  intro x hx
  rw [h.notes_read_node] at hx
  obtain ⟨e, he, hx⟩ := List.mem_flatMap.1 hx
  exact mild_readSection (h.sections e he) (.shift 2) _ x hx

end Action

namespace Declaration

/-- A written declaration is read without a problem, empty groups aside. -/
theorem Writable.mild_readAll {kind : SectionKind} {d : Declaration} (h : d.Writable kind) :
    ∀ x ∈ (readAll {} kind (outline d.renderLines)).notes, x.IsMild := by
  rw [readAll, Noted.notes_gather]
  cases h with
  | @simple _ h body simple splits =>
    have none : (read {} kind (node h body)).notes = [] := by
      cases kind with
      | actions => exact absurd rfl simple
      | _ => exact splits.notes_node _
    rw [renderLines_make, splits.outline_renderWith, List.flatMap_singleton, none]
    exact List.forall_mem_nil _
  | @action a writable =>
    rw [renderLines, writable.outline_renderLines, List.flatMap_singleton]
    exact writable.mild_read_node

/-- Written declarations are read without a problem, empty groups aside. -/
theorem mild_readAll_renderAll {kind : SectionKind} {ds : List Declaration} (writable : ∀ d ∈ ds, d.Writable kind) :
    ∀ x ∈ (readAll {} kind (outline (renderAll ds))).notes, x.IsMild := by
  intro x hx
  rw [renderAll_eq_flatMap, Forest.outline_flatMap fun d hd => (writable d hd).flush, readAll, Noted.notes_gather,
    List.flatMap_assoc] at hx
  obtain ⟨d, hd, hx⟩ := List.mem_flatMap.1 hx
  refine (writable d hd).mild_readAll x ?_
  rwa [readAll, Noted.notes_gather]

end Declaration

/-! ### Documents -/

namespace Document

variable {d : Document}

/-- The sections of a written document are taken up without a problem, empty groups aside. -/
theorem Writable.mild_sections (h : d.Writable) :
    ∀ x ∈ (Catalog.values d.sections).flatMap sectionNotes, x.IsMild := by
  intro x hx
  obtain ⟨s, hs, hx⟩ := List.mem_flatMap.1 hx
  have under : ∀ x ∈ sectionNotes s, x.IsMild := by
    rw [sectionNotes, sectionNode, Declaration.notes_readAll_relocate, mild_map_relocate]
    exact Declaration.mild_readAll_renderAll (h.values s hs)
  exact under x hx

/-- With a class header, everything else stands one level in. -/
theorem Writable.diagnostics_classify_titled (h : d.Writable) {name : Text} (titled : d.name = some name) :
    (classify {} [] (outline d.renderLines)).diagnostics
      = ((Catalog.values d.sections).flatMap sectionNotes).map (Diagnostic.relocate (.shift 1)) := by
  have moved := Draft.notes_ofItems_relocate (Relocation.shifts_shift 1) {}
    { name := some name, classType := d.classType } [] (outline d.renderBody)
  rw [(h.ofItems_renderBody _ _ []).2] at moved
  rw [classify, h.classRoot?_titled titled]
  exact moved

/-- A written document is read without a problem, empty groups and a missing class header aside. -/
theorem Writable.mild_classify (h : d.Writable) (open_ : d.closedFromEmpty = false) :
    ∀ x ∈ (classify {} [] (outline d.renderLines)).diagnostics, x.IsMild := by
  cases hn : d.name with
  | some name =>
    rw [h.diagnostics_classify_titled hn, mild_map_relocate]
    exact h.mild_sections
  | none =>
    have lines : d.renderLines = d.renderBody := by rw [renderLines, hn]
    rw [lines, classify]
    by_cases untitled : d.Untitled
    · -- The first line states a prefix and is taken for the class header; the rest is as it would be anyway.
      obtain ⟨header, root⟩ := h.classRoot?_untitled untitled
      have parts := h.foldl_add_parts
        (e := ⟨{ name := some header.name, classType := header.typeName }, none, []⟩) rfl rfl
      rw [root]
      show ∀ x ∈ (d.partNodes.foldl (Draft.add {}) _).notes, x.IsMild
      rw [parts.2]
      exact h.mild_sections
    · -- Without a section and a rule block, the document would be the empty one.
      have something : ¬ (d.reread.sections.isEmpty && d.reread.classRules.isEmpty) = true := by
        intro nothing
        have empty : d.sections = [] ∧ d.classRules = [] := by simpa [reread] using nothing
        rw [h.headless hn empty.1 empty.2] at open_
        cases open_
      obtain ⟨items, notes⟩ := h.ofItems_renderBody none none []
      rw [h.classRoot?_renderBody hn untitled]
      show ∀ x ∈ (Draft.closeHeadless (Draft.ofItems {} {} [] (outline d.renderBody))).diagnostics, x.IsMild
      rw [Draft.closeHeadless, items, notes, if_neg something, List.forall_mem_append, List.forall_mem_singleton]
      exact ⟨h.mild_sections, rfl, fun name same => by cases same⟩

/-- What is noted about the text of a document is noted about the outline of its lines, numbers and places aside. -/
theorem Writable.diagnostics_read_render (h : d.Writable) : ∃ notes : List Diagnostic,
    (read {} d.render).diagnostics = notes.map (·.withSourceName none) ∧
      notes.map (Diagnostic.relocate .unplace) = (classify {} [] (outline d.renderLines)).diagnostics := by
  have indentation : indentationNotes {} d.render = [] := by
    rw [indentationNotes, render, Source.malformed_layout h.isLine h.head_ne_byteOrderMark]
    rfl
  have read_eq : (read {} d.render).diagnostics
      = (classify {} (indentationNotes {} d.render) (forest d.render)).diagnostics.map (·.withSourceName none) := rfl
  rw [indentation] at read_eq
  have moved := diagnostics_classify_relocate Relocation.shifts_unplace {} [] (forest d.render)
  rw [h.forest_render] at moved
  exact ⟨_, read_eq, moved.symm⟩

/-- The text of a written document is read without a problem, empty groups and a missing class header aside. -/
theorem Writable.mild_read_render (h : d.Writable) (open_ : d.closedFromEmpty = false) :
    ∀ x ∈ (read {} d.render).diagnostics, x.IsMild := by
  obtain ⟨notes, read_eq, moved⟩ := h.diagnostics_read_render
  have mild := h.mild_classify open_
  rw [← moved, mild_map_relocate] at mild
  rw [read_eq, List.forall_mem_map]
  exact mild

end Document

end BusinessClass
