import BusinessClass.Proofs.Document.Budget
import BusinessClass.Proofs.Document.Relocation

/-!
# Moving diagnostics

The problems that are noted while an outline is read stand at the places of its lines. When the outline is
moved, the same problems are noted at the moved places, whatever becomes of the depths of groups and texts.

* `Diagnostic.relocate` moves a diagnostic; one of the document as a whole has no place and stays.
* `SetRuleGroup.notes_read_relocate`, `Action.notes_read_relocate` and `Declaration.notes_readAll_relocate`: what
  is noted about the parts of an outline.
* `Document.diagnostics_classify_relocate`: what is noted about a whole outline.
-/

namespace BusinessClass

variable (ρ : Relocation)

namespace Diagnostic

/-- The diagnostic at another place. -/
def relocate (d : Diagnostic) : Diagnostic :=
  match d.span with
  | none => d
  | some s => { d with line := ρ.line d.line, span := some (ρ.span s) }

@[simp] theorem kind_relocate (d : Diagnostic) : (d.relocate ρ).kind = d.kind := by
  unfold relocate
  split <;> rfl

@[simp] theorem severity_relocate (d : Diagnostic) : (d.relocate ρ).severity = d.severity := by
  unfold relocate
  split <;> rfl

end Diagnostic

/-- A problem with a line moves along with the line. -/
theorem Node.note_relocate (n : Node) (kind : Diagnostic.Kind) :
    (n.relocate ρ).note kind = (n.note kind).relocate ρ := by
  rw [note, line_relocate, span_relocate]
  rfl

/-! ### Rules -/

namespace SetRuleGroup

variable (o : Options)

theorem unterminated_relocate (key : GroupKey) (n : Node) :
    unterminated key (n.relocate ρ) = (unterminated key n).map (Diagnostic.relocate ρ) := by
  rw [unterminated, unterminated, Node.isLeaf_relocate, Node.note_relocate]
  split <;> rfl

/-- What is noted about a line that opens a group moves if what is noted about the group does. -/
theorem openingNotes_relocate {n : Node} (group : ∀ level key, (read o level key (n.relocate ρ)).notes
    = (read o level key n).notes.map (Diagnostic.relocate ρ)) (level : Nat) (key : GroupKey) :
    openingNotes o level key (n.relocate ρ) = (openingNotes o level key n).map (Diagnostic.relocate ρ) := by
  rw [openingNotes, openingNotes, group, tooDeep, Node.note_relocate]
  split <;> rfl

/-- So does what is noted about a line directly under the header of a group. -/
theorem innerNotes_relocate {n : Node} (group : ∀ level key, (read o level key (n.relocate ρ)).notes
    = (read o level key n).notes.map (Diagnostic.relocate ρ)) (level : Nat) :
    innerNotes o level (n.relocate ρ) = (innerNotes o level n).map (Diagnostic.relocate ρ) := by
  rw [innerNotes, innerNotes, Node.headerIs_relocate, Node.headerIs_relocate, Node.text_relocate]
  split
  · rfl
  · cases GroupKey.ofHeader? n.text with
    | none => rfl
    | some key => exact openingNotes_relocate ρ o group level key

/-- Reading a group that was moved notes the same problems, moved. -/
theorem notes_read_relocate (f : List Node) : ∀ (level : Nat) (key : GroupKey), ∀ n ∈ f,
    (read o level key (n.relocate ρ)).notes = (read o level key n).notes.map (Diagnostic.relocate ρ) := by
  induction f using Forest.induction with
  | nil => simp
  | cons n ns ihc ih =>
    intro level key m hm
    rcases List.mem_cons.1 hm with rfl | hm
    · -- A line under the header that opens a group is read one level further down.
      have inner : ∀ c ∈ m.children,
          innerNotes o level (c.relocate ρ) = (innerNotes o level c).map (Diagnostic.relocate ρ) :=
        fun c hc => innerNotes_relocate ρ o (fun level key => ihc level key c hc) level
      rw [notes_read, notes_read, unterminated_relocate, Node.children_relocate, List.flatMap_map,
        List.flatMap_congr inner, List.map_append, List.map_flatMap]
    · exact ih level key m hm

end SetRuleGroup

/-- Reading rules that were moved notes the same problems, moved. -/
theorem ActionRules.notes_read_relocate (o : Options) (base base' : Nat) (f : List Node) :
    (read o base' (f.map (Node.relocate ρ))).notes = (read o base f).notes.map (Diagnostic.relocate ρ) := by
  have each (n : Node) : runNotes o (n.relocate ρ) = (runNotes o n).map (Diagnostic.relocate ρ) := by
    rw [runNotes, runNotes, Node.text_relocate]
    cases GroupKey.ofHeader? n.text with
    | none => rfl
    | some key =>
      exact SetRuleGroup.openingNotes_relocate ρ o
        (fun level key => SetRuleGroup.notes_read_relocate ρ o [n] level key n (List.mem_singleton_self n)) 0 key
  rw [notes_read, notes_read, List.flatMap_map, funext each, List.map_flatMap]

/-! ### Declarations -/

namespace Declaration

/-- A line that is no header is noted where it stands. -/
theorem notes_ofSplit_relocate (o : Options) (n : Node) (make : Header → List Node → Declaration) :
    (ofSplit o (n.relocate ρ) make).notes = (ofSplit o n make).notes.map (Diagnostic.relocate ρ) := by
  rw [ofSplit, ofSplit, split, split, Node.text_relocate, Node.line_relocate, Node.span_relocate,
    Header.ofText_relocate]
  cases Header.ofText o.phrases n.text n.line n.span with
  | ok header => rfl
  | error e => exact congrArg ([·]) (Node.note_relocate ρ n _)

theorem notes_gather_ofSplit_relocate (o : Options) (f : List Node) (make : Header → List Node → Declaration) :
    (Noted.gather (fun n => ofSplit o n make) (f.map (Node.relocate ρ))).notes
      = (Noted.gather (fun n => ofSplit o n make) f).notes.map (Diagnostic.relocate ρ) := by
  rw [Noted.notes_gather, Noted.notes_gather, List.flatMap_map, List.map_flatMap]
  exact congrArg (List.flatMap · f) (funext fun n => notes_ofSplit_relocate ρ o n make)

end Declaration

namespace Action

/-- What is noted about a sub-section does not depend on its depth. -/
theorem notes_readSection_relocate (o : Options) (depth depth' : Nat) (kind : ActionSectionKind) (f : List Node) :
    (readSection o depth' kind (f.map (Node.relocate ρ))).notes
      = (readSection o depth kind f).notes.map (Diagnostic.relocate ρ) := by
  have fields (isLocal : Bool) := Declaration.notes_gather_ofSplit_relocate ρ o f (Declaration.ofField o isLocal)
  cases kind with
  | parameters => exact fields false
  | localFields => exact fields true
  | actionRules =>
    exact ActionRules.notes_read_relocate ρ o (baseDepth depth f) (baseDepth depth' (f.map (Node.relocate ρ))) f
  | _ => rfl

/-- Reading an action that was moved notes the same problems, moved. -/
theorem notes_read_relocate (o : Options) (n : Node) :
    (read o (n.relocate ρ)).notes = (read o n).notes.map (Diagnostic.relocate ρ) := by
  have recognized := Header.recognize_relocate ρ o.phrases n.text n.line n.span
  rw [← Node.text_relocate ρ, ← Node.line_relocate ρ, ← Node.span_relocate ρ] at recognized
  cases ok : Header.recognize o.phrases n.text n.line n.span with
  | error e =>
    rw [Node.text_relocate, ok] at recognized
    rw [read_of_error (by rwa [Node.text_relocate]), read_of_error ok, Node.text_relocate, Node.note_relocate]
    rfl
  | ok header =>
    rw [Node.text_relocate, ok] at recognized
    have repeated (e : ActionSectionKind × Node) : repeatedSection (header.relocate ρ).name (e.1, e.2.relocate ρ)
        = (repeatedSection header.name e).relocate ρ := Node.note_relocate ρ e.2 _
    have sections (e : ActionSectionKind × List Node) :=
      notes_readSection_relocate ρ o n.depth (n.relocate ρ).depth e.1 e.2
    rw [read_of_ok (by rwa [Node.text_relocate]), read_of_ok ok, Node.children_relocate, distribute_relocate]
    simp only [Parts.relocate, List.map_map, List.flatMap_map, List.map_append, List.map_flatMap, sections]
    exact congrArg (· ++ _) (List.map_congr_left fun e _ => repeated e)

end Action

namespace Declaration

/-- Reading a declaration that was moved notes the same problems, moved. -/
theorem notes_read_relocate (o : Options) (kind : SectionKind) (n : Node) :
    (read o kind (n.relocate ρ)).notes = (read o kind n).notes.map (Diagnostic.relocate ρ) := by
  cases kind with
  | actions => exact Action.notes_read_relocate ρ o n
  | _ => exact notes_ofSplit_relocate ρ o n _

theorem notes_readAll_relocate (o : Options) (kind : SectionKind) (f : List Node) :
    (readAll o kind (f.map (Node.relocate ρ))).notes = (readAll o kind f).notes.map (Diagnostic.relocate ρ) := by
  rw [readAll, readAll, Noted.notes_gather, Noted.notes_gather, List.flatMap_map, List.map_flatMap]
  exact congrArg (List.flatMap · f) (funext fun n => notes_read_relocate ρ o kind n)

end Declaration

/-! ### Classes -/

namespace Document

namespace Draft

theorem repeated_relocate (n : Node) (isKnown : Bool) (name : Text) :
    repeated (n.relocate ρ) isKnown name = (repeated n isKnown name).map (Diagnostic.relocate ρ) := by
  rw [repeated, repeated, Node.note_relocate]
  split <;> rfl

/-- Taking up an item that was moved notes the same problems, moved. -/
theorem notes_add_relocate (o : Options) {d e : Draft} (document : e.document = d.document.relocate ρ)
    (current : e.current = d.current) (notes : e.notes = d.notes.map (Diagnostic.relocate ρ)) (n : Node) :
    (e.add o (n.relocate ρ)).notes = (d.add o n).notes.map (Diagnostic.relocate ρ) := by
  rw [add, add, Node.text_relocate]
  cases ClassItem.ofText n.text with
  | owner name => exact notes
  | classPrefix text => exact notes
  | opensSection kind =>
    have known : Catalog.contains e.document.sections kind = Catalog.contains d.document.sections kind := by
      simp [Catalog.contains, document, relocate, Catalog.get?_map]
    simp only [openSection, addTo, known, notes, repeated_relocate, Node.children_relocate,
      Declaration.notes_readAll_relocate, List.map_append]
  | opensBlock kind =>
    have known : Catalog.contains e.document.classRules kind = Catalog.contains d.document.classRules kind := by
      simp [Catalog.contains, document, relocate, Catalog.get?_map]
    simp only [openBlock, known, notes, repeated_relocate, List.map_append]
  | content =>
    simp only [current]
    cases d.current with
    | none => simp only [notes, Node.note_relocate, List.map_append, List.map_singleton]
    | some kind =>
      have under := Declaration.notes_readAll_relocate ρ o kind [n]
      rw [List.map_singleton] at under
      simp only [addTo, notes, under, List.map_append]

variable {ρ} {k : Nat}

/-- Taking up items that were moved notes the same problems, moved. -/
theorem notes_ofItems_relocate (h : ρ.Shifts k) (o : Options) (start : Document) (notes : List Diagnostic)
    (items : List Node) :
    (ofItems o (start.relocate ρ) (notes.map (Diagnostic.relocate ρ)) (items.map (Node.relocate ρ))).notes
      = (ofItems o start notes items).notes.map (Diagnostic.relocate ρ) := by
  have fold : ∀ (d e : Draft), e.document = d.document.relocate ρ → e.current = d.current →
      e.notes = d.notes.map (Diagnostic.relocate ρ) →
      ((items.map (Node.relocate ρ)).foldl (add o) e).notes
        = (items.foldl (add o) d).notes.map (Diagnostic.relocate ρ) := by
    induction items with
    | nil => exact fun _ _ _ _ notes => notes
    | cons n ns ih =>
      intro d e document current notes
      have step := add_relocate h o document current n
      exact ih _ _ step.1 step.2 (notes_add_relocate ρ o document current notes n)
  exact fold _ _ rfl rfl rfl

end Draft

/-- Reading an outline that was moved notes the same problems, moved. -/
theorem diagnostics_classify_relocate {ρ : Relocation} {k : Nat} (h : ρ.Shifts k) (o : Options)
    (notes : List Diagnostic) (f : List Node) :
    (classify o (notes.map (Diagnostic.relocate ρ)) (f.map (Node.relocate ρ))).diagnostics
      = (classify o notes f).diagnostics.map (Diagnostic.relocate ρ) := by
  rw [classify, classify, classRoot?_relocate]
  cases classRoot? o f with
  | some r => exact Draft.notes_ofItems_relocate h o { name := some r.1.name, classType := r.1.typeName } notes r.2
  | none =>
    have document := Draft.document_ofItems_relocate h o {} notes (notes.map (Diagnostic.relocate ρ)) f
    have noted := Draft.notes_ofItems_relocate h o {} notes f
    have empty : ∀ d : Document, ((d.relocate ρ).sections.isEmpty && (d.relocate ρ).classRules.isEmpty)
        = (d.sections.isEmpty && d.classRules.isEmpty) := by
      intro d
      simp [relocate]
    show (Draft.closeHeadless (Draft.ofItems o (Document.relocate ρ {}) _ _)).diagnostics = _
    rw [Draft.closeHeadless, Draft.closeHeadless, document, empty]
    split
    · rfl
    · simp only [noted, List.map_append, List.map_singleton]
      rfl

end Document

end BusinessClass
