import BusinessClass.Proofs.Document.Places

/-!
# The three shapes of a document

The roots of an outline decide what kind of document it is. With a class header in front, the document has a name.
Without one it has none, and a section or a rule block among the roots makes it a document of which this is noted.
All other outlines are read as the empty document, and nothing is noted but that.

* `Document.classRoot?_eq_none_iff` and `Document.hasParts_iff` say which of the three an outline is.
* `Document.name_classify_of_root` and `Document.name_classify_of_headless` name the document,
  `Document.diagnostics_classify_of_hasParts` says what is noted of it as a whole.
* `Document.Shape` lists the three shapes; `Document.shape_read` says that every source has one of them, and which
  documents are closed from empty.
-/

namespace BusinessClass

namespace Diagnostic

/-- Whether the problem is one of the document as a whole. -/
def isOfDocument (d : Diagnostic) : Bool := d.kind == .missingClassHeader || d.kind == .emptyDocument

theorem NotedIn.isOfDocument {f : List Node} {d : Diagnostic} (h : d.NotedIn f) : d.isOfDocument = false := by
  obtain ⟨n, -, kind, -, isOfOutline, rfl⟩ := h
  cases kind with
  | missingClassHeader => cases isOfOutline
  | emptyDocument => cases isOfOutline
  | _ => rfl

theorem isOfDocument_eq_false_iff {d : Diagnostic} :
    d.isOfDocument = false ↔ d.kind ≠ .missingClassHeader ∧ d.kind ≠ .emptyDocument := by
  simp [isOfDocument]

end Diagnostic

namespace Document

variable {o : Options} {notes : List Diagnostic} {f : List Node}

/-! ### Which shape an outline has -/

/-- The first root is the class header. -/
theorem fst_classRoot? (o : Options) (f : List Node) :
    (classRoot? o f).map Prod.fst = f.head?.bind (classHeader? o) := by
  cases f with
  | nil => rfl
  | cons root roots =>
    rw [classRoot?, Option.map_map]
    exact Option.map_id'

theorem classRoot?_eq_none_iff : classRoot? o f = none ↔ f.head?.bind (classHeader? o) = none := by
  rw [← fst_classRoot?, Option.map_eq_none_iff]

theorem isHeader_iff (n : Node) : isHeader n = true
    ↔ (SectionKind.ofHeader? n.text).isSome = true ∨ (ClassBlockKind.ofHeader? n.text).isSome = true := by
  rw [isHeader, Bool.or_eq_true, openedSection?_eq, openedBlock?_eq]

theorem isProperty_of_isHeader {n : Node} (header : isHeader n = true) : isProperty n = false := by
  by_contra property
  obtain ⟨noSection, noBlock⟩ := opens_none_of_property (by simpa using property)
  simp [isHeader, noSection, noBlock] at header

/-- Without a class header, what there is to read are the roots that open something. -/
theorem hasParts_iff (headless : classRoot? o f = none) : HasParts o f ↔ ∃ n ∈ f,
    (SectionKind.ofHeader? n.text).isSome = true ∨ (ClassBlockKind.ofHeader? n.text).isSome = true := by
  rw [HasParts, classItems, headless]
  constructor
  · rintro (titled | ⟨n, mem, header⟩)
    · cases titled
    · exact ⟨n, List.mem_of_mem_filter mem, (isHeader_iff n).1 header⟩
  · rintro ⟨n, mem, opens⟩
    have header := (isHeader_iff n).2 opens
    exact Or.inr ⟨n, List.mem_filter.2 ⟨mem, by rw [isProperty_of_isHeader header]; rfl⟩, header⟩

/-! ### Name and mark of the document -/

theorem name_classify_of_root {r : Header × List Node} (notes : List Diagnostic) (root : classRoot? o f = some r) :
    (classify o notes f).document.name = some r.1.name ∧
      (classify o notes f).document.closedFromEmpty = false := by
  rw [classify_of_root notes root]
  obtain ⟨name, -, closed⟩ := title_ofItems o { name := some r.1.name, classType := r.1.typeName } notes r.2
  exact ⟨name, closed⟩

theorem name_classify_of_headless (notes : List Diagnostic) (parts : HasParts o f) (headless : classRoot? o f = none) :
    (classify o notes f).document.name = none ∧ (classify o notes f).document.closedFromEmpty = false := by
  rw [classify_of_headless notes parts headless]
  obtain ⟨name, -, closed⟩ := title_ofItems o {} notes f
  exact ⟨name, closed⟩

/-- A document of an outline that has parts is not empty. -/
theorem isEmpty_classify_of_hasParts (notes : List Diagnostic) (parts : HasParts o f) :
    (classify o notes f).document.isEmpty = false := by
  cases root : classRoot? o f with
  | some r => rw [isEmpty, (name_classify_of_root notes root).1]; rfl
  | none =>
    have something : ∃ n ∈ classItems o f, isHeader n = true := parts.resolve_left (by simp [root])
    -- Without a name, it is a section or a rule block that makes the document more than empty.
    have filled := kinds_ne_nil something
    obtain ⟨sections, classRules, -⟩ := sorts_classify o notes parts
    rw [isEmpty, sections, classRules]
    by_contra empty
    simp only [Bool.not_eq_false, Bool.and_eq_true, List.isEmpty_iff, List.map_eq_nil_iff] at empty
    exact filled ⟨empty.1.2, empty.2⟩

/-! ### Problems of the document as a whole -/

/-- All that is noted about an outline with parts as a whole is that there is no class header. -/
theorem diagnostics_classify_of_hasParts (parts : HasParts o f)
    (before : ∀ d ∈ notes, d.isOfDocument = false) : ∃ ds, (∀ d ∈ ds, d.isOfDocument = false) ∧
      (classify o notes f).diagnostics = ds ++ headlessNotes o f := by
  refine ⟨notes ++ notesOf o (classItems o f), fun d hd => ?_, (sorts_classify o notes parts).2.2⟩
  rcases List.mem_append.1 hd with hd | hd
  · exact before d hd
  · exact (notedIn_notesOf hd).isOfDocument

theorem isOfDocument_of_mem_indentationNotes (o : Options) (source : Text) :
    ∀ d ∈ indentationNotes o source, d.isOfDocument = false := by
  intro d hd
  obtain ⟨l, -, rfl⟩ := List.mem_map.1 hd
  rfl

/-! ### The three shapes -/

/-- What reading a source with the given roots comes to. The roots decide which of the three cases it is. -/
inductive Shape (o : Options) (roots : List Node) (r : Reading) : Prop
  /-- The first root is a class header, which names the document. -/
  | titled (header : Header) (first : roots.head?.bind (classHeader? o) = some header)
    (name : r.document.name = some header.name) (open_ : r.document.closedFromEmpty = false)
    (noted : ∀ d ∈ r.diagnostics, d.kind ≠ .missingClassHeader ∧ d.kind ≠ .emptyDocument)
  /-- There is no class header, but a root opens a section or a rule block. The last problem is the missing header. -/
  | headless (first : roots.head?.bind (classHeader? o) = none)
    (opens : ∃ n ∈ roots,
      (SectionKind.ofHeader? n.text).isSome = true ∨ (ClassBlockKind.ofHeader? n.text).isSome = true)
    (name : r.document.name = none) (open_ : r.document.closedFromEmpty = false)
    (filled : r.document.isEmpty = false) (before : List Diagnostic)
    (noted : r.diagnostics = before ++ [(Diagnostic.ofDocument .missingClassHeader).withSourceName o.sourceName])
    (other : ∀ d ∈ before, d.kind ≠ .missingClassHeader ∧ d.kind ≠ .emptyDocument)
  /-- There is neither. No document results, and that it is empty is all that is noted. -/
  | empty (first : roots.head?.bind (classHeader? o) = none)
    (opens : ∀ n ∈ roots, SectionKind.ofHeader? n.text = none ∧ ClassBlockKind.ofHeader? n.text = none)
    (document : r.document = closedEmpty)
    (noted : r.diagnostics = [(Diagnostic.ofDocument .emptyDocument).withSourceName o.sourceName])
    (result : r.result = .error r.diagnostics)

/-- A document that has parts is not the empty one, and that it is empty is not noted. -/
theorem Shape.of_hasParts (source : Text) (parts : HasParts o (Forest.ofLines 0 (Source.lines o source))) :
    Shape o (Forest.ofLines 0 (Source.lines o source)) (read o source) := by
  have before := isOfDocument_of_mem_indentationNotes o source
  obtain ⟨ds, other, noted⟩ := diagnostics_classify_of_hasParts parts before
  have otherKinds : ∀ d ∈ ds.map (·.withSourceName o.sourceName),
      d.kind ≠ .missingClassHeader ∧ d.kind ≠ .emptyDocument := by
    intro filed mem
    obtain ⟨d, hd, rfl⟩ := List.mem_map.1 mem
    exact Diagnostic.isOfDocument_eq_false_iff.1 (other d hd)
  cases root : classRoot? o (Forest.ofLines 0 (Source.lines o source)) with
  | some r =>
    obtain ⟨name, open_⟩ := name_classify_of_root (indentationNotes o source) root
    refine .titled r.1 ?_ name open_ ?_
    · rw [← fst_classRoot?, root]
      rfl
    · rw [headlessNotes, root] at noted
      rw [read, noted, Option.isSome_some, if_pos rfl, List.append_nil]
      exact otherKinds
  | none =>
    obtain ⟨name, open_⟩ := name_classify_of_headless (indentationNotes o source) parts root
    have filled := isEmpty_classify_of_hasParts (indentationNotes o source) parts
    refine .headless (classRoot?_eq_none_iff.1 root) ((hasParts_iff root).1 parts) name open_ filled _ ?_ otherKinds
    rw [headlessNotes, root] at noted
    rw [read, noted, List.map_append]
    rfl

theorem Shape.of_not_hasParts (source : Text) (none : ¬ HasParts o (Forest.ofLines 0 (Source.lines o source))) :
    Shape o (Forest.ofLines 0 (Source.lines o source)) (read o source) := by
  have root : classRoot? o (Forest.ofLines 0 (Source.lines o source)) = Option.none := by
    cases root : classRoot? o (Forest.ofLines 0 (Source.lines o source)) with
    | none => rfl
    | some r => exact absurd (Or.inl (by rw [root]; rfl)) none
  have reading : read o source
      = ⟨closedEmpty, [(Diagnostic.ofDocument .emptyDocument).withSourceName o.sourceName]⟩ := by
    rw [read, classify_of_not_hasParts o _ none]
    rfl
  refine .empty (classRoot?_eq_none_iff.1 root) (fun n hn => ?_) ?_ ?_ ?_
  · have closed := mt (hasParts_iff root).2 none
    simpa using fun opens => closed ⟨n, hn, opens⟩
  · rw [reading]
  · rw [reading]
  · rw [reading]
    rfl

theorem Shape.isEmpty_eq {roots : List Node} {r : Reading} (shape : Shape o roots r) :
    r.document.isEmpty = r.document.closedFromEmpty := by
  cases shape with
  | titled header _ name open_ _ =>
    rw [open_, isEmpty, name]
    rfl
  | headless _ _ _ open_ filled _ _ _ => rw [open_, filled]
  | empty _ _ document _ _ =>
    rw [document]
    rfl

theorem Shape.noted_iff {roots : List Node} {r : Reading} (shape : Shape o roots r) :
    (∃ d ∈ r.diagnostics, d.kind = .emptyDocument) ↔ r.document.closedFromEmpty = true := by
  cases shape with
  | titled header _ _ open_ noted =>
    rw [open_]
    exact ⟨fun ⟨d, hd, kind⟩ => absurd kind (noted d hd).2, fun h => Bool.noConfusion h⟩
  | headless _ _ _ open_ _ before noted other =>
    rw [open_, noted]
    refine ⟨fun ⟨d, hd, kind⟩ => ?_, fun h => Bool.noConfusion h⟩
    rcases List.mem_append.1 hd with hd | hd
    · exact absurd kind (other d hd).2
    · rw [List.mem_singleton.1 hd] at kind
      cases kind
  | empty _ _ document noted _ =>
    rw [document, noted]
    exact ⟨fun _ => rfl, fun _ => ⟨_, List.mem_singleton_self _, rfl⟩⟩

/-- The roots of the outline of a source decide the shape of its document. So exactly the empty documents are closed
from empty, and it is noted of exactly them that they are empty. -/
theorem shape_read (o : Options) (source : Text) :
    Shape o (Forest.ofLines 0 (Source.lines o source)) (read o source) ∧
      ((read o source).document.closedFromEmpty = true ↔ (read o source).document.isEmpty = true) ∧
      ((read o source).document.closedFromEmpty = true
        ↔ ∃ d ∈ (read o source).diagnostics, d.kind = .emptyDocument) := by
  have shape : Shape o (Forest.ofLines 0 (Source.lines o source)) (read o source) := by
    by_cases parts : HasParts o (Forest.ofLines 0 (Source.lines o source))
    · exact Shape.of_hasParts source parts
    · exact Shape.of_not_hasParts source parts
  refine ⟨shape, ?_, shape.noted_iff.symm⟩
  rw [shape.isEmpty_eq]

/-- An owner, a header under a root that is none, and a line with malformed indentation make no document. -/
example : (read {} "owned by B\nC\n\tConditions\n \tD".toList).document.closedFromEmpty = true ∧
    (read {} "owned by B\nC\n\tConditions\n \tD".toList).diagnostics = [.ofDocument .emptyDocument] := by
  decide +kernel

end Document

end BusinessClass
