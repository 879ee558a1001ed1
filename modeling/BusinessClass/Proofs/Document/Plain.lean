import BusinessClass.Proofs.Diagnostic.Relocation
import BusinessClass.Proofs.Document.Places
import BusinessClass.Proofs.Source.Plain

/-!
# Layout independence

How a source is laid out does not matter beyond the depths of its lines. A source that is written plainly has the
same document and the same problems other than those with indentation, up to spans.

* `Document.diagnostics_classify_of_indentation`: problems with indentation that were noted before change nothing.
* `Document.unspan_read_plain`: reading a source and reading it written plainly.
-/

namespace BusinessClass

namespace Diagnostic

/-- Whether the problem is one with the indentation of a line. -/
def isIndentation (d : Diagnostic) : Bool :=
  match d.kind with
  | .malformedIndentation _ => true
  | _ => false

theorem NotedIn.isIndentation {f : List Node} {d : Diagnostic} (h : d.NotedIn f) : d.isIndentation = false := by
  obtain ⟨n, -, kind, -, isOfOutline, rfl⟩ := h
  cases kind with
  | malformedIndentation reason => cases isOfOutline
  | _ => rfl

theorem relocate_withSourceName (ρ : Relocation) (d : Diagnostic) (name : Option Text) :
    (d.withSourceName name).relocate ρ = (d.relocate ρ).withSourceName name := by
  obtain ⟨kind, severity, line, span, sourceName⟩ := d
  cases span <;> rfl

end Diagnostic

namespace Document

variable {o : Options} {notes : List Diagnostic} {f : List Node}

theorem isIndentation_of_mem_indentationNotes (o : Options) (source : Text) :
    ∀ d ∈ indentationNotes o source, d.isIndentation = true := by
  intro d hd
  obtain ⟨l, -, rfl⟩ := List.mem_map.1 hd
  rfl

/-- Reading an outline takes no notice of problems with indentation, and notes none. -/
theorem diagnostics_classify_of_indentation (indentation : ∀ d ∈ notes, d.isIndentation = true) :
    (classify o notes f).diagnostics.filter (fun d => !d.isIndentation) = (classify o [] f).diagnostics := by
  by_cases parts : HasParts o f
  · have before : notes.filter (fun d => !d.isIndentation) = [] :=
      List.filter_eq_nil_iff.2 fun d hd => by simp [indentation d hd]
    have items : (notesOf o (classItems o f)).filter (fun d => !d.isIndentation) = notesOf o (classItems o f) :=
      List.filter_eq_self.2 fun d hd => by simp [(notedIn_notesOf hd).isIndentation]
    have headless : (headlessNotes o f).filter (fun d => !d.isIndentation) = headlessNotes o f := by
      rw [headlessNotes]
      split <;> rfl
    rw [(sorts_classify o notes parts).2.2, (sorts_classify o [] parts).2.2, List.filter_append, List.filter_append,
      before, items, headless]
  · rw [classify_of_not_hasParts o notes parts, classify_of_not_hasParts o [] parts]
    rfl

/-- A source that starts with at most one byte order mark is read as it is when it is written plainly: the documents
are equal up to spans, and so are the problems, except that none with indentation is left. So line endings, tabs or
spaces, blanks at the end of lines, comments and malformed lines have no other effect. -/
theorem unspan_read_plain (o : Options) {source : Text}
    (single : ¬ [Source.byteOrderMark, Source.byteOrderMark] <+: source) :
    (read o (Source.plain o source)).document.relocate .unspan = (read o source).document.relocate .unspan ∧
      (read o (Source.plain o source)).diagnostics.map (Diagnostic.relocate .unspan)
        = ((read o source).diagnostics.filter fun d => !d.isIndentation).map (Diagnostic.relocate .unspan) := by
  obtain ⟨ls, scan, same⟩ := Source.scan_plain (o := o) single
  have lines : Source.lines o (Source.plain o source) = ls := Source.lines_of_scan scan
  have noMalformed : indentationNotes o (Source.plain o source) = [] := by
    rw [indentationNotes, Source.malformed_of_scan scan, List.map_nil]
  -- Without spans, the two forests are one, and reading a forest commutes with dropping the spans.
  have forests : (Forest.ofLines 0 ls).map (Node.relocate .unspan)
      = (Forest.ofLines 0 (Source.lines o source)).map (Node.relocate .unspan) := by
    rw [← Forest.ofLines_relocate_of_shifts _ Relocation.shifts_unspan, same,
      Forest.ofLines_relocate_of_shifts _ Relocation.shifts_unspan]
  have filed (ds : List Diagnostic) : (ds.map (·.withSourceName o.sourceName)).map (Diagnostic.relocate .unspan)
      = (ds.map (Diagnostic.relocate .unspan)).map (·.withSourceName o.sourceName) := by
    rw [List.map_map, List.map_map]
    exact List.map_congr_left fun d _ => Diagnostic.relocate_withSourceName _ d _
  constructor
  · rw [read, read, lines]
    have plain := document_classify_relocate Relocation.shifts_unspan o
      (indentationNotes o (Source.plain o source)) [] (Forest.ofLines 0 ls)
    have whole := document_classify_relocate Relocation.shifts_unspan o (indentationNotes o source) []
      (Forest.ofLines 0 (Source.lines o source))
    rw [← plain, ← whole, forests]
  · have plain := diagnostics_classify_relocate Relocation.shifts_unspan o [] (Forest.ofLines 0 ls)
    have whole := diagnostics_classify_relocate Relocation.shifts_unspan o [] (Forest.ofLines 0 (Source.lines o source))
    rw [forests] at plain
    have kept := diagnostics_classify_of_indentation (o := o) (f := Forest.ofLines 0 (Source.lines o source))
      (isIndentation_of_mem_indentationNotes o source)
    rw [read, read, lines, noMalformed, filed, ← plain, whole, ← kept, List.filter_map, filed]
    rfl

/-- A source with a byte order mark, all three line endings, spaces and tabs, blanks at the end of lines, a comment,
an empty and a malformed line. -/
def variedSource : Text :=
  "\uFEFFA is a BusinessClass\r\n    Conditions \t\r  \tbad\r\n\t// note\n\n        B  \r\t\tnot a header".toList

/-- `variedSource` written plainly has the same document, and of its problems all but that of the malformed line. -/
theorem unspan_read_plain_variedSource :
    ¬ [Source.byteOrderMark, Source.byteOrderMark] <+: variedSource ∧
      Source.plain {} variedSource
        = "A is a BusinessClass\n\tConditions\n\n\n\n\t\tB\n\t\tnot a header\n".toList ∧
      (read {} (Source.plain {} variedSource)).document.relocate .unspan
        = (read {} variedSource).document.relocate .unspan ∧
      (read {} (Source.plain {} variedSource)).diagnostics.map (Diagnostic.relocate .unspan)
        = ((read {} variedSource).diagnostics.filter fun d => !d.isIndentation).map (Diagnostic.relocate .unspan) ∧
      (read {} variedSource).diagnostics.map Diagnostic.isIndentation = [true, false] := by
  have single : ¬ [Source.byteOrderMark, Source.byteOrderMark] <+: variedSource := by decide +kernel
  obtain ⟨document, diagnostics⟩ := unspan_read_plain {} single
  exact ⟨single, by decide +kernel, document, diagnostics, by decide +kernel⟩

end Document

end BusinessClass
