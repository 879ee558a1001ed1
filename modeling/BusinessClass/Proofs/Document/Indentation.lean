import BusinessClass.Proofs.Diagnostic.Relocation

/-!
# Indenting a class

The lines behind a class header make up the class wherever they stand: under the header, beside it, or partly
both. Moving all of them in by some levels changes no more than the depths of the nodes that are kept.

* `Document.classRoot?_ofLines`: the items of a class are the forest of the lines behind its header.
* `Document.classify_indented`: reading a class and reading it with everything behind the header moved in.
-/

namespace BusinessClass

/-- A shift of depths moves no diagnostic, which has a number and a place alone. -/
theorem Diagnostic.relocate_shift (k : Nat) (d : Diagnostic) : d.relocate (.shift k) = d := by
  obtain ⟨kind, severity, line, span, sourceName⟩ := d
  cases span with
  | none => rfl
  | some s => rfl

theorem Diagnostic.map_relocate_shift (k : Nat) (ds : List Diagnostic) :
    ds.map (Diagnostic.relocate (.shift k)) = ds := by
  rw [funext (relocate_shift k)]
  exact List.map_id' ds

/-- Nor does it move a rule block, which is a header and a text. -/
theorem RuleBlock.relocate_shift (k : Nat) (b : RuleBlock) : b.relocate (.shift k) = b := rfl

theorem ActionRules.relocate_shift (k : Nat) (r : ActionRules) : r.relocate (.shift k) = r :=
  r.relocate_eq_self _ fun _ => rfl

/-! ### The rules of a document that was moved -/

section Rules

variable (ρ : Relocation)

theorem Action.allRules_relocate (a : Action) : (a.relocate ρ).allRules = a.allRules.map (ActionRules.relocate ρ) := by
  obtain ⟨header, kind, body, sections⟩ := a
  rw [Action.relocate, allRules, allRules, relocateSections_eq_map, List.filterMap_map, List.map_filterMap]
  refine List.filterMap_congr fun e _ => ?_
  obtain ⟨kind, content⟩ := e
  cases content <;> rfl

theorem Declaration.allRules_relocate (d : Declaration) :
    (d.relocate ρ).allRules = d.allRules.map (ActionRules.relocate ρ) := by
  cases d with
  | action a => exact a.allRules_relocate ρ
  | _ => rfl

/-- The rules of a document that was moved are the rules of the document, moved. -/
theorem Document.allRules_relocate (d : Document) :
    (d.relocate ρ).allRules = d.allRules.map (ActionRules.relocate ρ) := by
  have declarations : (d.relocate ρ).declarations = d.declarations.map (Declaration.relocate ρ) := by
    rw [Document.declarations, Document.declarations, relocate, Catalog.values, Catalog.values, List.map_map,
      List.flatMap_map, List.flatMap_map, List.map_flatMap]
    rfl
  rw [allRules, allRules, declarations, List.flatMap_map, List.map_flatMap]
  exact congrArg (List.flatMap · d.declarations) (funext (Declaration.allRules_relocate ρ))

end Rules

/-! ### Lines behind a class header -/

namespace Document

variable {o : Options} {l : SourceLine}

/-- The items of a class are the forest of the lines behind its header: what the header takes from it as children
stands in front of what it leaves. -/
theorem classRoot?_ofLines (o : Options) (l : SourceLine) (ls : List SourceLine) :
    classRoot? o (Forest.ofLines 0 (l :: ls))
      = (classHeader? o (Node.ofLine l [])).map fun header => (header, Forest.ofLines 0 ls) := by
  rw [Forest.ofLines_cons, Forest.grow, classRoot?_cons, List.takeWhile_append_dropWhile]

/-- Moving all lines behind a class header in by some levels leaves the diagnostics as they are, and of the document
all but the depths of nodes: rule blocks, and texts and groups of all rules, are the same. -/
theorem classify_indented (header : (classHeader? o (Node.ofLine l [])).isSome = true) (notes : List Diagnostic)
    (ls : List SourceLine) (k : Nat) :
    (classify o notes (Forest.ofLines 0 (l :: ls.map (SourceLine.relocate (.shift k))))).diagnostics
        = (classify o notes (Forest.ofLines 0 (l :: ls))).diagnostics ∧
      (classify o notes (Forest.ofLines 0 (l :: ls.map (SourceLine.relocate (.shift k))))).document
        = (classify o notes (Forest.ofLines 0 (l :: ls))).document.relocate (.shift k) ∧
      (classify o notes (Forest.ofLines 0 (l :: ls.map (SourceLine.relocate (.shift k))))).document.classRules
        = (classify o notes (Forest.ofLines 0 (l :: ls))).document.classRules ∧
      (classify o notes (Forest.ofLines 0 (l :: ls.map (SourceLine.relocate (.shift k))))).document.allRules
        = (classify o notes (Forest.ofLines 0 (l :: ls))).document.allRules := by
  obtain ⟨h, is⟩ := Option.isSome_iff_exists.1 header
  have root (ms : List SourceLine) : classRoot? o (Forest.ofLines 0 (l :: ms)) = some (h, Forest.ofLines 0 ms) := by
    rw [classRoot?_ofLines, is]
    rfl
  -- Behind the header, the two outlines are one forest and the same forest moved.
  have moved := Forest.ofLines_relocate_of_shifts _ (Relocation.shifts_shift k) ls
  have document : (classify o notes (Forest.ofLines 0 (l :: ls.map (SourceLine.relocate (.shift k))))).document
      = (classify o notes (Forest.ofLines 0 (l :: ls))).document.relocate (.shift k) := by
    rw [classify_of_root notes (root _), classify_of_root notes (root _), moved]
    exact Draft.document_ofItems_relocate (Relocation.shifts_shift k) o
      { name := some h.name, classType := h.typeName } notes notes _
  refine ⟨?_, document, ?_, ?_⟩
  · have noted := Draft.notes_ofItems_relocate (Relocation.shifts_shift k) o
      { name := some h.name, classType := h.typeName } notes (Forest.ofLines 0 ls)
    rw [Diagnostic.map_relocate_shift, Diagnostic.map_relocate_shift] at noted
    rw [classify_of_root notes (root _), classify_of_root notes (root _), moved]
    exact noted
  · rw [document, relocate]
    simp only [RuleBlock.relocate_shift]
    exact List.map_id' _
  · rw [document, allRules_relocate, funext (ActionRules.relocate_shift k)]
    exact List.map_id' _

/-- A class with its sections beside the header, with levels that are skipped and lines that stray. -/
def flushSource : Text := Lines.text (
  ["A is a BusinessClass", "Conditions", "\t\tB", "\t\t\t\tx", "\t\t\ty", "Actions", "\tC is a Set Action",
    "\t\tAction Rules", "\t\t\t\tz", "\t\t\tD Set Rules", "\t\tu", "\tv"].map String.toList)

/-- The header of `flushSource`. -/
def flushHeader : SourceLine := ⟨"A is a BusinessClass".toList, 0, 1, ⟨0, 20⟩⟩

/-- The lines of `flushSource` behind its header. -/
def flushBody : List SourceLine := (Source.lines {} flushSource).tail

/-- With everything behind its header moved in by one level, `flushSource` has the same two diagnostics and the same
rules, one of them a group, and its nodes are one level deeper. -/
theorem classify_indented_flushSource :
    (classHeader? {} (Node.ofLine flushHeader [])).isSome = true ∧
      Source.lines {} flushSource = flushHeader :: flushBody ∧
      (classify {} [] (Forest.ofLines 0 (flushHeader :: flushBody.map (SourceLine.relocate (.shift 1))))).document
        = (classify {} [] (Forest.ofLines 0 (flushHeader :: flushBody))).document.relocate (.shift 1) ∧
      (classify {} [] (Forest.ofLines 0 (flushHeader :: flushBody))).diagnostics.length = 2 ∧
      (classify {} [] (Forest.ofLines 0
          (flushHeader :: flushBody.map (SourceLine.relocate (.shift 1))))).diagnostics.length = 2 ∧
      (classify {} [] (Forest.ofLines 0
          (flushHeader :: flushBody.map (SourceLine.relocate (.shift 1))))).document.ruleGroups.map SetRuleGroup.name
        = [['D']] := by
  have header : (classHeader? {} (Node.ofLine flushHeader [])).isSome = true := by decide +kernel
  obtain ⟨diagnostics, document, -, rules⟩ := classify_indented header [] flushBody 1
  have two : (classify {} [] (Forest.ofLines 0 (flushHeader :: flushBody))).diagnostics.length = 2 := by
    decide +kernel
  refine ⟨header, by decide +kernel, document, two, by rw [diagnostics, two], ?_⟩
  rw [ruleGroups, rules]
  decide +kernel

end Document

end BusinessClass
