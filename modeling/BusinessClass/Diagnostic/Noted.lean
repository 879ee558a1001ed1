import BusinessClass.Diagnostic.Basic
import BusinessClass.Outline.Node

/-!
# Values with notes

Reading a part of a source gives a value and the diagnostics noted on the way. `Noted.gather` reads
a list of parts in order and keeps the notes in that order.
-/

namespace BusinessClass

/-- A value and what was noted while reading it. -/
structure Noted (α : Type) where
  value : α
  notes : List Diagnostic

namespace Noted

variable {α β : Type}

/-- Reads some parts in order; a part may give no value. -/
def gather (read : α → Noted (Option β)) : List α → Noted (List β)
  | [] => ⟨[], []⟩
  | part :: parts =>
    let first := read part
    let rest := gather read parts
    ⟨first.value.toList ++ rest.value, first.notes ++ rest.notes⟩

/-- The values are those of the parts that give one. -/
theorem value_gather (read : α → Noted (Option β)) (parts : List α) :
    (gather read parts).value = parts.filterMap fun part => (read part).value := by
  induction parts with
  | nil => rfl
  | cons part parts ih => cases h : (read part).value <;> simp [gather, ih, h]

/-- The notes are those of the parts one after the other. -/
theorem notes_gather (read : α → Noted (Option β)) (parts : List α) :
    (gather read parts).notes = parts.flatMap fun part => (read part).notes := by
  induction parts with
  | nil => rfl
  | cons part parts ih => simp [gather, ih]

end Noted

namespace Node

/-- A problem with the line of a node. -/
def note (n : Node) (kind : Diagnostic.Kind) : Diagnostic := .make kind n.line (some n.span)

end Node

end BusinessClass
