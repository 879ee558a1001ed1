import BusinessClass.Proofs.Text.Checked
import BusinessClass.SetRules.Reading
import Mathlib.Tactic.SplitIfs

/-!
# Set Rules groups read by positions

The header of a group can be read by positions from its end: the last word but one, the last word, and the words in
front of both. If there are two words, none of these positions is below zero or behind the end. Everything else that
is read about groups depends on the lines alone.

* `Checked.groupKey_eq`: the key of a group is read without any operation that fails.
* `Checked.readGroup_eq` and `actionRules_eq`: so are groups and the rules of an action.
-/

namespace BusinessClass

namespace Checked

/-! ### Keys -/

/-- The key of the group that a line opens. -/
def groupKey (text : Text) : Option (Option GroupKey) :=
  let words := text.words
  if words.length < 2 then some none
  else do
    let set ← words[← sub? words.length 2]?
    if !Text.sameLetters set "set".toList then some none
    else do
      let rules ← words[← sub? words.length 1]?
      if !Text.sameLetters rules "rules".toList then some none
      else do
        let front ← takeFirst? (← sub? words.length 2) words
        some (GroupKey.ofWords? front)

/-- The positions from the end are there if there are two words. -/
theorem groupKey_eq (text : Text) : groupKey text = some (GroupKey.ofHeader? text) := by
  rw [groupKey, GroupKey.ofHeader?]
  generalize text.words = words
  obtain ⟨back, rfl⟩ : ∃ back, words = back.reverse := ⟨words.reverse, words.reverse_reverse.symm⟩
  rw [List.reverse_reverse]
  rcases back with - | ⟨rules, - | ⟨set, front⟩⟩
  · rfl
  · rfl
  · have shape : (rules :: set :: front).reverse = front.reverse ++ [set, rules] := by simp
    have size : (front.reverse ++ [set, rules]).length = front.length + 2 := by simp
    have lastButOne : (front.reverse ++ [set, rules])[front.length]? = some set := by
      rw [List.getElem?_append_right (by simp)]
      simp
    have last : (front.reverse ++ [set, rules])[front.length + 1]? = some rules := by
      rw [List.getElem?_append_right (by simp)]
      simp
    have others : takeFirst? front.length (front.reverse ++ [set, rules]) = some front.reverse := by
      rw [takeFirst?_of_le (by simp), ← List.length_reverse, List.take_left]
    simp only [shape, size, sub?_of_le (Nat.le_add_left 2 _), sub?_succ_one, Nat.add_sub_cancel, lastButOne, last,
      others, Option.bind_eq_bind, Option.bind_some, Bool.not_eq_true']
    cases Text.sameLetters set "set".toList <;> cases Text.sameLetters rules "rules".toList <;> rfl

open SetRuleGroup (entranceHeader exitHeader ofParts tooDeep unterminated)

mutual

/-- Reads a group at the given level of nesting. -/
def readGroup (o : Options) (level : Nat) (key : GroupKey) : Node → Option (Noted SetRuleGroup)
  | ⟨text, depth, line, span, children⟩ => do
    let parts ← readParts o level children
    some ⟨ofParts key line depth parts.value, unterminated key ⟨text, depth, line, span, children⟩ ++ parts.notes⟩

/-- Reads what stands directly under the header of a group at the given level of nesting. -/
def readParts (o : Options) (level : Nat) : List Node → Option (Noted (List GroupPart))
  | [] => some ⟨[], []⟩
  | n :: ns => do
    let rest ← readParts o level ns
    if n.headerIs entranceHeader then some ⟨.entrance n.bodyText :: rest.value, rest.notes⟩
    else if n.headerIs exitHeader then some ⟨.exit n.bodyText :: rest.value, rest.notes⟩
    else do
      match ← groupKey n.text with
      | none => some ⟨.rule n :: rest.value, rest.notes⟩
      | some key =>
        if o.admitsLevel (level + 1) then do
          let g ← readGroup o (level + 1) key n
          some ⟨.nested g.value :: rest.value, g.notes ++ rest.notes⟩
        else some ⟨.rule n :: rest.value, tooDeep o key n :: rest.notes⟩

end

mutual

theorem readGroup_eq (o : Options) (level : Nat) (key : GroupKey) :
    (n : Node) → readGroup o level key n = some (SetRuleGroup.read o level key n)
  | ⟨text, depth, line, span, children⟩ => by
    rw [readGroup, readParts_eq o level children, SetRuleGroup.read]
    rfl

theorem readParts_eq (o : Options) (level : Nat) :
    (ns : List Node) → readParts o level ns = some (SetRuleGroup.readParts o level ns)
  | [] => rfl
  | n :: ns => by
    have group := fun key => readGroup_eq o (level + 1) key n
    rw [readParts, SetRuleGroup.readParts]
    simp only [readParts_eq o level ns, groupKey_eq, group, Option.bind_eq_bind, Option.bind_some]
    cases GroupKey.ofHeader? n.text <;> split_ifs <;> rfl

end

/-! ### Rules of an action -/

open ActionRules (consLine item)

/-- Parts the lines under `Action Rules` into runs of plain lines and groups. -/
def readRuns (o : Options) : List Node → Option (Noted (List (List Node ⊕ SetRuleGroup)))
  | [] => some ⟨[], []⟩
  | n :: ns => do
    let rest ← readRuns o ns
    match ← groupKey n.text with
    | none => some ⟨consLine n rest.value, rest.notes⟩
    | some key =>
      if o.admitsLevel 1 then do
        let g ← readGroup o 1 key n
        some ⟨.inr g.value :: rest.value, g.notes ++ rest.notes⟩
      else some ⟨consLine n rest.value, tooDeep o key n :: rest.notes⟩

theorem readRuns_eq (o : Options) (forest : List Node) : readRuns o forest = some (ActionRules.readRuns o forest) := by
  induction forest with
  | nil => rfl
  | cons n ns ih =>
    rw [readRuns, ActionRules.readRuns]
    simp only [ih, groupKey_eq, readGroup_eq, Option.bind_eq_bind, Option.bind_some]
    cases GroupKey.ofHeader? n.text with
    | none => rfl
    | some key => split_ifs <;> rfl

/-- Reads the lines under `Action Rules`; text is written relative to the depth `base`. -/
def actionRules (o : Options) (base : Nat) (forest : List Node) : Option (Noted ActionRules) := do
  let runs ← readRuns o forest
  some ⟨⟨runs.value.map (item base)⟩, runs.notes⟩

theorem actionRules_eq (o : Options) (base : Nat) (forest : List Node) :
    actionRules o base forest = some (ActionRules.read o base forest) := by
  rw [actionRules, readRuns_eq]
  rfl

end Checked

end BusinessClass
