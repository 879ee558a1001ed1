import BusinessClass.Proofs.Document.Fixpoint
import BusinessClass.Proofs.Document.Regular
import BusinessClass.Proofs.SetRules.Membership

/-!
# Which rules belong to groups when a document is read again

Written and read again, a document has the same actions one by one. The rules of an action keep their
groups exactly when no text starts deeper than the group in front of it.

* `Action.ruleView` is what the rules of an action say: texts by their lines without indentation, groups
  without the numbers of their lines.
* `Document.Writable.map_ruleView_reread`: the rules of a document read again are the rules read again.
* `Document.ruleView_read_render_iff` says of each action when its rules stay the same.
-/

namespace BusinessClass

namespace Action

/-- The rules of an action without the indentation of text and without the numbers of lines. -/
def ruleView (a : Action) : Option (List (List Text ⊕ SetRuleGroup)) :=
  a.rules?.map fun rules => rules.items.map RuleItem.view

theorem rules?_relocate (ρ : Relocation) (a : Action) :
    (a.relocate ρ).rules? = a.rules?.map (ActionRules.relocate ρ) := by
  obtain ⟨header, kind, body, sections⟩ := a
  have found := Catalog.get?_map_key .actionRules (fun _ c => ActionSection.relocate ρ c) sections
  rw [relocate, relocateSections_eq_map, rules?, section?, found, rules?, section?]
  cases Catalog.get? sections .actionRules with
  | none => rfl
  | some c => cases c <;> rfl

@[simp] theorem ruleView_relocate (ρ : Relocation) (a : Action) : (a.relocate ρ).ruleView = a.ruleView := by
  rw [ruleView, rules?_relocate, Option.map_map, ruleView]
  exact congrArg (Option.map · a.rules?) (funext fun rules => rules.map_view_relocate ρ)

/-- The rules of an action stay the same when it is read again exactly when every text is detached from the
group in front of it. -/
theorem Writable.ruleView_reread_iff {a : Action} (h : a.Writable) :
    a.reread.ruleView = a.ruleView
      ↔ ∀ rules ∈ a.rules?, rules.items.IsChain RuleItem.Detached := by
  rw [ruleView, ruleView, h.rules?_reread]
  cases found : a.rules? with
  | none => simp
  | some rules =>
    cases h.sections _ (h.rules?_eq_some_iff.1 found) with
    | actionRules writable => simpa using writable.view_reread_iff

end Action

namespace Document

theorem actions_relocate (ρ : Relocation) (d : Document) :
    (d.relocate ρ).actions = d.actions.map (Action.relocate ρ) := by
  have each (x : Declaration) : (x.relocate ρ).action? = x.action?.map (Action.relocate ρ) := by
    cases x <;> rfl
  have found := Catalog.get?_map_key .actions (fun _ s => Section.relocate ρ s) d.sections
  rw [actions, section?, relocate, found, actions, section?]
  cases Catalog.get? d.sections .actions with
  | none => rfl
  | some s =>
    simp only [Option.map_some, Section.relocate]
    rw [List.filterMap_map, List.map_filterMap]
    exact List.filterMap_congr fun x _ => each x

variable {d : Document}

/-- A document that is read again has its actions read again. -/
theorem Writable.actions_reread (h : d.Writable) :
    d.reread.actions = d.actions.map fun a => a.reread.relocate (.shift 1) := by
  have found := Catalog.get?_map_key .actions (fun _ s => Section.reread s) d.sections
  rw [actions, section?, reread, found, actions, section?]
  cases content : Catalog.get? d.sections .actions with
  | none => rfl
  | some s =>
    obtain ⟨kind, writable⟩ := h.sections _ (Catalog.mem_of_get? content)
    have each : ∀ x ∈ s.declarations,
        ((Declaration.reread s.kind x).map (Declaration.relocate (.shift 1))).filterMap (·.action?)
          = (x.action?.map fun a => a.reread.relocate (.shift 1)).toList := by
      intro x hx
      rw [kind]
      cases writable x hx with
      | simple other => exact absurd rfl other
      | action writable => rw [writable.reread_action]; rfl
    simp only [Option.map_some, Section.reread]
    rw [List.map_flatMap, List.filterMap_flatMap, List.map_filterMap, List.filterMap_eq_flatMap_toList]
    exact List.flatMap_congr each

/-- The rules of a document that is read again are those of its actions read again. -/
theorem Writable.map_ruleView_reread (h : d.Writable) :
    d.reread.actions.map Action.ruleView = d.actions.map fun a => a.reread.ruleView := by
  rw [h.actions_reread, List.map_map]
  exact List.map_congr_left fun a _ => Action.ruleView_relocate _ _

theorem map_ruleView_relocate (ρ : Relocation) (d : Document) :
    (d.relocate ρ).actions.map Action.ruleView = d.actions.map Action.ruleView := by
  rw [actions_relocate, List.map_map]
  exact List.map_congr_left fun a _ => Action.ruleView_relocate ρ a

/-- A document with a class header has the same number of actions when it is written and read again, and the
rules of an action keep their groups exactly when no text starts deeper than the group in front of it. -/
theorem ruleView_read_render_iff {source : Text} (headed : (classRoot? {} (forest source)).isSome = true) :
    (read {} (read {} source).document.render).document.actions.length
        = (read {} source).document.actions.length ∧
      ∀ i : Nat, (read {} (read {} source).document.render).document.actions[i]?.map Action.ruleView
          = (read {} source).document.actions[i]?.map Action.ruleView
        ↔ ∀ a ∈ (read {} source).document.actions[i]?, ∀ rules ∈ a.rules?,
            rules.items.IsChain RuleItem.Detached := by
  obtain ⟨r, found⟩ := Option.isSome_iff_exists.1 headed
  obtain ⟨root, roots, header, hf, found⟩ := classRoot?_eq_some found
  obtain ⟨-, name, -⟩ := madeOf_read hf found
  have writable := writable_read source
  generalize (read {} source).document = d at name writable
  have titled : ¬ d.Untitled := by
    rintro ⟨none, -⟩
    rw [name] at none
    cases none
  -- Lines and depths move when the document is written, which the view of the rules does not see.
  obtain ⟨ρ, k, -, again⟩ := writable.document_read_render titled
  generalize (read {} d.render).document = e at again
  have views : e.actions.map Action.ruleView = d.actions.map fun a => a.reread.ruleView := by
    rw [← map_ruleView_relocate .unplace, again, map_ruleView_relocate, writable.map_ruleView_reread]
  refine ⟨by simpa using congrArg List.length views, fun i => ?_⟩
  have view_at := congrArg (·[i]?) views
  simp only [List.getElem?_map] at view_at
  rw [view_at]
  cases ha : d.actions[i]? with
  | none => simp
  | some a =>
    obtain ⟨s, hs, mem⟩ := writable.mem_actions_iff.1 (List.mem_of_getElem? ha)
    have action := (((writable.sections s hs).2 _ mem).of_action).2
    simpa using action.ruleView_reread_iff

/-- The numbers of lines of the texts, a group counted as zero. -/
def textLengths (view : Option (List (List Text ⊕ SetRuleGroup))) : Option (List Nat) :=
  view.map (List.map (Sum.elim List.length fun _ => 0))

theorem ruleView_read_render_orderSource : (classRoot? {} (forest orderSource)).isSome = true ∧
    (read {} (read {} orderSource).document.render).document.actions[0]?.map Action.ruleView
      = (read {} orderSource).document.actions[0]?.map Action.ruleView := by
  have headed : (classRoot? {} (forest orderSource)).isSome = true := by decide +kernel
  have detached : ∀ a ∈ (read {} orderSource).document.actions[0]?, ∀ rules ∈ a.rules?,
      rules.items.IsChain RuleItem.Detached := by
    decide +kernel
  exact ⟨headed, ((ruleView_read_render_iff headed).2 0).2 detached⟩

/-- In `straySource`, the line behind the group comes into the group. -/
theorem ruleView_read_render_ne : (classRoot? {} (forest straySource)).isSome = true ∧
    (Source.lines {} straySource).IsChain SourceLine.Steps ∧
    (read {} (read {} straySource).document.render).document.actions[0]?.map Action.ruleView
      ≠ (read {} straySource).document.actions[0]?.map Action.ruleView := by
  refine ⟨by decide +kernel, by decide +kernel, fun same => ?_⟩
  have counts := congrArg (Option.map textLengths) same
  exact absurd counts (by decide +kernel)

end Document

end BusinessClass
