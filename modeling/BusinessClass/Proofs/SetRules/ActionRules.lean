import BusinessClass.Proofs.SetRules.RoundTrip
import Mathlib.Data.List.Chain

/-!
# Writing the rules of an action and reading them again

The rules of an action are runs of plain lines and groups in turn. They are written one below the
other: the groups at the depth of the sub-section, and the text as it stands in the item. Text that
starts deeper than the group before it comes under that group.

* `ActionRules.Writable` is what rules that are read satisfy (`writable_read`).
* `RuleItem.Detached` says that text does not start deeper than the group in front of it.
* `flatMap_joined_runs`: the runs, one behind the other, are the lines that they join, each taken for text or for a
  group.
* `reread_eq`: rules whose text is detached from groups are read again as they are.
-/

namespace BusinessClass

namespace RuleItem

/-- The item can be written; no line of a text that is not under another opens a group. -/
def Writable : RuleItem → Prop
  | .text t => t.IsBlock ∧ t ≠ [] ∧ ∀ n ∈ Forest.outline t.lines, GroupKey.ofHeader? n.text = none
  | .group g => g.Writable

/-- No text follows text. -/
def Alternates : RuleItem → RuleItem → Prop
  | .text _, .text _ => False
  | _, _ => True

/-- Text behind a group starts at the depth of the group. -/
def Detached : RuleItem → RuleItem → Prop
  | .group _, .text t => t.head? ≠ some '\t'
  | _, _ => True

instance (i j : RuleItem) : Decidable (Detached i j) :=
  match i, j with
  | .group _, .text t => inferInstanceAs (Decidable (t.head? ≠ some '\t'))
  | .group _, .group _ => .isTrue trivial
  | .text _, .text _ => .isTrue trivial
  | .text _, .group _ => .isTrue trivial

theorem Writable.isLine {i : RuleItem} (h : i.Writable) : ∀ l ∈ i.renderLines, l.IsLine := by
  cases i with
  | text t => exact h.1.isLine
  | group g => exact SetRuleGroup.Writable.isLine h

/-- The run that an item is read from when it is written. -/
def run : RuleItem → List Node ⊕ SetRuleGroup
  | .text t => .inl (Forest.outline t.lines)
  | .group g => .inr (g.relocate .unplace)

/-- Text starts with a tab exactly when its first line is not at depth zero. -/
theorem flush_text_iff {t : Text} (h : t.IsBlock) : Lines.Flush t.lines ↔ t.head? ≠ some '\t' := by
  obtain ⟨ls, lines, rfl⟩ := h
  rw [Text.lines_stack lines]
  cases ls with
  | nil => simp [Lines.Flush]
  | cons l ls =>
    have ne := (lines l List.mem_cons_self).ne_nil
    obtain ⟨c, l, rfl⟩ := List.exists_cons_of_ne_nil ne
    have head : (Text.stack ((c :: l) :: ls)).head? = some c := by
      cases ls with
      | nil => rw [Text.stack_singleton]; rfl
      | cons m ms => rw [Text.stack_cons_cons]; rfl
    rw [head]
    by_cases hc : c = '\t' <;> simp [Lines.Flush, SourceLine.ofText, hc]

/-- An item starts at depth zero behind another item that it is detached from. -/
theorem flush_of_detached {i j : RuleItem} (alternates : Alternates i j) (detached : Detached i j)
    (h : j.Writable) : Lines.Flush j.renderLines := by
  match i, j with
  | .group _, .text t => exact (flush_text_iff h.1).2 detached
  | _, .group g => exact SetRuleGroup.Writable.flush h

end RuleItem

namespace ActionRules

open RuleItem (Alternates Detached)

/-- The rules can be written. -/
structure Writable (rules : ActionRules) : Prop where
  items : ∀ i ∈ rules.items, i.Writable
  alternates : rules.items.IsChain Alternates

/-- The lines of rules. -/
def renderLines (rules : ActionRules) : List Text := rules.items.flatMap RuleItem.renderLines

theorem Writable.isLine {rules : ActionRules} (h : rules.Writable) : ∀ t ∈ rules.renderLines, t.IsLine := by
  intro t ht
  obtain ⟨i, hi, ht⟩ := List.mem_flatMap.1 ht
  exact (h.items i hi).isLine t ht

/-- The rules as they are read again from their lines. -/
def reread (rules : ActionRules) : ActionRules := (read {} 0 (Forest.outline rules.renderLines)).value

theorem addRun_of_plain {n : Node} (plain : GroupKey.ofHeader? n.text = none)
    (rest : List (List Node ⊕ SetRuleGroup)) : addRun {} n rest = consLine n rest := by
  rw [addRun, plain]

theorem addRun_of_group {n : Node} {key : GroupKey} (group : GroupKey.ofHeader? n.text = some key)
    (rest : List (List Node ⊕ SetRuleGroup)) :
    addRun {} n rest = .inr (SetRuleGroup.read {} 1 key n).value :: rest := by
  rw [addRun, group]
  rfl

/-- Plain lines in front of a group, or of nothing, are one run. -/
theorem foldr_addRun_of_plain {f : List Node} (ne : f ≠ [])
    (plain : ∀ n ∈ f, GroupKey.ofHeader? n.text = none) {rest : List (List Node ⊕ SetRuleGroup)}
    (closed : ∀ r ∈ rest.head?, ∃ g, r = .inr g) : f.foldr (addRun {}) rest = .inl f :: rest := by
  induction f with
  | nil => exact absurd rfl ne
  | cons n ns ih =>
    rw [List.foldr_cons, addRun_of_plain (plain n List.mem_cons_self)]
    cases ns with
    | nil =>
      match rest with
      | [] => rfl
      | .inr g :: rest => rfl
      | .inl run :: rest =>
        obtain ⟨g, hg⟩ := closed (.inl run) rfl
        cases hg
    | cons m ms =>
      rw [ih (by simp) fun k hk => plain k (List.mem_cons_of_mem n hk)]
      rfl

/-! ### Runs and the lines that they join -/

/-- A line opens a group, or it is one more plain line, as it always is where the options admit no group. -/
theorem addRun_cases (o : Options) (n : Node) (rest : List (List Node ⊕ SetRuleGroup)) :
    (∃ key, GroupKey.ofHeader? n.text = some key ∧ o.admitsLevel 1 = true ∧
        addRun o n rest = .inr (SetRuleGroup.read o 1 key n).value :: rest) ∨
      (((GroupKey.ofHeader? n.text).isSome && o.admitsLevel 1) = false ∧ addRun o n rest = consLine n rest) := by
  rw [addRun]
  cases GroupKey.ofHeader? n.text with
  | none => exact .inr ⟨rfl, rfl⟩
  | some key =>
    cases admitted : o.admitsLevel 1 with
    | true => exact .inl ⟨key, rfl, rfl, rfl⟩
    | false => exact .inr ⟨rfl, rfl⟩

/-- What a line under `Action Rules` is by itself: a group, or a plain line. -/
def alone (o : Options) (n : Node) : Node ⊕ SetRuleGroup :=
  match GroupKey.ofHeader? n.text with
  | none => .inl n
  | some key => if o.admitsLevel 1 then .inr (SetRuleGroup.read o 1 key n).value else .inl n

/-- The lines that a run joins; a group stays by itself. -/
def joined : List Node ⊕ SetRuleGroup → List (Node ⊕ SetRuleGroup)
  | .inl run => run.map .inl
  | .inr g => [.inr g]

theorem alone_of_plain {o : Options} {n : Node} (plain : GroupKey.ofHeader? n.text = none) : alone o n = .inl n := by
  rw [alone, plain]

theorem alone_of_group {n : Node} {key : GroupKey} (group : GroupKey.ofHeader? n.text = some key) :
    alone {} n = .inr (SetRuleGroup.read {} 1 key n).value := by
  rw [alone, group]
  rfl

theorem flatMap_joined_consLine (n : Node) (rest : List (List Node ⊕ SetRuleGroup)) :
    (consLine n rest).flatMap joined = .inl n :: rest.flatMap joined := by
  rcases rest with - | ⟨run | g, rest⟩ <;> rfl

/-- Taken apart again, the runs are the lines in their order. -/
theorem flatMap_joined_runs (o : Options) (f : List Node) :
    (f.foldr (addRun o) []).flatMap joined = f.map (alone o) := by
  induction f with
  | nil => rfl
  | cons n ns ih =>
    rw [List.foldr_cons, List.map_cons, ← ih, addRun, alone]
    cases GroupKey.ofHeader? n.text with
    | none => exact flatMap_joined_consLine n _
    | some key =>
      simp only
      split
      · rfl
      · exact flatMap_joined_consLine n _

theorem exists_alone_of_mem_runs {o : Options} {f : List Node} {r : List Node ⊕ SetRuleGroup}
    (hr : r ∈ f.foldr (addRun o) []) {x : Node ⊕ SetRuleGroup} (hx : x ∈ joined r) : ∃ n ∈ f, alone o n = x := by
  have mem := List.mem_flatMap.2 ⟨r, hr, hx⟩
  rw [flatMap_joined_runs] at mem
  exact List.mem_map.1 mem

theorem ne_nil_of_mem_runs {o : Options} {f run : List Node} (h : .inl run ∈ f.foldr (addRun o) []) : run ≠ [] := by
  induction f generalizing run with
  | nil => cases h
  | cons n ns ih =>
    rw [List.foldr_cons] at h
    rcases addRun_cases o n (ns.foldr (addRun o) []) with ⟨key, -, -, group⟩ | ⟨-, plain⟩
    · rw [group] at h
      exact ih (List.mem_of_ne_of_mem Sum.inl_ne_inr h)
    · rw [plain] at h
      match ns.foldr (addRun o) [], @ih, h with
      | [], _, h =>
        rw [Sum.inl.inj (List.mem_singleton.1 h)]
        exact List.cons_ne_nil n []
      | .inr g :: rest, ih, h =>
        rcases List.mem_cons.1 h with same | later
        · rw [Sum.inl.inj same]
          exact List.cons_ne_nil n []
        · exact ih later
      | .inl first :: rest, ih, h =>
        rcases List.mem_cons.1 h with same | later
        · rw [Sum.inl.inj same]
          exact List.cons_ne_nil n first
        · exact ih (List.mem_cons_of_mem _ later)

/-! ### Rules that are read can be written -/

/-- A run is made of plain lines of the forest, a group of one line that opens it. -/
def RunOf (f : List Node) : List Node ⊕ SetRuleGroup → Prop
  | .inl run => run ≠ [] ∧ ∀ n ∈ run, n ∈ f ∧ GroupKey.ofHeader? n.text = none
  | .inr g => ∃ n ∈ f, ∃ key, GroupKey.ofHeader? n.text = some key ∧
      g = (SetRuleGroup.read {} 1 key n).value

theorem runOf_foldr_addRun (f : List Node) : ∀ r ∈ f.foldr (addRun {}) [], RunOf f r := by
  intro r hr
  cases r with
  | inl run =>
    refine ⟨ne_nil_of_mem_runs hr, fun n hn => ?_⟩
    obtain ⟨m, hm, is⟩ := exists_alone_of_mem_runs hr (List.mem_map_of_mem hn)
    cases group : GroupKey.ofHeader? m.text with
    | none =>
      rw [alone_of_plain group] at is
      obtain rfl := Sum.inl.inj is
      exact ⟨hm, group⟩
    | some key =>
      rw [alone_of_group group] at is
      cases is
  | inr g =>
    obtain ⟨m, hm, is⟩ := exists_alone_of_mem_runs hr (List.mem_singleton_self _)
    cases group : GroupKey.ofHeader? m.text with
    | none =>
      rw [alone_of_plain group] at is
      cases is
    | some key =>
      rw [alone_of_group group] at is
      exact ⟨m, hm, key, group, (Sum.inr.inj is).symm⟩

/-- A run of tidy lines is tidy. -/
theorem RunOf.tidy {f run : List Node} (h : RunOf f (.inl run)) (tidy : Forest.Tidy f) : Forest.Tidy run :=
  Forest.tidy_of_forall fun n hn => ⟨tidy.isContent (h.2 n hn).1, tidy.children (h.2 n hn).1⟩

theorem isChain_foldr_addRun (o : Options) (base : Nat) (f : List Node) :
    ((f.foldr (addRun o) []).map (item base)).IsChain Alternates := by
  induction f with
  | nil => exact .nil
  | cons n ns ih =>
    rw [List.foldr_cons]
    rcases addRun_cases o n (ns.foldr (addRun o) []) with ⟨key, -, -, group⟩ | ⟨-, plain⟩
    · rw [group, List.map_cons, List.isChain_cons]
      exact ⟨fun _ _ => trivial, ih⟩
    · rw [plain]
      match ns.foldr (addRun o) [], ih with
      | [], _ => exact .singleton _
      | .inr g :: rest, ih =>
        rw [consLine, List.map_cons, List.isChain_cons]
        · exact ⟨fun i hi => by obtain rfl := Option.some.inj hi; trivial, ih⟩
        · simp
      | .inl run :: rest, ih =>
        rw [List.map_cons, List.isChain_cons] at ih
        rw [consLine, List.map_cons, List.isChain_cons]
        refine ⟨fun i hi => ?_, ih.2⟩
        have alternates := ih.1 i hi
        cases i with
        | text t => exact alternates
        | group g => trivial

/-- Rules that are read can be written. -/
theorem writable_read {f : List Node} (trees : ∀ n ∈ f, Forest.NestedTree n) (tidy : Forest.Tidy f)
    {base : Nat} (le : ∀ l ∈ Forest.lines f, base ≤ l.depth) : (read {} base f).value.Writable := by
  refine ⟨?_, by rw [items_read]; exact isChain_foldr_addRun {} base f⟩
  rw [items_read]
  intro i hi
  obtain ⟨r, hr, rfl⟩ := List.mem_map.1 hi
  have runOf := runOf_foldr_addRun f r hr
  cases r with
  | inl run =>
    have run_tidy := runOf.tidy tidy
    obtain ⟨ne, plain⟩ := runOf
    have run_le : ∀ l ∈ Forest.lines run, base ≤ l.depth := by
      intro l hl
      obtain ⟨n, hn, hl⟩ := Forest.mem_lines_iff.1 hl
      exact le l (Forest.mem_lines_iff.2 ⟨n, (plain n hn).1, hl⟩)
    refine ⟨Forest.isBlock_text run_tidy base, fun empty => ?_, fun n hn => ?_⟩
    · have := Forest.lines_text run_tidy base
      rw [empty] at this
      cases run with
      | nil => exact ne rfl
      | cons n ns => simp [Text.lines] at this
    · obtain ⟨m, hm, text⟩ := Forest.exists_of_mem_outline_text (fun n hn => trees n (plain n hn).1)
        run_tidy run_le n hn
      rw [text]
      exact (plain m hm).2
  | inr g =>
    obtain ⟨n, hn, key, group, rfl⟩ := runOf
    exact SetRuleGroup.writable_read (trees n hn) (tidy.children hn) group 1

/-! ### Rules that are written are read again -/

/-- Behind the first item, all items start at depth zero. -/
theorem flush_of_isChain {i : RuleItem} {items : List RuleItem} (h : ∀ j ∈ items, j.Writable)
    (alternates : (i :: items).IsChain Alternates) (detached : (i :: items).IsChain Detached) :
    ∀ j ∈ items, Lines.Flush j.renderLines := by
  induction items generalizing i with
  | nil => simp
  | cons j items ih =>
    obtain ⟨alternate, alternates⟩ := List.isChain_cons.1 alternates
    obtain ⟨detach, detached⟩ := List.isChain_cons.1 detached
    intro k hk
    rcases List.mem_cons.1 hk with rfl | hk
    · exact RuleItem.flush_of_detached (alternate k rfl) (detach k rfl) (h k List.mem_cons_self)
    · exact ih (fun m hm => h m (List.mem_cons_of_mem j hm)) alternates detached k hk

/-- The runs of one item in front of others. -/
theorem foldr_addRun_item {i : RuleItem} (h : i.Writable) {rest : List (List Node ⊕ SetRuleGroup)}
    (alternates : ∀ r ∈ rest.head?, (∃ g, r = .inr g) ∨ ∃ g, i = .group g) :
    (Forest.outline i.renderLines).foldr (addRun {}) rest = i.run :: rest := by
  cases i with
  | text t =>
    obtain ⟨block, ne, plain⟩ := h
    have some_line : Forest.outline t.lines ≠ [] := by
      intro none
      have := Forest.lines_outline t.lines
      rw [none] at this
      exact block.lines_ne_nil ne (List.map_eq_nil_iff.1 this.symm)
    refine foldr_addRun_of_plain some_line plain fun r hr => ?_
    rcases alternates r hr with group | ⟨g, hg⟩
    · exact group
    · cases hg
  | group g =>
    have group : GroupKey.ofHeader? g.node.text = some g.key := h.key_writable.ofHeader?
    rw [RuleItem.renderLines, h.outline_renderLines, List.foldr_cons, List.foldr_nil,
      addRun_of_group group, h.value_read_node]
    rfl

/-- The runs of items that start at depth zero. -/
theorem foldr_addRun_items {items : List RuleItem} (h : ∀ i ∈ items, i.Writable)
    (alternates : items.IsChain Alternates) :
    (items.flatMap fun i => Forest.outline i.renderLines).foldr (addRun {}) [] = items.map RuleItem.run := by
  induction items with
  | nil => rfl
  | cons i items ih =>
    obtain ⟨alternate, alternates⟩ := List.isChain_cons.1 alternates
    rw [List.flatMap_cons, List.foldr_append, ih (fun j hj => h j (List.mem_cons_of_mem i hj)) alternates,
      foldr_addRun_item (h i List.mem_cons_self), List.map_cons]
    intro r hr
    rw [List.head?_map] at hr
    obtain ⟨j, hj, rfl⟩ := Option.map_eq_some_iff.1 hr
    have := alternate j hj
    match i, j with
    | .group g, _ => exact Or.inr ⟨g, rfl⟩
    | .text _, .group g => exact Or.inl ⟨_, rfl⟩

theorem item_run {i : RuleItem} (h : i.Writable) : item 0 i.run = i.relocate .unplace := by
  cases i with
  | text t =>
    refine congrArg RuleItem.text ?_
    rw [Forest.text_outline, h.1.stack_lines]
  | group g => rfl

/-- Rules whose text is detached from groups are read again as they are. -/
theorem Writable.reread_eq {rules : ActionRules} (h : rules.Writable)
    (detached : rules.items.IsChain Detached) : rules.reread = rules.relocate .unplace := by
  have outline_eq : Forest.outline rules.renderLines
      = rules.items.flatMap fun i => Forest.outline i.renderLines := by
    rw [renderLines]
    cases hi : rules.items with
    | nil => rfl
    | cons i items =>
      rw [hi] at detached
      have flush := flush_of_isChain (fun j hj => h.items j (by rw [hi]; exact List.mem_cons_of_mem i hj))
        (hi ▸ h.alternates) detached
      rw [List.flatMap_cons, Forest.outline_append (Lines.flush_flatMap flush),
        Forest.outline_flatMap flush, List.flatMap_cons]
  have moved : rules.items.map (item 0 ∘ RuleItem.run) = rules.items.map (RuleItem.relocate .unplace) :=
    List.map_congr_left fun i hi => item_run (h.items i hi)
  have items_eq := items_read {} 0 (Forest.outline rules.renderLines)
  rw [outline_eq, foldr_addRun_items h.items h.alternates, List.map_map, moved] at items_eq
  rw [reread, outline_eq, relocate, ← items_eq]

end ActionRules

end BusinessClass
