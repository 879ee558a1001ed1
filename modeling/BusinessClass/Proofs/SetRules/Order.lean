import BusinessClass.Proofs.SetRules.ActionRules
import Mathlib.Algebra.Ring.Nat

/-!
# Groups in written order

A group is written in a fixed order: its rules, its entrance rules, its exit rules, the nested groups. A
group that stands in the source in this order, one level at a time, is written as it stands; any other
one is not.

* `Node.InOrder` says that a group stands in written order.
* `SetRuleGroup.InOrder.renderLines_read`: such a group is written as it stands, and
  `SetRuleGroup.Writable.inOrder_node`: a group that was written stands in written order.
* `ActionRules.renderLines_reread_iff`: rules that are read again are written in the same lines exactly
  when all groups among these lines stand in written order.
-/

namespace BusinessClass

section Pieces

variable {α β : Type} {f g : α → List β} {as : List α} (le : ∀ a ∈ as, (f a).length ≤ (g a).length)

include le

theorem length_flatMap_le : (as.flatMap f).length ≤ (as.flatMap g).length := by
  induction as with
  | nil => exact Nat.le_refl 0
  | cons a as ih =>
    rw [List.flatMap_cons, List.flatMap_cons, List.length_append, List.length_append]
    exact Nat.add_le_add (le a List.mem_cons_self) (ih fun b hb => le b (List.mem_cons_of_mem a hb))

/-- Where no piece got longer, pieces one after the other are the same only if each of them is. -/
theorem flatMap_eq_flatMap_iff : as.flatMap f = as.flatMap g ↔ ∀ a ∈ as, f a = g a := by
  refine ⟨fun h => ?_, fun h => List.flatMap_congr h⟩
  induction as with
  | nil => simp
  | cons a as ih =>
    have rest := fun b hb => le b (List.mem_cons_of_mem a hb)
    have rest_le := length_flatMap_le rest
    have first_le := le a List.mem_cons_self
    rw [List.flatMap_cons, List.flatMap_cons] at h
    have length : (f a).length = (g a).length := by
      have := congrArg List.length h
      rw [List.length_append, List.length_append] at this
      omega
    obtain ⟨first_eq, rest_eq⟩ := List.append_inj h length
    intro b hb
    rcases List.mem_cons.1 hb with rfl | hb
    · exact first_eq
    · exact ih rest rest_eq b hb

end Pieces

namespace Forest

/-! ### Lines as they are written -/

/-- The lines of a forest as they are written relative to a depth. -/
def rows (base : Nat) (f : List Node) : List Text := (lines f).map (lineOf base)

@[simp] theorem rows_append (base : Nat) (f g : List Node) : rows base (f ++ g) = rows base f ++ rows base g := by
  simp [rows]

@[simp] theorem length_rows (base : Nat) (f : List Node) : (rows base f).length = (lines f).length := by
  simp [rows]

theorem rows_eq_flatMap (base : Nat) (f : List Node) : rows base f = f.flatMap fun n => rows base [n] := by
  induction f with
  | nil => rfl
  | cons n ns ih => rw [← List.singleton_append, rows_append, ih, List.singleton_append, List.flatMap_cons]

theorem rows_outline (ls : List Text) : rows 0 (outline ls) = ls := by
  have written : lineOf 0 ∘ SourceLine.ofText = id := funext SourceLine.lineOf_ofText
  rw [rows, lines_outline, List.map_map, written, List.map_id]

theorem indent_rows {base : Nat} {f : List Node} (deeper : ∀ l ∈ lines f, base < l.depth) :
    Lines.indent (rows (base + 1) f) = rows base f := by
  rw [Lines.indent, rows, rows, List.map_map]
  refine List.map_congr_left fun l hl => ?_
  have := deeper l hl
  have depth : l.depth - base = (l.depth - (base + 1)) + 1 := by omega
  simp [lineOf, depth, List.replicate_succ]

/-- A tree is written as its line with the lines under it one level in. -/
theorem rows_singleton {n : Node} (tree : NestedTree n) :
    rows n.depth [n] = n.text :: Lines.indent (rows (n.depth + 1) n.children) := by
  rw [indent_rows tree.lt_of_mem_lines]
  simp [rows, lineOf]

/-- A tree of an outline is the outline of its lines. -/
theorem outline_rows {ls : List Text} (h : ∀ t ∈ ls, t.IsLine) {n : Node} (mem : n ∈ outline ls) :
    outline (rows 0 [n]) = [n] := by
  have tidy := tidy_outline h
  have fixed : (outline ls).map (Node.relocate (.rebase 0)) = outline ls := by
    have := outline_lines_text tidy (b := 0) fun _ _ => Nat.zero_le _
    rw [lines_text tidy, ofLines_lines (nested_outline ls)] at this
    exact this.symm.trans (congrArg outline (rows_outline ls))
  have self : n.relocate (.rebase 0) = n :=
    List.map_inj_left.1 (fixed.trans (List.map_id _).symm) n mem
  have tree := (nested_outline ls).tree mem
  have single : Tidy [n] := tidy_cons.2 ⟨tidy.isContent mem, tidy.children mem, tidy_nil⟩
  have := outline_lines_text single (b := 0) fun _ _ => Nat.zero_le _
  have nested : Nested [n] := (nested_cons n []).2 ⟨tree, by simp, trivial⟩
  rw [lines_text single, ofLines_lines nested, List.map_singleton, self] at this
  exact this

end Forest

open Forest (rows NestedTree Tidy)

/-- The node is a group at that depth that stands in written order. -/
inductive Node.InOrder : Nat → Node → Prop
  | mk {depth : Nat} {n : Node} {key : GroupKey} {rules groups : List Node} {entrance exit : Option Node}
      (at_depth : n.depth = depth) (opens : GroupKey.ofHeader? n.text = some key)
      (header : n.text = key.header)
      (children : n.children = rules ++ entrance.toList ++ exit.toList ++ groups)
      (isRule : ∀ m ∈ rules, m.IsRule)
      (entrance_header : ∀ m ∈ entrance, m.text = SetRuleGroup.entranceHeader ∧ m.depth = depth + 1)
      (exit_header : ∀ m ∈ exit, m.text = SetRuleGroup.exitHeader ∧ m.depth = depth + 1)
      (nested : ∀ m ∈ groups, InOrder (depth + 1) m) : InOrder depth n

namespace SetRuleGroup

open Node (InOrder)

/-! ### Groups in written order are written as they stand -/

/-- Entrance or exit rules one level below the header of the group are written as they stand. -/
theorem renderPart_eq_rows {header : Text} {depth : Nat} {part : Option Node}
    (text : ∀ m ∈ part, m.text = header ∧ m.depth = depth)
    (trees : ∀ m ∈ part, NestedTree m ∧ Tidy m.children) :
    renderPart header (part.map Node.bodyText) = rows depth part.toList := by
  cases part with
  | none => rfl
  | some m =>
    obtain ⟨rfl, rfl⟩ := text m rfl
    obtain ⟨tree, tidy⟩ := trees m rfl
    rw [Option.toList, Forest.rows_singleton tree]
    exact congrArg (fun ls => m.text :: Lines.indent ls) (Forest.lines_text tidy _)

theorem rows_text? {f : List Node} (tidy : Tidy f) (depth : Nat) :
    ((Forest.text? f depth).getD []).lines = rows depth f := by
  cases f with
  | nil => rfl
  | cons n ns => exact Forest.lines_text tidy depth

/-- What stands directly under a group in written order. -/
theorem map_part_of_inOrder {depth level : Nat} {rules groups : List Node} {entrance exit : Option Node}
    (isRule : ∀ m ∈ rules, m.IsRule) (entrance_header : ∀ m ∈ entrance, m.text = entranceHeader)
    (exit_header : ∀ m ∈ exit, m.text = exitHeader)
    (nested : ∀ m ∈ groups, ∃ g, part {} level m = .nested g ∧ g.renderLines = rows depth [m]) :
    ∃ gs, (rules ++ entrance.toList ++ exit.toList ++ groups).map (part {} level)
        = writtenParts rules (entrance.map Node.bodyText) (exit.map Node.bodyText) gs ∧
      renderAll gs = rows depth groups := by
  have groups_eq : ∃ gs : List SetRuleGroup,
      groups.map (part {} level) = gs.map .nested ∧ renderAll gs = rows depth groups := by
    clear isRule entrance_header exit_header
    induction groups with
    | nil => exact ⟨[], rfl, rfl⟩
    | cons m ms ih =>
      obtain ⟨g, hg, lines⟩ := nested m List.mem_cons_self
      obtain ⟨gs, hgs, rest⟩ := ih fun m' hm' => nested m' (List.mem_cons_of_mem m hm')
      refine ⟨g :: gs, by rw [List.map_cons, List.map_cons, hg, hgs], ?_⟩
      rw [renderAll, lines, rest, ← Forest.rows_append, List.singleton_append]
  obtain ⟨gs, hgs, lines⟩ := groups_eq
  refine ⟨gs, ?_, lines⟩
  have rules_eq : rules.map (part {} level) = rules.map .rule := List.map_congr_left fun m hm => by
    obtain ⟨entrance, exit, group⟩ := isRule m hm
    simp [part, entrance, exit, group]
  rw [writtenParts, List.map_append, List.map_append, List.map_append, hgs, rules_eq]
  congr 2
  · congr 1
    cases entrance with
    | none => rfl
    | some m =>
      have header : m.headerIs entranceHeader = true := by
        rw [Node.headerIs, entrance_header m rfl, Text.sameWords_refl]
      simp [part, header]
  · cases exit with
    | none => rfl
    | some m =>
      have header : m.headerIs exitHeader = true := by
        rw [Node.headerIs, exit_header m rfl, Text.sameWords_refl]
      have other : m.headerIs entranceHeader = false := by
        rw [Node.headerIs, exit_header m rfl, not_headerIs_exit]
      simp [part, header, other]

theorem part_of_group {n : Node} {key : GroupKey} (group : GroupKey.ofHeader? n.text = some key)
    (level : Nat) : part {} level n = .nested (read {} (level + 1) key n).value := by
  obtain ⟨entrance, exit⟩ := GroupKey.not_part_of_ofHeader? group
  rw [part, Node.headerIs, Node.headerIs, entrance, exit, group]
  rfl

/-- A group in written order is written as it stands. -/
theorem renderLines_read_of_inOrder {depth : Nat} {n : Node} (h : n.InOrder depth) (tree : NestedTree n)
    (tidy : Tidy n.children) {key : GroupKey} (group : GroupKey.ofHeader? n.text = some key)
    (level : Nat) : (read {} level key n).value.renderLines = rows depth [n] := by
  induction h generalizing level key with
  | @mk depth n key' rules groups entrance exit at_depth opens header children isRule entrance_header
      exit_header nested ih =>
    subst at_depth
    obtain rfl : key' = key := Option.some.inj (opens.symm.trans group)
    have mem {m : Node} (hm : m ∈ rules ++ entrance.toList ++ exit.toList ++ groups) :
        NestedTree m ∧ Tidy m.children := by
      rw [← children] at hm
      exact ⟨tree.children.tree hm, tidy.children hm⟩
    have under : ∀ m ∈ groups, ∃ g, part {} level m = .nested g ∧ g.renderLines = rows (n.depth + 1) [m] := by
      intro m hm
      obtain ⟨tree, tidy⟩ := mem (List.mem_append_right _ hm)
      cases nested m hm with
      | mk _ opens _ _ _ _ _ _ =>
        exact ⟨_, part_of_group opens level, ih m hm tree tidy opens (level + 1)⟩
    obtain ⟨gs, parts, lines⟩ := map_part_of_inOrder isRule (fun m hm => (entrance_header m hm).1)
      (fun m hm => (exit_header m hm).1) under
    have rules_tidy : Tidy rules := by
      refine tidy.sublist ?_
      rw [children, List.append_assoc, List.append_assoc]
      exact List.sublist_append_left _ _
    rw [value_read, children, parts, ofParts_writtenParts, renderLines, lines, rows_text? rules_tidy,
      renderPart_eq_rows entrance_header fun m hm => mem ?_,
      renderPart_eq_rows exit_header fun m hm => mem ?_, Forest.rows_singleton tree, children, header,
      Forest.rows_append, Forest.rows_append, Forest.rows_append]
    · simp [Option.mem_def.1 hm]
    · simp [Option.mem_def.1 hm]

/-! ### Groups that were written stand in written order -/

/-- Moving a group deeper keeps its order. -/
theorem inOrder_relocate {ρ : Relocation} {k : Nat} (shifts : ρ.Shifts k) {depth : Nat} {n : Node}
    (h : n.InOrder depth) : (n.relocate ρ).InOrder (depth + k) := by
  induction h with
  | @mk depth n key rules groups entrance exit at_depth opens header children isRule entrance_header
      exit_header nested ih =>
    have moved {part : Option Node} {header : Text}
        (h : ∀ m ∈ part, m.text = header ∧ m.depth = depth + 1) :
        ∀ m ∈ part.map (Node.relocate ρ), m.text = header ∧ m.depth = depth + k + 1 := by
      intro m hm
      obtain ⟨m', hm', rfl⟩ := Option.map_eq_some_iff.1 hm
      obtain ⟨text, at_depth⟩ := h m' hm'
      refine ⟨by rw [Node.text_relocate, text], ?_⟩
      rw [Node.depth_relocate, shifts, at_depth]
      omega
    refine @Node.InOrder.mk _ _ key (rules.map (Node.relocate ρ)) (groups.map (Node.relocate ρ))
      (entrance.map (Node.relocate ρ)) (exit.map (Node.relocate ρ)) ?_ ?_ ?_ ?_ ?_ (moved entrance_header)
      (moved exit_header) ?_
    · rw [Node.depth_relocate, shifts, at_depth]
    · rw [Node.text_relocate, opens]
    · rw [Node.text_relocate, header]
    · rw [Node.children_relocate, children]
      cases entrance <;> cases exit <;> simp
    · intro m hm
      obtain ⟨m', hm', rfl⟩ := List.mem_map.1 hm
      exact (isRule m' hm').of_text_eq (Node.text_relocate ρ m')
    · intro m hm
      obtain ⟨m', hm', rfl⟩ := List.mem_map.1 hm
      rw [Nat.add_right_comm]
      exact ih m' hm'

/-- A group that was written stands in written order. -/
theorem Writable.inOrder_node {g : SetRuleGroup} (h : g.Writable) : g.node.InOrder 0 := by
  induction h with
  | @mk key line entrance exit rules children writable entrance_block exit_block rules_block nested ih =>
    have shift := Relocation.shifts_shift 1
    have part {header : Text} (t : Option Text) :
        ∀ m ∈ (t.map (partNode header)).map (Node.relocate (.shift 1)), m.text = header ∧ m.depth = 0 + 1 := by
      intro m hm
      cases t with
      | none => cases hm
      | some t =>
        obtain rfl := Option.some.inj hm
        exact ⟨Node.text_relocate _ _, Node.depth_relocate _ _⟩
    refine @Node.InOrder.mk _ _ key ((Forest.outline (rules.getD []).lines).map (Node.relocate (.shift 1)))
      ((children.map node).map (Node.relocate (.shift 1))) _ _ rfl writable.ofHeader? rfl ?_ ?_
      (part entrance) (part exit) ?_
    · rw [node, outline_innerLines nested, outline_renderPart isContent_entranceHeader,
        outline_renderPart isContent_exitHeader]
      cases entrance <;> cases exit <;> simp
    · intro m hm
      obtain ⟨m', hm', rfl⟩ := List.mem_map.1 hm
      cases rules with
      | none => cases hm'
      | some t => exact ((rules_block t rfl).isRule m' hm').of_text_eq (Node.text_relocate _ m')
    · intro m hm
      obtain ⟨m', hm', rfl⟩ := List.mem_map.1 hm
      obtain ⟨g, hg, rfl⟩ := List.mem_map.1 hm'
      exact inOrder_relocate shift (ih g hg)

/-- Among written lines, a group is written as it stands exactly when it stands in written order. -/
theorem renderLines_read_iff {ls : List Text} (h : ∀ t ∈ ls, t.IsLine) {n : Node}
    (mem : n ∈ Forest.outline ls) {key : GroupKey} (group : GroupKey.ofHeader? n.text = some key)
    (level : Nat) : (read {} level key n).value.renderLines = rows 0 [n] ↔ n.InOrder 0 := by
  have tree := (Forest.nested_outline ls).tree mem
  have tidy := (Forest.tidy_outline h).children mem
  refine ⟨fun same => ?_, fun inOrder => renderLines_read_of_inOrder inOrder tree tidy group level⟩
  have writable := writable_read tree tidy group level
  have outline_eq := writable.outline_renderLines
  rw [same, Forest.outline_rows h mem] at outline_eq
  rw [(List.cons.inj outline_eq).1]
  exact writable.inOrder_node

/-! ### Reading a group adds no line -/

/-- The number of lines that a part of a group is written in. -/
def partSize : GroupPart → Nat
  | .entrance t => 1 + t.lines.length
  | .exit t => 1 + t.lines.length
  | .nested g => g.renderLines.length
  | .rule n => (Forest.lines [n]).length

theorem sum_partSize (parts : List GroupPart) : (parts.map partSize).sum
    = ((parts.filterMap GroupPart.entrance?).map fun t => 1 + t.lines.length).sum
      + ((parts.filterMap GroupPart.exit?).map fun t => 1 + t.lines.length).sum
      + (renderAll (parts.filterMap GroupPart.nested?)).length
      + (Forest.lines (parts.filterMap GroupPart.rule?)).length := by
  induction parts with
  | nil => rfl
  | cons p parts ih =>
    rw [List.map_cons, List.sum_cons, ih]
    cases p with
    | entrance t =>
      simp only [partSize, List.filterMap_cons, GroupPart.entrance?, GroupPart.exit?, GroupPart.nested?,
        GroupPart.rule?, List.map_cons, List.sum_cons]
      omega
    | exit t =>
      simp only [partSize, List.filterMap_cons, GroupPart.entrance?, GroupPart.exit?, GroupPart.nested?,
        GroupPart.rule?, List.map_cons, List.sum_cons]
      omega
    | nested g =>
      simp only [partSize, List.filterMap_cons, GroupPart.entrance?, GroupPart.exit?, GroupPart.nested?,
        GroupPart.rule?, renderAll, List.length_append]
      omega
    | rule n =>
      simp only [partSize, List.filterMap_cons, GroupPart.entrance?, GroupPart.exit?, GroupPart.nested?,
        GroupPart.rule?, Forest.lines_cons, Forest.lines_nil, List.append_nil, List.length_cons,
        List.length_append]
      omega

theorem length_renderPart_le (header : Text) {ts : List Text} (blocks : ∀ t ∈ ts, t.IsBlock) :
    (renderPart header (Text.merge? ts)).length ≤ (ts.map fun t => 1 + t.lines.length).sum := by
  cases ts with
  | nil => exact Nat.le_refl 0
  | cons t ts =>
    have lines := Text.lines_merge blocks
    have rest : ∀ us : List Text,
        (us.flatMap Text.lines).length ≤ (us.map fun u => 1 + u.lines.length).sum := by
      intro us
      induction us with
      | nil => exact Nat.le_refl 0
      | cons u us ih =>
        rw [List.flatMap_cons, List.length_append, List.map_cons, List.sum_cons]
        omega
    have := rest ts
    rw [Text.merge?, renderPart, lines, Lines.indent]
    simp only [List.length_cons, List.length_map, List.flatMap_cons, List.length_append, List.map_cons,
      List.sum_cons]
    · omega
    · simp

theorem length_ofParts_le (key : GroupKey) (line depth : Nat) {parts : List GroupPart}
    (writable : ∀ p ∈ parts, PartWritable p) (tidy : Tidy (parts.filterMap GroupPart.rule?)) :
    (ofParts key line depth parts).renderLines.length ≤ 1 + (parts.map partSize).sum := by
  have entrance := length_renderPart_le entranceHeader (isBlock_entrance writable)
  have exit := length_renderPart_le exitHeader (isBlock_exit writable)
  rw [ofParts, renderLines, rows_text? tidy, Lines.indent, sum_partSize]
  simp only [List.length_cons, List.length_map, List.length_append, Forest.length_rows]
  omega

theorem sum_partSize_le {f : List Node} {level : Nat}
    (each : ∀ n ∈ f, partSize (part {} level n) ≤ (Forest.lines [n]).length) :
    ((f.map (part {} level)).map partSize).sum ≤ (Forest.lines f).length := by
  induction f with
  | nil => exact Nat.le_refl 0
  | cons n ns ih =>
    have first := each n List.mem_cons_self
    have rest := ih fun m hm => each m (List.mem_cons_of_mem n hm)
    simp only [List.map_cons, List.sum_cons, Forest.lines_cons, Forest.lines_nil, List.append_nil,
      List.length_cons, List.length_append] at first rest ⊢
    omega

theorem partSize_part_le {f : List Node} (trees : ∀ n ∈ f, NestedTree n) (tidy : Tidy f) :
    ∀ (level : Nat), ∀ n ∈ f, partSize (part {} level n) ≤ (Forest.lines [n]).length := by
  induction f using Forest.induction with
  | nil => simp
  | cons n ns ihc ih =>
    intro level m hm
    rcases List.mem_cons.1 hm with rfl | hm
    · have under := tidy.children List.mem_cons_self
      have under_trees : ∀ c ∈ m.children, NestedTree c := fun c hc =>
        (trees m List.mem_cons_self).children.tree hc
      have body : 1 + m.bodyText.lines.length ≤ (Forest.lines [m]).length := by
        rw [Node.bodyText, Forest.lines_text under]
        simp [Nat.add_comm]
      -- Only a group is more than text: its parts are no larger than the lines under it.
      cases group : GroupKey.ofHeader? m.text with
      | none =>
        rw [part, group]
        split
        · exact body
        · split
          · exact body
          · exact Nat.le_refl _
      | some key =>
        have sum := sum_partSize_le (ihc under_trees under (level + 1))
        have writable : ∀ p ∈ m.children.map (part {} (level + 1)), PartWritable p := by
          intro p hp
          obtain ⟨c, hc, rfl⟩ := List.mem_map.1 hp
          exact partWritable under_trees under (level + 1) c hc
        have le := length_ofParts_le key m.line m.depth writable
          (under.sublist (filterMap_rule?_sublist {} (level + 1) m.children))
        rw [part_of_group group, partSize, value_read]
        simp only [Forest.lines_cons, Forest.lines_nil, List.append_nil, List.length_cons]
        omega
    · exact ih (fun k hk => trees k (List.mem_cons_of_mem n hk)) (Forest.tidy_cons.1 tidy).2.2 level m hm

/-- A group that is read is written in no more lines than it was read from. -/
theorem length_renderLines_read_le {n : Node} (tree : NestedTree n) (content : n.text.IsContent)
    (tidy : Tidy n.children) {key : GroupKey} (group : GroupKey.ofHeader? n.text = some key) (level : Nat) :
    (read {} (level + 1) key n).value.renderLines.length ≤ (Forest.lines [n]).length := by
  have := partSize_part_le (f := [n]) (by simpa using tree)
    (Forest.tidy_cons.2 ⟨content, tidy, Forest.tidy_nil⟩) level n List.mem_cons_self
  rwa [part_of_group group] at this

end SetRuleGroup

namespace ActionRules

/-! ### Rules that are read again -/

/-- The lines that one line under `Action Rules` and the lines under it are written in. -/
def rewritten (n : Node) : List Text :=
  match GroupKey.ofHeader? n.text with
  | none => rows 0 [n]
  | some key => (SetRuleGroup.read {} 1 key n).value.renderLines

theorem renderLines_read {f : List Node} (tidy : Tidy f) :
    (read {} 0 f).value.renderLines = f.flatMap rewritten := by
  have line : ∀ r ∈ f.foldr (addRun {}) [], (item 0 r).renderLines
      = (joined r).flatMap (Sum.elim (fun n => rows 0 [n]) SetRuleGroup.renderLines) := by
    intro r hr
    cases r with
    | inl run =>
      have run_tidy := (runOf_foldr_addRun f _ hr).tidy tidy
      rw [joined, List.flatMap_map]
      exact (Forest.lines_text run_tidy 0).trans (Forest.rows_eq_flatMap 0 run)
    | inr g => exact (List.flatMap_singleton _ _).symm
  have each : ∀ n ∈ f, Sum.elim (fun n => rows 0 [n]) SetRuleGroup.renderLines (alone {} n) = rewritten n := by
    intro n _
    rw [rewritten]
    cases group : GroupKey.ofHeader? n.text with
    | none => rw [alone_of_plain group]; rfl
    | some key => rw [alone_of_group group]; rfl
  rw [renderLines, items_read, List.flatMap_map, List.flatMap_congr line, ← List.flatMap_assoc,
    flatMap_joined_runs, List.flatMap_map]
  exact List.flatMap_congr each

variable {rules : ActionRules}

/-- The groups among the lines of the rules stand in written order. -/
def InOrder (rules : ActionRules) : Prop :=
  ∀ n ∈ Forest.outline rules.renderLines, (GroupKey.ofHeader? n.text).isSome = true → n.InOrder 0

theorem Writable.length_rewritten_le (h : rules.Writable) :
    ∀ n ∈ Forest.outline rules.renderLines, (rewritten n).length ≤ (rows 0 [n]).length := by
  intro n hn
  have tidy := Forest.tidy_outline h.isLine
  have tree := (Forest.nested_outline rules.renderLines).tree hn
  rw [rewritten]
  split
  · exact Nat.le_refl _
  · rename_i key group
    rw [Forest.length_rows]
    exact SetRuleGroup.length_renderLines_read_le tree (tidy.isContent hn) (tidy.children hn) group 0

theorem Writable.renderLines_reread (h : rules.Writable) :
    rules.reread.renderLines = (Forest.outline rules.renderLines).flatMap rewritten :=
  renderLines_read (Forest.tidy_outline h.isLine)

theorem renderLines_eq_flatMap (rules : ActionRules) :
    rules.renderLines = (Forest.outline rules.renderLines).flatMap fun n => rows 0 [n] := by
  rw [← Forest.rows_eq_flatMap, Forest.rows_outline]

/-- Rules that are read again are written in no more lines. -/
theorem Writable.length_renderLines_reread_le (h : rules.Writable) :
    rules.reread.renderLines.length ≤ rules.renderLines.length := by
  have le := length_flatMap_le h.length_rewritten_le
  rwa [← renderLines_eq_flatMap, ← h.renderLines_reread] at le

/-- Rules that are read again are written in the same lines exactly when all groups among these lines
stand in written order. -/
theorem Writable.renderLines_reread_iff (h : rules.Writable) :
    rules.reread.renderLines = rules.renderLines ↔ rules.InOrder := by
  have each : ∀ n ∈ Forest.outline rules.renderLines,
      rewritten n = rows 0 [n] ↔ ((GroupKey.ofHeader? n.text).isSome = true → n.InOrder 0) := by
    intro n hn
    rw [rewritten]
    cases group : GroupKey.ofHeader? n.text with
    | none => simp
    | some key => simpa using SetRuleGroup.renderLines_read_iff h.isLine hn group 1
  have pieces := flatMap_eq_flatMap_iff h.length_rewritten_le
  rw [← renderLines_eq_flatMap, ← h.renderLines_reread] at pieces
  exact pieces.trans (forall₂_congr each)

end ActionRules

end BusinessClass
