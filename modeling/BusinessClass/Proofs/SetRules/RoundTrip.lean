import BusinessClass.Proofs.Outline.Layout
import BusinessClass.Proofs.SetRules.GroupKey
import BusinessClass.Proofs.SetRules.Relocation
import Mathlib.Data.List.Basic

/-!
# Writing groups and reading them again

A group that was read is written as lines whose outline is a single node, and that node is read as the
same group, whatever the depths of the lines were that the group was read from.

* `SetRuleGroup.Writable` says what the texts of a group have to satisfy; `writable_read`: every group
  that is read satisfies it.
* `outline_renderLines`: a written group is one node under which stand its rules, its entrance and exit
  rules and the nested groups. `value_read_node`: that node is read as the group.
-/

namespace BusinessClass

namespace GroupKey

/-- The header of the key is read as the key. -/
structure Writable (key : GroupKey) : Prop where
  isContent : key.header.IsContent
  ofHeader? : GroupKey.ofHeader? key.header = some key

theorem header_path (segments : List Text) :
    header (.path segments) = dotted segments ++ " Set Rules".toList := rfl

/-- The header of a proper key is content: that of a path starts like a name. -/
theorem IsProper.isContent_header {key : GroupKey} (proper : key.IsProper) : key.header.IsContent := by
  cases key with
  | empty => decide +kernel
  | general => decide +kernel
  | path segments =>
    have chain := isDottedName_dotted proper
    obtain ⟨c, t, path_eq, start⟩ := Text.isNameStart_of_isDottedName chain
    have blank := Text.isBlank_of_isDottedName chain
    have mem {d : Char} (hd : d ∈ dotted segments ++ " Set Rules".toList) : d ≠ '\n' ∧ d ≠ '\r' := by
      rcases List.mem_append.1 hd with hd | hd
      · have := blank d hd
        constructor <;> rintro rfl <;> exact absurd this (by decide)
      · exact (by simp : ∀ d ∈ " Set Rules".toList, d ≠ '\n' ∧ d ≠ '\r') d hd
    rw [header_path]
    refine ⟨by simp [path_eq], ?_, ?_, fun hd => (mem hd).1 rfl, fun hd => (mem hd).2 rfl, ?_⟩
    · rw [path_eq]
      simpa using blank c (by simp [path_eq])
    · rw [List.getLast?_append]
      exact fun d hd => Option.some.inj hd ▸ (by decide : isBlank 's' = false)
    · have slash : ('/' == c) = false := by
        rw [beq_eq_false_iff_ne]
        rintro rfl
        exact absurd start (by decide)
      rw [path_eq]
      change ('/' == c && _) = false
      rw [slash, Bool.false_and]

/-- What is read from a header can be written as one. -/
theorem writable_of_ofHeader? {text : Text} {key : GroupKey} (h : GroupKey.ofHeader? text = some key) :
    key.Writable :=
  have proper := isProper_of_ofHeader? h
  ⟨proper.isContent_header, ofHeader?_header proper⟩

/-- The header of a group is no header of entrance or exit rules. -/
theorem not_part_of_ofHeader? {text : Text} {key : GroupKey} (h : GroupKey.ofHeader? text = some key) :
    Text.sameWords text SetRuleGroup.entranceHeader = false ∧
      Text.sameWords text SetRuleGroup.exitHeader = false := by
  obtain ⟨front, set, rules, words_eq, hset, -, -⟩ := ofHeader?_eq_some_iff.1 h
  have set_eq : Text.lower set = "set".toList := beq_iff_eq.1 hset
  have differs (t : Text) (first last : Text) (ht : t.words.map Text.lower = [first, last])
      (ne : first ≠ "set".toList) : Text.sameWords text t = false := by
    rw [Text.sameWords, ht, words_eq, beq_eq_false_iff_ne]
    intro eq
    have := congrArg List.reverse eq
    simp only [List.map_append, List.map_cons, List.map_nil, List.reverse_append, List.reverse_cons,
      List.reverse_nil, List.nil_append, List.cons_append, List.cons.injEq] at this
    exact ne (this.2.1.symm.trans set_eq)
  exact ⟨differs _ "entrance".toList "rules".toList (by decide) (by decide),
    differs _ "exit".toList "rules".toList (by decide) (by decide)⟩

end GroupKey

/-! ### Rules, entrance and exit rules -/

namespace Text

/-- Merging blocks puts their lines one below the other. -/
theorem merge_eq {blocks : List Text} (h : ∀ b ∈ blocks, b.IsBlock) :
    merge blocks = stack (blocks.flatMap lines) := by
  induction blocks with
  | nil => rfl
  | cons b blocks ih =>
    have hb := h b List.mem_cons_self
    have rest := ih fun c hc => h c (List.mem_cons_of_mem b hc)
    rw [List.flatMap_cons]
    -- Empty blocks have no lines and are left out of both sides.
    by_cases empty : b = []
    · simpa [merge, empty, lines] using rest
    · have keep : merge (b :: blocks) = stack (b :: blocks.filter fun b => !b.isEmpty) := by
        simp [merge, empty]
      rw [keep]
      cases hf : blocks.filter fun b => !b.isEmpty with
      | nil =>
        have none : blocks.flatMap lines = [] := by
          rw [List.flatMap_eq_nil_iff]
          intro c hc
          have := List.filter_eq_nil_iff.1 hf c hc
          obtain rfl : c = [] := by simpa using this
          rfl
        rw [none, List.append_nil, stack_singleton, hb.stack_lines]
      | cons c cs =>
        rw [merge, hf] at rest
        have some : blocks.flatMap lines ≠ [] := by
          intro none
          obtain ⟨mem, ne⟩ := List.mem_filter.1 (hf ▸ List.mem_cons_self : c ∈ blocks.filter _)
          have := List.flatMap_eq_nil_iff.1 none c mem
          rw [(h c (List.mem_cons_of_mem b mem)).lines_eq_nil_iff] at this
          simp [this] at ne
        rw [stack_append (hb.lines_ne_nil empty) some, hb.stack_lines, ← rest, stack_cons_cons,
          stack_cons_cons, stack_singleton]

theorem isBlock_merge {blocks : List Text} (h : ∀ b ∈ blocks, b.IsBlock) : (merge blocks).IsBlock := by
  rw [merge_eq h]
  refine isBlock_stack fun l hl => ?_
  obtain ⟨b, hb, hl⟩ := List.mem_flatMap.1 hl
  exact (h b hb).isLine l hl

theorem lines_merge {blocks : List Text} (h : ∀ b ∈ blocks, b.IsBlock) :
    (merge blocks).lines = blocks.flatMap lines := by
  rw [merge_eq h]
  refine lines_stack fun l hl => ?_
  obtain ⟨b, hb, hl⟩ := List.mem_flatMap.1 hl
  exact (h b hb).isLine l hl

theorem isBlock_merge? {blocks : List Text} (h : ∀ b ∈ blocks, b.IsBlock) :
    ∀ t ∈ merge? blocks, t.IsBlock := by
  intro t ht
  cases blocks with
  | nil => cases ht
  | cons b blocks =>
    obtain rfl := Option.some.inj ht
    exact isBlock_merge h

theorem merge?_toList (t : Option Text) : merge? t.toList = t := by
  cases t with
  | none => rfl
  | some t => cases t <;> simp [merge?, merge]

end Text

namespace Node

/-- The line belongs to the rules of a group itself. -/
structure IsRule (n : Node) : Prop where
  entrance : n.headerIs SetRuleGroup.entranceHeader = false
  exit : n.headerIs SetRuleGroup.exitHeader = false
  group : GroupKey.ofHeader? n.text = none

theorem IsRule.of_text_eq {m n : Node} (h : m.IsRule) (text : n.text = m.text) : n.IsRule := by
  obtain ⟨entrance, exit, group⟩ := h
  refine ⟨?_, ?_, by rw [text, group]⟩
  · rwa [headerIs, text]
  · rwa [headerIs, text]

end Node

namespace SetRuleGroup

/-- Rules of a group that stand first under its header are rules of it again. -/
structure IsRules (t : Text) : Prop where
  isBlock : t.IsBlock
  ne_nil : t ≠ []
  isRule : ∀ n ∈ Forest.outline t.lines, n.IsRule

/-- The texts of the group and of the groups nested in it can be written. -/
inductive Writable : SetRuleGroup → Prop
  | mk {key : GroupKey} {line : Nat} {entrance exit rules : Option Text} {children : List SetRuleGroup}
      (writable : key.Writable) (entrance_block : ∀ t ∈ entrance, t.IsBlock)
      (exit_block : ∀ t ∈ exit, t.IsBlock) (rules_block : ∀ t ∈ rules, IsRules t)
      (nested : ∀ g ∈ children, Writable g) : Writable ⟨key, line, entrance, exit, rules, children⟩

theorem isRules_text? {f : List Node} (trees : ∀ n ∈ f, Forest.NestedTree n) (tidy : Forest.Tidy f)
    {b : Nat} (le : ∀ l ∈ Forest.lines f, b ≤ l.depth) (rules : ∀ n ∈ f, n.IsRule) :
    ∀ t ∈ Forest.text? f b, IsRules t := by
  intro t ht
  unfold Forest.text? at ht
  split at ht
  · cases ht
  · rename_i ne
    obtain rfl := Option.some.inj ht
    refine ⟨Forest.isBlock_text tidy b, fun hs => ?_, fun n hn => ?_⟩
    · have := Forest.lines_text tidy b
      rw [hs] at this
      cases f with
      | nil => exact ne rfl
      | cons n ns => simp [Text.lines] at this
    · obtain ⟨m, hm, text⟩ := Forest.exists_of_mem_outline_text trees tidy le n hn
      exact (rules m hm).of_text_eq text

/-! ### Groups that are read can be written -/

/-- What a line directly under the header of a group can be: it depends on the options only whether a
nested group is kept as a line. -/
theorem part_kinds (c : Node) :
    (c.headerIs entranceHeader = true ∧ ∀ o level, part o level c = .entrance c.bodyText) ∨
      (c.headerIs entranceHeader = false ∧ c.headerIs exitHeader = true ∧
        ∀ o level, part o level c = .exit c.bodyText) ∨
      (c.IsRule ∧ ∀ o level, part o level c = .rule c) ∨
      ∃ key, (c.headerIs entranceHeader = false ∧ c.headerIs exitHeader = false ∧
          GroupKey.ofHeader? c.text = some key) ∧
        ∀ (o : Options) (level : Nat), part o level c =
          if o.admitsLevel (level + 1) then .nested (read o (level + 1) key c).value else .rule c := by
  cases entrance : c.headerIs entranceHeader with
  | true => exact Or.inl ⟨rfl, fun o level => by rw [part, if_pos entrance]⟩
  | false =>
    right
    cases exit : c.headerIs exitHeader with
    | true => exact Or.inl ⟨rfl, rfl, fun o level => by simp [part, entrance, exit]⟩
    | false =>
      right
      cases group : GroupKey.ofHeader? c.text with
      | none => exact Or.inl ⟨⟨entrance, exit, group⟩, fun o level => by simp [part, entrance, exit, group]⟩
      | some key => exact Or.inr ⟨key, ⟨rfl, rfl, rfl⟩, fun o level => by simp [part, entrance, exit, group]⟩

/-- What the parts of a group satisfy. -/
def PartWritable : GroupPart → Prop
  | .entrance t => t.IsBlock
  | .exit t => t.IsBlock
  | .nested g => g.Writable
  | .rule n => n.IsRule

theorem isBlock_entrance {parts : List GroupPart} (writable : ∀ p ∈ parts, PartWritable p) :
    ∀ t ∈ parts.filterMap GroupPart.entrance?, t.IsBlock := by
  intro t ht
  obtain ⟨p, hp, h⟩ := List.mem_filterMap.1 ht
  cases p <;> cases h
  exact writable _ hp

theorem isBlock_exit {parts : List GroupPart} (writable : ∀ p ∈ parts, PartWritable p) :
    ∀ t ∈ parts.filterMap GroupPart.exit?, t.IsBlock := by
  intro t ht
  obtain ⟨p, hp, h⟩ := List.mem_filterMap.1 ht
  cases p <;> cases h
  exact writable _ hp

/-- The rules of a group itself are lines directly under its header. -/
theorem filterMap_rule?_sublist (o : Options) (level : Nat) (children : List Node) :
    ((children.map (part o level)).filterMap GroupPart.rule?).Sublist children := by
  induction children with
  | nil => exact .slnil
  | cons n ns ih =>
    have self {m : Node} (h : GroupPart.rule? (part o level n) = some m) : m = n := by
      rcases part_kinds n with ⟨-, part⟩ | ⟨-, -, part⟩ | ⟨-, part⟩ | ⟨key, -, part⟩ <;> rw [part] at h
      · cases h
      · cases h
      · exact (Option.some.inj h).symm
      · split at h
        · cases h
        · exact (Option.some.inj h).symm
    rw [List.map_cons]
    cases h : GroupPart.rule? (part o level n) with
    | none =>
      rw [List.filterMap_cons_none h]
      exact ih.cons n
    | some m =>
      rw [List.filterMap_cons_some h, self h]
      exact ih.cons_cons n

theorem writable_ofParts {key : GroupKey} (writable : key.Writable) {line depth : Nat}
    {children : List Node} (trees : ∀ n ∈ children, Forest.NestedTree n) (tidy : Forest.Tidy children)
    (deeper : ∀ n ∈ children, depth < n.depth) {level : Nat}
    (parts : ∀ n ∈ children, PartWritable (part {} level n)) :
    (ofParts key line depth (children.map (part {} level))).Writable := by
  have each : ∀ p ∈ children.map (part {} level), PartWritable p := by
    intro p hp
    obtain ⟨n, hn, rfl⟩ := List.mem_map.1 hp
    exact parts n hn
  refine .mk writable (Text.isBlock_merge? (isBlock_entrance each)) (Text.isBlock_merge? (isBlock_exit each)) ?_ ?_
  · have sub := filterMap_rule?_sublist {} level children
    refine isRules_text? (fun n hn => trees n (sub.subset hn)) (tidy.sublist sub) ?_ fun n hn => ?_
    · exact Forest.le_depth_of_mem_lines (fun n hn => trees n (sub.subset hn)) fun n hn =>
        deeper n (sub.subset hn)
    · obtain ⟨p, hp, h⟩ := List.mem_filterMap.1 hn
      cases p <;> cases h
      exact each _ hp
  · intro g hg
    obtain ⟨p, hp, h⟩ := List.mem_filterMap.1 hg
    cases p <;> cases h
    exact each _ hp

/-- Without a bound, every line that opens a group is read as one. -/
theorem part_cases (level : Nat) (n : Node) :
    (n.headerIs entranceHeader = true ∧ part {} level n = .entrance n.bodyText) ∨
      (n.headerIs exitHeader = true ∧ part {} level n = .exit n.bodyText) ∨
      (∃ key, GroupKey.ofHeader? n.text = some key ∧
        part {} level n = .nested (read {} (level + 1) key n).value) ∨
      (n.IsRule ∧ part {} level n = .rule n) := by
  rcases part_kinds n with ⟨entrance, part⟩ | ⟨-, exit, part⟩ | ⟨rule, part⟩ | ⟨key, ⟨-, -, group⟩, part⟩
  · exact Or.inl ⟨entrance, part _ _⟩
  · exact Or.inr (Or.inl ⟨exit, part _ _⟩)
  · exact Or.inr (Or.inr (Or.inr ⟨rule, part _ _⟩))
  · exact Or.inr (Or.inr (Or.inl ⟨key, group, part _ _⟩))

theorem partWritable {f : List Node} (trees : ∀ n ∈ f, Forest.NestedTree n) (tidy : Forest.Tidy f) :
    ∀ (level : Nat), ∀ n ∈ f, PartWritable (part {} level n) := by
  induction f using Forest.induction with
  | nil => simp
  | cons n ns ihc ih =>
    intro level m hm
    rcases List.mem_cons.1 hm with rfl | hm
    · have tree := trees m List.mem_cons_self
      have block : m.bodyText.IsBlock := Forest.isBlock_text (tidy.children List.mem_cons_self) _
      rcases part_cases level m with ⟨-, part⟩ | ⟨-, part⟩ | ⟨key, group, part⟩ | ⟨rule, part⟩ <;> rw [part]
      · exact block
      · exact block
      · rw [value_read]
        exact writable_ofParts (GroupKey.writable_of_ofHeader? group)
          (fun c hc => tree.children.tree hc) (tidy.children List.mem_cons_self)
          (fun c hc => tree.lt_depth hc)
          (ihc (fun c hc => tree.children.tree hc) (tidy.children List.mem_cons_self) (level + 1))
      · exact rule
    · exact ih (fun k hk => trees k (List.mem_cons_of_mem n hk)) (Forest.tidy_cons.1 tidy).2.2 level m hm

/-- Every group that is read can be written. -/
theorem writable_read {n : Node} (tree : Forest.NestedTree n) (tidy : Forest.Tidy n.children)
    {key : GroupKey} (group : GroupKey.ofHeader? n.text = some key) (level : Nat) :
    (read {} level key n).value.Writable := by
  rw [value_read]
  exact writable_ofParts (GroupKey.writable_of_ofHeader? group) (fun c hc => tree.children.tree hc) tidy
    (fun c hc => tree.lt_depth hc) (partWritable (fun c hc => tree.children.tree hc) tidy level)

/-! ### Groups that are written are read again -/

/-- The lines of a group below its header. -/
def innerLines (g : SetRuleGroup) : List Text :=
  (g.rules.getD []).lines ++ renderPart entranceHeader g.entrance ++ renderPart exitHeader g.exit
    ++ renderAll g.children

theorem renderLines_eq (g : SetRuleGroup) :
    g.renderLines = g.key.header :: Lines.indent g.innerLines := by
  cases g
  rw [renderLines]
  rfl

theorem renderAll_eq_flatMap (gs : List SetRuleGroup) : renderAll gs = gs.flatMap renderLines := by
  induction gs with
  | nil => rfl
  | cons g gs ih => rw [renderAll, ih, List.flatMap_cons]

/-- The node of a written group. -/
def node (g : SetRuleGroup) : Node :=
  ⟨g.key.header, 0, 0, ⟨0, 0⟩, (Forest.outline g.innerLines).map (Node.relocate (.shift 1))⟩

theorem isContent_entranceHeader : entranceHeader.IsContent :=
  by decide +kernel

theorem isContent_exitHeader : exitHeader.IsContent :=
  by decide +kernel

theorem not_headerIs_exit : Text.sameWords exitHeader entranceHeader = false := by decide

theorem Writable.key_writable {g : SetRuleGroup} (h : g.Writable) : g.key.Writable := by
  cases h
  assumption

theorem Writable.flush {g : SetRuleGroup} (h : g.Writable) : Lines.Flush g.renderLines := by
  rw [renderLines_eq]
  exact Lines.flush_cons h.key_writable.isContent _

/-- A written group is one node. -/
theorem Writable.outline_renderLines {g : SetRuleGroup} (h : g.Writable) :
    Forest.outline g.renderLines = [g.node] := by
  rw [renderLines_eq, Forest.outline_cons_indent h.key_writable.isContent]
  rfl

theorem flush_renderPart {header : Text} (h : header.IsContent) (t : Option Text) :
    Lines.Flush (renderPart header t) := by
  cases t with
  | none => exact Lines.flush_nil
  | some t => exact Lines.flush_cons h _

/-- The lines below the header of a written group are its rules, entrance and exit rules and the nested
groups. -/
theorem outline_innerLines {g : SetRuleGroup} (nested : ∀ c ∈ g.children, c.Writable) :
    Forest.outline g.innerLines = Forest.outline (g.rules.getD []).lines
      ++ Forest.outline (renderPart entranceHeader g.entrance)
      ++ Forest.outline (renderPart exitHeader g.exit) ++ g.children.map node := by
  have flush : Lines.Flush (renderAll g.children) := by
    rw [renderAll_eq_flatMap]
    exact Lines.flush_flatMap fun c hc => (nested c hc).flush
  have groups : Forest.outline (renderAll g.children) = g.children.map node := by
    rw [renderAll_eq_flatMap, Forest.outline_flatMap fun c hc => (nested c hc).flush, List.map_eq_flatMap]
    exact List.flatMap_congr fun c hc => (nested c hc).outline_renderLines
  rw [innerLines, Forest.outline_append flush, groups,
    Forest.outline_append (flush_renderPart isContent_exitHeader _),
    Forest.outline_append (flush_renderPart isContent_entranceHeader _)]

/-- The node of written entrance or exit rules. -/
def partNode (header t : Text) : Node :=
  ⟨header, 0, 0, ⟨0, 0⟩, (Forest.outline t.lines).map (Node.relocate (.shift 1))⟩

theorem bodyText_partNode {header t : Text} (block : t.IsBlock) : (partNode header t).bodyText = t := by
  rw [Node.bodyText]
  exact (Forest.text_outline_shift t.lines 1).trans block.stack_lines

/-- Written entrance or exit rules are one node with the rules under it. -/
theorem outline_renderPart {header : Text} (h : header.IsContent) (t : Option Text) :
    Forest.outline (renderPart header t) = (t.map (partNode header)).toList := by
  cases t with
  | none => rfl
  | some t => exact Forest.outline_cons_indent h t.lines

theorem text?_outline {t : Option Text} (rules : ∀ s ∈ t, IsRules s) :
    Forest.text? (Forest.outline (t.getD []).lines) 0 = t := by
  cases t with
  | none => rfl
  | some s =>
    obtain ⟨block, ne, -⟩ := rules s rfl
    have some_line : Forest.outline s.lines ≠ [] := by
      intro none
      have := Forest.lines_outline s.lines
      rw [none] at this
      exact block.lines_ne_nil ne (List.map_eq_nil_iff.1 this.symm)
    rw [Forest.text?, Option.getD_some, if_neg (by simpa using some_line), Forest.text_outline,
      block.stack_lines]

/-- The parts of a group in the order in which they are written. -/
def writtenParts (rules : List Node) (entrance exit : Option Text) (children : List SetRuleGroup) :
    List GroupPart :=
  rules.map .rule ++ (entrance.map .entrance).toList ++ (exit.map .exit).toList ++ children.map .nested

/-- The lines below the header of a written group are read as the parts that they were written for. -/
theorem map_part_outline_innerLines {g : SetRuleGroup} (h : g.Writable) (level : Nat)
    (ih : ∀ c ∈ g.children, (read {} (level + 1) c.key c.node).value = c.relocate .unplace) :
    (Forest.outline g.innerLines).map (part {} level)
      = writtenParts (Forest.outline (g.rules.getD []).lines) g.entrance g.exit
          (g.children.map (relocate .unplace)) := by
  obtain ⟨writable, entrance_block, exit_block, rules_block, nested⟩ := h
  rename_i key line entrance exit rules children
  rw [outline_innerLines nested, writtenParts]
  simp only [List.map_append, outline_renderPart isContent_entranceHeader,
    outline_renderPart isContent_exitHeader]
  -- Rules, entrance rules, exit rules and nested groups are written in this order.
  congr 1
  · congr 1
    · congr 1
      · refine List.map_congr_left fun n hn => ?_
        cases rules with
        | none => cases hn
        | some t =>
          obtain ⟨entrance, exit, group⟩ := (rules_block t rfl).isRule n hn
          simp [part, entrance, exit, group]
      · cases entrance with
        | none => rfl
        | some t =>
          have header : (partNode entranceHeader t).headerIs entranceHeader = true := Text.sameWords_refl _
          simp [part, header, bodyText_partNode (entrance_block t rfl)]
    · cases exit with
      | none => rfl
      | some t =>
        have header : (partNode exitHeader t).headerIs exitHeader = true := Text.sameWords_refl _
        have other : (partNode exitHeader t).headerIs entranceHeader = false := not_headerIs_exit
        simp [part, header, other, bodyText_partNode (exit_block t rfl)]
  · rw [List.map_map, List.map_map]
    refine List.map_congr_left fun c hc => ?_
    have group := (nested c hc).key_writable.ofHeader?
    obtain ⟨entrance, exit⟩ := GroupKey.not_part_of_ofHeader? group
    have admits : ({} : Options).admitsLevel (level + 1) = true := rfl
    have entrance : c.node.headerIs entranceHeader = false := entrance
    have exit : c.node.headerIs exitHeader = false := exit
    have group : GroupKey.ofHeader? c.node.text = some c.key := group
    simp only [Function.comp, part, entrance, exit, group, admits, ih c hc, Bool.false_eq_true, if_false,
      if_true]

/-- Parts in the order in which they are written make up the group. -/
theorem ofParts_writtenParts (key : GroupKey) (line depth : Nat) (rules : List Node)
    (entrance exit : Option Text) (children : List SetRuleGroup) :
    ofParts key line depth (writtenParts rules entrance exit children)
      = ⟨key, line, entrance, exit, Forest.text? rules (depth + 1), children⟩ := by
  have entrance_eq :
      (writtenParts rules entrance exit children).filterMap GroupPart.entrance? = entrance.toList := by
    cases entrance <;> cases exit <;>
      simp [writtenParts, List.filterMap_cons, List.filterMap_map, Function.comp_def, GroupPart.entrance?]
  have exit_eq : (writtenParts rules entrance exit children).filterMap GroupPart.exit? = exit.toList := by
    cases entrance <;> cases exit <;>
      simp [writtenParts, List.filterMap_cons, List.filterMap_map, Function.comp_def, GroupPart.exit?]
  have rules_eq : (writtenParts rules entrance exit children).filterMap GroupPart.rule? = rules := by
    cases entrance <;> cases exit <;>
      simp [writtenParts, List.filterMap_cons, List.filterMap_map, Function.comp_def, GroupPart.rule?]
  have children_eq :
      (writtenParts rules entrance exit children).filterMap GroupPart.nested? = children := by
    cases entrance <;> cases exit <;>
      simp [writtenParts, List.filterMap_cons, List.filterMap_map, Function.comp_def, GroupPart.nested?]
  rw [ofParts, entrance_eq, exit_eq, rules_eq, children_eq, Text.merge?_toList, Text.merge?_toList]

theorem writtenParts_relocate (ρ : Relocation) (rules : List Node) (entrance exit : Option Text)
    (children : List SetRuleGroup) :
    (writtenParts rules entrance exit children).map (GroupPart.relocate ρ)
      = writtenParts (rules.map (Node.relocate ρ)) entrance exit (children.map (relocate ρ)) := by
  cases entrance <;> cases exit <;>
    simp [writtenParts, List.map_map, Function.comp_def, GroupPart.relocate]

/-- A written group is read as the group. -/
theorem Writable.value_read_node {g : SetRuleGroup} (h : g.Writable) (level : Nat) :
    (read {} level g.key g.node).value = g.relocate .unplace := by
  induction h generalizing level with
  | @mk key line entrance exit rules children writable entrance_block exit_block rules_block nested ih =>
    have h : Writable ⟨key, line, entrance, exit, rules, children⟩ :=
      .mk writable entrance_block exit_block rules_block nested
    have moved : (node ⟨key, line, entrance, exit, rules, children⟩).children.map (part {} level)
        = ((Forest.outline (innerLines ⟨key, line, entrance, exit, rules, children⟩)).map
            (part {} level)).map (GroupPart.relocate (.shift 1)) := by
      rw [node, List.map_map, List.map_map]
      exact List.map_congr_left fun n hn => part_relocate (Relocation.shifts_shift 1) {} _ level n hn
    have text := Forest.text?_relocate (Relocation.shifts_shift 1) (Forest.outline (rules.getD []).lines) 0
    rw [value_read, moved, map_part_outline_innerLines h level fun c hc => ih c hc (level + 1),
      writtenParts_relocate, ofParts_writtenParts, relocate_eq_self (.shift 1) fun _ => rfl, relocate_mk]
    simp only [node]
    rw [text, text?_outline rules_block]
    rfl

theorem isLine_renderPart {header : Text} (h : header.IsContent) {t : Option Text}
    (block : ∀ s ∈ t, s.IsBlock) : ∀ l ∈ renderPart header t, l.IsLine := by
  cases t with
  | none => simp [renderPart]
  | some s =>
    intro l hl
    rcases List.mem_cons.1 hl with rfl | hl
    · exact h.isLine_zero
    · exact Lines.isLine_indent (block s rfl).isLine l hl

/-- A written group consists of lines. -/
theorem Writable.isLine {g : SetRuleGroup} (h : g.Writable) : ∀ l ∈ g.renderLines, l.IsLine := by
  induction h with
  | @mk key line entrance exit rules children writable entrance_block exit_block rules_block nested ih =>
    intro l hl
    rw [renderLines_eq] at hl
    rcases List.mem_cons.1 hl with rfl | hl
    · exact writable.isContent.isLine_zero
    · refine Lines.isLine_indent (fun t ht => ?_) l hl
      rw [innerLines, renderAll_eq_flatMap, List.mem_append, List.mem_append, List.mem_append,
        List.mem_flatMap] at ht
      rcases ht with ((ht | ht) | ht) | ⟨c, hc, ht⟩
      · cases rules with
        | none => cases ht
        | some s => exact (rules_block s rfl).isBlock.isLine t ht
      · exact isLine_renderPart isContent_entranceHeader entrance_block t ht
      · exact isLine_renderPart isContent_exitHeader exit_block t ht
      · exact ih c hc t ht

end SetRuleGroup

end BusinessClass
