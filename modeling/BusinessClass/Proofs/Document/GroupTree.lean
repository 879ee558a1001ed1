import BusinessClass.Proofs.Document.Membership
import BusinessClass.Proofs.Document.WrittenNotes

/-!
# Trees of groups that were made by hand

A group need not have been read to be written: its texts can be put together from lines with any indentation. It is
read again from the rules of an action as long as its rules do not open a part of a group by themselves.

* `Text.OpensPart` and `SetRuleGroup.WellFormed` say which groups these are, of the lines of their texts alone, and
  `SetRuleGroup.WellFormed.writable` that they can be written.
* `SetRuleGroup.Writable.kinds_read_node`: what is noted about a written group.
* `Document.ofGroup` is a class with one action and one group in it.
* `Document.read_render_ofGroup`: written and read again, it has the same group, and nothing is noted but the groups
  that hold nothing.
-/

namespace BusinessClass

open Forest (outline)

/-! ### Groups from lines -/

namespace Text

/-- The number of tabs in front of a line. -/
def tabs (l : Text) : Nat := (l.takeWhile (· == '\t')).length

/-- What a line says behind the tabs. -/
def bare (l : Text) : Text := l.dropWhile (· == '\t')

/-- A line that says this opens entrance rules, exit rules or a group when it stands directly under the header of a
group. -/
def OpensPart (t : Text) : Prop :=
  sameWords t SetRuleGroup.entranceHeader = true ∨ sameWords t SetRuleGroup.exitHeader = true ∨
    (GroupKey.ofHeader? t).isSome = true

instance (t : Text) : Decidable (OpensPart t) := inferInstanceAs (Decidable (_ ∨ _ ∨ _))

end Text

namespace SetRuleGroup

/-- Lines that can stand first under the header of a group: a line that opens a part of a group stands under an earlier
line with fewer tabs. -/
structure RulesFirst (t : Text) : Prop where
  isBlock : t.IsBlock
  ne_nil : t ≠ []
  closed : ∀ before l after, t.lines = before ++ l :: after → (∀ m ∈ before, l.tabs ≤ m.tabs) → ¬ l.bare.OpensPart

/-- The key of the group can be read, its texts are blocks of lines, and so it is with the nested groups. -/
inductive WellFormed : SetRuleGroup → Prop
  | mk {g : SetRuleGroup} (key : ∃ text, GroupKey.ofHeader? text = some g.key)
      (entrance : ∀ t ∈ g.entrance, t.IsBlock) (exit : ∀ t ∈ g.exit, t.IsBlock)
      (rules : ∀ t ∈ g.rules, RulesFirst t) (nested : ∀ c ∈ g.children, WellFormed c) : WellFormed g

end SetRuleGroup

namespace Forest

/-- No line in front of a root is shallower than the root. -/
theorem exists_eq_append_of_mem_ofLines {ls : List SourceLine} {n : Node} (mem : n ∈ ofLines 0 ls) :
    ∃ before after, ls = before ++ n.toLine :: after ∧ ∀ l ∈ before, n.depth ≤ l.depth := by
  induction ls with
  | nil => cases mem
  | cons l ls ih =>
    rw [ofLines_cons, grow] at mem
    rcases List.mem_cons.1 mem with rfl | mem
    · exact ⟨[], ls, rfl, by simp⟩
    · have le := (nestedFrom_ofLines 0 ls).depth_le_of_mem_dropWhile mem
      obtain ⟨before, after, whole, others⟩ := ih ((List.dropWhile_sublist _).subset mem)
      exact ⟨l :: before, after, congrArg (l :: ·) whole, List.forall_mem_cons.2 ⟨by omega, others⟩⟩

/-- The same, said of the lines of an outline. -/
theorem exists_eq_append_of_mem_outline {ls : List Text} {n : Node} (mem : n ∈ outline ls) :
    ∃ before l after, ls = before ++ l :: after ∧ (∀ m ∈ before, l.tabs ≤ m.tabs) ∧ n.text = l.bare := by
  obtain ⟨before, after, whole, le⟩ := exists_eq_append_of_mem_ofLines mem
  obtain ⟨before, rest, rfl, rfl, rest_eq⟩ := List.map_eq_append_iff.1 whole
  obtain ⟨l, after, rfl, line, -⟩ := List.map_eq_cons_iff.1 rest_eq
  have depth : l.tabs = n.depth := congrArg SourceLine.depth line
  have text : l.bare = n.text := congrArg SourceLine.text line
  refine ⟨before, l, after, rfl, fun m hm => ?_, text.symm⟩
  rw [depth]
  exact le _ (List.mem_map_of_mem hm)

end Forest

namespace SetRuleGroup

theorem RulesFirst.isRules {t : Text} (h : RulesFirst t) : IsRules t where
  isBlock := h.isBlock
  ne_nil := h.ne_nil
  isRule n hn := by
    obtain ⟨before, l, after, whole, le, text⟩ := Forest.exists_eq_append_of_mem_outline hn
    have closed := h.closed before l after whole le
    rw [← text, Text.OpensPart, not_or, not_or] at closed
    exact ⟨by simpa [Node.headerIs] using closed.1, by simpa [Node.headerIs] using closed.2.1,
      by simpa using closed.2.2⟩

/-- A group that was made from lines can be written. -/
theorem WellFormed.writable {g : SetRuleGroup} (h : g.WellFormed) : g.Writable := by
  induction h with
  | @mk g key entrance exit rules nested ih =>
    obtain ⟨text, key⟩ := key
    cases g
    exact .mk (GroupKey.writable_of_ofHeader? key) entrance exit (fun t ht => (rules t ht).isRules) ih

end SetRuleGroup

/-! ### Groups that hold nothing -/

theorem Diagnostic.map_kind_relocate (ρ : Relocation) (notes : List Diagnostic) :
    (notes.map (relocate ρ)).map kind = notes.map kind := by
  rw [List.map_map]
  exact List.map_congr_left fun d _ => kind_relocate ρ d

namespace SetRuleGroup

mutual

/-- A group and the groups nested in it, each in front of those nested in it. -/
def preorder : SetRuleGroup → List SetRuleGroup
  | ⟨key, line, entrance, exit, rules, children⟩ => ⟨key, line, entrance, exit, rules, children⟩ :: preorders children

/-- Some groups and the groups nested in them, each in front of those nested in it. -/
def preorders : List SetRuleGroup → List SetRuleGroup
  | [] => []
  | g :: gs => g.preorder ++ preorders gs

end

theorem preorders_eq_flatMap (gs : List SetRuleGroup) : preorders gs = gs.flatMap preorder := by
  induction gs with
  | nil => rfl
  | cons g gs ih => rw [preorders, ih, List.flatMap_cons]

theorem preorder_eq (g : SetRuleGroup) : g.preorder = g :: g.children.flatMap preorder := by
  cases g
  rw [preorder, preorders_eq_flatMap]

/-- Whether the group has neither entrance nor exit rules, no rules of its own and no nested groups. -/
def holdsNothing (g : SetRuleGroup) : Bool :=
  g.entrance.isNone && g.exit.isNone && g.rules.isNone && g.children.isEmpty

/-- Nothing stands under the header of a written group that holds nothing. -/
theorem Writable.isLeaf_node {g : SetRuleGroup} (h : g.Writable) : g.node.isLeaf = g.holdsNothing := by
  obtain ⟨-, -, -, rules_block, nested⟩ := h
  rename_i key line entrance exit rules children
  -- rules that are there are not empty, while entrance and exit rules can be
  have no_rules : outline (rules.getD []).lines = [] ↔ rules = none := by
    have text := text?_outline rules_block
    refine ⟨fun none => ?_, fun none => by rw [none]; rfl⟩
    rw [none] at text
    exact text.symm
  rw [Node.isLeaf, node, holdsNothing, outline_innerLines nested, outline_renderPart isContent_entranceHeader,
    outline_renderPart isContent_exitHeader, Bool.eq_iff_iff]
  simp [no_rules, and_assoc, and_comm, and_left_comm]

theorem innerNotes_of_isRule {n : Node} (rule : n.IsRule) (o : Options) (level : Nat) : innerNotes o level n = [] := by
  rw [innerNotes, rule.entrance, rule.exit, rule.group]
  rfl

theorem innerNotes_partNode {header : Text} (part : header = entranceHeader ∨ header = exitHeader) (t : Text) (o : Options)
    (level : Nat) : innerNotes o level (partNode header t) = [] := by
  have is : (partNode header t).headerIs header = true := Text.sameWords_refl _
  rw [innerNotes]
  rcases part with rfl | rfl <;> simp [is]

theorem Writable.innerNotes_node {g : SetRuleGroup} (h : g.Writable) (level : Nat) :
    innerNotes {} level g.node = (read {} (level + 1) g.key g.node).notes := by
  have group : GroupKey.ofHeader? g.node.text = some g.key := h.key_writable.ofHeader?
  obtain ⟨entrance, exit⟩ := GroupKey.not_part_of_ofHeader? group
  rw [innerNotes, Node.headerIs, entrance, Node.headerIs, exit, group]
  rfl

/-- What is noted below the header of a written group is noted about the groups nested in it. -/
theorem Writable.kinds_children_node {g : SetRuleGroup} (h : g.Writable) (level : Nat) :
    (g.node.children.flatMap (innerNotes {} level)).map Diagnostic.kind
      = g.children.flatMap fun c => (read {} (level + 1) c.key c.node).notes.map Diagnostic.kind := by
  obtain ⟨-, -, -, rules_block, nested⟩ := h
  rename_i key line entrance exit rules children
  have moved (n : Node) : (innerNotes {} level (n.relocate (.shift 1))).map Diagnostic.kind
      = (innerNotes {} level n).map Diagnostic.kind := by
    have group (level : Nat) (key : GroupKey) :=
      notes_read_relocate (.shift 1) {} [n] level key n List.mem_cons_self
    rw [innerNotes_relocate (.shift 1) {} group, Diagnostic.map_kind_relocate]
  have rules_notes : ∀ n ∈ outline (rules.getD []).lines, innerNotes {} level n = [] := by
    intro n hn
    cases rules with
    | none => cases hn
    | some t => exact innerNotes_of_isRule ((rules_block t rfl).isRule n hn) {} level
  have part_notes {header : Text} (part : header = entranceHeader ∨ header = exitHeader) (t : Option Text) :
      ∀ n ∈ (t.map (partNode header)).toList, innerNotes {} level n = [] := by
    intro n hn
    obtain ⟨t, -, rfl⟩ := Option.map_eq_some_iff.1 (Option.mem_toList.1 hn)
    exact innerNotes_partNode part t {} level
  -- under the header the lines stand one tab deeper than by themselves, which no kind of note depends on
  rw [List.map_flatMap, node, List.flatMap_map]
  simp only [moved]
  rw [← List.map_flatMap, outline_innerLines nested, outline_renderPart isContent_entranceHeader,
    outline_renderPart isContent_exitHeader, List.flatMap_append, List.flatMap_append, List.flatMap_append,
    List.flatMap_eq_nil_iff.2 rules_notes, List.flatMap_eq_nil_iff.2 (part_notes (.inl rfl) entrance),
    List.flatMap_eq_nil_iff.2 (part_notes (.inr rfl) exit), List.flatMap_map, List.map_append, List.map_flatMap]
  exact List.flatMap_congr fun c hc => congrArg _ ((nested c hc).innerNotes_node level)

/-- All that is noted about a written group is that it holds nothing, or that a group nested in it does. -/
theorem Writable.kinds_read_node {g : SetRuleGroup} (h : g.Writable) (level : Nat) :
    (read {} level g.key g.node).notes.map Diagnostic.kind
      = (g.preorder.filter holdsNothing).map fun k => .unterminatedSetRuleGroup k.name := by
  induction h generalizing level with
  | @mk key line entrance exit rules children writable entrance_block exit_block rules_block nested ih =>
    have h : Writable ⟨key, line, entrance, exit, rules, children⟩ :=
      .mk writable entrance_block exit_block rules_block nested
    have under : (children.flatMap fun c => (read {} (level + 1) c.key c.node).notes.map Diagnostic.kind)
        = ((children.flatMap preorder).filter holdsNothing).map fun k => .unterminatedSetRuleGroup k.name := by
      rw [List.filter_flatMap, List.map_flatMap]
      exact List.flatMap_congr fun c hc => ih c hc (level + 1)
    rw [notes_read, List.map_append, h.kinds_children_node, under, unterminated, h.isLeaf_node, preorder_eq,
      List.filter_cons]
    split <;> rfl

end SetRuleGroup

/-- Moving a group does not change how deep its groups are nested. -/
theorem SetRuleGroup.depths_relocate (ρ : Relocation) (gs : List SetRuleGroup) :
    depths (gs.map (relocate ρ)) = depths gs := by
  induction gs using induction with
  | nil => rfl
  | cons g gs under ih =>
    obtain ⟨key, line, entrance, exit, rules, children⟩ := g
    rw [List.map_cons, depths, depths, ih, depth_eq, depth_eq, relocate_mk, under]

theorem SetRuleGroup.depth_relocate (ρ : Relocation) (g : SetRuleGroup) : (g.relocate ρ).depth = g.depth := by
  simpa [depths] using depths_relocate ρ [g]

/-! ### A class with one group -/

/-- The header is one that is read from a line. -/
def Header.IsRead (h : Header) : Prop :=
  ∃ (text : Text) (line : Nat) (span : Span), text.IsContent ∧ recognize [] text line span = .ok h

theorem Header.IsRead.typed {h : Header} (read : h.IsRead) : ∃ ls, h.Typed ls := by
  obtain ⟨text, line, span, content, read⟩ := read
  exact typed_of_recognize read content.no_feed content.no_return

/-- An action whose rules are one group. -/
def Action.ofGroup (header : Header) (g : SetRuleGroup) : Action :=
  ⟨header, ActionKind.ofType (header.typeName.getD []), [], [(.actionRules, .actionRules ⟨[.group g]⟩)]⟩

/-- A class with one action, whose rules are one group. -/
def Document.ofGroup (classHeader actionHeader : Header) (g : SetRuleGroup) : Document where
  name := some classHeader.name
  classType := classHeader.typeName
  sections := [(.actions, ⟨.actions, 0, [.action (.ofGroup actionHeader g)]⟩)]

theorem ActionRules.writable_singleton {g : SetRuleGroup} (h : g.Writable) : Writable ⟨[.group g]⟩ :=
  ⟨List.forall_mem_singleton.2 h, .singleton _⟩

theorem Action.writable_ofGroup {header : Header} {g : SetRuleGroup} (read : header.IsRead) (h : g.Writable) :
    (ofGroup header g).Writable where
  header := read.typed
  kind := rfl
  nested := trivial
  tidy := Forest.tidy_nil
  plain := by simp [ofGroup]
  nodup := by simp [ofGroup, Catalog.keys]
  sections := List.forall_mem_singleton.2 (.actionRules (ActionRules.writable_singleton h))

namespace Document

variable {classHeader actionHeader : Header} {g : SetRuleGroup}

theorem writable_ofGroup (read : classHeader.IsRead) (isClass : classHeader.typeName.any isClassType = true)
    (action : actionHeader.IsRead) (h : g.Writable) : (ofGroup classHeader actionHeader g).Writable where
  title name hn := by
    obtain ⟨ls, typed⟩ := read.typed
    cases hn
    exact ⟨ls, typed.titled, isClass⟩
  untitled none := nomatch none
  owner := by simp [ofGroup]
  classPrefix := by simp [ofGroup]
  keys := List.nodup_singleton _
  sections := List.forall_mem_singleton.2
    ⟨rfl, List.forall_mem_singleton.2 (.action (Action.writable_ofGroup action h))⟩
  blockKeys := List.nodup_nil
  blocks := by simp [ofGroup]
  closed yes := nomatch yes
  headless none := nomatch none

/-- The action is read again with the same group, numbers and places aside. -/
theorem actions_read_ofGroup (header_read : classHeader.IsRead) (isClass : classHeader.typeName.any isClassType = true)
    (action_read : actionHeader.IsRead) (h : g.Writable) :
    ∃ a g', (read {} (ofGroup classHeader actionHeader g).render).document.actions = [a] ∧
      a.header.relocate .erase = actionHeader.relocate .erase ∧
      a.kind = ActionKind.ofType (actionHeader.typeName.getD []) ∧
      a.rules? = some ⟨[.group g']⟩ ∧ g'.relocate .erase = g.relocate .erase := by
  have writable := writable_ofGroup header_read isClass action_read h
  have action := Action.writable_ofGroup action_read h
  obtain ⟨ρ, k, -, again⟩ := writable.document_read_render (by rintro ⟨none, -⟩; cases none)
  -- numbers and places aside, what is read again is what the written document is taken for
  have written : (ofGroup classHeader actionHeader g).actions = [.ofGroup actionHeader g] := rfl
  have actions : (read {} (ofGroup classHeader actionHeader g).render).document.actions.map (Action.relocate .erase)
      = [(Action.ofGroup actionHeader g).reread.relocate .erase] := by
    have erased := congrArg (fun d => (relocate .erase d).actions) again
    simp only [actions_relocate, writable.actions_reread, written, List.map_map, List.map_singleton, Function.comp_def,
      Action.relocate_relocate] at erased
    exact erased
  obtain ⟨a, found, same⟩ := List.map_eq_singleton_iff.1 actions
  have rules : a.rules?.map (ActionRules.relocate .erase) = some ⟨[.group (g.relocate .erase)]⟩ := by
    have reread := (ActionRules.writable_singleton h).reread_eq (.singleton _)
    rw [← Action.rules?_relocate, same, Action.rules?_relocate, action.rules?_reread]
    show some ((ActionRules.reread ⟨[.group g]⟩).relocate .erase) = _
    rw [reread, ActionRules.relocate_relocate]
    rfl
  obtain ⟨⟨items⟩, rules_eq, items_eq⟩ := Option.map_eq_some_iff.1 rules
  obtain ⟨i, rfl, item_eq⟩ := List.map_eq_singleton_iff.1 (congrArg ActionRules.items items_eq)
  cases i with
  | text t => cases item_eq
  | group g' =>
    obtain ⟨header, kind, body, sections⟩ := a
    refine ⟨_, g', found, congrArg Action.header same, congrArg Action.kind same, rules_eq, ?_⟩
    exact RuleItem.group.inj item_eq

/-- What is noted about the class is noted about its group. -/
theorem kinds_read_ofGroup (header_read : classHeader.IsRead) (isClass : classHeader.typeName.any isClassType = true)
    (action_read : actionHeader.IsRead) (h : g.Writable) :
    (read {} (ofGroup classHeader actionHeader g).render).diagnostics.map Diagnostic.kind
      = (SetRuleGroup.read {} 1 g.key g.node).notes.map Diagnostic.kind := by
  have writable := writable_ofGroup header_read isClass action_read h
  have action := Action.writable_ofGroup action_read h
  obtain ⟨notes, read_eq, moved⟩ := writable.diagnostics_read_render
  have named : (notes.map (·.withSourceName none)).map Diagnostic.kind = notes.map Diagnostic.kind := by
    rw [List.map_map]
    rfl
  have rules : (ActionRules.read {} (Action.baseDepth 0 [g.node]) [g.node]).notes
      = (SetRuleGroup.read {} 1 g.key g.node).notes := by
    have group : GroupKey.ofHeader? g.node.text = some g.key := h.key_writable.ofHeader?
    rw [ActionRules.notes_read, List.flatMap_singleton, ActionRules.runNotes, group]
    rfl
  have content : (outline (ActionSection.actionRules ⟨[.group g]⟩).renderLines) = [g.node] := by
    rw [← h.outline_renderLines]
    exact congrArg outline (List.append_nil _)
  have action_notes : (Action.read {} (Action.ofGroup actionHeader g).node).notes.map Diagnostic.kind
      = (SetRuleGroup.read {} 1 g.key g.node).notes.map Diagnostic.kind := by
    rw [action.notes_read_node, Action.ofGroup, List.flatMap_singleton, content,
      Action.notes_readSection_relocate _ _ 0, Diagnostic.map_kind_relocate, ← rules]
    rfl
  have lines : outline (Declaration.renderAll [.action (.ofGroup actionHeader g)])
      = [(Action.ofGroup actionHeader g).node] := by
    rw [Declaration.renderAll_eq_flatMap, List.flatMap_singleton, Declaration.renderLines, action.outline_renderLines]
  rw [read_eq, named, ← Diagnostic.map_kind_relocate .unplace, moved, writable.diagnostics_classify_titled rfl,
    Diagnostic.map_kind_relocate, ← action_notes]
  show ((sectionNotes ⟨.actions, 0, [.action (.ofGroup actionHeader g)]⟩) ++ []).map Diagnostic.kind = _
  rw [List.append_nil, sectionNotes, sectionNode, Declaration.notes_readAll_relocate, Diagnostic.map_kind_relocate, lines,
    Declaration.readAll, Noted.notes_gather, List.flatMap_singleton]
  rfl

/-- A tree of groups of any depth that was made from lines is read again when it is written as the rules of the only
action of a class: the action has the one group, which differs in the numbers of its lines alone, and all that is noted
is that each group that holds nothing does so. -/
theorem read_render_ofGroup (wellFormed : g.WellFormed) (header_read : classHeader.IsRead)
    (isClass : classHeader.typeName.any isClassType = true) (action_read : actionHeader.IsRead)
    (setAction : ActionKind.ofType (actionHeader.typeName.getD []) = .setAction) :
    ∃ a g', (read {} (ofGroup classHeader actionHeader g).render).document.actions = [a] ∧
      a.header.relocate .erase = actionHeader.relocate .erase ∧ a.isSetAction = true ∧
      a.rules? = some ⟨[.group g']⟩ ∧ g'.relocate .erase = g.relocate .erase ∧ g'.depth = g.depth ∧
      (read {} (ofGroup classHeader actionHeader g).render).diagnostics.map Diagnostic.kind
        = (g.preorder.filter SetRuleGroup.holdsNothing).map fun k => .unterminatedSetRuleGroup k.name := by
  have writable := wellFormed.writable
  obtain ⟨a, g', actions, header, kind, rules, same⟩ := actions_read_ofGroup header_read isClass action_read writable
  refine ⟨a, g', actions, header, ?_, rules, same, ?_, ?_⟩
  · rw [Action.isSetAction, kind, setAction]
    rfl
  · rw [← SetRuleGroup.depth_relocate .erase g', same, SetRuleGroup.depth_relocate]
  · rw [kinds_read_ofGroup header_read isClass action_read writable, writable.kinds_read_node]

/-- Groups with ragged rules: a line that says `set rules` stands under a line with fewer tabs. -/
def ragged : SetRuleGroup :=
  ⟨.path ["Company".toList, "Ledger".toList], 7, some [], some "\t\tleave\nnow".toList,
    some "\tif x\n\t\tset rules\ny".toList,
    [⟨.general, 0, none, none, none, []⟩,
      ⟨.empty, 3, none, some "z".toList, none, [⟨.general, 1, none, none, none, []⟩]⟩]⟩

/-- A class header as it is read. -/
def orderHeader : Header := ⟨"Order".toList, some .a, some "Business Class".toList, [], 1, ⟨0, 25⟩⟩

/-- The header of an action as it is read. -/
def fillHeader : Header := ⟨"Fill".toList, none, some "Set Action".toList, ["restricted".toList], 3, ⟨30, 59⟩⟩

theorem read_render_ofGroup_ragged : ragged.WellFormed ∧ orderHeader.IsRead ∧ fillHeader.IsRead ∧
    ∃ a g', (read {} (ofGroup orderHeader fillHeader ragged).render).document.actions = [a] ∧
      a.rules? = some ⟨[.group g']⟩ ∧ g'.relocate .erase = ragged.relocate .erase ∧ g'.depth = 3 ∧
      (read {} (ofGroup orderHeader fillHeader ragged).render).diagnostics.map Diagnostic.kind
        = [.unterminatedSetRuleGroup "General".toList, .unterminatedSetRuleGroup "General".toList] := by
  have key : GroupKey.ofHeader? "Set Rules".toList = some .general := by decide +kernel
  have general (n : Nat) : (SetRuleGroup.mk .general n none none none []).WellFormed :=
    .mk ⟨_, key⟩ (by simp) (by simp) (by simp) (by simp)
  have block (ls : List Text) (lines : ∀ l ∈ ls, Text.IsContent (l.dropWhile (· == '\t'))) : (Text.stack ls).IsBlock :=
    ⟨ls, lines, rfl⟩
  have empty : (SetRuleGroup.mk .empty 3 none (some "z".toList) none [⟨.general, 1, none, none, none, []⟩]).WellFormed := by
    refine .mk ⟨"empty set rules".toList, by decide +kernel⟩ (by simp) ?_ (by simp) (by simpa using general 1)
    rintro t ⟨⟩
    exact block ["z".toList] (by decide +kernel)
  have wellFormed : ragged.WellFormed := by
    refine .mk ⟨"Company.Ledger Set Rules".toList, by decide +kernel⟩ ?_ ?_ ?_ ?_
    · rintro t ⟨⟩
      exact block [] (by simp)
    · rintro t ⟨⟩
      exact block ["\t\tleave".toList, "now".toList] (by decide +kernel)
    · rintro t ⟨⟩
      refine ⟨block ["\tif x".toList, "\t\tset rules".toList, "y".toList] (by decide +kernel), by decide,
        fun before l after whole le => ?_⟩
      have lines : Text.lines "\tif x\n\t\tset rules\ny".toList = ["\tif x".toList, "\t\tset rules".toList, "y".toList] := by
        decide
      rw [lines] at whole
      obtain - | ⟨m, - | ⟨m', - | ⟨m'', before⟩⟩⟩ := before <;>
        simp only [List.nil_append, List.cons_append, List.cons.injEq] at whole
      · obtain ⟨rfl, -⟩ := whole
        decide +kernel
      · obtain ⟨rfl, rfl, -⟩ := whole
        exact absurd (le _ List.mem_cons_self) (by decide)
      · obtain ⟨rfl, rfl, rfl, -⟩ := whole
        decide +kernel
      · simp at whole
    · exact List.forall_mem_cons.2 ⟨general 0, List.forall_mem_singleton.2 empty⟩
  have class_read : orderHeader.IsRead :=
    ⟨"Order is a Business Class".toList, 1, ⟨0, 25⟩, by decide +kernel, by decide +kernel⟩
  have action_read : fillHeader.IsRead :=
    ⟨"Fill is Set Action restricted".toList, 3, ⟨30, 59⟩, by decide +kernel, by decide +kernel⟩
  obtain ⟨a, g', actions, -, -, rules, same, depth, kinds⟩ :=
    read_render_ofGroup wellFormed class_read (by decide) action_read (by decide)
  exact ⟨wellFormed, class_read, action_read, a, g', actions, rules, same, depth.trans (by decide), kinds⟩

end Document

end BusinessClass
