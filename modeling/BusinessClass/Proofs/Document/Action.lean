import BusinessClass.Proofs.Document.Declaration
import BusinessClass.Proofs.Document.Roles
import BusinessClass.Proofs.Document.Vocabulary
import BusinessClass.Proofs.SetRules.Order

/-!
# Writing actions and reading them again

An action hands the lines under it to its header, its body and its sub-sections. Written, it has its
body first and then one header for each sub-section with the lines of the sub-section under it, so each
line is handed to the same place again.

* `Parts.From`: what is handed out comes from the lines under the action and their children.
* `Action.Writable` is what an action that is read satisfies (`writable_read`).
* `Action.reread`: a written action is read as the action with each sub-section read again.
* `ActionSection.reread_rules` and the theorems beside it: what becomes of each kind of content.
-/

namespace BusinessClass

open Forest (outline settle Nested NestedTree Tidy)

namespace Action

/-! ### Handing out lines -/

/-- What was handed out comes from the lines that are done. -/
structure Parts.From (done : List Node) (p : Parts) : Prop where
  qualifiers : ∀ q ∈ p.qualifiers, ∃ n ∈ done, ∃ qs, n.qualifiers? {} = some qs ∧ q ∈ qs
  body : p.body.Sublist done
  plain : ∀ n ∈ p.body, n.qualifiers? {} = none ∧ ActionSectionKind.ofHeader? n.text = none
  nodup : (Catalog.keys p.sections).Nodup
  sections : ∀ e ∈ p.sections, ∀ n ∈ e.2, n ∈ done ∨ ∃ c ∈ done, n ∈ c.children

/-- What is handed out comes from the lines under the action. -/
theorem from_distribute (children : List Node) : (distribute {} children).From children := by
  have sorts := Parts.sorts_distribute {} children
  refine ⟨fun q hq => ?_, ?_, fun n hn => ?_, sorts.nodup_keys, fun e he n hn => ?_⟩
  · rw [sorts.qualifiers] at hq
    obtain ⟨n, phrases, mem, hq⟩ := mem_phrasesOf.1 hq
    obtain ⟨_, _, _, plays⟩ := exists_plays_of_mem_cast mem
    cases plays with
    | qualifier leads plain leaf line =>
      exact ⟨n, mem_of_mem_cast mem, phrases, qualifiers?_eq_some_iff.2 ⟨leaf, line⟩, hq⟩
  · rw [sorts.body]
    exact bodyOf_sublist {} children
  · rw [sorts.body] at hn
    obtain ⟨_, _, _, plays⟩ := exists_plays_of_mem_cast (mem_bodyOf.1 hn)
    cases plays with
    | body leads plain other => exact ⟨qualifiers?_eq_none_iff.2 other, plain⟩
  · rw [sorts.eq_givenTo he] at hn
    rcases mem_givenTo.1 hn with stray | ⟨c, header, hn⟩
    · exact Or.inl (mem_of_mem_cast stray)
    · exact Or.inr ⟨c, mem_of_mem_cast header, hn⟩

end Action

/-! ### Sub-sections that can be written -/

namespace ActionSectionKind

theorem isContent_name (k : ActionSectionKind) : k.name.IsContent := by
  cases k <;> decide +kernel

/-- Whether the sub-section holds declarations. -/
def holdsFields : ActionSectionKind → Bool
  | .parameters | .localFields => true
  | _ => false

/-- Whether the sub-section is kept as an outline. -/
def holdsEntries : ActionSectionKind → Bool
  | .queueMappingFields | .sortOrder | .accumulators => true
  | _ => false

end ActionSectionKind

namespace Declaration

/-- A field that can be written. -/
def IsField (d : Declaration) : Prop := ∃ h body, d = .field ⟨h, body⟩ ∧ Splits h body

theorem isField_of_read {n : Node} (tree : NestedTree n) (content : n.text.IsContent)
    (tidy : Tidy n.children) {d : Declaration} (read : (read {} .persistentFields n).value = some d) :
    d.IsField := by
  obtain ⟨h, body, split, rfl⟩ := read_eq_some (by decide) read
  exact ⟨h, body, rfl, splits_of_split tree content tidy split⟩

end Declaration

namespace ActionSection

/-- The content of a sub-section of that kind can be written. -/
inductive Writable : ActionSectionKind → ActionSection → Prop
  | fields {k : ActionSectionKind} {ds : List Declaration} (kind : k.holdsFields = true)
      (fields : ∀ d ∈ ds, d.IsField) : Writable k (.fields ds)
  | entries {k : ActionSectionKind} {nodes : List Node} (kind : k.holdsEntries = true)
      (tidy : Tidy nodes) : Writable k (.entries nodes)
  | rules {t : Text} (block : t.IsBlock) : Writable .parameterRules (.rules t)
  | selection {t : Text} (block : t.IsBlock) :
      Writable .instanceSelection (.selection ⟨WhereClause.filter? t, t⟩)
  | actionRules {rules : ActionRules} (writable : rules.Writable) :
      Writable .actionRules (.actionRules rules)

end ActionSection

theorem Declaration.renderAll_eq_flatMap (ds : List Declaration) :
    renderAll ds = ds.flatMap renderLines := by
  induction ds with
  | nil => rfl
  | cons d ds ih => rw [renderAll, ih, List.flatMap_cons]

/-- Written content consists of lines. -/
theorem ActionSection.Writable.isLine {k : ActionSectionKind} {c : ActionSection} (h : c.Writable k) :
    ∀ t ∈ c.renderLines, t.IsLine := by
  cases h with
  | fields kind fields =>
    intro t ht
    rw [ActionSection.renderLines, Declaration.renderAll_eq_flatMap] at ht
    obtain ⟨d, hd, ht⟩ := List.mem_flatMap.1 ht
    obtain ⟨h, body, rfl, splits⟩ := fields d hd
    rw [Declaration.renderLines] at ht
    exact splits.isLine t ht
  | entries kind tidy => exact Forest.isLine_renderLines tidy
  | rules block => exact block.isLine
  | selection block => exact block.isLine
  | actionRules writable => exact writable.isLine

namespace Action

theorem value_readSection_fields {k : ActionSectionKind} (kind : k.holdsFields = true) (depth : Nat)
    (nodes : List Node) : (readSection {} depth k nodes).value
      = .fields (Declaration.readAll {} .persistentFields nodes).value := by
  have fields (isLocal : Bool) :
      (Noted.gather (fun n => Declaration.ofSplit {} n (Declaration.ofField {} isLocal)) nodes).value
        = (Declaration.readAll {} .persistentFields nodes).value := by
    rw [Declaration.readAll, Noted.value_gather, Noted.value_gather]
    refine congrArg (List.filterMap · nodes) (funext fun n => ?_)
    rw [Declaration.value_read (by decide), Declaration.value_ofSplit]
    exact congrArg (Option.map · _) (funext fun p => Declaration.ofField_default isLocal p.1 p.2)
  cases k with
  | parameters => exact congrArg ActionSection.fields (fields false)
  | localFields => exact congrArg ActionSection.fields (fields true)
  | _ => cases kind

theorem value_readSection_entries {k : ActionSectionKind} (kind : k.holdsEntries = true) (depth : Nat)
    (nodes : List Node) : (readSection {} depth k nodes).value = .entries nodes := by
  cases k with
  | queueMappingFields | sortOrder | accumulators => rfl
  | _ => cases kind

theorem baseDepth_le (depth : Nat) {f : List Node} {n : Node} (h : n ∈ f) : baseDepth depth f ≤ n.depth := by
  have := Forest.minDepth_le h
  cases hm : (f.map Node.depth).min? with
  | none => simp_all
  | some d =>
    simp only [Forest.minDepth, hm, Option.getD_some] at this
    simp only [baseDepth, hm, Option.map_some, Option.getD_some]
    omega

/-- Lines that are no shallower than the level below sub-section headers are read from there. -/
theorem baseDepth_eq {depth : Nat} {f : List Node} (le : ∀ n ∈ f, depth + 2 ≤ n.depth) :
    baseDepth depth f = depth + 2 := by
  cases hm : (f.map Node.depth).min? with
  | none => rw [baseDepth, hm]; rfl
  | some d =>
    obtain ⟨n, hn, rfl⟩ := List.mem_map.1 (List.min?_eq_some_iff.1 hm).1
    have := le n hn
    simp only [baseDepth, hm, Option.map_some, Option.getD_some]
    omega

/-- The content of a sub-section that is read can be written. -/
theorem writable_readSection {nodes : List Node} (trees : ∀ n ∈ nodes, NestedTree n) (tidy : Tidy nodes)
    (depth : Nat) (k : ActionSectionKind) : (readSection {} depth k nodes).value.Writable k := by
  have fields (kind : k.holdsFields = true) : (readSection {} depth k nodes).value.Writable k := by
    rw [value_readSection_fields kind]
    refine .fields kind fun d hd => ?_
    rw [Declaration.readAll, Noted.value_gather] at hd
    obtain ⟨n, hn, read⟩ := List.mem_filterMap.1 hd
    exact Declaration.isField_of_read (trees n hn) (tidy.isContent hn) (tidy.children hn) read
  have entries (kind : k.holdsEntries = true) : (readSection {} depth k nodes).value.Writable k := by
    rw [value_readSection_entries kind]
    exact .entries kind tidy
  have block := Forest.isBlock_text tidy (baseDepth depth nodes)
  cases k with
  | parameters | localFields => exact fields rfl
  | queueMappingFields | sortOrder | accumulators => exact entries rfl
  | parameterRules => exact .rules block
  | instanceSelection => exact .selection block
  | actionRules =>
    exact .actionRules (ActionRules.writable_read trees tidy
      (Forest.le_depth_of_mem_lines trees fun n hn => baseDepth_le depth hn))

/-! ### Actions that can be written -/

/-- The action can be written. -/
structure Writable (a : Action) : Prop where
  header : ∃ ls, a.header.Typed ls
  kind : a.kind = ActionKind.ofType (a.header.typeName.getD [])
  nested : Nested a.body
  tidy : Tidy a.body
  plain : ∀ n ∈ a.body, n.qualifiers? {} = none ∧ ActionSectionKind.ofHeader? n.text = none
  nodup : (Catalog.keys a.sections).Nodup
  sections : ∀ e ∈ a.sections, e.2.Writable e.1

/-- The lines that are handed to sub-sections are trees with content. -/
theorem Parts.From.trees {children : List Node} {p : Parts} (h : p.From children) (nested : Nested children)
    (tidy : Tidy children) : ∀ e ∈ p.sections, (∀ n ∈ e.2, NestedTree n) ∧ Tidy e.2 := by
  intro e he
  have each : ∀ n ∈ e.2, NestedTree n ∧ n.text.IsContent ∧ Tidy n.children := by
    intro n hn
    rcases h.sections e he n hn with hn | ⟨c, hc, hn⟩
    · exact ⟨nested.tree hn, tidy.isContent hn, tidy.children hn⟩
    · have := tidy.children hc
      exact ⟨(nested.tree hc).children.tree hn, this.isContent hn, this.children hn⟩
  exact ⟨fun n hn => (each n hn).1, Forest.tidy_of_forall fun n hn => (each n hn).2⟩

/-- What an action is read from. -/
theorem read_eq_some {o : Options} {n : Node} {a : Action} (read : (read o n).value = some a) :
    ∃ header, Header.recognize o.phrases n.text n.line n.span = .ok header ∧
      a = ⟨header.addQualifiers (distribute o n.children).qualifiers,
        ActionKind.ofType (header.typeName.getD []), (distribute o n.children).body,
        (distribute o n.children).sections.map fun e => (e.1, (readSection o n.depth e.1 e.2).value)⟩ := by
  rw [Action.read] at read
  cases hh : Header.recognize o.phrases n.text n.line n.span with
  | error e => rw [hh] at read; cases read
  | ok header =>
    rw [hh] at read
    refine ⟨header, rfl, ?_⟩
    rw [← Option.some.inj read, value_readSections]

/-- Every action that is read can be written. -/
theorem writable_read {n : Node} (tree : NestedTree n) (content : n.text.IsContent)
    (tidy : Tidy n.children) {a : Action} (read : (read {} n).value = some a) : a.Writable := by
  obtain ⟨header, recognized, rfl⟩ := read_eq_some read
  have handed := from_distribute n.children
  obtain ⟨ls, typed⟩ := Header.typed_of_recognize recognized content.no_feed content.no_return
  refine ⟨⟨ls, typed.addQualifiers fun q hq => ?_⟩, rfl, tree.children.sublist handed.body,
    tidy.sublist handed.body, handed.plain, ?_, fun e he => ?_⟩
  · obtain ⟨c, hc, qs, hqs, hq⟩ := handed.qualifiers q hq
    exact Declaration.isPhrase_of_qualifiers? (tidy.isContent hc) hqs q hq
  · rw [Catalog.keys_map]
    exact handed.nodup
  · obtain ⟨e, hm, rfl⟩ := List.mem_map.1 he
    obtain ⟨trees, tidy⟩ := handed.trees tree.children tidy e hm
    exact writable_readSection trees tidy n.depth e.1

/-! ### Written actions -/

/-- The lines of a sub-section. -/
def renderSection (e : ActionSectionKind × ActionSection) : List Text :=
  e.1.name :: Lines.indent e.2.renderLines

theorem renderSections_eq_flatMap (sections : List (ActionSectionKind × ActionSection)) :
    renderSections sections = sections.flatMap renderSection := by
  induction sections with
  | nil => rfl
  | cons e rest ih =>
    rw [renderSections, ih, List.flatMap_cons]
    rfl

/-- The node of a written sub-section. -/
def sectionNode (e : ActionSectionKind × ActionSection) : Node :=
  ⟨e.1.name, 0, 0, ⟨0, 0⟩, (outline e.2.renderLines).map (Node.relocate (.shift 1))⟩

theorem flush_renderSection (e : ActionSectionKind × ActionSection) : Lines.Flush (renderSection e) :=
  Lines.flush_cons e.1.isContent_name _

theorem outline_renderSections (sections : List (ActionSectionKind × ActionSection)) :
    outline (renderSections sections) = sections.map sectionNode := by
  rw [renderSections_eq_flatMap, Forest.outline_flatMap fun e _ => flush_renderSection e,
    List.map_eq_flatMap]
  exact List.flatMap_congr fun e _ => Forest.outline_cons_indent e.1.isContent_name _

/-- The node of a written action. -/
def node (a : Action) : Node :=
  ⟨a.header.render, 0, 0, ⟨0, 0⟩,
    settle a.body ++ (a.sections.map sectionNode).map (Node.relocate (.shift 1))⟩

variable {a : Action}

theorem Writable.renderLines_eq (h : a.Writable) : a.renderLines
    = a.header.render :: Lines.indent (Forest.renderLines a.body ++ renderSections a.sections) := by
  obtain ⟨ls, typed⟩ := h.header
  obtain ⟨header, kind, body, sections⟩ := a
  rw [Action.renderLines, Header.renderWith, typed.typeName]
  rfl

theorem Writable.isContent_render (h : a.Writable) : a.header.render.IsContent := by
  obtain ⟨ls, typed⟩ := h.header
  exact typed.isContent_render

theorem Writable.flush (h : a.Writable) : Lines.Flush a.renderLines := by
  rw [h.renderLines_eq]
  exact Lines.flush_cons h.isContent_render _

/-- A written action consists of lines. -/
theorem Writable.isLine (h : a.Writable) : ∀ t ∈ a.renderLines, t.IsLine := by
  rw [h.renderLines_eq]
  intro t ht
  rcases List.mem_cons.1 ht with rfl | ht
  · exact h.isContent_render.isLine_zero
  · refine Lines.isLine_indent (fun t ht => ?_) t ht
    rcases List.mem_append.1 ht with ht | ht
    · exact Forest.isLine_renderLines h.tidy t ht
    · rw [renderSections_eq_flatMap] at ht
      obtain ⟨e, he, ht⟩ := List.mem_flatMap.1 ht
      rcases List.mem_cons.1 ht with rfl | ht
      · exact e.1.isContent_name.isLine_zero
      · exact Lines.isLine_indent (h.sections e he).isLine t ht

/-- A written action is one node. -/
theorem Writable.outline_renderLines (h : a.Writable) : outline a.renderLines = [a.node] := by
  have flush : Lines.Flush (renderSections a.sections) := by
    rw [renderSections_eq_flatMap]
    exact Lines.flush_flatMap fun e _ => flush_renderSection e
  rw [h.renderLines_eq, Forest.outline_cons_indent h.isContent_render, Forest.outline_append flush,
    outline_renderSections, List.map_append]
  rfl

/-! ### Written actions are read again -/

/-- Lines that are neither qualifiers nor headers of sub-sections make up the body. -/
theorem foldl_add_body {f : List Node}
    (plain : ∀ n ∈ f, n.qualifiers? {} = none ∧ ActionSectionKind.ofHeader? n.text = none) {p : Parts}
    (closed : p.current = none) :
    f.foldl (Parts.add {}) p = { p with body := p.body ++ f } := by
  induction f generalizing p with
  | nil => rw [List.append_nil]; rfl
  | cons n f ih =>
    obtain ⟨phrase, header⟩ := plain n List.mem_cons_self
    have add : p.add {} n = { p with body := p.body ++ [n] } := by
      rw [Parts.add, header, closed, phrase]
    have rest := ih (fun m hm => plain m (List.mem_cons_of_mem n hm))
      (p := { p with body := p.body ++ [n] }) closed
    rw [List.foldl_cons, add, rest]
    simp

/-- Headers of different sub-sections open one sub-section each. -/
theorem foldl_add_headers {f : List Node} {keys : List ActionSectionKind}
    (headers : f.map (fun n => ActionSectionKind.ofHeader? n.text) = keys.map some) {p : Parts}
    (nodup : (Catalog.keys p.sections ++ keys).Nodup) :
    (f.foldl (Parts.add {}) p).qualifiers = p.qualifiers ∧ (f.foldl (Parts.add {}) p).body = p.body ∧
      (f.foldl (Parts.add {}) p).sections = p.sections ++ keys.zip (f.map Node.children) ∧
      (f.foldl (Parts.add {}) p).repeated = p.repeated := by
  induction f generalizing keys p with
  | nil =>
    obtain rfl := List.map_eq_nil_iff.1 headers.symm
    simp
  | cons n f ih =>
    cases keys with
    | nil => cases headers
    | cons k keys =>
      obtain ⟨header, headers⟩ := List.cons.inj headers
      replace header : ActionSectionKind.ofHeader? n.text = some k := header
      -- The key is not among those before it, so its sub-section is new.
      have new : k ∉ Catalog.keys p.sections := fun mem =>
        (List.nodup_append.1 nodup).2.2 k mem k List.mem_cons_self rfl
      have opened : (p.add {} n).sections = p.sections ++ [(k, n.children)] := by
        rw [Parts.add, header]
        exact Catalog.upsert_of_not_mem new
      have first : (p.add {} n).repeated = p.repeated := by
        rw [Parts.add, header]
        simp only [Catalog.contains_eq_false new, Bool.false_eq_true, if_false]
      have rest : (Catalog.keys (p.add {} n).sections ++ keys).Nodup := by
        rw [opened, Catalog.keys, List.map_append, List.append_assoc]
        exact nodup
      obtain ⟨qualifiers, body, sections, repeated⟩ := ih headers rest
      rw [List.foldl_cons, qualifiers, body, sections, repeated, opened, first, List.append_assoc]
      refine ⟨?_, ?_, rfl, rfl⟩
      · rw [Parts.add, header]
        rfl
      · rw [Parts.add, header]
        rfl

end Action

/-- The content of a sub-section as it is read again from its lines. -/
def ActionSection.reread (k : ActionSectionKind) (c : ActionSection) : ActionSection :=
  (Action.readSection {} 0 k ((outline c.renderLines).map (Node.relocate (.shift 2)))).value

namespace ActionSection

open Declaration (IsField)

variable {k : ActionSectionKind}

theorem baseDepth_outline (ls : List Text) :
    Action.baseDepth 0 ((outline ls).map (Node.relocate (.shift 2))) = 2 := by
  refine Action.baseDepth_eq fun n hn => ?_
  obtain ⟨m, -, rfl⟩ := List.mem_map.1 hn
  rw [Node.depth_relocate, Relocation.depth_shift]
  omega

theorem reread_fields (kind : k.holdsFields = true) {ds : List Declaration} (fields : ∀ d ∈ ds, d.IsField) :
    reread k (.fields ds)
      = .fields ((ds.flatMap (Declaration.reread .persistentFields)).map
          (Declaration.relocate (.shift 2))) := by
  have flush : ∀ d ∈ ds, Lines.Flush d.renderLines := by
    intro d hd
    obtain ⟨h, body, rfl, splits⟩ := fields d hd
    rw [Declaration.renderLines]
    exact splits.flush
  rw [reread, Action.value_readSection_fields kind, Declaration.value_readAll_relocate
    (Relocation.shifts_shift 2), ActionSection.renderLines, Declaration.renderAll_eq_flatMap,
    Forest.outline_flatMap flush, Declaration.readAll, Noted.value_gather, List.filterMap_flatMap]
  have each (d : Declaration) : Declaration.reread .persistentFields d
      = (outline d.renderLines).filterMap fun n => (Declaration.read {} .persistentFields n).value := by
    rw [Declaration.reread, Declaration.readAll, Noted.value_gather]
  rw [funext each]

theorem reread_entries (kind : k.holdsEntries = true) (nodes : List Node) :
    reread k (.entries nodes)
      = .entries ((outline (Forest.renderLines nodes)).map (Node.relocate (.shift 2))) := by
  rw [reread, Action.value_readSection_entries kind, ActionSection.renderLines]

theorem text_reread {t : Text} (block : t.IsBlock) :
    Forest.text ((outline t.lines).map (Node.relocate (.shift 2)))
      (Action.baseDepth 0 ((outline t.lines).map (Node.relocate (.shift 2)))) = t := by
  rw [baseDepth_outline, Forest.text_outline_shift, block.stack_lines]

theorem reread_rules {t : Text} (block : t.IsBlock) : reread .parameterRules (.rules t) = .rules t := by
  rw [reread, ActionSection.renderLines, Action.readSection]
  exact congrArg ActionSection.rules (text_reread block)

theorem reread_selection {t : Text} (block : t.IsBlock) :
    reread .instanceSelection (.selection ⟨WhereClause.filter? t, t⟩)
      = .selection ⟨WhereClause.filter? t, t⟩ := by
  rw [reread, ActionSection.renderLines, Action.readSection]
  simp only [text_reread block]

theorem reread_actionRules (rules : ActionRules) :
    reread .actionRules (.actionRules rules) = .actionRules rules.reread := by
  have moved := ActionRules.value_read_relocate (Relocation.shifts_shift 2) {} 0
    (outline rules.renderLines)
  rw [reread, ActionSection.renderLines, Action.readSection]
  simp only [baseDepth_outline]
  refine congrArg ActionSection.actionRules ?_
  exact moved.trans (ActionRules.relocate_eq_self _ (fun _ => rfl) _)

/-! ### What stays the same -/

/-- The content is read again as it is, numbers, places and depths of lines aside. -/
def Stable (k : ActionSectionKind) (c : ActionSection) : Prop :=
  (reread k c).relocate .erase = c.relocate .erase

theorem stable_fields (kind : k.holdsFields = true) {ds : List Declaration} (fields : ∀ d ∈ ds, d.IsField)
    (stable : ∀ d ∈ ds, d.Stable .persistentFields) : Stable k (.fields ds) := by
  have erase : (Declaration.relocate .erase ∘ Declaration.relocate (.shift 2))
      = Declaration.relocate .erase :=
    funext fun d => Declaration.relocate_relocate (.shift 2) .erase d
  have each : (ds.flatMap (Declaration.reread .persistentFields)).map (Declaration.relocate .erase)
      = ds.map (Declaration.relocate .erase) := by
    rw [List.map_flatMap, List.map_eq_flatMap]
    exact List.flatMap_congr stable
  rw [Stable, reread_fields kind fields, ActionSection.relocate, ActionSection.relocate,
    Declaration.relocateAll_eq_map, Declaration.relocateAll_eq_map, List.map_map, erase, each]

theorem stable_entries (kind : k.holdsEntries = true) {nodes : List Node} (nested : Nested nodes)
    (tidy : Tidy nodes) : Stable k (.entries nodes) := by
  rw [Stable, reread_entries kind, ActionSection.relocate, ActionSection.relocate,
    Forest.outline_renderLines nested tidy, Forest.relocate_relocate, Forest.relocate_relocate]
  rfl

theorem stable_actionRules {rules : ActionRules} (writable : rules.Writable)
    (detached : rules.items.IsChain RuleItem.Detached) : Stable .actionRules (.actionRules rules) := by
  rw [Stable, reread_actionRules, writable.reread_eq detached, ActionSection.relocate,
    ActionSection.relocate, ActionRules.relocate_relocate]
  rfl

/-- Content other than the rules of the action is written in the same lines. -/
theorem Writable.renderLines_reread {c : ActionSection} (h : c.Writable k)
    (other : ∀ rules, c ≠ .actionRules rules) : (reread k c).renderLines = c.renderLines := by
  cases h with
  | @fields _ ds kind fields =>
    have moved (d : Declaration) := Declaration.renderLines_relocate (Relocation.shifts_shift 2) d
    rw [reread_fields kind fields, ActionSection.renderLines, ActionSection.renderLines,
      Declaration.renderAll_eq_flatMap, Declaration.renderAll_eq_flatMap, List.flatMap_map, funext moved, List.flatMap_assoc]
    refine List.flatMap_congr fun d hd => ?_
    obtain ⟨h, body, rfl, splits⟩ := fields d hd
    exact Declaration.Splits.renderLines_reread (by decide : SectionKind.persistentFields ≠ .actions) splits
  | @entries _ nodes kind tidy =>
    rw [reread_entries kind]
    exact Forest.renderLines_outline_shift (Forest.isLine_renderLines tidy)
      (Forest.exists_flush_renderLines tidy) 2
  | rules block => rw [reread_rules block]
  | selection block => rw [reread_selection block]
  | @actionRules rules => exact absurd rfl (other rules)

theorem Writable.length_renderLines_reread_le {c : ActionSection} (h : c.Writable k) :
    (reread k c).renderLines.length ≤ c.renderLines.length := by
  by_cases other : ∀ rules, c ≠ .actionRules rules
  · rw [h.renderLines_reread other]
  · simp only [ne_eq, not_forall, not_not] at other
    obtain ⟨rules, rfl⟩ := other
    cases h with
    | actionRules writable =>
      rw [reread_actionRules]
      exact writable.length_renderLines_reread_le

/-- The content of a sub-section is written in the same lines unless groups stand in another order than
the written one. -/
theorem Writable.renderLines_reread_iff {c : ActionSection} (h : c.Writable k) :
    (reread k c).renderLines = c.renderLines ↔ ∀ rules, c = .actionRules rules → rules.InOrder := by
  by_cases other : ∀ rules, c ≠ .actionRules rules
  · exact iff_of_true (h.renderLines_reread other) fun rules eq => absurd eq (other rules)
  · simp only [ne_eq, not_forall, not_not] at other
    obtain ⟨rules, rfl⟩ := other
    cases h with
    | actionRules writable =>
      rw [reread_actionRules]
      refine writable.renderLines_reread_iff.trans ⟨fun inOrder _ eq => ?_, fun all => all rules rfl⟩
      cases eq
      exact inOrder

end ActionSection

namespace Action

/-- The action as it is read again from its lines. -/
def reread (a : Action) : Action :=
  ⟨a.header.relocate .unplace, a.kind, settle a.body,
    a.sections.map fun e => (e.1, ActionSection.reread e.1 e.2)⟩

variable {a : Action}

theorem children_sectionNode (e : ActionSectionKind × ActionSection) :
    ((sectionNode e).relocate (.shift 1)).children
      = (outline e.2.renderLines).map (Node.relocate (.shift 2)) := by
  rw [Node.children_relocate]
  exact Forest.relocate_relocate _ _ _

/-- The lines under a written action are handed to the places that they were written from. -/
theorem Writable.distribute_node (h : a.Writable) :
    (distribute {} a.node.children).qualifiers = [] ∧ (distribute {} a.node.children).body = settle a.body ∧
      (distribute {} a.node.children).sections
        = a.sections.map (fun e => (e.1, (outline e.2.renderLines).map (Node.relocate (.shift 2)))) ∧
      (distribute {} a.node.children).repeated = [] := by
  have plain : ∀ n ∈ settle a.body,
      n.qualifiers? {} = none ∧ ActionSectionKind.ofHeader? n.text = none := by
    rw [Forest.settle_eq h.nested h.tidy]
    intro n hn
    obtain ⟨m, hm, rfl⟩ := List.mem_map.1 hn
    rw [Node.qualifiers?_relocate, Node.text_relocate]
    exact h.plain m hm
  have headers : ((a.sections.map sectionNode).map (Node.relocate (.shift 1))).map
      (fun n => ActionSectionKind.ofHeader? n.text) = (Catalog.keys a.sections).map some := by
    rw [Catalog.keys, List.map_map, List.map_map, List.map_map]
    refine List.map_congr_left fun e _ => ?_
    exact (congrArg _ (Node.text_relocate _ _)).trans (Vocabulary.ofHeader?_name e.1)
  have zip : (Catalog.keys a.sections).zip
      (((a.sections.map sectionNode).map (Node.relocate (.shift 1))).map Node.children)
        = a.sections.map fun e => (e.1, (outline e.2.renderLines).map (Node.relocate (.shift 2))) := by
    rw [Catalog.keys, List.map_map, List.map_map, List.zip_map']
    exact List.map_congr_left fun e _ => Prod.ext rfl (children_sectionNode e)
  have opened := foldl_add_headers (p := { body := settle a.body }) headers h.nodup
  rw [zip] at opened
  rw [distribute, node, List.foldl_append, foldl_add_body plain rfl]
  exact opened

/-- A written action is read as the action with its sub-sections read again. -/
theorem Writable.value_read_node (h : a.Writable) : (read {} a.node).value = some a.reread := by
  obtain ⟨ls, typed⟩ := h.header
  obtain ⟨qualifiers, body, sections, -⟩ := h.distribute_node
  have phrases : ({} : Options).phrases = [] := rfl
  have recognized : Header.recognize [] a.node.text a.node.line a.node.span
      = .ok (a.header.relocate .unplace) := typed.recognize_render 0 ⟨0, 0⟩
  rw [read, phrases, recognized]
  simp only [value_readSections]
  rw [qualifiers, body, sections, List.map_map, reread, h.kind]
  simp [Header.addQualifiers, Header.relocate, ActionSection.reread, node]

theorem Writable.reread_action (h : a.Writable) :
    Declaration.reread .actions (.action a) = [.action a.reread] := by
  refine Declaration.reread_of_outline (n := a.node) ?_ ?_
  · rw [Declaration.renderLines]
    exact h.outline_renderLines
  · rw [Declaration.read, h.value_read_node]
    rfl

/-- An action whose sub-sections are read again as they are is so itself. -/
theorem Writable.stable (h : a.Writable) (sections : ∀ e ∈ a.sections, e.2.Stable e.1) :
    Declaration.Stable .actions (.action a) := by
  have body := Forest.settle_erase h.nested h.tidy
  rw [Declaration.Stable, h.reread_action, List.map_singleton]
  refine congrArg (fun a => [Declaration.action a]) ?_
  obtain ⟨header, kind, nodes, contents⟩ := a
  rw [reread, relocate, relocate, body, relocateSections_eq_map, relocateSections_eq_map, List.map_map]
  refine congrArg (Action.mk _ _ _) (List.map_congr_left fun e he => ?_)
  exact Prod.ext rfl (sections e he)

theorem renderSections_reread (sections : List (ActionSectionKind × ActionSection)) :
    renderSections (sections.map fun e => (e.1, ActionSection.reread e.1 e.2))
      = sections.flatMap fun e => renderSection (e.1, ActionSection.reread e.1 e.2) := by
  rw [renderSections_eq_flatMap, List.flatMap_map]

/-- The rules of an action are the content of their sub-section. -/
theorem Writable.rules?_eq_some_iff (h : a.Writable) {rules : ActionRules} :
    a.rules? = some rules ↔ (.actionRules, .actionRules rules) ∈ a.sections := by
  rw [rules?, section?]
  constructor
  · intro found
    cases content : Catalog.get? a.sections .actionRules with
    | none => rw [content] at found; cases found
    | some c =>
      rw [content] at found
      cases h.sections _ (Catalog.mem_of_get? content) with
      | actionRules writable =>
        cases found
        exact Catalog.mem_of_get? content
      | fields kind _ => cases kind
      | entries kind _ => cases kind
  · intro mem
    rw [Catalog.get?_of_mem h.nodup mem]

theorem Writable.rules?_reread (h : a.Writable) : a.reread.rules? = a.rules?.map ActionRules.reread := by
  rw [rules?, section?, rules?, section?, reread, Catalog.get?_map_key]
  cases content : Catalog.get? a.sections .actionRules with
  | none => rfl
  | some c =>
    cases h.sections _ (Catalog.mem_of_get? content) with
    | @actionRules rules writable => rw [Option.map_some, ActionSection.reread_actionRules]; rfl
    | fields kind _ => cases kind
    | entries kind _ => cases kind

/-- The body of an action that is read again is written in the same lines. -/
theorem Writable.renderLines_reread (h : a.Writable) : a.reread.renderLines
    = a.header.renderWith (Forest.renderLines a.body ++ renderSections a.reread.sections) := by
  have body := Forest.renderLines_settle h.tidy
  obtain ⟨header, kind, nodes, contents⟩ := a
  rw [reread, renderLines, body, Header.renderWith_relocate]

theorem renderLines_eq_renderWith (a : Action) : a.renderLines
    = a.header.renderWith (Forest.renderLines a.body ++ renderSections a.sections) := by
  cases a
  rw [renderLines]

theorem Writable.length_renderSection_le (h : a.Writable) : ∀ e ∈ a.sections,
    (renderSection (e.1, ActionSection.reread e.1 e.2)).length ≤ (renderSection e).length := by
  intro e he
  simpa [renderSection] using (h.sections e he).length_renderLines_reread_le

theorem Writable.length_renderLines_reread_le (h : a.Writable) :
    a.reread.renderLines.length ≤ a.renderLines.length := by
  have le := length_flatMap_le h.length_renderSection_le
  rw [h.renderLines_reread, renderLines_eq_renderWith, reread, renderSections_reread,
    renderSections_eq_flatMap]
  simp only [Declaration.length_renderWith, List.length_append]
  omega

/-- An action that is read again is written in the same lines exactly when the groups of its rules stand
in written order. -/
theorem Writable.renderLines_reread_iff (h : a.Writable) :
    a.reread.renderLines = a.renderLines ↔ ∀ rules ∈ a.rules?, rules.InOrder := by
  have pieces := flatMap_eq_flatMap_iff h.length_renderSection_le
  rw [← renderSections_reread, ← renderSections_eq_flatMap] at pieces
  have each : ∀ e ∈ a.sections, renderSection (e.1, ActionSection.reread e.1 e.2) = renderSection e
      ↔ ∀ rules, e.2 = .actionRules rules → rules.InOrder := by
    intro e he
    rw [← (h.sections e he).renderLines_reread_iff]
    simp [renderSection]
  rw [h.renderLines_reread, renderLines_eq_renderWith, Declaration.renderWith_inj, List.append_right_inj,
    reread, pieces, forall₂_congr each]
  constructor
  · intro all rules found
    exact all _ (h.rules?_eq_some_iff.1 found) rules rfl
  · rintro all ⟨k, c⟩ he rules rfl
    cases h.sections _ he
    exact all rules (h.rules?_eq_some_iff.2 he)

end Action

end BusinessClass
