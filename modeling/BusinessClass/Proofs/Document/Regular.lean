import BusinessClass.Proofs.Document.Rereading

/-!
# Regular sources

A source is regular when it starts with the class header, no line is more than one level deeper than the
line before it, and the lines under an action are its body followed by sub-sections. What is read from a
regular source is written so that it is read again as the same document.

* `Forest.Stepped` says that children are exactly one level deeper than their parent;
  `stepped_of_isChain` derives it from the depths of the lines.
* `Action.Ordered` says that nothing but sub-sections follows the first sub-section.
* `Declaration.stable_read`: declarations of a regular source are read again as they are.
* `Document.Regular.erase_read_render`: so is the document.
-/

namespace BusinessClass

open Forest (Nested NestedTree Tidy)

/-! ### Depths that grow by steps of one -/

/-- The second line is at most one level deeper than the first. -/
def SourceLine.Steps (l m : SourceLine) : Prop := m.depth ≤ l.depth + 1

instance (l m : SourceLine) : Decidable (l.Steps m) := inferInstanceAs (Decidable (_ ≤ _))

namespace Forest

/-- Children are one level deeper than their parent, down to the leaves. -/
def Stepped (f : List Node) : Prop := ∀ n ∈ nodes f, ∀ c ∈ n.children, c.depth = n.depth + 1

theorem stepped_cons {n : Node} {ns : List Node} : Stepped (n :: ns)
    ↔ (∀ c ∈ n.children, c.depth = n.depth + 1) ∧ Stepped n.children ∧ Stepped ns := by
  simp [Stepped, or_imp, forall_and]

theorem stepped_append {f g : List Node} : Stepped (f ++ g) ↔ Stepped f ∧ Stepped g := by
  simp [Stepped, or_imp, forall_and]

theorem Stepped.mem {f : List Node} (h : Stepped f) {n : Node} (mem : n ∈ f) :
    (∀ c ∈ n.children, c.depth = n.depth + 1) ∧ Stepped n.children := by
  induction f with
  | nil => cases mem
  | cons m ms ih =>
    obtain ⟨first, under, rest⟩ := stepped_cons.1 h
    rcases List.mem_cons.1 mem with rfl | mem
    · exact ⟨first, under⟩
    · exact ih rest mem

/-- Where each line is at most one level deeper than the line before it, children are one level deeper than
their parent. -/
theorem stepped_of_isChain {f : List Node} (nested : Nested f)
    (steps : (lines f).IsChain SourceLine.Steps) : Stepped f := by
  induction f using induction with
  | nil => simp [Stepped]
  | cons n ns ihc ih =>
    rw [lines_cons, List.isChain_cons] at steps
    obtain ⟨first, steps⟩ := steps
    obtain ⟨under, rest, -⟩ := List.isChain_append.1 steps
    refine stepped_cons.2 ⟨fun c hc => ?_, ihc nested.1.children under, ih nested.2.2 rest⟩
    have deeper := nested.1.lt_depth hc
    have children := nested.1.children
    cases hcs : n.children with
    | nil => rw [hcs] at hc; cases hc
    | cons d ds =>
      -- the first child follows the parent, and no other child is deeper than the first
      rw [hcs] at first hc children
      have step : d.depth ≤ n.depth + 1 := first d.toLine (by simp)
      rcases List.mem_cons.1 hc with rfl | hc
      · omega
      · have := children.2.1 c hc
        omega

/-- A forest with all roots at one depth is written without indentation in front. -/
theorem flush_renderLines {f : List Node} (tidy : Tidy f) {d : Nat} (depth : ∀ n ∈ f, n.depth = d) :
    Lines.Flush (renderLines f) := by
  cases f with
  | nil => exact Lines.flush_nil
  | cons n ns =>
    obtain ⟨m, hm, least⟩ := exists_depth_eq_minDepth (List.cons_ne_nil n ns)
    have base : n.depth = minDepth (n :: ns) := by
      rw [← least, depth m hm, depth n List.mem_cons_self]
    rw [renderLines, lines_text tidy, lines_cons, List.map_cons, lineOf, Node.depth_toLine, base,
      Nat.sub_self]
    exact Lines.flush_cons (tidy.isContent List.mem_cons_self) _

end Forest

/-! ### Declarations of a regular source -/

namespace Declaration

/-- A declaration other than an action with all its lines at one depth is read again as it is. -/
theorem stable_read_of_depth {kind : SectionKind} (simple : kind ≠ .actions) {n : Node}
    (tree : NestedTree n) (content : n.text.IsContent) (tidy : Tidy n.children) {k : Nat}
    (depth : ∀ c ∈ n.children, c.depth = k) {d : Declaration}
    (read : (read {} kind n).value = some d) : d.Stable kind := by
  obtain ⟨h, body, split, rfl⟩ := read_eq_some simple read
  have splits := splits_of_split tree content tidy split
  obtain ⟨header, -, -, rfl⟩ := split_eq_ok split
  refine splits.stable simple fun _ _ => Forest.flush_renderLines splits.tidy (d := k) fun m hm => ?_
  exact depth m (List.mem_filter.1 hm).1

end Declaration

namespace RuleItem

/-- Items with no text that starts deeper than the groups are detached from each other. -/
theorem isChain_detached {items : List RuleItem}
    (h : ∀ t, RuleItem.text t ∈ items → t.head? ≠ some '\t') : items.IsChain Detached := by
  refine (List.pairwise_of_forall_mem_list fun i hi j hj => ?_).isChain
  match i, j with
  | .group _, .text t => exact h t hj
  | .group _, .group _ => trivial
  | .text _, .text _ => trivial
  | .text _, .group _ => trivial

end RuleItem

namespace ActionRules

/-- Rules with all lines at the base depth are read with their text detached from groups. -/
theorem isChain_detached_read {f : List Node} (tidy : Tidy f) {base : Nat}
    (depth : ∀ n ∈ f, n.depth = base) : (read {} base f).value.items.IsChain RuleItem.Detached := by
  refine RuleItem.isChain_detached fun t ht => ?_
  rw [items_read] at ht
  obtain ⟨r, hr, item⟩ := List.mem_map.1 ht
  have runOf := runOf_foldr_addRun f r hr
  cases r with
  | inr g => cases item
  | inl run =>
    cases item
    have run_tidy := runOf.tidy tidy
    obtain ⟨ne, plain⟩ := runOf
    refine (RuleItem.flush_text_iff (Forest.isBlock_text run_tidy base)).1 ?_
    obtain ⟨n, ns, rfl⟩ := List.exists_cons_of_ne_nil ne
    rw [Forest.lines_text run_tidy, Forest.lines_cons, List.map_cons, Forest.lineOf, Node.depth_toLine,
      depth n (plain n List.mem_cons_self).1, Nat.sub_self]
    exact Lines.flush_cons (run_tidy.isContent List.mem_cons_self) _

end ActionRules

namespace ActionSection

/-- The content of a sub-section whose lines are one level below its header is read again as it is. -/
theorem stable_readSection {nodes : List Node} (trees : ∀ n ∈ nodes, NestedTree n) (tidy : Tidy nodes)
    (steps : ∀ n ∈ nodes, ∀ c ∈ n.children, c.depth = n.depth + 1) {depth : Nat}
    (level : ∀ n ∈ nodes, n.depth = depth + 2) (k : ActionSectionKind) :
    (Action.readSection {} depth k nodes).value.Stable k := by
  have base : Action.baseDepth depth nodes = depth + 2 :=
    Action.baseDepth_eq fun n hn => Nat.le_of_eq (level n hn).symm
  have writable := Action.writable_readSection trees tidy depth k
  have fields (kind : k.holdsFields = true) : (Action.readSection {} depth k nodes).value.Stable k := by
    rw [Action.value_readSection_fields kind] at writable ⊢
    cases writable with
    | fields _ fields =>
      refine stable_fields kind fields fun d hd => ?_
      rw [Declaration.readAll, Noted.value_gather] at hd
      obtain ⟨n, hn, read⟩ := List.mem_filterMap.1 hd
      exact Declaration.stable_read_of_depth (by decide) (trees n hn) (tidy.isContent hn)
        (tidy.children hn) (steps n hn) read
  have entries (kind : k.holdsEntries = true) : (Action.readSection {} depth k nodes).value.Stable k := by
    rw [Action.value_readSection_entries kind]
    exact stable_entries kind (Forest.nested_of_depth_eq trees level) tidy
  have block := Forest.isBlock_text tidy (Action.baseDepth depth nodes)
  -- Text is kept as it stands; fields, entries and rules are stable because their lines start at the base depth.
  cases k with
  | parameters | localFields => exact fields rfl
  | queueMappingFields | sortOrder | accumulators => exact entries rfl
  | parameterRules => exact congrArg _ (reread_rules block)
  | instanceSelection => exact congrArg _ (reread_selection block)
  | actionRules =>
    cases writable with
    | actionRules writable =>
      refine stable_actionRules writable ?_
      rw [base]
      exact ActionRules.isChain_detached_read tidy level

end ActionSection

/-! ### Actions of a regular source -/

namespace Node

/-- Whether the line opens a sub-section of an action. -/
def opensSubsection (n : Node) : Bool := (ActionSectionKind.ofHeader? n.text).isSome

end Node

namespace Action

/-- From the first sub-section header on, every line under the action is a sub-section header. -/
def Ordered (children : List Node) : Prop :=
  ∀ n ∈ children.dropWhile (fun n => !n.opensSubsection), n.opensSubsection = true

instance (children : List Node) : Decidable (Ordered children) := inferInstanceAs (Decidable (∀ _ ∈ _, _))

/-- What stands behind a line that stops the search is among what is left. -/
theorem mem_dropWhile_of_stop {α : Type} {p : α → Bool} {stop : α} (stops : p stop = false) {front back : List α}
    {a : α} (mem : a ∈ back) : a ∈ (front ++ stop :: back).dropWhile p := by
  induction front with
  | nil =>
    rw [List.nil_append, List.dropWhile_cons_of_neg (by simp [stops])]
    exact List.mem_cons_of_mem stop mem
  | cons b front ih =>
    rw [List.cons_append, List.dropWhile_cons]
    split
    · exact ih
    · simp [mem]

/-- Where nothing but sub-sections follows the first one, no line is a stray one. -/
theorem Ordered.not_stray {children : List Node} (ordered : Ordered children) {n : Node} {kind : ActionSectionKind} :
    (n, Role.stray kind) ∉ cast {} children := by
  intro mem
  obtain ⟨before, after, rfl, plays⟩ := exists_plays_of_mem_cast mem
  cases plays with
  | @stray _ front between h plain behind opens nearest =>
    have isHeader (m : Node) : m.opensSubsection = (opened? m).isSome := rfl
    have stops : (!h.opensSubsection) = false := by rw [isHeader, opens]; rfl
    have follows : n ∈ between ++ n :: after := by simp
    rw [behind, List.append_assoc, List.cons_append] at ordered
    have := ordered n (mem_dropWhile_of_stop (p := fun m => !m.opensSubsection) stops follows)
    rw [isHeader, plain] at this
    cases this

/-- Where nothing but sub-sections follows the first one, what they take stands under their headers. -/
theorem Ordered.mem_sections {children : List Node} (ordered : Ordered children) :
    ∀ e ∈ (distribute {} children).sections, ∀ n ∈ e.2, ∃ m ∈ children, n ∈ m.children := by
  intro e he n hn
  rw [(Parts.sorts_distribute {} children).eq_givenTo he] at hn
  rcases mem_givenTo.1 hn with stray | ⟨m, header, hn⟩
  · exact absurd stray ordered.not_stray
  · exact ⟨m, mem_of_mem_cast header, hn⟩

end Action

namespace Declaration

/-- A declaration of a regular source is read again as it is. -/
theorem stable_read {kind : SectionKind} {n : Node} (tree : NestedTree n) (content : n.text.IsContent)
    (tidy : Tidy n.children) (depth : ∀ c ∈ n.children, c.depth = n.depth + 1)
    (stepped : Forest.Stepped n.children)
    (ordered : kind = .actions → ∀ header,
      Header.recognize [] n.text n.line n.span = .ok header → Action.Ordered n.children)
    {d : Declaration} (read : (read {} kind n).value = some d) : d.Stable kind := by
  by_cases actions : kind = .actions
  · subst actions
    obtain ⟨a, ha, rfl⟩ := Option.map_eq_some_iff.1 read
    have writable := Action.writable_read tree content tidy ha
    obtain ⟨header, recognized, rfl⟩ := Action.read_eq_some ha
    refine writable.stable fun e he => ?_
    obtain ⟨q, hq, rfl⟩ := List.mem_map.1 he
    have under := (ordered rfl header recognized).mem_sections q hq
    obtain ⟨trees, section_tidy⟩ := (Action.from_distribute n.children).trees tree.children tidy q hq
    refine ActionSection.stable_readSection trees section_tidy (fun m hm => ?_) (fun m hm => ?_) q.1
    · obtain ⟨c, hc, hm⟩ := under m hm
      exact ((stepped.mem hc).2.mem hm).1
    · obtain ⟨c, hc, hm⟩ := under m hm
      rw [(stepped.mem hc).1 m hm, depth c hc]
  · exact stable_read_of_depth actions tree content tidy depth read

end Declaration

/-! ### Regular documents -/

namespace Document

/-- A document whose declarations are read again as they are is so itself. -/
theorem Writable.erase_reread {d : Document} (h : d.Writable)
    (stable : ∀ e ∈ d.sections, ∀ x ∈ e.2.declarations, x.Stable e.1) :
    d.reread.relocate .erase = d.relocate .erase := by
  have erase : (Declaration.relocate .erase ∘ Declaration.relocate (.shift 1))
      = Declaration.relocate .erase :=
    funext fun x => Declaration.relocate_relocate (.shift 1) .erase x
  have each : ∀ e ∈ d.sections, e.2.reread.relocate .erase = e.2.relocate .erase := by
    intro e he
    have declarations : (e.2.declarations.flatMap (Declaration.reread e.2.kind)).map
        (Declaration.relocate .erase) = e.2.declarations.map (Declaration.relocate .erase) := by
      rw [List.map_flatMap, List.map_eq_flatMap, (h.sections e he).1]
      exact List.flatMap_congr (stable e he)
    rw [Section.reread, Section.relocate, Section.relocate, List.map_map, erase, declarations]
    rfl
  have sections : d.reread.sections.map (fun e => (e.1, e.2.relocate .erase))
      = d.sections.map fun e => (e.1, e.2.relocate .erase) := by
    rw [reread, List.map_map]
    exact List.map_congr_left fun e he => Prod.ext rfl (each e he)
  have blocks : d.reread.classRules.map (fun e => (e.1, e.2.relocate .erase))
      = d.classRules.map fun e => (e.1, e.2.relocate .erase) := by
    rw [reread, List.map_map]
    rfl
  rw [relocate, relocate, sections, blocks]
  rfl

/-- The lines of a source with a class header that are read as declarations, each with its section. -/
def declarationNodes (source : Text) : List (SectionKind × Node) :=
  (placedItems (forest source)).flatMap Placed.declarations

/-- The source starts with a class header at depth zero, its depths grow by steps of one, and the lines
under its actions are ordered. -/
structure Regular (source : Text) : Prop where
  header : ∃ l ∈ (Source.lines {} source).head?,
    l.depth = 0 ∧ (classHeader? {} (Node.ofLine l [])).isSome = true
  steps : (Source.lines {} source).IsChain SourceLine.Steps
  actions : ∀ q ∈ declarationNodes source, q.1 = .actions → ∀ header,
    Header.recognize [] q.2.text q.2.line q.2.span = .ok header → Action.Ordered q.2.children

/-- The first line of a source is its first root. -/
theorem Regular.root {source : Text} (regular : Regular source) : ∃ root roots header,
    forest source = root :: roots ∧ classHeader? {} root = some header := by
  obtain ⟨l, hl, -, found⟩ := regular.header
  have head := Forest.head_ofLines 0 (Source.lines {} source)
  rw [hl, ← forest] at head
  obtain ⟨root, hr, rfl⟩ := Option.map_eq_some_iff.1 head
  obtain ⟨roots, hf⟩ := List.head?_eq_some_iff.1 hr
  obtain ⟨header, found⟩ := Option.isSome_iff_exists.1 found
  exact ⟨root, roots, header, hf, found⟩

theorem stepped_of_mem_declarations {items : List Node} (stepped : Forest.Stepped items)
    {current : Option SectionKind} : ∀ q ∈ (place current items).flatMap Placed.declarations,
      (∀ c ∈ q.2.children, c.depth = q.2.depth + 1) ∧ Forest.Stepped q.2.children := by
  intro q hq
  rcases node_mem_of_mem_declarations q hq with mem | ⟨n, hn, mem⟩
  · exact stepped.mem mem
  · exact (stepped.mem hn).2.mem mem

theorem Regular.stepped {source : Text} (regular : Regular source) : Forest.Stepped (forest source) := by
  refine Forest.stepped_of_isChain (nested_forest source) ?_
  rw [forest, Forest.lines_ofLines]
  exact regular.steps

/-- The declarations of a regular source are read again as they are. -/
theorem Regular.stable {source : Text} (regular : Regular source) :
    ∀ e ∈ (read {} source).document.sections, ∀ x ∈ e.2.declarations, x.Stable e.1 := by
  obtain ⟨root, roots, header, hf, found⟩ := regular.root
  obtain ⟨made, -⟩ := madeOf_read hf found
  have nested := nested_forest source
  have tidy := tidy_forest source
  have stepped := regular.stepped
  rw [hf] at nested tidy stepped
  obtain ⟨trees, items_tidy⟩ := tree_of_mem_items nested tidy
  obtain ⟨-, under, rest⟩ := Forest.stepped_cons.1 stepped
  have items_stepped := Forest.stepped_append.2 ⟨under, rest⟩
  have nodes_eq : declarationNodes source
      = (place none (root.children ++ roots)).flatMap Placed.declarations := by
    rw [declarationNodes, hf, placedItems]
  rintro ⟨kind, s⟩ he x hx
  obtain ⟨-, declarations⟩ := made.sections kind s (Catalog.get?_of_mem made.keys he)
  rw [declarations] at hx
  obtain ⟨q, hq, read⟩ := List.mem_filterMap.1 hx
  split at read
  · rename_i same
    subst same
    obtain ⟨tree, content, children_tidy⟩ := tree_of_mem_declarations trees items_tidy q hq
    obtain ⟨depth, children_stepped⟩ := stepped_of_mem_declarations items_stepped q hq
    exact Declaration.stable_read tree content children_tidy depth children_stepped
      (regular.actions q (nodes_eq ▸ hq)) read
  · cases read

/-- What is read from a regular source is written so that it is read again as the same document, numbers,
places and depths of lines aside. -/
theorem Regular.erase_read_render {source : Text} (regular : Regular source) :
    (read {} (read {} source).document.render).document.relocate .erase
      = (read {} source).document.relocate .erase := by
  have writable := writable_read source
  obtain ⟨root, roots, header, hf, found⟩ := regular.root
  obtain ⟨-, name, -⟩ := madeOf_read hf found
  have titled : ¬ (read {} source).document.Untitled := by
    rintro ⟨none, -⟩
    rw [name] at none
    cases none
  obtain ⟨ρ, k, -, again⟩ := writable.document_read_render titled
  have erased := congrArg (relocate .erase) again
  rw [relocate_relocate, relocate_relocate] at erased
  exact erased.trans (writable.erase_reread regular.stable)

/-- A class with a bare header over its qualifiers, rules around a group whose parts are not in written order,
and a rule block. -/
def orderSource : Text := Lines.text (
  ["Order is a BusinessClass", "\towned by Sales", "\tPersistent Fields", "\t\tLines", "\t\t\tdisable copy",
    "\t\t\tnote", "\tActions", "\t\tPost is a Set Action", "\t\t\trestricted", "\t\t\tAction Rules",
    "\t\t\t\tcheck", "\t\t\t\t\tall", "\t\t\t\tCompany Set Rules", "\t\t\t\t\tExit Rules",
    "\t\t\t\t\t\tclose", "\t\t\t\t\ttotal", "\t\t\t\tafter", "\tCreate Rules", "\t\trun"].map String.toList)

theorem erase_read_render_orderSource : Regular orderSource ∧
    (read {} (read {} orderSource).document.render).document.relocate .erase
      = (read {} orderSource).document.relocate .erase := by
  have ordered : ∀ q ∈ declarationNodes orderSource, q.1 = .actions → Action.Ordered q.2.children := by
    decide +kernel
  have regular : Regular orderSource :=
    ⟨by decide +kernel, by decide +kernel, fun q hq actions _ _ => ordered q hq actions⟩
  exact ⟨regular, regular.erase_read_render⟩

end Document

end BusinessClass
