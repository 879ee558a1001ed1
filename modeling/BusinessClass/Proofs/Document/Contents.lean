import BusinessClass.Proofs.Document.Action
import BusinessClass.Proofs.Document.Budget

/-!
# What a document holds

A document holds declarations, and an action holds further declarations in its sub-sections. Whatever stands in
a document was read from a node of the outline.

* `Declaration.withMembers` and `Document.allDeclarations` walk through the declarations,
  `Declaration.storedNodes` lists the nodes that one of them stores.
* `Declaration.ReadFrom` says what a declaration has from the node that it is read from.
* `Document.exists_of_mem_declarations`, `Document.exists_of_mem_allDeclarations` and
  `Document.exists_of_mem_leveledGroups` lead from a part of a document back to its node.
-/

namespace BusinessClass

open Forest (nodes)

/-! ### Walking through a document -/

mutual

/-- The declarations in the sub-sections of an action, each followed by those inside it. -/
def Action.members : Action → List Declaration
  | ⟨_, _, _, sections⟩ => Action.membersOf sections

/-- The declarations in some sub-sections, each followed by those inside it. -/
def Action.membersOf : List (ActionSectionKind × ActionSection) → List Declaration
  | [] => []
  | (_, content) :: rest => ActionSection.members content ++ Action.membersOf rest

/-- The declarations in a sub-section, each followed by those inside it. -/
def ActionSection.members : ActionSection → List Declaration
  | .fields ds => Declaration.allWithMembers ds
  | .entries _ => []
  | .rules _ => []
  | .selection _ => []
  | .actionRules _ => []

/-- A declaration followed by those inside it. -/
def Declaration.withMembers : Declaration → List Declaration
  | .action a => .action a :: Action.members a
  | .field d => [.field d]
  | .relation d => [.relation d]
  | .setDefinition d => [.setDefinition d]
  | .condition d => [.condition d]
  | .ruleBlock d => [.ruleBlock d]

/-- Declarations, each followed by those inside it. -/
def Declaration.allWithMembers : List Declaration → List Declaration
  | [] => []
  | d :: ds => Declaration.withMembers d ++ Declaration.allWithMembers ds

end

/-- The nodes that a sub-section keeps as an outline. -/
def ActionSection.entryNodes : ActionSection → List Node
  | .entries ns => ns
  | _ => []

namespace Declaration

/-- The lines below the header that the declaration keeps as nodes. -/
def body : Declaration → List Node
  | .field d => d.body
  | .relation d => d.body
  | .setDefinition d => d.body
  | .action d => d.body
  | .condition _ => []
  | .ruleBlock _ => []

/-- The line of the header and those of the body. -/
def lines (d : Declaration) : List Nat := d.header.line :: (nodes d.body).map Node.line

/-- All nodes that the declaration itself stores: those of its body, and those in the sub-sections of an action. -/
def storedNodes (d : Declaration) : List Node :=
  nodes d.body ++ (d.action?.elim [] Action.sections).flatMap fun e => nodes e.2.entryNodes

end Declaration

/-- The declarations of all sections, each followed by those inside it. -/
def Document.allDeclarations (d : Document) : List Declaration := d.declarations.flatMap Declaration.withMembers

theorem Declaration.allWithMembers_eq_flatMap (ds : List Declaration) :
    allWithMembers ds = ds.flatMap withMembers := by
  induction ds with
  | nil => rfl
  | cons d ds ih => rw [allWithMembers, ih, List.flatMap_cons]

theorem Action.members_eq (a : Action) : a.members = a.sections.flatMap fun e => e.2.members := by
  have all (sections : List (ActionSectionKind × ActionSection)) :
      membersOf sections = sections.flatMap fun e => e.2.members := by
    induction sections with
    | nil => rfl
    | cons e rest ih => rw [membersOf, ih, List.flatMap_cons]
  cases a
  rw [members, all]

/-- Only an action has declarations inside it. -/
theorem Declaration.withMembers_of_action? {d : Declaration} (h : d.action? = none) : d.withMembers = [d] := by
  cases d with
  | action a => cases h
  | _ => rw [withMembers]

/-! ### Outlines -/

namespace Forest

/-- The roots of a forest are among its nodes, in their order. -/
theorem sublist_nodes (f : List Node) : f.Sublist (nodes f) := by
  induction f with
  | nil => exact .slnil
  | cons n ns ih =>
    rw [nodes_cons, List.cons_append]
    exact (ih.trans (List.sublist_append_right _ _)).cons_cons n

theorem nodes_sublist {f g : List Node} (h : f.Sublist g) : (nodes f).Sublist (nodes g) := by
  rw [nodes_eq_flatMap, nodes_eq_flatMap]
  exact h.flatMap _

theorem mem_nodes_self (n : Node) : n ∈ nodes [n] := by
  rw [nodes_cons]
  exact List.mem_cons_self

theorem nodes_children_sublist (n : Node) : (nodes n.children).Sublist (nodes [n]) := by
  rw [nodes_cons, nodes_nil, List.append_nil]
  exact List.sublist_cons_self _ _

/-- The nodes under a node of a forest are nodes of the forest, in their order. -/
theorem nodes_sublist_of_mem {f : List Node} : ∀ n ∈ nodes f, (nodes [n]).Sublist (nodes f) := by
  induction f using induction with
  | nil => simp
  | cons m ms ihc ih =>
    intro n hn
    have first : (nodes [m]).Sublist (nodes (m :: ms)) := nodes_sublist (by simp)
    rw [nodes_cons, List.cons_append, List.mem_cons, List.mem_append] at hn
    rcases hn with rfl | hn | hn
    · exact first
    · exact ((ihc n hn).trans (nodes_children_sublist m)).trans first
    · exact (ih n hn).trans (nodes_sublist (List.sublist_cons_self m ms))

end Forest

/-! ### Declarations -/

/-- The header is read from the line of the node, up to further qualifiers. -/
def Header.ReadFrom (o : Options) (n : Node) (h : Header) : Prop :=
  ∃ g qs, Header.ofText o.phrases n.text n.line n.span = .ok g ∧ h = g.addQualifiers qs

namespace Header

variable {o : Options} {n : Node} {h : Header}

/-- A typed header stands on its line and has a type. -/
theorem of_recognize {extra : List Phrase} {text : Text} {line : Nat} {span : Span}
    (read : recognize extra text line span = .ok h) :
    h.line = line ∧ h.span = span ∧ ∃ typeName, h.typeName = some typeName := by
  obtain ⟨front, rest, opens⟩ := exists_opens read
  obtain ⟨l, ls, rfl⟩ := List.exists_cons_of_ne_nil opens.ne_nil
  rw [Except.ok.inj (read.symm.trans opens.recognize_eq)]
  exact ⟨rfl, rfl, _, rfl⟩

/-- A header that is read stands on its line, and without a type it has no article. -/
theorem of_ofText {extra : List Phrase} {text : Text} {line : Nat} {span : Span}
    (read : ofText extra text line span = .ok h) :
    h.line = line ∧ h.span = span ∧ (h.typeName = none → h.article = none) := by
  rw [ofText] at read
  split at read
  · rename_i g recognized
    cases read
    obtain ⟨line, span, typeName, typed⟩ := of_recognize recognized
    exact ⟨line, span, fun untyped => by rw [typed] at untyped; cases untyped⟩
  · rw [bare?] at read
    split at read
    · rename_i bare
      split at bare
      · cases bare
        cases read
        exact ⟨rfl, rfl, fun _ => rfl⟩
      · cases bare
    · cases read

theorem ReadFrom.line (read : h.ReadFrom o n) : h.line = n.line := by
  obtain ⟨g, qs, read, rfl⟩ := read
  exact (of_ofText read).1

theorem ReadFrom.span (read : h.ReadFrom o n) : h.span = n.span := by
  obtain ⟨g, qs, read, rfl⟩ := read
  exact (of_ofText read).2.1

theorem ReadFrom.article (read : h.ReadFrom o n) : h.typeName = none → h.article = none := by
  obtain ⟨g, qs, read, rfl⟩ := read
  exact (of_ofText read).2.2

end Header

namespace Declaration

variable {o : Options} {n : Node} {d : Declaration} {kind : SectionKind}

/-- What a declaration has from the node that it is read from: its header from the line, and all nodes that it
stores from below. -/
structure ReadFrom (o : Options) (n : Node) (d : Declaration) : Prop where
  header : d.header.ReadFrom o n
  body : d.body.Sublist n.children
  stored : ∀ m ∈ d.storedNodes, m ∈ nodes n.children

/-- Header and body make a declaration that has them, and no action. -/
structure Makes (make : Header → List Node → Declaration) : Prop where
  header : ∀ h body, (make h body).header = h
  body : ∀ h body, (make h body).body.Sublist body
  action? : ∀ h body, (make h body).action? = none

/-- The declaration that header and body make in a section; the sections of fields take the others as fields. -/
def build (o : Options) : SectionKind → Header → List Node → Declaration
  | .localFields => ofField o true
  | .conditions => fun header body => .condition ⟨header, bodyText body⟩
  | .relations => fun header body => .relation ⟨header, .ofBody body, body⟩
  | .sets => fun header body => .setDefinition ⟨header, body⟩
  | .fieldRules | .ruleBlocks => fun header body => .ruleBlock ⟨header, bodyText body⟩
  | .persistentFields | .contextFields | .transientFields | .derivedFields | .actions => ofField o false

theorem read_eq_build (simple : kind ≠ .actions) (o : Options) (n : Node) :
    read o kind n = ofSplit o n (build o kind) := by
  cases kind with
  | actions => exact absurd rfl simple
  | _ => rfl

theorem makes_ofField (o : Options) (isLocal : Bool) : Makes (ofField o isLocal) := by
  have cases (h : Header) (body : List Node) : ofField o isLocal h body = .setDefinition ⟨h, body⟩ ∨
      ofField o isLocal h body = .field ⟨h, body⟩ := ite_eq_or_eq _ _ _
  refine ⟨fun h body => ?_, fun h body => ?_, fun h body => ?_⟩
  · rcases cases h body with eq | eq <;> rw [eq] <;> rfl
  · rcases cases h body with eq | eq <;> rw [eq] <;> exact List.Sublist.refl _
  · rcases cases h body with eq | eq <;> rw [eq] <;> rfl

theorem makes_build (o : Options) (kind : SectionKind) : Makes (build o kind) := by
  cases kind with
  | conditions | fieldRules | ruleBlocks =>
    exact ⟨fun h body => rfl, fun h body => List.nil_sublist body, fun h body => rfl⟩
  | relations | sets => exact ⟨fun h body => rfl, fun h body => List.Sublist.refl body, fun h body => rfl⟩
  | _ => exact makes_ofField o _

/-- What is made of a line has its header from the line. -/
theorem exists_of_value_ofSplit {make : Header → List Node → Declaration} (value : (ofSplit o n make).value = some d) :
    ∃ h body, h.ReadFrom o n ∧ body.Sublist n.children ∧ d = make h body := by
  rw [value_ofSplit] at value
  obtain ⟨⟨h, body⟩, parts, rfl⟩ := Option.map_eq_some_iff.1 value
  cases split_eq : split o n with
  | error e =>
    rw [split_eq] at parts
    cases parts
  | ok p =>
    rw [split_eq] at parts
    cases parts
    obtain ⟨g, read, rfl, rfl⟩ := split_eq_ok split_eq
    exact ⟨_, _, ⟨g, _, read, rfl⟩, List.filter_sublist, rfl⟩

theorem ReadFrom.lines_sublist (read : d.ReadFrom o n) : d.lines.Sublist ((nodes [n]).map Node.line) := by
  rw [lines, read.header.line, Forest.nodes_cons, Forest.nodes_nil, List.append_nil, List.map_cons]
  exact ((Forest.nodes_sublist read.body).map _).cons_cons _

theorem Makes.readFrom {make : Header → List Node → Declaration} (makes : Makes make)
    (value : (ofSplit o n make).value = some d) : d.ReadFrom o n ∧ d.action? = none := by
  obtain ⟨h, body, header, sub, rfl⟩ := exists_of_value_ofSplit value
  have inner := (makes.body h body).trans sub
  refine ⟨⟨by rwa [makes.header], inner, fun m hm => ?_⟩, makes.action? h body⟩
  rw [storedNodes, makes.action?, Option.elim_none, List.flatMap_nil, List.append_nil] at hm
  exact (Forest.nodes_sublist inner).subset hm

/-- Declarations that are read from some nodes have the lines of these nodes, in their order. -/
theorem lines_gather_sublist {read : Node → Noted (Option Declaration)}
    (from_ : ∀ n d, (read n).value = some d → d.ReadFrom o n) (ns : List Node) :
    ((Noted.gather read ns).value.flatMap lines).Sublist ((nodes ns).map Node.line) := by
  rw [Noted.value_gather]
  induction ns with
  | nil => exact .slnil
  | cons n ns ih =>
    have split : nodes (n :: ns) = nodes [n] ++ nodes ns := by simp
    rw [List.filterMap_cons, split, List.map_append]
    cases value : (read n).value with
    | none => exact ih.trans (List.sublist_append_right _ _)
    | some d =>
      rw [List.flatMap_cons]
      exact (from_ n d value).lines_sublist.append ih

end Declaration

/-! ### Actions -/

namespace Action

variable {o : Options} {n : Node} {a : Action}

/-- The lines in front of the first sub-section are handed out in their order. -/
theorem body_distribute (o : Options) (children : List Node) : (distribute o children).body.Sublist children := by
  rw [(Parts.sorts_distribute o children).body]
  exact bodyOf_sublist o children

/-- A header that was seen before stands among the lines under the action. -/
theorem repeated_distribute (o : Options) (children : List Node) :
    ∀ e ∈ (distribute o children).repeated, e.2 ∈ children ∧ ActionSectionKind.ofHeader? e.2.text = some e.1 := by
  rw [(Parts.sorts_distribute o children).repeated]
  exact fun e he => mem_repeats he

/-- The declarations in a sub-section are read from its nodes, and none of them is an action. -/
theorem exists_of_mem_members_readSection {depth : Nat} {kind : ActionSectionKind} {ns : List Node} {d : Declaration}
    (hd : d ∈ (readSection o depth kind ns).value.members) : ∃ m ∈ ns, d.ReadFrom o m ∧ d.action? = none := by
  have fields (isLocal : Bool) (hd : d ∈ Declaration.allWithMembers
      (Noted.gather (fun n => Declaration.ofSplit o n (Declaration.ofField o isLocal)) ns).value) :
      ∃ m ∈ ns, d.ReadFrom o m ∧ d.action? = none := by
    rw [Declaration.allWithMembers_eq_flatMap, Noted.value_gather] at hd
    obtain ⟨x, hx, hd⟩ := List.mem_flatMap.1 hd
    obtain ⟨m, hm, value⟩ := List.mem_filterMap.1 hx
    obtain ⟨from_, simple⟩ := (Declaration.makes_ofField o isLocal).readFrom value
    rw [Declaration.withMembers_of_action? simple, List.mem_singleton] at hd
    rw [hd]
    exact ⟨m, hm, from_, simple⟩
  cases kind with
  | parameters => exact fields false hd
  | localFields => exact fields true hd
  | _ => cases hd

theorem entryNodes_readSection (o : Options) (depth : Nat) (kind : ActionSectionKind) (ns : List Node) :
    (readSection o depth kind ns).value.entryNodes.Sublist ns := by
  cases kind with
  | queueMappingFields | sortOrder | accumulators => exact List.Sublist.refl ns
  | _ => exact List.nil_sublist ns

/-- What an action has from the node that it is read from. -/
theorem readFrom_read (value : (read o n).value = some a) : (Declaration.action a).ReadFrom o n := by
  obtain ⟨g, recognized, rfl⟩ := read_eq_some value
  have body := body_distribute o n.children
  refine ⟨⟨g, _, Header.ofText_of_recognize recognized, rfl⟩, body, fun m hm => ?_⟩
  rcases List.mem_append.1 hm with hm | hm
  · exact (Forest.nodes_sublist body).subset hm
  · obtain ⟨e, he, hm⟩ := List.mem_flatMap.1 hm
    obtain ⟨⟨kind, ns⟩, taken, rfl⟩ := List.mem_map.1 he
    have sub := Forest.nodes_sublist (entryNodes_readSection o n.depth kind ns)
    exact (sub.trans ((sections_distribute o n.children).2 _ taken)).subset hm

/-- The declarations in an action are read from nodes below that of the action, and none of them is an action. -/
theorem exists_of_mem_members (value : (read o n).value = some a) {d : Declaration} (hd : d ∈ a.members) :
    ∃ m ∈ nodes n.children, d.ReadFrom o m ∧ d.action? = none := by
  obtain ⟨g, -, rfl⟩ := read_eq_some value
  rw [members_eq] at hd
  obtain ⟨e, he, hd⟩ := List.mem_flatMap.1 hd
  obtain ⟨⟨kind, ns⟩, taken, rfl⟩ := List.mem_map.1 he
  obtain ⟨m, hm, from_⟩ := exists_of_mem_members_readSection hd
  exact ⟨m, ((Forest.sublist_nodes ns).trans ((sections_distribute o n.children).2 _ taken)).subset hm, from_⟩

end Action

namespace Declaration

variable {o : Options} {n : Node} {d x : Declaration} {kind : SectionKind}

/-- What a declaration of a section has from the node that it is read from. -/
theorem readFrom_read (value : (read o kind n).value = some d) : d.ReadFrom o n := by
  by_cases actions : kind = .actions
  · subst actions
    obtain ⟨a, ha, rfl⟩ := Option.map_eq_some_iff.1 value
    exact Action.readFrom_read ha
  · rw [read_eq_build actions] at value
    exact ((makes_build o kind).readFrom value).1

/-- A declaration and those inside it are read from the nodes of one tree, and those inside are no actions. -/
theorem exists_of_mem_withMembers (value : (read o kind n).value = some d) (hx : x ∈ d.withMembers) :
    (∃ m ∈ nodes [n], x.ReadFrom o m) ∧ (x = d ∨ x.action? = none) := by
  by_cases actions : kind = .actions
  · subst actions
    obtain ⟨a, ha, rfl⟩ := Option.map_eq_some_iff.1 value
    rw [withMembers] at hx
    rcases List.mem_cons.1 hx with rfl | hx
    · exact ⟨⟨n, Forest.mem_nodes_self n, Action.readFrom_read ha⟩, Or.inl rfl⟩
    · obtain ⟨m, hm, from_, simple⟩ := Action.exists_of_mem_members ha hx
      exact ⟨⟨m, (Forest.nodes_children_sublist n).subset hm, from_⟩, Or.inr simple⟩
  · rw [read_eq_build actions] at value
    obtain ⟨from_, simple⟩ := (makes_build o kind).readFrom value
    rw [withMembers_of_action? simple, List.mem_singleton] at hx
    rw [hx]
    exact ⟨⟨n, Forest.mem_nodes_self n, from_⟩, Or.inl rfl⟩

theorem lines_readAll_sublist (o : Options) (kind : SectionKind) (ns : List Node) :
    ((readAll o kind ns).value.flatMap lines).Sublist ((nodes ns).map Node.line) :=
  lines_gather_sublist (fun _ _ value => readFrom_read value) ns

end Declaration

/-! ### Groups -/

namespace SetRuleGroup

/-- Every group that is read has the line of a header that names its key. -/
theorem exists_of_mem_leveled {o : Options} (f : List Node) : ∀ (level : Nat) (key : GroupKey), ∀ m ∈ f,
    GroupKey.ofHeader? m.text = some key → ∀ e ∈ (read o level key m).value.leveled level,
      ∃ c ∈ nodes [m], e.2.line = c.line ∧ GroupKey.ofHeader? c.text = some e.2.key := by
  induction f using Forest.induction with
  | nil => simp
  | cons n ns ihc ih =>
    intro level key m hm header e he
    rcases List.mem_cons.1 hm with rfl | hm
    · rw [leveled_read] at he
      -- The group itself has the line of its own header; the others are nested in it.
      rcases List.mem_cons.1 he with rfl | he
      · refine ⟨m, Forest.mem_nodes_self m, line_read o level key m, ?_⟩
        rw [header, value_read]
        rfl
      · obtain ⟨c, hc, he⟩ := List.mem_flatMap.1 he
        obtain ⟨g, nested, he⟩ := List.mem_flatMap.1 he
        rcases part_kinds c with ⟨-, part⟩ | ⟨-, -, part⟩ | ⟨-, part⟩ | ⟨key', ⟨-, -, opens⟩, part⟩ <;>
          rw [part] at nested
        · cases nested
        · cases nested
        · cases nested
        · split at nested
          · cases Option.mem_toList.1 nested
            obtain ⟨b, hb, place⟩ := ihc (level + 1) key' c hc opens e he
            refine ⟨b, (Forest.nodes_children_sublist m).subset ?_, place⟩
            exact Forest.mem_nodes_iff.2 ⟨c, hc, hb⟩
          · cases nested
    · exact ih level key m hm header e he

end SetRuleGroup

/-- Every group of some rules has the line of a header that names its key. -/
theorem ActionRules.exists_of_mem_leveledGroups {o : Options} {base : Nat} {f : List Node} {e : Nat × SetRuleGroup}
    (he : e ∈ (read o base f).value.leveledGroups) :
    ∃ c ∈ nodes f, e.2.line = c.line ∧ GroupKey.ofHeader? c.text = some e.2.key := by
  rw [leveledGroups_read] at he
  obtain ⟨m, hm, he⟩ := List.mem_flatMap.1 he
  obtain ⟨g, opens, he⟩ := List.mem_flatMap.1 he
  obtain ⟨key, header, opens⟩ := Option.bind_eq_some_iff.1 (Option.mem_toList.1 opens)
  split at opens
  · cases opens
    obtain ⟨c, hc, place⟩ := SetRuleGroup.exists_of_mem_leveled f 1 key m hm header e he
    exact ⟨c, Forest.mem_nodes_iff.2 ⟨m, hm, hc⟩, place⟩
  · cases opens

/-! ### Documents -/

namespace Document

variable {o : Options} {notes : List Diagnostic} {f : List Node}

/-- Sections and rule blocks of the class are what some items of the outline add up to; the empty document is what
no items add up to. -/
theorem exists_items (o : Options) (notes : List Diagnostic) (f : List Node) : ∃ items,
    (nodes items).Sublist (nodes f) ∧
      (classify o notes f).document.sections
        = (sectionKinds items).map (fun kind => (kind, sectionOf o items kind)) ∧
      (classify o notes f).document.classRules = (blockKinds items).map fun kind => (kind, blockOf items kind) := by
  by_cases parts : HasParts o f
  · obtain ⟨sections, classRules, -⟩ := sorts_classify o notes parts
    exact ⟨classItems o f, nodes_classItems_sublist o f, sections, classRules⟩
  · rw [classify_of_not_hasParts o notes parts]
    exact ⟨[], List.nil_sublist _, rfl, rfl⟩

/-- A declaration of a section was read from one of the items that make the section. -/
theorem exists_of_mem_declarationsOf {kind : SectionKind} {items : List Node} {d : Declaration}
    (hd : d ∈ declarationsOf o kind items) : ∃ n ∈ nodes items, (Declaration.read o kind n).value = some d := by
  obtain ⟨e, he, hd⟩ := List.mem_flatMap.1 hd
  split at hd
  · rw [Declaration.readAll, Noted.value_gather] at hd
    obtain ⟨n, hn, value⟩ := List.mem_filterMap.1 hd
    refine ⟨n, ?_, value⟩
    rw [nodes_eq_flatMap_withBefore]
    have offered := (nodes_offered_sublist e.2).subset ((Forest.sublist_nodes _).subset hn)
    exact List.mem_flatMap.2 ⟨e, he, offered⟩
  · cases hd

/-- A declaration of a document was read from a node of the outline. -/
theorem exists_of_mem_declarations {d : Declaration} (hd : d ∈ (classify o notes f).document.declarations) :
    ∃ kind, ∃ n ∈ nodes f, (Declaration.read o kind n).value = some d := by
  obtain ⟨items, inside, sections, -⟩ := exists_items o notes f
  obtain ⟨s, hs, hd⟩ := List.mem_flatMap.1 hd
  rw [sections] at hs
  obtain ⟨e, he, rfl⟩ := List.mem_map.1 hs
  obtain ⟨kind, -, rfl⟩ := List.mem_map.1 he
  obtain ⟨n, hn, value⟩ := exists_of_mem_declarationsOf hd
  exact ⟨kind, n, inside.subset hn, value⟩

/-- So was every declaration inside it. -/
theorem exists_of_mem_allDeclarations {d : Declaration}
    (hd : d ∈ (classify o notes f).document.allDeclarations) : ∃ n ∈ nodes f, d.ReadFrom o n := by
  obtain ⟨x, hx, hd⟩ := List.mem_flatMap.1 hd
  obtain ⟨kind, n, hn, value⟩ := exists_of_mem_declarations hx
  obtain ⟨⟨m, hm, from_⟩, -⟩ := Declaration.exists_of_mem_withMembers value hd
  exact ⟨m, (Forest.nodes_sublist_of_mem n hn).subset hm, from_⟩

/-- A group of a document has the line of a header in the outline that names its key. -/
theorem exists_of_mem_leveledGroups {e : Nat × SetRuleGroup}
    (he : e ∈ (classify o notes f).document.leveledGroups) :
    ∃ c ∈ nodes f, e.2.line = c.line ∧ GroupKey.ofHeader? c.text = some e.2.key := by
  obtain ⟨r, hr, he⟩ := List.mem_flatMap.1 he
  obtain ⟨d, hd, hr⟩ := List.mem_flatMap.1 hr
  obtain ⟨kind, n, hn, value⟩ := exists_of_mem_declarations hd
  obtain ⟨base, g, sub, rfl⟩ := Declaration.exists_of_mem_allRules value hr
  obtain ⟨c, hc, place⟩ := ActionRules.exists_of_mem_leveledGroups he
  refine ⟨c, (Forest.nodes_sublist_of_mem n hn).subset ?_, place⟩
  exact (Forest.nodes_children_sublist n).subset (sub.subset hc)

end Document

end BusinessClass
