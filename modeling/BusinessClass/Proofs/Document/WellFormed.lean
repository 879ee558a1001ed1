import BusinessClass.Proofs.Document.Places
import BusinessClass.Proofs.Document.Skeleton

/-!
# Well-formed documents

Whatever a source looks like, the document that is read from it keeps the rules of the format: sections, sub-sections
and actions are filed under their own kinds, they hold what belongs there, and everything stands in source order.

* `SectionKind.variant` and `ActionSection.OfKind` say what belongs in a section and in a sub-section.
* `Action.WellFormed` and `Document.WellFormed` gather the rules.
* `Document.lines_sectionOf_sublist` and `Document.lines_firsts_sublist`: what is gathered from several headers stays
  in the order of the outline.
* `Document.wellFormed_read`: every document that is read is well formed.
-/

namespace BusinessClass

open Forest (nodes)

/-! ### What belongs where -/

/-- The variant of a declaration among local fields: a field, or a set definition if the options say so of a type
`set`. -/
def Header.localVariant (o : Options) (h : Header) : DeclarationVariant :=
  if o.localSetRule = some .asSetDefinition ∧ h.typeName.any (Text.sameLetters · "set".toList) = true then
    .setDefinition
  else .field

/-- The variant of a declaration with the given header in a section. -/
def SectionKind.variant (o : Options) (h : Header) : SectionKind → DeclarationVariant
  | .persistentFields | .contextFields | .transientFields | .derivedFields => .field
  | .localFields => h.localVariant o
  | .conditions => .condition
  | .relations => .relation
  | .sets => .setDefinition
  | .fieldRules | .ruleBlocks => .ruleBlock
  | .actions => .action

/-- The content belongs in the sub-section. -/
inductive ActionSection.OfKind (o : Options) : ActionSectionKind → ActionSection → Prop
  | parameters {ds : List Declaration} (fields : ∀ d ∈ ds, d.variant = .field) : OfKind o .parameters (.fields ds)
  | localFields {ds : List Declaration} (variants : ∀ d ∈ ds, d.variant = d.header.localVariant o) :
    OfKind o .localFields (.fields ds)
  | queueMappingFields (ns : List Node) : OfKind o .queueMappingFields (.entries ns)
  | sortOrder (ns : List Node) : OfKind o .sortOrder (.entries ns)
  | accumulators (ns : List Node) : OfKind o .accumulators (.entries ns)
  | parameterRules (t : Text) : OfKind o .parameterRules (.rules t)
  | instanceSelection (s : InstanceSelection) : OfKind o .instanceSelection (.selection s)
  | actionRules (r : ActionRules) : OfKind o .actionRules (.actionRules r)

/-- The lines of what a sub-section holds. -/
def ActionSection.lines : ActionSection → List Nat
  | .fields ds => ds.flatMap Declaration.lines
  | .entries ns => (nodes ns).map Node.line
  | .actionRules r => r.leveledGroups.map fun e => e.2.line
  | _ => []

/-- The kind of the action is that of its type. Its sub-sections have kinds of their own and hold what belongs there,
in source order behind the header. -/
structure Action.WellFormed (o : Options) (a : Action) : Prop where
  kind : ∃ typeName, a.header.typeName = some typeName ∧ a.kind = ActionKind.ofType typeName
  nodup : (Catalog.keys a.sections).Nodup
  contents : ∀ e ∈ a.sections, e.2.OfKind o e.1
  ordered : ∀ e ∈ a.sections, (a.header.line :: e.2.lines).Pairwise (· < ·)

/-- Sections have kinds of their own and hold what belongs there, and so do actions; there is no article without a
type; and sections, rule blocks and what a section holds stand in source order. -/
structure Document.WellFormed (o : Options) (d : Document) : Prop where
  nodup : (Catalog.keys d.sections).Nodup
  kinds : ∀ e ∈ d.sections, e.2.kind = e.1
  variants : ∀ e ∈ d.sections, ∀ x ∈ e.2.declarations, x.variant = e.1.variant o x.header
  actions : ∀ x ∈ d.allDeclarations, ∀ a ∈ x.action?, a.WellFormed o
  headers : ∀ x ∈ d.allDeclarations, x.header.typeName = none → x.header.article = none
  blockHeaders : ∀ e ∈ d.classRules, e.2.header.typeName = none ∧ e.2.header.article = none
  sectionOrder : (d.sections.map fun e => e.2.line).Pairwise (· < ·)
  blockOrder : (d.classRules.map fun e => e.2.header.line).Pairwise (· < ·)
  declarationOrder : ∀ e ∈ d.sections, (e.2.line :: e.2.declarations.flatMap Declaration.lines).Pairwise (· < ·)

/-! ### Declarations -/

namespace Declaration

variable {o : Options} {n : Node} {d : Declaration} {kind : SectionKind}

theorem variant_ofField (o : Options) (isLocal : Bool) (h : Header) (body : List Node) :
    (ofField o isLocal h body).variant = if isLocal then h.localVariant o else .field := by
  have isSet : h.isLocalSet o = true ↔ o.localSetRule = some .asSetDefinition ∧
      h.typeName.any (Text.sameLetters · "set".toList) = true := by
    rw [Header.isLocalSet, Options.definesLocalSets, Bool.and_eq_true, beq_iff_eq]
  cases isLocal with
  | false => rfl
  | true =>
    rw [ofField, Bool.true_and, if_pos rfl, Header.localVariant]
    by_cases set : h.isLocalSet o = true
    · rw [if_pos set, if_pos (isSet.1 set)]
      rfl
    · rw [if_neg set, if_neg (mt isSet.2 set)]
      rfl

/-- A declaration has the variant of its section. -/
theorem variant_read (value : (read o kind n).value = some d) : d.variant = kind.variant o d.header := by
  by_cases actions : kind = .actions
  · subst actions
    obtain ⟨a, -, rfl⟩ := Option.map_eq_some_iff.1 value
    rfl
  · rw [read_eq_build actions] at value
    obtain ⟨h, body, -, -, rfl⟩ := exists_of_value_ofSplit value
    rw [(makes_build o kind).header]
    cases kind with
    | actions => exact absurd rfl actions
    | localFields => exact variant_ofField o true h body
    | persistentFields | contextFields | transientFields | derivedFields => exact variant_ofField o false h body
    | _ => rfl

end Declaration

/-! ### Actions -/

namespace Action

variable {o : Options} {n : Node} {a : Action}

theorem ofKind_readSection (o : Options) (depth : Nat) (kind : ActionSectionKind) (ns : List Node) :
    (readSection o depth kind ns).value.OfKind o kind := by
  have variants (isLocal : Bool) : ∀ d ∈ (Noted.gather
      (fun n => Declaration.ofSplit o n (Declaration.ofField o isLocal)) ns).value,
      d.variant = if isLocal then d.header.localVariant o else .field := by
    intro d hd
    rw [Noted.value_gather] at hd
    obtain ⟨n, -, value⟩ := List.mem_filterMap.1 hd
    obtain ⟨h, body, -, -, rfl⟩ := Declaration.exists_of_value_ofSplit value
    rw [Declaration.variant_ofField, (Declaration.makes_ofField o isLocal).header]
  cases kind with
  | parameters => exact .parameters (variants false)
  | localFields => exact .localFields (variants true)
  | queueMappingFields => exact .queueMappingFields ns
  | sortOrder => exact .sortOrder ns
  | accumulators => exact .accumulators ns
  | parameterRules => exact .parameterRules _
  | instanceSelection => exact .instanceSelection _
  | actionRules => exact .actionRules _

/-- What a sub-section holds stands in the order of its lines. -/
theorem lines_readSection_sublist (o : Options) (depth : Nat) (kind : ActionSectionKind) (ns : List Node) :
    (readSection o depth kind ns).value.lines.Sublist ((nodes ns).map Node.line) := by
  have fields (isLocal : Bool) : ((Noted.gather (fun n => Declaration.ofSplit o n (Declaration.ofField o isLocal))
      ns).value.flatMap Declaration.lines).Sublist ((nodes ns).map Node.line) :=
    Declaration.lines_gather_sublist (fun _ _ value => ((Declaration.makes_ofField o isLocal).readFrom value).1) ns
  cases kind with
  | parameters => exact fields false
  | localFields => exact fields true
  | queueMappingFields | sortOrder | accumulators => exact List.Sublist.refl _
  | actionRules => exact ActionRules.lines_leveledGroups_sublist o _ ns
  | parameterRules | instanceSelection => exact List.nil_sublist _

theorem wellFormed_of_read (value : (read o n).value = some a)
    (increasing : ((nodes [n]).map Node.line).Pairwise (· < ·)) : a.WellFormed o := by
  obtain ⟨g, recognized, rfl⟩ := read_eq_some value
  obtain ⟨line, -, typeName, typed⟩ := Header.of_recognize recognized
  obtain ⟨nodup, inside⟩ := sections_distribute o n.children
  -- The qualifiers that are added to the recognized header leave its type alone.
  refine ⟨⟨typeName, typed, ?_⟩, ?_, fun e he => ?_, fun e he => ?_⟩
  · rw [typed]
    rfl
  · rw [Catalog.keys_map]
    exact nodup
  · obtain ⟨⟨kind, ns⟩, -, rfl⟩ := List.mem_map.1 he
    exact ofKind_readSection o n.depth kind ns
  · obtain ⟨⟨kind, ns⟩, taken, rfl⟩ := List.mem_map.1 he
    rw [Forest.nodes_cons, Forest.nodes_nil, List.append_nil, List.map_cons, ← line] at increasing
    refine increasing.sublist (List.Sublist.cons_cons _ ?_)
    exact (lines_readSection_sublist o n.depth kind ns).trans ((inside _ taken).map _)

end Action

/-! ### Documents -/

namespace Document

variable {o : Options} {notes : List Diagnostic} {f items : List Node} {n : Node}

/-- The lines of the first headers stand in the order of the headers. -/
theorem lines_firsts_sublist {κ : Type} [DecidableEq κ] (opens : Node → Option κ) (items : List Node) :
    ((items.filterMap opens).eraseDups.map fun k => (items.find? (opens · == some k)).elim 0 Node.line).Sublist
      (items.map Node.line) := by
  induction items using List.reverseRecOn with
  | nil => exact .slnil
  | append_singleton items n ih =>
    rw [List.map_append, List.filterMap_append]
    -- The first header of a kind that was seen before stays the first.
    have known : ∀ k ∈ (items.filterMap opens).eraseDups,
        ((items ++ [n]).find? (opens · == some k)).elim 0 Node.line
          = (items.find? (opens · == some k)).elim 0 Node.line := fun k hk => by
      rw [find?_concat_of_mem (List.mem_eraseDups.1 hk)]
    cases opened : opens n with
    | none =>
      rw [List.filterMap_cons_none opened, List.filterMap_nil, List.append_nil, List.map_congr_left known]
      exact ih.trans (List.sublist_append_left _ _)
    | some k =>
      rw [List.filterMap_cons_some opened, List.filterMap_nil, Catalog.eraseDups_concat]
      split
      · rw [List.map_congr_left known]
        exact ih.trans (List.sublist_append_left _ _)
      · rename_i new
        rw [List.map_append, List.map_congr_left known, List.map_singleton, find?_concat_of_not_mem new opened]
        exact ih.append (List.Sublist.refl [n.line])

/-- What a section holds stands behind its first header, in the order of the items. -/
theorem lines_sectionOf_sublist {kind : SectionKind} (o : Options) (opened : kind ∈ items.filterMap openedSection?) :
    ((sectionOf o items kind).line :: (sectionOf o items kind).declarations.flatMap Declaration.lines).Sublist
      ((nodes items).map Node.line) := by
  induction items using List.reverseRecOn with
  | nil => cases opened
  | append_singleton items n ih =>
    have offeredLines : ((Declaration.readAll o kind (offered n)).value.flatMap Declaration.lines).Sublist
        ((nodes [n]).map Node.line) :=
      (Declaration.lines_readAll_sublist o kind _).trans ((nodes_offered_sublist n).map _)
    rw [Forest.nodes_append, List.map_append]
    by_cases known : kind ∈ items.filterMap openedSection?
    · have before := ih known
      rw [sectionOf, find?_concat_of_mem known, declarationsOf_concat, List.flatMap_append]
      refine before.append ?_
      split
      · exact offeredLines
      · exact List.nil_sublist _
    · -- The section is opened here and has nothing before.
      have opens : openedSection? n = some kind := by
        rw [List.filterMap_append] at opened
        obtain ⟨m, hm, opens⟩ := List.mem_filterMap.1 ((List.mem_append.1 opened).resolve_left known)
        rwa [List.mem_singleton.1 hm] at opens
      have belongs : belonging (items ++ [n]) = some kind := by
        rw [belonging_concat, isHeader, opens]
        rfl
      have lines : offered n = n.children := by
        rw [offered, opens]
        rfl
      rw [sectionOf, find?_concat_of_not_mem known opens, declarationsOf_concat, declarationsOf_eq_nil known,
        if_pos belongs, lines, Forest.nodes_cons, Forest.nodes_nil, List.append_nil]
      -- Nothing in front of the header counts.
      refine List.Sublist.trans ?_ (List.sublist_append_right _ _)
      exact (Declaration.lines_readAll_sublist o kind n.children).cons_cons _

/-- An action in a document was read from a node of the outline. -/
theorem exists_of_mem_actions {d : Declaration} (hd : d ∈ (classify o notes f).document.allDeclarations)
    {a : Action} (action : d.action? = some a) : ∃ n ∈ nodes f, (Action.read o n).value = some a := by
  obtain ⟨x, hx, hd⟩ := List.mem_flatMap.1 hd
  obtain ⟨kind, n, hn, value⟩ := exists_of_mem_declarations hx
  rcases (Declaration.exists_of_mem_withMembers value hd).2 with rfl | simple
  · by_cases actions : kind = .actions
    · subst actions
      obtain ⟨b, hb, rfl⟩ := Option.map_eq_some_iff.1 value
      cases action
      exact ⟨n, hn, hb⟩
    · rw [Declaration.read_eq_build actions] at value
      rw [((Declaration.makes_build o kind).readFrom value).2] at action
      cases action
  · rw [simple] at action
    cases action

/-- An outline whose lines increase is read as a well-formed document. -/
theorem wellFormed_classify (o : Options) (notes : List Diagnostic)
    (increasing : ((nodes f).map Node.line).Pairwise (· < ·)) : (classify o notes f).document.WellFormed o := by
  obtain ⟨items, inside, sections, classRules⟩ := exists_items o notes f
  have inOrder : ((nodes items).map Node.line).Pairwise (· < ·) := increasing.sublist (inside.map _)
  have firsts : (items.map Node.line).Pairwise (· < ·) := inOrder.sublist ((Forest.sublist_nodes items).map _)
  refine {
    nodup := ?_
    kinds := ?_
    variants := ?_
    actions := fun x hx a ha => ?_
    headers := fun x hx => ?_
    blockHeaders := fun e he => ?_
    sectionOrder := ?_
    blockOrder := ?_
    declarationOrder := ?_ }
  · rw [sections, Catalog.keys_map_self]
    exact Catalog.nodup_eraseDups _
  · rw [sections]
    intro e he
    obtain ⟨kind, -, rfl⟩ := List.mem_map.1 he
    rfl
  · rw [sections]
    intro e he x hx
    obtain ⟨kind, -, rfl⟩ := List.mem_map.1 he
    obtain ⟨n, -, value⟩ := exists_of_mem_declarationsOf hx
    exact Declaration.variant_read value
  · obtain ⟨n, hn, value⟩ := exists_of_mem_actions hx ha
    exact Action.wellFormed_of_read value (increasing.sublist ((Forest.nodes_sublist_of_mem n hn).map _))
  · obtain ⟨n, -, from_⟩ := exists_of_mem_allDeclarations hx
    exact from_.header.article
  · obtain ⟨n, -, header, -⟩ := exists_of_mem_classRules he
    rw [header]
    exact ⟨rfl, rfl⟩
  · rw [sections, List.map_map]
    exact firsts.sublist (lines_firsts_sublist openedSection? items)
  · rw [classRules, List.map_map]
    exact firsts.sublist (lines_firsts_sublist openedBlock? items)
  · rw [sections]
    intro e he
    obtain ⟨kind, opened, rfl⟩ := List.mem_map.1 he
    exact inOrder.sublist (lines_sectionOf_sublist o (List.mem_eraseDups.1 opened))

/-- The lines of the outline of a source increase. -/
theorem increasing_lines_outline (o : Options) (source : Text) :
    ((nodes (Forest.ofLines 0 (Source.lines o source))).map Node.line).Pairwise (· < ·) := by
  have numbers := Source.increasing_number_lines o source
  rw [← Forest.lines_ofLines 0 (Source.lines o source), Forest.lines, List.map_map] at numbers
  exact numbers

/-- Every document that is read from a source is well formed. -/
theorem wellFormed_read (o : Options) (source : Text) : (read o source).document.WellFormed o :=
  wellFormed_classify o (indentationNotes o source) (increasing_lines_outline o source)

end Document

end BusinessClass
