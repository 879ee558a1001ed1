import BusinessClass.Proofs.Document.Roles
import BusinessClass.Proofs.Outline.Layout
import BusinessClass.Proofs.SetRules.Relocation

/-!
# Moving documents

What is read from an outline keeps numbers, places and depths of lines. Reading commutes with moving
the outline, if all depths grow by the same number of levels.

* `Declaration.relocate` and `Document.relocate` move what was read; `relocate .erase` forgets numbers,
  places and depths.
* `Declaration.value_read_relocate`, `Draft.ofItems_relocate` and `document_classify_relocate`: reading
  what was moved is moving what was read.
* `Document.renderLines_relocate`: what was moved is written in the same lines.
-/

namespace BusinessClass

variable (ρ : Relocation)

/-- The header at another place. -/
def Header.relocate (h : Header) : Header := { h with line := ρ.line h.line, span := ρ.span h.span }

/-- The field at another place. -/
def Field.relocate (d : Field) : Field := ⟨d.header.relocate ρ, d.body.map (Node.relocate ρ)⟩

/-- The relation at another place. -/
def Relation.relocate (d : Relation) : Relation :=
  ⟨d.header.relocate ρ, d.view, d.body.map (Node.relocate ρ)⟩

/-- The set definition at another place. -/
def SetDefinition.relocate (d : SetDefinition) : SetDefinition :=
  ⟨d.header.relocate ρ, d.body.map (Node.relocate ρ)⟩

/-- The condition at another place. -/
def Condition.relocate (d : Condition) : Condition := ⟨d.header.relocate ρ, d.definition⟩

/-- The rule block at another place. -/
def RuleBlock.relocate (d : RuleBlock) : RuleBlock := ⟨d.header.relocate ρ, d.body⟩

mutual

/-- The action at another place. -/
def Action.relocate : Action → Action
  | ⟨header, kind, body, sections⟩ =>
    ⟨header.relocate ρ, kind, body.map (Node.relocate ρ), Action.relocateSections sections⟩

/-- The sub-sections at another place. -/
def Action.relocateSections :
    List (ActionSectionKind × ActionSection) → List (ActionSectionKind × ActionSection)
  | [] => []
  | (kind, content) :: rest => (kind, ActionSection.relocate content) :: Action.relocateSections rest

/-- The content of a sub-section at another place. -/
def ActionSection.relocate : ActionSection → ActionSection
  | .fields ds => .fields (Declaration.relocateAll ds)
  | .entries nodes => .entries (nodes.map (Node.relocate ρ))
  | .rules t => .rules t
  | .selection s => .selection s
  | .actionRules rules => .actionRules (rules.relocate ρ)

/-- The declaration at another place. -/
def Declaration.relocate : Declaration → Declaration
  | .field d => .field (d.relocate ρ)
  | .relation d => .relation (d.relocate ρ)
  | .setDefinition d => .setDefinition (d.relocate ρ)
  | .condition d => .condition (d.relocate ρ)
  | .action d => .action (Action.relocate d)
  | .ruleBlock d => .ruleBlock (d.relocate ρ)

/-- Declarations at another place. -/
def Declaration.relocateAll : List Declaration → List Declaration
  | [] => []
  | d :: ds => Declaration.relocate d :: Declaration.relocateAll ds

end

theorem Declaration.relocateAll_eq_map (ds : List Declaration) :
    relocateAll ρ ds = ds.map (relocate ρ) := by
  induction ds with
  | nil => rfl
  | cons d ds ih => rw [relocateAll, ih, List.map_cons]

theorem Action.relocateSections_eq_map (sections : List (ActionSectionKind × ActionSection)) :
    relocateSections ρ sections = sections.map fun e => (e.1, e.2.relocate ρ) := by
  induction sections with
  | nil => rfl
  | cons e rest ih => rw [relocateSections, ih, List.map_cons]

/-- The section at another place. -/
def Section.relocate (s : Section) : Section :=
  ⟨s.kind, ρ.line s.line, s.declarations.map (Declaration.relocate ρ)⟩

/-- The document at another place. -/
def Document.relocate (d : Document) : Document :=
  { d with
    sections := d.sections.map fun e => (e.1, e.2.relocate ρ)
    classRules := d.classRules.map fun e => (e.1, e.2.relocate ρ) }

mutual

/-- Two relocations of an action one after the other are one. -/
theorem Action.relocate_relocate (σ : Relocation) :
    ∀ a : Action, (a.relocate ρ).relocate σ = a.relocate (ρ.andThen σ)
  | ⟨header, kind, body, sections⟩ => by
    rw [Action.relocate, Action.relocate, Action.relocate, Action.relocateSections_relocateSections,
      Forest.relocate_relocate]
    rfl

theorem Action.relocateSections_relocateSections (σ : Relocation) :
    ∀ sections : List (ActionSectionKind × ActionSection),
      Action.relocateSections σ (Action.relocateSections ρ sections)
        = Action.relocateSections (ρ.andThen σ) sections
  | [] => rfl
  | (kind, content) :: rest => by
    rw [Action.relocateSections, Action.relocateSections, Action.relocateSections,
      ActionSection.relocate_relocate, Action.relocateSections_relocateSections]

theorem ActionSection.relocate_relocate (σ : Relocation) :
    ∀ c : ActionSection, (c.relocate ρ).relocate σ = c.relocate (ρ.andThen σ)
  | .fields ds => congrArg ActionSection.fields (Declaration.relocateAll_relocateAll σ ds)
  | .entries nodes => congrArg ActionSection.entries (Forest.relocate_relocate ρ σ nodes)
  | .rules _ => rfl
  | .selection _ => rfl
  | .actionRules rules => congrArg ActionSection.actionRules (rules.relocate_relocate ρ σ)

/-- Two relocations of a declaration one after the other are one. -/
theorem Declaration.relocate_relocate (σ : Relocation) :
    ∀ d : Declaration, (d.relocate ρ).relocate σ = d.relocate (ρ.andThen σ)
  | .field d => congrArg (fun body => Declaration.field ⟨_, body⟩) (Forest.relocate_relocate ρ σ d.body)
  | .relation d =>
    congrArg (fun body => Declaration.relation ⟨_, _, body⟩) (Forest.relocate_relocate ρ σ d.body)
  | .setDefinition d =>
    congrArg (fun body => Declaration.setDefinition ⟨_, body⟩) (Forest.relocate_relocate ρ σ d.body)
  | .condition _ => rfl
  | .action a => congrArg Declaration.action (Action.relocate_relocate σ a)
  | .ruleBlock _ => rfl

theorem Declaration.relocateAll_relocateAll (σ : Relocation) :
    ∀ ds : List Declaration, Declaration.relocateAll σ (Declaration.relocateAll ρ ds)
      = Declaration.relocateAll (ρ.andThen σ) ds
  | [] => rfl
  | d :: ds => by
    rw [Declaration.relocateAll, Declaration.relocateAll, Declaration.relocateAll,
      Declaration.relocate_relocate, Declaration.relocateAll_relocateAll]

end

/-- Two relocations of a document one after the other are one. -/
theorem Document.relocate_relocate (σ : Relocation) (d : Document) :
    (d.relocate ρ).relocate σ = d.relocate (ρ.andThen σ) := by
  have sections (s : Section) : (s.relocate ρ).relocate σ = s.relocate (ρ.andThen σ) := by
    refine congrArg (Section.mk _ _) ?_
    rw [Section.relocate, List.map_map]
    exact List.map_congr_left fun e _ => Declaration.relocate_relocate ρ σ e
  rw [relocate, relocate, relocate]
  simp only [List.map_map, Function.comp_def, sections]
  rfl

/-! ### Headers -/

namespace Header

theorem recognize_relocate (extra : List Phrase) (text : Text) (line : Nat) (span : Span) :
    recognize extra text (ρ.line line) (ρ.span span)
      = (recognize extra text line span).map (relocate ρ) := by
  unfold recognize
  split
  · split
    · cases recognizeType extra _ <;> rfl
    · rfl
  · rfl

theorem ofText_relocate (extra : List Phrase) (text : Text) (line : Nat) (span : Span) :
    ofText extra text (ρ.line line) (ρ.span span)
      = (ofText extra text line span).map (relocate ρ) := by
  rw [ofText, ofText, recognize_relocate]
  cases recognize extra text line span with
  | ok h => rfl
  | error e =>
    simp only [Except.map, bare?]
    by_cases dotted : text.isDottedName = true <;> simp [dotted, relocate]

end Header

@[simp] theorem Node.qualifiers?_relocate (o : Options) (n : Node) :
    (n.relocate ρ).qualifiers? o = n.qualifiers? o := by
  simp [qualifiers?]

theorem Node.filterMap_qualifiers?_relocate (o : Options) (f : List Node) :
    (f.map (relocate ρ)).filterMap (qualifiers? o) = f.filterMap (qualifiers? o) := by
  rw [List.filterMap_map]
  exact congrArg (List.filterMap · f) (funext fun c => qualifiers?_relocate ρ o c)

theorem Node.filter_qualifiers?_relocate (o : Options) (f : List Node) :
    (f.map (relocate ρ)).filter (fun child => (child.qualifiers? o).isNone)
      = (f.filter fun child => (child.qualifiers? o).isNone).map (relocate ρ) := by
  rw [List.filter_map]
  exact congrArg (List.map _) (List.filter_congr fun c _ => by simp)

namespace Declaration

theorem value_ofSplit (o : Options) (n : Node) (make : Header → List Node → Declaration) :
    (ofSplit o n make).value = (split o n).toOption.map fun p => make p.1 p.2 := by
  rw [ofSplit]
  cases split o n <;> rfl

theorem split_relocate (o : Options) (n : Node) :
    (split o (n.relocate ρ)).toOption
      = (split o n).toOption.map fun p => (p.1.relocate ρ, p.2.map (Node.relocate ρ)) := by
  rw [split, split, Node.text_relocate, Node.line_relocate, Node.span_relocate,
    Header.ofText_relocate, Node.children_relocate, Node.filterMap_qualifiers?_relocate,
    Node.filter_qualifiers?_relocate]
  cases Header.ofText o.phrases n.text n.line n.span <;> rfl

theorem value_ofSplit_relocate (o : Options) (n : Node) {make : Header → List Node → Declaration}
    (hmake : ∀ header body, make (header.relocate ρ) (body.map (Node.relocate ρ))
      = (make header body).relocate ρ) :
    (ofSplit o (n.relocate ρ) make).value = (ofSplit o n make).value.map (relocate ρ) := by
  rw [value_ofSplit, value_ofSplit, split_relocate, Option.map_map, Option.map_map]
  exact congrArg (Option.map · _) (funext fun p => hmake p.1 p.2)

theorem ofField_relocate (o : Options) (isLocal : Bool) (h : Header) (body : List Node) :
    ofField o isLocal (h.relocate ρ) (body.map (Node.relocate ρ))
      = (ofField o isLocal h body).relocate ρ := by
  have : (h.relocate ρ).isLocalSet o = h.isLocalSet o := rfl
  rw [ofField, ofField, this]
  split <;> rfl

end Declaration

/-! ### Bodies -/

namespace Forest

theorem nodes_relocate (f : List Node) :
    nodes (f.map (Node.relocate ρ)) = (nodes f).map (Node.relocate ρ) := by
  induction f using induction with
  | nil => rfl
  | cons n ns ihc ih => simp [ihc, ih]

end Forest

namespace RelationView

theorem clause_relocate (n : Node) : clause (n.relocate ρ) = clause n := by
  have preorder (m : Node) : m.preorder = Forest.nodes [m] := by
    simp [Forest.nodes_eq_flatMap]
  have nodes := Forest.nodes_relocate ρ [n]
  rw [List.map_singleton] at nodes
  rw [clause, clause, preorder, preorder, nodes, List.map_map]
  exact congrArg Text.unwords (List.map_congr_left fun m _ => Node.text_relocate ρ m)

/-- What a relation says is in the texts of its lines. -/
theorem ofBody_relocate (f : List Node) : ofBody (f.map (Node.relocate ρ)) = ofBody f := by
  have addLine_relocate (v : RelationView) (n : Node) : v.addLine (n.relocate ρ) = v.addLine n := by
    rw [addLine, addLine, isMapping, isMapping, Node.text_relocate, clause_relocate]
  have add_relocate (v : RelationView) (n : Node) : add v (n.relocate ρ) = add v n := by
    rw [add, add, addLine_relocate, Node.text_relocate]
  rw [ofBody, ofBody, Forest.nodes_relocate, List.foldl_map]
  simp only [add_relocate]

end RelationView

namespace Action

/-- Handed out lines at another place. -/
def Parts.relocate (p : Parts) : Parts where
  qualifiers := p.qualifiers
  body := p.body.map (Node.relocate ρ)
  sections := p.sections.map fun e => (e.1, e.2.map (Node.relocate ρ))
  current := p.current
  repeated := p.repeated.map fun e => (e.1, e.2.relocate ρ)

theorem Parts.addTo_relocate (p : Parts) (kind : ActionSectionKind) (nodes : List Node) :
    (p.relocate ρ).addTo kind (nodes.map (Node.relocate ρ)) = (p.addTo kind nodes).relocate ρ := by
  have := Catalog.upsert_map kind (List.map (Node.relocate ρ)) (f := fun old => old.getD [] ++ nodes)
    (g := fun old => old.getD [] ++ nodes.map (Node.relocate ρ))
    (fun x => by cases x <;> simp) p.sections
  simp only [Parts.addTo, Parts.relocate, this]

theorem Parts.add_relocate (o : Options) (p : Parts) (n : Node) :
    (p.relocate ρ).add o (n.relocate ρ) = (p.add o n).relocate ρ := by
  rw [Parts.add, Parts.add, Node.text_relocate]
  cases ActionSectionKind.ofHeader? n.text with
  | some kind =>
    have known : Catalog.contains (p.relocate ρ).sections kind = Catalog.contains p.sections kind := by
      simp [Catalog.contains, Parts.relocate, Catalog.get?_map]
    simp only [known, Node.children_relocate, addTo_relocate]
    split <;> simp [Parts.relocate]
  | none =>
    cases hc : p.current with
    | some kind =>
      have := addTo_relocate ρ p kind [n]
      simpa [Parts.relocate, hc] using this
    | none =>
      simp only [Parts.relocate, hc, Node.qualifiers?_relocate]
      cases n.qualifiers? o <;> simp

theorem distribute_relocate (o : Options) (f : List Node) :
    distribute o (f.map (Node.relocate ρ)) = (distribute o f).relocate ρ := by
  induction f using List.reverseRecOn with
  | nil => rfl
  | append_singleton ns n ih =>
    rw [List.map_append, List.map_singleton, distribute_concat, distribute_concat, ih, Parts.add_relocate]

end Action

section Shifts

variable {ρ} {k : Nat} (h : ρ.Shifts k)

include h

theorem Declaration.bodyText_relocate (f : List Node) :
    bodyText (f.map (Node.relocate ρ)) = bodyText f := by
  by_cases ne : f = []
  · rw [ne]
    rfl
  · rw [bodyText, bodyText, Forest.minDepth_relocate_of_shifts ρ h ne,
      Forest.text_relocate_shift ρ h]

namespace Action

theorem baseDepth_relocate (depth : Nat) (f : List Node) :
    baseDepth (depth + k) (f.map (Node.relocate ρ)) = baseDepth depth f + k := by
  by_cases ne : f = []
  · subst ne
    exact Nat.add_right_comm depth k 2
  · have min (g : List Node) (hg : g ≠ []) : (g.map Node.depth).min? = some (Forest.minDepth g) := by
      cases hm : (g.map Node.depth).min? with
      | none => simp_all
      | some d => simp [Forest.minDepth, hm]
    rw [baseDepth, baseDepth, min f ne, min _ (by simpa using ne),
      Forest.minDepth_relocate_of_shifts ρ h ne]
    simp only [Option.map_some, Option.getD_some]
    omega

theorem value_readSection_relocate (o : Options) (depth : Nat) (kind : ActionSectionKind)
    (f : List Node) :
    (readSection o (depth + k) kind (f.map (Node.relocate ρ))).value
      = (readSection o depth kind f).value.relocate ρ := by
  have fields (isLocal : Bool) :
      (Noted.gather (fun n => Declaration.ofSplit o n (Declaration.ofField o isLocal))
          (f.map (Node.relocate ρ))).value
        = (Noted.gather (fun n => Declaration.ofSplit o n (Declaration.ofField o isLocal))
            f).value.map (Declaration.relocate ρ) := by
    rw [Noted.value_gather, Noted.value_gather, List.filterMap_map, List.map_filterMap]
    exact congrArg (List.filterMap · f) (funext fun n =>
      Declaration.value_ofSplit_relocate ρ o n fun header body =>
        Declaration.ofField_relocate ρ o isLocal header body)
  cases kind with
  | parameters =>
    simp only [readSection, fields, ActionSection.relocate, Declaration.relocateAll_eq_map]
  | localFields =>
    simp only [readSection, fields, ActionSection.relocate, Declaration.relocateAll_eq_map]
  | queueMappingFields => rfl
  | sortOrder => rfl
  | accumulators => rfl
  | parameterRules =>
    simp only [readSection, baseDepth_relocate h, Forest.text_relocate_shift ρ h, ActionSection.relocate]
  | instanceSelection =>
    simp only [readSection, baseDepth_relocate h, Forest.text_relocate_shift ρ h, ActionSection.relocate]
  | actionRules =>
    simp only [readSection, baseDepth_relocate h, ActionRules.value_read_relocate h, ActionSection.relocate]

omit h in
theorem value_readSections (o : Options) (depth : Nat)
    (pending : Catalog ActionSectionKind (List Node)) :
    (readSections o depth pending).value
      = pending.map fun e => (e.1, (readSection o depth e.1 e.2).value) := by
  rw [readSections, Noted.value_gather]
  exact congrFun List.filterMap_eq_map' pending

/-- Reading an action that was moved is moving the action that was read. -/
theorem value_read_relocate (o : Options) (n : Node) :
    (read o (n.relocate ρ)).value = (read o n).value.map (relocate ρ) := by
  rw [read, read, Node.text_relocate, Node.line_relocate, Node.span_relocate,
    Header.recognize_relocate, Node.children_relocate, distribute_relocate]
  cases Header.recognize o.phrases n.text n.line n.span with
  | error e => rfl
  | ok header =>
    simp only [Except.map, Option.map_some, relocate, Parts.relocate, value_readSections,
      relocateSections_eq_map, List.map_map, Node.depth_relocate, h n.depth]
    refine congrArg (fun sections => some (Action.mk _ _ _ sections)) (List.map_congr_left fun e _ => ?_)
    simp [value_readSection_relocate h]

end Action

namespace Declaration

/-- Reading a declaration that was moved is moving the declaration that was read. -/
theorem value_read_relocate (o : Options) (kind : SectionKind) (n : Node) :
    (read o kind (n.relocate ρ)).value = (read o kind n).value.map (relocate ρ) := by
  have fields (isLocal : Bool) := value_ofSplit_relocate ρ o n (ofField_relocate ρ o isLocal)
  cases kind with
  | actions =>
    simp only [read, Action.value_read_relocate h, Option.map_map]
    rfl
  | localFields => exact fields true
  | conditions =>
    refine value_ofSplit_relocate ρ o n fun header body => ?_
    rw [bodyText_relocate h]
    rfl
  | relations =>
    refine value_ofSplit_relocate ρ o n fun header body => ?_
    rw [RelationView.ofBody_relocate]
    rfl
  | sets => exact value_ofSplit_relocate ρ o n fun header body => rfl
  | fieldRules | ruleBlocks =>
    refine value_ofSplit_relocate ρ o n fun header body => ?_
    rw [bodyText_relocate h]
    rfl
  | persistentFields | contextFields | transientFields | derivedFields => exact fields false

theorem value_readAll_relocate (o : Options) (kind : SectionKind) (f : List Node) :
    (readAll o kind (f.map (Node.relocate ρ))).value = (readAll o kind f).value.map (relocate ρ) := by
  rw [readAll, readAll, Noted.value_gather, Noted.value_gather, List.filterMap_map,
    List.map_filterMap]
  exact congrArg (List.filterMap · f) (funext fun n => value_read_relocate h o kind n)

end Declaration

/-! ### Classes -/

namespace Document

namespace Draft

omit h in
theorem document_addTo_relocate {d e : Draft} (document : e.document = d.document.relocate ρ)
    (kind : SectionKind) (line : Nat) {ds es : Noted (List Declaration)}
    (value : es.value = ds.value.map (Declaration.relocate ρ)) :
    (e.addTo kind (ρ.line line) es).document = (d.addTo kind line ds).document.relocate ρ := by
  simp only [addTo, document, value, Document.relocate]
  refine congrArg (Document.mk _ _ _ _ · _ _)
    (Catalog.upsert_map kind (Section.relocate ρ) (fun x => ?_) d.document.sections)
  cases x <;> simp [Section.relocate]

/-- Taking up an item that was moved gives the document moved. -/
theorem add_relocate (o : Options) {d e : Draft} (document : e.document = d.document.relocate ρ)
    (current : e.current = d.current) (n : Node) :
    (e.add o (n.relocate ρ)).document = (d.add o n).document.relocate ρ ∧
      (e.add o (n.relocate ρ)).current = (d.add o n).current := by
  rw [add, add, Node.text_relocate]
  cases ClassItem.ofText n.text with
  | owner name =>
    simp only [document]
    exact ⟨rfl, current⟩
  | classPrefix text =>
    simp only [document]
    exact ⟨rfl, current⟩
  | opensSection kind =>
    simp only [openSection, Node.line_relocate, Node.children_relocate]
    refine ⟨document_addTo_relocate ?_ kind n.line ?_, rfl⟩
    · exact document
    · exact Declaration.value_readAll_relocate h o kind n.children
  | opensBlock kind =>
    simp only [openBlock, document, Document.relocate, Node.bodyText_relocate h, Node.line_relocate,
      Node.span_relocate, and_true]
    refine congrArg (Document.mk _ _ _ _ _ · _)
      (Catalog.upsert_map kind (RuleBlock.relocate ρ) (fun x => ?_) d.document.classRules)
    cases x <;> simp [RuleBlock.relocate, Header.relocate]
  | content =>
    simp only [current]
    cases hc : d.current with
    | none => exact ⟨document, rfl⟩
    | some kind =>
      simp only [Node.line_relocate]
      refine ⟨document_addTo_relocate document kind n.line ?_, current⟩
      exact Declaration.value_readAll_relocate h o kind [n]

theorem document_ofItems_relocate (o : Options) (start : Document) (notes notes' : List Diagnostic)
    (items : List Node) :
    (ofItems o (start.relocate ρ) notes' (items.map (Node.relocate ρ))).document
      = (ofItems o start notes items).document.relocate ρ := by
  have fold : ∀ (d e : Draft), e.document = d.document.relocate ρ → e.current = d.current →
      ((items.map (Node.relocate ρ)).foldl (add o) e).document
        = (items.foldl (add o) d).document.relocate ρ := by
    induction items with
    | nil => exact fun _ _ document _ => document
    | cons n ns ih =>
      intro d e document current
      have := add_relocate h o document current n
      exact ih _ _ this.1 this.2
  exact fold _ _ rfl rfl

end Draft

omit h in
theorem classHeader?_relocate (o : Options) (n : Node) :
    classHeader? o (n.relocate ρ) = (classHeader? o n).map (Header.relocate ρ) := by
  rw [classHeader?, classHeader?, Node.text_relocate, Node.line_relocate, Node.span_relocate,
    Header.recognize_relocate]
  cases Header.recognize o.phrases n.text n.line n.span with
  | error e => rfl
  | ok header =>
    simp only [Except.map]
    change (if header.typeName.any isClassType then _ else _) = _
    split <;> rfl

omit h in
theorem document_closeHeadless_relocate {d e : Draft} (document : e.document = d.document.relocate ρ) :
    e.closeHeadless.document = d.closeHeadless.document.relocate ρ := by
  rw [Draft.closeHeadless, Draft.closeHeadless]
  have empty : (e.document.sections.isEmpty && e.document.classRules.isEmpty)
      = (d.document.sections.isEmpty && d.document.classRules.isEmpty) := by
    rw [document]
    simp [relocate]
  rw [empty]
  split
  · rfl
  · exact document

omit h in
theorem classRoot?_relocate (o : Options) (f : List Node) : classRoot? o (f.map (Node.relocate ρ))
    = (classRoot? o f).map fun r => (r.1.relocate ρ, r.2.map (Node.relocate ρ)) := by
  cases f with
  | nil => rfl
  | cons n ns =>
    rw [List.map_cons, classRoot?, classRoot?, classHeader?_relocate, Node.children_relocate,
      ← List.map_append, Option.map_map, Option.map_map]
    rfl

/-- Reading an outline that was moved gives the document moved. -/
theorem document_classify_relocate (o : Options) (notes notes' : List Diagnostic) (f : List Node) :
    (classify o notes' (f.map (Node.relocate ρ))).document
      = (classify o notes f).document.relocate ρ := by
  rw [classify, classify, classRoot?_relocate]
  cases classRoot? o f with
  | some r =>
    exact Draft.document_ofItems_relocate h o { name := some r.1.name, classType := r.1.typeName } notes
      notes' r.2
  | none => exact document_closeHeadless_relocate (Draft.document_ofItems_relocate h o {} notes notes' f)

end Document

end Shifts

/-! ### Writing what was moved -/

theorem SetRuleGroup.renderAll_relocate (gs : List SetRuleGroup) :
    renderAll (gs.map (relocate ρ)) = renderAll gs := by
  induction gs using SetRuleGroup.induction with
  | nil => rfl
  | cons g gs ihc ih =>
    obtain ⟨key, line, entrance, exit, rules, children⟩ := g
    rw [List.map_cons, renderAll, ih, relocate_mk, renderLines, ihc, renderAll, renderLines]

theorem RuleItem.renderLines_relocate (i : RuleItem) : (i.relocate ρ).renderLines = i.renderLines := by
  cases i with
  | text t => rfl
  | group g =>
    have : (g.relocate ρ).renderLines = g.renderLines := by
      simpa [SetRuleGroup.renderAll] using SetRuleGroup.renderAll_relocate ρ [g]
    exact this

theorem ActionRules.flatMap_renderLines_relocate (rules : ActionRules) :
    (rules.relocate ρ).items.flatMap RuleItem.renderLines = rules.items.flatMap RuleItem.renderLines := by
  rw [relocate, List.flatMap_map]
  exact congrArg (List.flatMap · rules.items) (funext fun i => i.renderLines_relocate ρ)

theorem Header.renderWith_relocate (header : Header) (body : List Text) :
    (header.relocate ρ).renderWith body = header.renderWith body := rfl

section Shifts

variable {ρ} {k : Nat}

mutual

theorem Declaration.renderLines_relocate (h : ρ.Shifts k) :
    ∀ d : Declaration, (d.relocate ρ).renderLines = d.renderLines
  | .field d => congrArg d.header.renderWith (Forest.renderLines_relocate h d.body)
  | .relation d => congrArg d.header.renderWith (Forest.renderLines_relocate h d.body)
  | .setDefinition d => congrArg d.header.renderWith (Forest.renderLines_relocate h d.body)
  | .condition _ => rfl
  | .action a => Action.renderLines_relocate h a
  | .ruleBlock _ => rfl

theorem Action.renderLines_relocate (h : ρ.Shifts k) :
    ∀ a : Action, (a.relocate ρ).renderLines = a.renderLines
  | ⟨header, kind, body, sections⟩ => by
    rw [Action.relocate, Action.renderLines, Action.renderSections_relocate h,
      Forest.renderLines_relocate h, Header.renderWith_relocate ρ, Action.renderLines]

theorem Action.renderSections_relocate (h : ρ.Shifts k) :
    ∀ sections : List (ActionSectionKind × ActionSection),
      Action.renderSections (Action.relocateSections ρ sections) = Action.renderSections sections
  | [] => rfl
  | (kind, content) :: rest => by
    rw [Action.relocateSections, Action.renderSections, ActionSection.renderLines_relocate h,
      Action.renderSections_relocate h, Action.renderSections]

theorem ActionSection.renderLines_relocate (h : ρ.Shifts k) :
    ∀ c : ActionSection, (c.relocate ρ).renderLines = c.renderLines
  | .fields ds => Declaration.renderAll_relocate h ds
  | .entries nodes => Forest.renderLines_relocate h nodes
  | .rules _ => rfl
  | .selection _ => rfl
  | .actionRules rules => rules.flatMap_renderLines_relocate ρ

theorem Declaration.renderAll_relocate (h : ρ.Shifts k) :
    ∀ ds : List Declaration, Declaration.renderAll (Declaration.relocateAll ρ ds) = Declaration.renderAll ds
  | [] => rfl
  | d :: ds => by
    rw [Declaration.relocateAll, Declaration.renderAll, Declaration.renderLines_relocate h,
      Declaration.renderAll_relocate h, Declaration.renderAll]

end

/-- What was moved is written in the same lines. -/
theorem Document.renderLines_relocate (h : ρ.Shifts k) (d : Document) :
    (d.relocate ρ).renderLines = d.renderLines := by
  have sections (e : SectionKind × Section) : renderSection (e.2.relocate ρ) = renderSection e.2 := by
    rw [renderSection, renderSection, Section.relocate, ← Declaration.relocateAll_eq_map,
      Declaration.renderAll_relocate h]
  have body : (d.relocate ρ).renderBody = d.renderBody := by
    rw [renderBody, renderBody, relocate, Catalog.values, Catalog.values, List.map_map, List.flatMap_map,
      List.flatMap_map, List.flatMap_map]
    simp only [Function.comp, sections]
    rfl
  rw [renderLines, renderLines, body]
  rfl

end Shifts

end BusinessClass
