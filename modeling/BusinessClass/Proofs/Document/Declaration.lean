import BusinessClass.Proofs.Header.RoundTrip
import BusinessClass.Proofs.Outline.Layout
import Mathlib.Data.List.Basic

/-!
# Writing declarations and reading them again

A declaration other than an action is a header and a body. It is written as the header, below a bare
header its qualifiers, and the body, moved so that its shallowest line stands one level in.

* `Forest.settle` is a body as it is read again: the same lines, counted from the header.
* `split_node`: header and body are read again as they are, unless qualifiers below a bare header are
  followed by a body whose first line is not its shallowest.
* `split_node_lines`: in that case the last qualifier goes to the body, and the lines stay the same.
-/

namespace BusinessClass

namespace Forest

/-! ### Bodies -/

/-- A body as it is read again below the header that it is written under. -/
def settle (f : List Node) : List Node := (outline (renderLines f)).map (Node.relocate (.shift 1))

theorem settle_eq {f : List Node} (nested : Nested f) (tidy : Tidy f) :
    settle f = f.map (Node.relocate ((Relocation.rebase (minDepth f)).andThen (.shift 1))) := by
  rw [settle, outline_renderLines nested tidy, relocate_relocate]

theorem settle_erase {f : List Node} (nested : Nested f) (tidy : Tidy f) :
    (settle f).map (Node.relocate .erase) = f.map (Node.relocate .erase) := by
  rw [settle_eq nested tidy, relocate_relocate]
  rfl

/-- The shallowest line of a written forest is at depth zero. -/
theorem exists_flush_renderLines {f : List Node} (tidy : Tidy f) :
    renderLines f = [] ∨ ∃ t ∈ renderLines f, (SourceLine.ofText t).depth = 0 := by
  by_cases ne : f = []
  · subst ne
    exact Or.inl rfl
  · obtain ⟨n, hn, hd⟩ := exists_depth_eq_minDepth ne
    refine Or.inr ⟨lineOf (minDepth f) n.toLine, ?_, ?_⟩
    · rw [renderLines, lines_text tidy]
      exact List.mem_map_of_mem (toLine_mem_lines hn)
    · rw [SourceLine.ofText_lineOf (tidy _ (toLine_mem_lines hn)), SourceLine.depth_relocate]
      simp [Relocation.rebase, hd]

theorem renderLines_settle {f : List Node} (tidy : Tidy f) : renderLines (settle f) = renderLines f :=
  renderLines_outline_shift (isLine_renderLines tidy) (exists_flush_renderLines tidy) 1

theorem tidy_settle {f : List Node} (tidy : Tidy f) : Tidy (settle f) :=
  (tidy_relocate _).2 (tidy_outline (isLine_renderLines tidy))

end Forest

namespace Declaration

open Forest (outline settle Nested NestedTree Tidy)

theorem bodyText_eq {f : List Node} (tidy : Tidy f) : bodyText f = Text.stack (Forest.renderLines f) := by
  rw [Forest.renderLines, bodyText, (Forest.isBlock_text tidy _).stack_lines]

theorem lines_bodyText (f : List Node) : (bodyText f).lines = Forest.renderLines f := rfl

/-! ### Qualifiers below a header -/

/-- A line with content alone. -/
def leaf (t : Text) : Node := ⟨t, 0, 0, ⟨0, 0⟩, []⟩

theorem outline_leaves {ts : List Text} (h : ∀ t ∈ ts, t.IsContent) : outline ts = ts.map leaf := by
  induction ts with
  | nil => rfl
  | cons t ts ih =>
    have flush : Lines.Flush ts := by
      cases ts with
      | nil => exact Lines.flush_nil
      | cons u us => exact Lines.flush_cons (h u (by simp)) us
    rw [← List.singleton_append, Forest.outline_append flush, Forest.outline_singleton (h t (by simp)),
      ih fun u hu => h u (List.mem_cons_of_mem t hu)]
    rfl

theorem qualifiers?_leaf {q : Text} (h : Qualifier.IsPhrase q) : (leaf q).qualifiers? {} = some [q] :=
  Qualifier.line?_of_isPhrase h

/-- The qualifiers that a line holds can be written. -/
theorem isPhrase_of_qualifiers? {n : Node} (content : n.text.IsContent) {qs : List Text}
    (h : n.qualifiers? {} = some qs) : ∀ q ∈ qs, Qualifier.IsPhrase q := by
  unfold Node.qualifiers? at h
  split at h
  · exact Qualifier.isPhrase_of_line? h content.no_feed content.no_return
  · cases h

/-! ### Header and body -/

/-- Header and body of a declaration that can be written. -/
structure Splits (h : Header) (body : List Node) : Prop where
  readable : h.Readable
  nested : Nested body
  tidy : Tidy body
  plain : ∀ n ∈ body, n.qualifiers? {} = none

theorem split_of_ofText {o : Options} {n : Node} {h : Header}
    (read : Header.ofText o.phrases n.text n.line n.span = .ok h) :
    split o n = .ok (h.addQualifiers (n.children.filterMap (Node.qualifiers? o)).flatten,
      n.children.filter fun child => (child.qualifiers? o).isNone) := by
  rw [split, read]

/-- What header and body of a declaration are read from. -/
theorem split_eq_ok {o : Options} {n : Node} {h : Header} {body : List Node} (read : split o n = .ok (h, body)) :
    ∃ header, Header.ofText o.phrases n.text n.line n.span = .ok header ∧
      h = header.addQualifiers (n.children.filterMap (Node.qualifiers? o)).flatten ∧
      body = n.children.filter fun child => (child.qualifiers? o).isNone := by
  cases hh : Header.ofText o.phrases n.text n.line n.span with
  | error e =>
    rw [split, hh] at read
    cases read
  | ok header =>
    rw [split_of_ofText hh] at read
    cases read
    exact ⟨header, rfl, rfl, rfl⟩

theorem splits_of_split {n : Node} (tree : NestedTree n) (content : n.text.IsContent)
    (tidy : Tidy n.children) {h : Header} {body : List Node} (read : split {} n = .ok (h, body)) :
    Splits h body := by
  obtain ⟨header, hh, rfl, rfl⟩ := split_eq_ok read
  have sub : (n.children.filter fun child => (child.qualifiers? {}).isNone).Sublist n.children :=
    List.filter_sublist
  refine ⟨(Header.readable_of_ofText content hh).addQualifiers fun q hq => ?_,
    tree.children.sublist sub, tidy.sublist sub, fun m hm => ?_⟩
  · obtain ⟨qs, hqs, hq⟩ := List.mem_flatten.1 hq
    obtain ⟨c, hc, hqs⟩ := List.mem_filterMap.1 hqs
    exact isPhrase_of_qualifiers? (tidy.isContent hc) hqs q hq
  · have := (List.mem_filter.1 hm).2
    simpa using this

/-- The lines below the header of a written declaration. -/
def innerLines (h : Header) (body : List Node) : List Text :=
  (if h.typeName.isNone then h.qualifiers else []) ++ Forest.renderLines body

/-- The node of a written declaration. -/
def node (h : Header) (body : List Node) : Node :=
  ⟨h.render, 0, 0, ⟨0, 0⟩, (outline (innerLines h body)).map (Node.relocate (.shift 1))⟩

variable {h : Header} {body : List Node}

theorem renderWith_eq (h : Header) (body : List Node) :
    h.renderWith (Forest.renderLines body) = h.render :: Lines.indent (innerLines h body) := rfl

@[simp] theorem length_renderWith (h : Header) (ls : List Text) :
    (h.renderWith ls).length
      = 1 + (if h.typeName.isNone then h.qualifiers else []).length + ls.length := by
  simp [Header.renderWith]
  omega

@[simp] theorem renderWith_inj (h : Header) {ls ms : List Text} :
    h.renderWith ls = h.renderWith ms ↔ ls = ms := by
  simp [Header.renderWith]

/-- A written declaration is one node. -/
theorem Splits.outline_renderWith (splits : Splits h body) :
    outline (h.renderWith (Forest.renderLines body)) = [node h body] :=
  Forest.outline_cons_indent splits.readable.isContent_render _

theorem Splits.flush (splits : Splits h body) : Lines.Flush (h.renderWith (Forest.renderLines body)) :=
  Lines.flush_cons splits.readable.isContent_render _

theorem Splits.isLine (splits : Splits h body) : ∀ l ∈ h.renderWith (Forest.renderLines body), l.IsLine := by
  intro l hl
  rcases List.mem_cons.1 hl with rfl | hl
  · exact splits.readable.isContent_render.isLine_zero
  · refine Lines.isLine_indent (fun t ht => ?_) l hl
    rcases List.mem_append.1 ht with ht | ht
    · split at ht
      · exact (splits.readable.qualifiers t ht).isContent.isLine_zero
      · cases ht
    · exact Forest.isLine_renderLines splits.tidy t ht

/-! ### Reading a written declaration -/

/-- Lines of qualifiers in front of lines that are none join the header. -/
theorem split_of_leaves {text : Text} {header : Header}
    (read : Header.ofText [] text 0 ⟨0, 0⟩ = .ok header) (qs : List Text)
    (phrases : ∀ q ∈ qs, Qualifier.IsPhrase q) {f : List Node}
    (plain : ∀ n ∈ f, n.qualifiers? {} = none) :
    split {} ⟨text, 0, 0, ⟨0, 0⟩, (qs.map leaf ++ f).map (Node.relocate (.shift 1))⟩
      = .ok (header.addQualifiers qs, f.map (Node.relocate (.shift 1))) := by
  have leaves : (qs.map leaf).filterMap (Node.qualifiers? {}) = qs.map ([·]) := by
    rw [List.filterMap_map, ← List.filterMap_eq_map]
    exact List.filterMap_congr fun q hq => qualifiers?_leaf (phrases q hq)
  have no_body : (qs.map leaf).filter (fun child => (child.qualifiers? {}).isNone) = [] := by
    rw [List.filter_eq_nil_iff]
    intro n hn
    obtain ⟨q, hq, rfl⟩ := List.mem_map.1 hn
    rw [qualifiers?_leaf (phrases q hq)]
    exact Bool.false_ne_true
  have no_qualifiers : f.filterMap (Node.qualifiers? {}) = [] := List.filterMap_eq_nil_iff.2 plain
  have all_body : f.filter (fun child => (child.qualifiers? {}).isNone) = f :=
    List.filter_eq_self.2 fun n hn => by rw [plain n hn]; rfl
  rw [split_of_ofText (o := {})
    (n := ⟨text, 0, 0, ⟨0, 0⟩, (qs.map leaf ++ f).map (Node.relocate (.shift 1))⟩) read]
  simp only [Node.filterMap_qualifiers?_relocate, Node.filter_qualifiers?_relocate,
    List.filterMap_append, List.filter_append, leaves, no_body, no_qualifiers, all_body,
    List.append_nil, List.nil_append]
  rw [← List.flatMap_def, List.flatMap_singleton']

theorem Splits.plain_outline (splits : Splits h body) :
    ∀ n ∈ outline (Forest.renderLines body), n.qualifiers? {} = none := by
  rw [Forest.outline_renderLines splits.nested splits.tidy]
  intro n hn
  obtain ⟨m, hm, rfl⟩ := List.mem_map.1 hn
  rw [Node.qualifiers?_relocate, splits.plain m hm]

/-- The qualifiers that are written below the header stand apart from the body. -/
def Apart (h : Header) (body : List Node) : Prop :=
  h.typeName = none → h.qualifiers ≠ [] → Lines.Flush (Forest.renderLines body)

/-- A written declaration is read as the same header and body. -/
theorem Splits.split_node (splits : Splits h body) (apart : Apart h body) :
    split {} (node h body) = .ok (h.relocate .unplace, settle body) := by
  cases splits.readable with
  | typed typed =>
    have read : Header.ofText [] h.render 0 ⟨0, 0⟩ = .ok (h.relocate .unplace) := by
      rw [Header.ofText, typed.recognize_render]
      rfl
    have := split_of_leaves read [] (by simp) splits.plain_outline
    have inner : innerLines h body = Forest.renderLines body := by
      rw [innerLines, typed.typeName]
      rfl
    rw [node, inner, settle]
    simpa [Header.addQualifiers] using this
  | bare bare =>
    have read := bare.read 0 ⟨0, 0⟩
    have := split_of_leaves read h.qualifiers bare.qualifiers splits.plain_outline
    have inner : innerLines h body = h.qualifiers ++ Forest.renderLines body := by
      rw [innerLines, bare.typeName]
      rfl
    have parts : outline (innerLines h body) = h.qualifiers.map leaf ++ outline (Forest.renderLines body) := by
      rw [inner]
      by_cases none : h.qualifiers = []
      · rw [none]
        rfl
      · rw [Forest.outline_append (apart bare.typeName none), outline_leaves fun q hq => (bare.qualifiers q hq).isContent]
    rw [node, parts, bare.render_eq, this, bare.addQualifiers_name, settle]

/-- A line in front of lines that start deeper is no qualifier. -/
theorem plain_hanging {q : Text} (content : q.IsContent) {ls : List Text} (hangs : ¬ Lines.Flush ls)
    (plain : ∀ n ∈ outline ls, n.qualifiers? {} = none) :
    ∀ n ∈ outline (q :: ls), n.qualifiers? {} = none := by
  intro n hn
  rw [outline, List.map_cons, Forest.ofLines_cons, Forest.grow, SourceLine.ofText_of_isContent content]
    at hn
  rcases List.mem_cons.1 hn with rfl | hn
  · cases ls with
    | nil => exact absurd Lines.flush_nil hangs
    | cons l ls =>
      have deeper : 0 < (SourceLine.ofText l).depth := by
        simp only [Lines.Flush, List.head?_cons, Option.mem_some_iff, forall_eq'] at hangs
        omega
      have under : Forest.isUnder 0 ⟨q, 0, 0, ⟨0, 0⟩⟩
          (Node.ofLine (SourceLine.ofText l)
            ((Forest.ofLines 0 (ls.map SourceLine.ofText)).takeWhile
              (Forest.isUnder 0 (SourceLine.ofText l)))) = true := by
        rw [Forest.isUnder_zero]
        exact decide_eq_true deeper
      rw [Node.qualifiers?, Node.isLeaf, Node.children_ofLine, List.map_cons, Forest.ofLines_cons,
        Forest.grow, List.takeWhile_cons_of_pos under]
      rfl
  · exact plain n ((List.dropWhile_sublist _).subset hn)

/-- However a declaration was written, it is read as one that is written in the same lines. -/
theorem Splits.split_node_lines (splits : Splits h body) :
    ∃ h' body', split {} (node h body) = .ok (h', body') ∧
      h'.renderWith (Forest.renderLines body') = h.renderWith (Forest.renderLines body) := by
  by_cases apart : Apart h body
  · refine ⟨_, _, splits.split_node apart, ?_⟩
    rw [Forest.renderLines_settle splits.tidy]
    rfl
  · -- the body hangs from the last qualifier
    simp only [Apart, not_forall] at apart
    obtain ⟨untyped, some_qualifier, hangs⟩ := apart
    cases splits.readable with
    | typed typed =>
      rw [typed.typeName] at untyped
      cases untyped
    | bare bare =>
      obtain ⟨qs, q, hq⟩ := List.eq_nil_or_concat h.qualifiers |>.resolve_left some_qualifier
      rw [List.concat_eq_append] at hq
      have phrases := bare.qualifiers
      rw [hq] at phrases
      have content := (phrases q (by simp)).isContent
      have inner : innerLines h body = qs ++ q :: Forest.renderLines body := by
        rw [innerLines, bare.typeName, hq]
        simp
      have parts : outline (innerLines h body)
          = qs.map leaf ++ outline (q :: Forest.renderLines body) := by
        rw [inner, Forest.outline_append (Lines.flush_cons content _),
          outline_leaves fun p hp => (phrases p (List.mem_append_left _ hp)).isContent]
      have lines : Forest.renderLines ((outline (q :: Forest.renderLines body)).map
          (Node.relocate (.shift 1))) = q :: Forest.renderLines body := by
        refine Forest.renderLines_outline_shift (fun t ht => ?_) (Or.inr ⟨q, List.mem_cons_self, ?_⟩) 1
        · rcases List.mem_cons.1 ht with rfl | ht
          · exact content.isLine_zero
          · exact Forest.isLine_renderLines splits.tidy t ht
        · rw [SourceLine.ofText_of_isContent content]
      refine ⟨(Header.mk h.name none none [] 0 ⟨0, 0⟩).addQualifiers qs,
        (outline (q :: Forest.renderLines body)).map (Node.relocate (.shift 1)), ?_, ?_⟩
      · rw [node, parts, bare.render_eq]
        exact split_of_leaves (bare.read 0 ⟨0, 0⟩) qs (fun p hp => phrases p (List.mem_append_left _ hp))
          (plain_hanging content hangs splits.plain_outline)
      · rw [lines, renderWith_eq, inner, bare.render_eq]
        rfl

/-! ### Declarations of a section -/

/-- The declaration that header and body make in a section other than that of the actions. -/
def make : SectionKind → Header → List Node → Declaration
  | .conditions, h, body => .condition ⟨h, bodyText body⟩
  | .relations, h, body => .relation ⟨h, .ofBody body, body⟩
  | .sets, h, body => .setDefinition ⟨h, body⟩
  | .fieldRules, h, body => .ruleBlock ⟨h, bodyText body⟩
  | .ruleBlocks, h, body => .ruleBlock ⟨h, bodyText body⟩
  | _, h, body => .field ⟨h, body⟩

theorem ofField_default (isLocal : Bool) (h : Header) (body : List Node) :
    ofField {} isLocal h body = .field ⟨h, body⟩ := by
  cases isLocal <;> rfl

theorem value_read {kind : SectionKind} (simple : kind ≠ .actions) (n : Node) :
    (read {} kind n).value = (split {} n).toOption.map fun p => make kind p.1 p.2 := by
  have fields (isLocal : Bool) : (ofSplit {} n (ofField {} isLocal)).value
      = (split {} n).toOption.map fun p => .field ⟨p.1, p.2⟩ := by
    rw [value_ofSplit]
    exact congrArg (Option.map · _) (funext fun p => ofField_default isLocal p.1 p.2)
  cases kind with
  | actions => exact absurd rfl simple
  | localFields => exact fields true
  | persistentFields | contextFields | transientFields | derivedFields => exact fields false
  | _ => exact value_ofSplit {} n _

/-- A declaration other than an action is made of the header and the body of its line. -/
theorem read_eq_some {kind : SectionKind} (simple : kind ≠ .actions) {n : Node} {d : Declaration}
    (read : (read {} kind n).value = some d) :
    ∃ h body, split {} n = .ok (h, body) ∧ d = make kind h body := by
  rw [value_read simple, Option.map_eq_some_iff] at read
  obtain ⟨⟨h, body⟩, found, rfl⟩ := read
  refine ⟨h, body, ?_, rfl⟩
  cases hs : split {} n with
  | error e => rw [hs] at found; cases found
  | ok p => rw [hs] at found; cases found; rfl

theorem renderLines_make (kind : SectionKind) (h : Header) (body : List Node) :
    (make kind h body).renderLines = h.renderWith (Forest.renderLines body) := by
  cases kind <;> rw [make, renderLines] <;> simp [lines_bodyText]

/-- The declarations that the lines of a declaration are read as. -/
def reread (kind : SectionKind) (d : Declaration) : List Declaration :=
  (readAll {} kind (outline d.renderLines)).value

theorem reread_of_outline {kind : SectionKind} {d d' : Declaration} {n : Node}
    (node : outline d.renderLines = [n]) (read : (read {} kind n).value = some d') :
    reread kind d = [d'] := by
  rw [reread, node, readAll, Noted.value_gather]
  exact List.filterMap_cons_some read

/-- A written declaration is read as the declaration that its lines are split into. -/
theorem Splits.reread_of_split {kind : SectionKind} (simple : kind ≠ .actions) (splits : Splits h body)
    {h' : Header} {body' : List Node} (split : split {} (node h body) = .ok (h', body')) :
    reread kind (make kind h body) = [make kind h' body'] := by
  refine reread_of_outline (by rw [renderLines_make, splits.outline_renderWith]) ?_
  rw [value_read simple, split]
  rfl

/-- Where its qualifiers stand apart from the body, a written declaration is read as it is, up to the
place of its lines. -/
theorem Splits.reread_make {kind : SectionKind} (simple : kind ≠ .actions) (splits : Splits h body)
    (apart : Apart h body) :
    reread kind (make kind h body) = [make kind (h.relocate .unplace) (settle body)] :=
  splits.reread_of_split simple (splits.split_node apart)

/-- A body that is read again says the same. -/
theorem make_settle (kind : SectionKind) (splits : Splits h body) :
    (make kind (h.relocate .unplace) (settle body)).relocate .erase
      = (make kind h body).relocate .erase := by
  have nodes := Forest.settle_erase splits.nested splits.tidy
  have text : bodyText (settle body) = bodyText body := by
    rw [bodyText_eq (Forest.tidy_settle splits.tidy), bodyText_eq splits.tidy,
      Forest.renderLines_settle splits.tidy]
  have view : RelationView.ofBody (settle body) = RelationView.ofBody body := by
    rw [Forest.settle_eq splits.nested splits.tidy, RelationView.ofBody_relocate]
  have field : (Declaration.field ⟨h.relocate .unplace, settle body⟩).relocate .erase
      = (Declaration.field ⟨h, body⟩).relocate .erase := by
    rw [relocate, relocate, Field.relocate, Field.relocate, nodes]
    rfl
  cases kind with
  | conditions => rw [make, make, text]; rfl
  | fieldRules => rw [make, make, text]; rfl
  | ruleBlocks => rw [make, make, text]; rfl
  | relations =>
    rw [make, make, view, relocate, relocate, Relation.relocate, Relation.relocate, nodes]
    rfl
  | sets =>
    rw [make, make, relocate, relocate, SetDefinition.relocate, SetDefinition.relocate, nodes]
    rfl
  | _ => exact field

/-- The declaration is read again as it is, numbers, places and depths of lines aside. -/
def Stable (kind : SectionKind) (d : Declaration) : Prop :=
  (reread kind d).map (relocate .erase) = [d.relocate .erase]

theorem Splits.stable {kind : SectionKind} (simple : kind ≠ .actions) (splits : Splits h body)
    (apart : Apart h body) : Stable kind (make kind h body) := by
  rw [Stable, splits.reread_make simple apart, List.map_singleton, make_settle kind splits]

/-- A written declaration is read as a declaration that is written in the same lines. -/
theorem Splits.renderLines_reread {kind : SectionKind} (simple : kind ≠ .actions)
    (splits : Splits h body) :
    (reread kind (make kind h body)).flatMap renderLines = (make kind h body).renderLines := by
  obtain ⟨h', body', split, lines⟩ := splits.split_node_lines
  rw [splits.reread_of_split simple split, List.flatMap_singleton, renderLines_make, renderLines_make, lines]

end Declaration

end BusinessClass
