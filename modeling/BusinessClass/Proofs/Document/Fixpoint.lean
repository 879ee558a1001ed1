import BusinessClass.Proofs.Document.Rereading

/-!
# Documents that are written the same again

A document that is written, read and written again comes out in the same lines, with two exceptions: a
document without class header whose first line is taken for one, and rules of an action with groups that
do not stand in written order.

* `Document.renderLines_reread_iff` compares the lines of a document with those of the document read again.
* `Document.render_read_render_iff` says of every source when its document is written the same again.
-/

namespace BusinessClass

open Declaration (leaf)

theorem Lines.text_inj {ls ms : List Text} (hl : ∀ t ∈ ls, t.IsLine) (hm : ∀ t ∈ ms, t.IsLine) :
    Lines.text ls = Lines.text ms ↔ ls = ms := by
  refine ⟨fun h => ?_, congrArg _⟩
  have pieces := congrArg Source.pieces h
  rw [Source.pieces_text fun t ht => ⟨(hl t ht).no_feed, (hl t ht).no_return⟩,
    Source.pieces_text fun t ht => ⟨(hm t ht).no_feed, (hm t ht).no_return⟩] at pieces
  exact (List.map_inj_right fun _ _ same => (Prod.mk.inj same).1).1 pieces

/-! ### Sections -/

namespace Section

variable {s : Section} (writable : ∀ x ∈ s.declarations, x.Writable s.kind)

theorem renderAll_reread (s : Section) : Declaration.renderAll s.reread.declarations
    = s.declarations.flatMap fun x => (Declaration.reread s.kind x).flatMap Declaration.renderLines := by
  have moved (x : Declaration) := Declaration.renderLines_relocate (Relocation.shifts_shift 1) x
  rw [reread, Declaration.renderAll_eq_flatMap, List.flatMap_map, funext moved, List.flatMap_assoc]

include writable

theorem length_renderAll_reread_le :
    (Declaration.renderAll s.reread.declarations).length ≤ (Declaration.renderAll s.declarations).length := by
  rw [renderAll_reread, Declaration.renderAll_eq_flatMap]
  exact length_flatMap_le fun x hx => (writable x hx).length_renderLines_reread_le

/-- The declarations of a section that are read again are written in the same lines exactly when the groups
of all actions among them stand in written order. -/
theorem renderAll_reread_iff :
    Declaration.renderAll s.reread.declarations = Declaration.renderAll s.declarations
      ↔ ∀ a, .action a ∈ s.declarations → ∀ rules ∈ a.rules?, rules.InOrder := by
  rw [renderAll_reread, Declaration.renderAll_eq_flatMap,
    flatMap_eq_flatMap_iff fun x hx => (writable x hx).length_renderLines_reread_le]
  constructor
  · intro same a ha
    exact (writable _ ha).renderLines_reread_iff.1 (same _ ha) a rfl
  · intro inOrder x hx
    refine (writable x hx).renderLines_reread_iff.2 fun a ha => ?_
    subst ha
    exact inOrder a hx

end Section

/-! ### Documents -/

namespace Document

variable {d : Document}

/-- The actions of a document are the actions that its sections declare. -/
theorem Writable.mem_actions_iff (h : d.Writable) {a : Action} :
    a ∈ d.actions ↔ ∃ e ∈ d.sections, .action a ∈ e.2.declarations := by
  have mem {s : Section} : a ∈ s.declarations.filterMap (·.action?) ↔ .action a ∈ s.declarations := by
    rw [List.mem_filterMap]
    constructor
    · rintro ⟨x, hx, ha⟩
      cases x <;> cases ha
      exact hx
    · exact fun ha => ⟨_, ha, rfl⟩
  rw [actions]
  cases found : d.section? .actions with
  | some s =>
    rw [mem]
    refine ⟨fun ha => ⟨_, Catalog.mem_of_get? found, ha⟩, ?_⟩
    rintro ⟨⟨kind, t⟩, he, ha⟩
    obtain ⟨rfl, -⟩ := ((h.sections _ he).2 _ ha).of_action
    have same := Catalog.get?_of_mem h.keys he
    rw [← section?, found] at same
    cases same
    exact ha
  | none =>
    refine ⟨fun ha => absurd ha List.not_mem_nil, ?_⟩
    rintro ⟨⟨kind, t⟩, he, ha⟩
    obtain ⟨rfl, -⟩ := ((h.sections _ he).2 _ ha).of_action
    have same := Catalog.get?_of_mem h.keys he
    rw [← section?, found] at same
    cases same

theorem Writable.render_inj {e : Document} (he : e.Writable) (hd : d.Writable) :
    e.render = d.render ↔ e.renderLines = d.renderLines := Lines.text_inj he.isLine hd.isLine

theorem renderLines_inj {d e : Document} (name : e.name = d.name) (classType : e.classType = d.classType) :
    e.renderLines = d.renderLines ↔ e.renderBody = d.renderBody := by
  rw [renderLines, renderLines, name, classType]
  cases d.name with
  | none => rfl
  | some v => simp

theorem renderBody_reread (d : Document) : d.reread.renderBody = d.renderProperties
    ++ d.sections.flatMap (fun e => renderSection e.2.reread) ++ d.classRules.flatMap renderBlock := by
  rw [renderBody, reread, Catalog.values, List.map_map, List.flatMap_map, List.flatMap_map]
  rfl

/-- A document that is read again is written in the same lines exactly when the groups of all actions stand
in written order. -/
theorem Writable.renderLines_reread_iff (h : d.Writable) :
    d.reread.renderLines = d.renderLines ↔ ∀ a ∈ d.actions, ∀ rules ∈ a.rules?, rules.InOrder := by
  have writable : ∀ e ∈ d.sections, ∀ x ∈ e.2.declarations, x.Writable e.2.kind := by
    intro e he
    rw [(h.sections e he).1]
    exact (h.sections e he).2
  have le : ∀ e ∈ d.sections, (renderSection e.2.reread).length ≤ (renderSection e.2).length := by
    intro e he
    simpa [renderSection] using Section.length_renderAll_reread_le (writable e he)
  have each : ∀ e ∈ d.sections, renderSection e.2.reread = renderSection e.2
      ↔ ∀ a, .action a ∈ e.2.declarations → ∀ rules ∈ a.rules?, rules.InOrder := by
    intro e he
    rw [← Section.renderAll_reread_iff (writable e he)]
    simp [renderSection, Section.reread]
  have body : d.renderBody = d.renderProperties ++ d.sections.flatMap (fun e => renderSection e.2)
      ++ d.classRules.flatMap renderBlock := by
    rw [renderBody, Catalog.values, List.flatMap_map]
  refine (renderLines_inj (d := d) (e := d.reread) rfl rfl).trans ?_
  rw [renderBody_reread, body, List.append_left_inj, List.append_right_inj, flatMap_eq_flatMap_iff le,
    forall₂_congr each]
  constructor
  · intro all a ha
    obtain ⟨e, he, ha⟩ := h.mem_actions_iff.1 ha
    exact all e he a ha
  · exact fun all e he a ha => all a (h.mem_actions_iff.2 ⟨e, he, ha⟩)

/-! ### First lines that are taken for a class header -/

/-- The number of blanks in a text. -/
def blanks (t : Text) : Nat := t.countP isBlank

/-- A line that states a prefix has two blanks. -/
theorem blanks_classPrefix {v : Text} (word : v.IsWord) : blanks ("prefix is ".toList ++ v) = 2 := by
  have none : v.countP isBlank = 0 := List.countP_eq_zero.2 fun c hc => by simp [word.2 c hc]
  rw [blanks, List.countP_append, none]
  decide

/-- The line of a class header has three blanks or more. -/
theorem three_le_blanks_title (name type : Text) : 3 ≤ blanks (name ++ " is a ".toList ++ type) := by
  have middle : (" is a ".toList).countP isBlank = 3 := by decide
  rw [blanks, List.countP_append, List.countP_append, middle]
  omega

/-- A document whose first line is taken for a class header gets a name when it is read again. -/
theorem Writable.name_read_render (h : d.Writable) (untitled : d.Untitled) :
    (read {} d.render).document.name ≠ none := by
  obtain ⟨headless, owner, v, hv, found⟩ := untitled
  have lines : d.renderLines = d.renderBody := by rw [renderLines, headless]
  have outline_eq : (forest d.render).map (Node.relocate .unplace) = Forest.outline d.renderBody := by
    rw [← lines]
    exact h.forest_render
  rw [h.outline_renderBody, renderProperties, owner, hv] at outline_eq
  obtain ⟨root, roots, hf, root_eq, -⟩ := List.map_eq_cons_iff.1 outline_eq
  rw [← root_eq, classHeader?_relocate, Option.isSome_map] at found
  obtain ⟨header, found⟩ := Option.isSome_iff_exists.1 found
  obtain ⟨-, name, -⟩ := madeOf_read hf found
  rw [name]
  exact Option.some_ne_none _

theorem Writable.render_ne_of_untitled (h : d.Writable) (untitled : d.Untitled) :
    (read {} d.render).document.render ≠ d.render := by
  obtain ⟨name, hn⟩ := Option.ne_none_iff_exists'.1 (h.name_read_render untitled)
  obtain ⟨headless, owner, v, hv, -⟩ := untitled
  generalize again : (read {} d.render).document = e at hn
  have writable : e.Writable := again ▸ writable_read d.render
  have first_eq : e.renderLines.head? = some (name ++ " is a ".toList ++ e.classType.getD "BusinessClass".toList) := by
    rw [renderLines, hn]
    rfl
  have first_eq' : d.renderLines.head? = some ("prefix is ".toList ++ v) := by
    rw [renderLines, headless]
    simp only [renderBody, renderProperties]
    rw [owner, hv]
    rfl
  rw [Ne, writable.render_inj h]
  intro same
  rw [same, first_eq'] at first_eq
  have count := congrArg blanks (Option.some.inj first_eq)
  rw [blanks_classPrefix (h.classPrefix v hv)] at count
  have := three_le_blanks_title name (e.classType.getD "BusinessClass".toList)
  omega

/-! ### Written, read and written again -/

/-- A document that is read from a source is written, read and written again in the same text exactly when
its first line is not wrongly taken for a class header and the groups in the rules of all actions stand in
written order. -/
theorem render_read_render_iff (source : Text) :
    (read {} (read {} source).document.render).document.render = (read {} source).document.render
      ↔ ¬ (read {} source).document.Untitled ∧
        ∀ a ∈ (read {} source).document.actions, ∀ rules ∈ a.rules?, rules.InOrder := by
  generalize document_eq : (read {} source).document = d
  have writable : d.Writable := document_eq ▸ writable_read source
  by_cases untitled : d.Untitled
  · exact iff_of_false (writable.render_ne_of_untitled untitled) fun h => h.1 untitled
  · obtain ⟨ρ, k, shifts, again⟩ := writable.document_read_render untitled
    have lines : (read {} d.render).document.renderLines = d.reread.renderLines := by
      rw [← renderLines_relocate Relocation.shifts_unplace, again, renderLines_relocate shifts]
    rw [(writable_read d.render).render_inj writable, lines, writable.renderLines_reread_iff]
    exact (and_iff_right untitled).symm

/-- Rules with a line behind a group and a line that is shallower than both. -/
def straySource : Text := Lines.text (
  ["A is a BusinessClass", "\tActions", "\t\tB is a Set Action", "\t\t\tAction Rules", "\t\t\t\tC Set Rules",
    "\t\t\t\t\tEntrance Rules", "\t\t\t\t\t\tx", "\t\t\t\ty", "\t\t\tz"].map String.toList)

/-- A source without class header that states the prefix `BusinessClass`. -/
def untitledSource : Text := Lines.text (
  ["Conditions", "\tA", "prefix is BusinessClass"].map String.toList)

theorem render_read_render_ne :
    (read {} (read {} straySource).document.render).document.render ≠ (read {} straySource).document.render ∧
      (read {} (read {} untitledSource).document.render).document.render
        ≠ (read {} untitledSource).document.render := by
  decide +kernel

end Document

end BusinessClass
