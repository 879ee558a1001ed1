import BusinessClass.Proofs.Document.Writable

/-!
# Written documents are read again

A document is written as its class header, its properties, its sections and its rule blocks. Each of them
is read as the same again, and the declarations of a section are read one by one.

* `Document.reread` is a document with every declaration read again from its lines.
* `Document.Untitled` says that the first line of a written document without class header is taken for
  one.
* `Document.document_read_render`: a written document is read as the document read again, numbers and
  places aside, unless it is `Untitled`.
-/

namespace BusinessClass

open Forest (outline Nested NestedTree Tidy)
open Declaration (leaf)

namespace SectionKind

theorem isContent_name (k : SectionKind) : k.name.IsContent := by
  cases k <;> decide +kernel

end SectionKind

namespace ClassBlockKind

theorem isContent_name (k : ClassBlockKind) : k.name.IsContent := by
  cases k <;> decide +kernel

end ClassBlockKind

/-- The section with its declarations read again. -/
def Section.reread (s : Section) : Section :=
  ⟨s.kind, 0, (s.declarations.flatMap (Declaration.reread s.kind)).map (Declaration.relocate (.shift 1))⟩

namespace Document

/-- The document with its declarations read again. -/
def reread (d : Document) : Document :=
  { d with
    sections := d.sections.map fun e => (e.1, e.2.reread)
    classRules := d.classRules.map fun e => (e.1, e.2.relocate .unplace) }

/-! ### The outline of a written document -/

/-- The node of a written section. -/
def sectionNode (s : Section) : Node :=
  ⟨s.kind.name, 0, 0, ⟨0, 0⟩,
    (outline (Declaration.renderAll s.declarations)).map (Node.relocate (.shift 1))⟩

/-- The node of a written rule block. -/
def blockNode (e : ClassBlockKind × RuleBlock) : Node :=
  ⟨e.1.name, 0, 0, ⟨0, 0⟩, (outline e.2.body.lines).map (Node.relocate (.shift 1))⟩

theorem flush_renderSection (s : Section) : Lines.Flush (renderSection s) :=
  Lines.flush_cons s.kind.isContent_name _

theorem flush_renderBlock (e : ClassBlockKind × RuleBlock) : Lines.Flush (renderBlock e) :=
  Lines.flush_cons e.1.isContent_name _

variable {d : Document}

theorem Writable.isContent_properties (h : d.Writable) : ∀ t ∈ d.renderProperties, t.IsContent := by
  intro t ht
  rcases List.mem_append.1 ht with ht | ht
  · obtain ⟨v, hv, rfl⟩ := Option.map_eq_some_iff.1 (Option.mem_toList.1 ht)
    exact (h.owner v hv).isContent (c := 'o') (t := "wned by ".toList) (by decide) (by decide)
      (by simp)
  · obtain ⟨v, hv, rfl⟩ := Option.map_eq_some_iff.1 (Option.mem_toList.1 ht)
    exact (h.classPrefix v hv).isContent (c := 'p') (t := "refix is ".toList) (by decide) (by decide)
      (by simp)

/-- A written document is its properties, its sections and its rule blocks. -/
theorem Writable.outline_renderBody (h : d.Writable) : outline d.renderBody
    = d.renderProperties.map leaf ++ (Catalog.values d.sections).map sectionNode
      ++ d.classRules.map blockNode := by
  have sections : outline ((Catalog.values d.sections).flatMap renderSection)
      = (Catalog.values d.sections).map sectionNode := by
    rw [Forest.outline_flatMap fun s _ => flush_renderSection s, List.map_eq_flatMap]
    exact List.flatMap_congr fun s _ => Forest.outline_cons_indent s.kind.isContent_name _
  have blocks : outline (d.classRules.flatMap renderBlock) = d.classRules.map blockNode := by
    rw [Forest.outline_flatMap fun e _ => flush_renderBlock e, List.map_eq_flatMap]
    exact List.flatMap_congr fun e _ => Forest.outline_cons_indent e.1.isContent_name _
  rw [renderBody, Forest.outline_append (Lines.flush_flatMap fun e _ => flush_renderBlock e),
    Forest.outline_append (Lines.flush_flatMap fun s _ => flush_renderSection s), sections, blocks,
    Declaration.outline_leaves h.isContent_properties]

theorem Writable.isLine_renderBody (h : d.Writable) : ∀ t ∈ d.renderBody, t.IsLine := by
  intro t ht
  rw [renderBody, List.mem_append, List.mem_append, List.mem_flatMap, List.mem_flatMap] at ht
  rcases ht with (ht | ⟨s, hs, ht⟩) | ⟨e, he, ht⟩
  · exact (h.isContent_properties t ht).isLine_zero
  · obtain ⟨e, he, rfl⟩ := List.mem_map.1 hs
    rcases List.mem_cons.1 ht with rfl | ht
    · exact e.2.kind.isContent_name.isLine_zero
    · refine Lines.isLine_indent (fun t ht => ?_) t ht
      rw [Declaration.renderAll_eq_flatMap] at ht
      obtain ⟨x, hx, ht⟩ := List.mem_flatMap.1 ht
      exact ((h.sections e he).2 x hx).isLine t ht
  · rcases List.mem_cons.1 ht with rfl | ht
    · exact e.1.isContent_name.isLine_zero
    · exact Lines.isLine_indent (h.blocks e he).1.isLine t ht

/-! ### Taking up the items of a written document -/

theorem Writable.foldl_add_properties (h : d.Writable) {e : Draft} (owner : e.document.owner = none)
    (classPrefix : e.document.classPrefix = none) :
    (d.renderProperties.map leaf).foldl (Draft.add {}) e
      = { e with document := { e.document with owner := d.owner, classPrefix := d.classPrefix } } := by
  -- Each property that is written sets its own field and no other.
  have add_owner (e : Draft) {v : Text} (word : v.IsWord) :
      e.add {} (leaf ("owned by ".toList ++ v)) = { e with document := { e.document with owner := some v } } := by
    have item : ClassItem.ofText (leaf ("owned by ".toList ++ v)).text = .owner v :=
      ClassItem.ofText_owner word
    rw [Draft.add, item]
  have add_classPrefix (e : Draft) {v : Text} (word : v.IsWord) : e.add {} (leaf ("prefix is ".toList ++ v))
      = { e with document := { e.document with classPrefix := some v } } := by
    have item : ClassItem.ofText (leaf ("prefix is ".toList ++ v)).text = .classPrefix v :=
      ClassItem.ofText_classPrefix word
    rw [Draft.add, item]
  obtain ⟨⟨name, classType, o, p, sections, classRules, closed⟩, current, notes⟩ := e
  obtain rfl : o = none := owner
  obtain rfl : p = none := classPrefix
  rw [renderProperties, List.map_append, List.foldl_append]
  cases ho : d.owner with
  | none =>
    cases hp : d.classPrefix with
    | none => rfl
    | some p => exact add_classPrefix _ (h.classPrefix p hp)
  | some v =>
    have taken := add_owner ⟨⟨name, classType, none, none, sections, classRules, closed⟩, current, notes⟩
      (h.owner v ho)
    rw [Option.map_some, Option.toList, List.map_singleton, List.foldl_cons, List.foldl_nil, taken]
    cases hp : d.classPrefix with
    | none => rfl
    | some p => exact add_classPrefix _ (h.classPrefix p hp)

/-- The lines of a section are read as its declarations read again. -/
theorem value_readAll_sectionNode {s : Section} (writable : ∀ x ∈ s.declarations, x.Writable s.kind) :
    (Declaration.readAll {} s.kind (sectionNode s).children).value = s.reread.declarations := by
  have each (x : Declaration) : Declaration.reread s.kind x
      = (outline x.renderLines).filterMap fun n => (Declaration.read {} s.kind n).value := by
    rw [Declaration.reread, Declaration.readAll, Noted.value_gather]
  rw [sectionNode, Declaration.value_readAll_relocate (Relocation.shifts_shift 1),
    Declaration.renderAll_eq_flatMap, Forest.outline_flatMap fun x hx => (writable x hx).flush,
    Declaration.readAll, Noted.value_gather, List.filterMap_flatMap, Section.reread, funext each]

/-- The problems with the lines of a written section. -/
def sectionNotes (s : Section) : List Diagnostic :=
  (Declaration.readAll {} s.kind (sectionNode s).children).notes

/-- A written section that is not there yet is added at the end. -/
theorem add_sectionNode {s : Section} (writable : ∀ x ∈ s.declarations, x.Writable s.kind) {e : Draft}
    (new : s.kind ∉ Catalog.keys e.document.sections) :
    (e.add {} (sectionNode s)).document
        = { e.document with sections := e.document.sections ++ [(s.kind, s.reread)] } ∧
      (e.add {} (sectionNode s)).notes = e.notes ++ sectionNotes s := by
  have item : ClassItem.ofText (sectionNode s).text = .opensSection s.kind := ClassItem.ofText_section s.kind
  have value := value_readAll_sectionNode writable
  rw [Draft.add, item]
  simp only [Draft.openSection, Draft.addTo, Catalog.contains_eq_false new]
  rw [Catalog.upsert_of_not_mem new]
  simp only [value, Draft.repeated, Bool.false_eq_true, if_false, List.append_nil]
  exact ⟨rfl, rfl⟩

theorem foldl_add_sections {ss : List Section} (writable : ∀ s ∈ ss, ∀ x ∈ s.declarations, x.Writable s.kind)
    {e : Draft} (nodup : (Catalog.keys e.document.sections ++ ss.map Section.kind).Nodup) :
    ((ss.map sectionNode).foldl (Draft.add {}) e).document
        = { e.document with sections := e.document.sections ++ ss.map fun s => (s.kind, s.reread) } ∧
      ((ss.map sectionNode).foldl (Draft.add {}) e).notes = e.notes ++ ss.flatMap sectionNotes := by
  induction ss generalizing e with
  | nil => simp
  | cons s ss ih =>
    have new : s.kind ∉ Catalog.keys e.document.sections := fun mem =>
      (List.nodup_append.1 nodup).2.2 s.kind mem s.kind List.mem_cons_self rfl
    obtain ⟨document, notes⟩ := add_sectionNode (writable s List.mem_cons_self) new
    have rest : (Catalog.keys (e.add {} (sectionNode s)).document.sections ++ ss.map Section.kind).Nodup := by
      rw [document, Catalog.keys, List.map_append, List.append_assoc]
      exact nodup
    obtain ⟨documents, noted⟩ := ih (fun t ht => writable t (List.mem_cons_of_mem s ht)) rest
    rw [List.map_cons, List.foldl_cons, documents, noted, document, notes, List.append_assoc, List.append_assoc]
    exact ⟨rfl, rfl⟩

/-- A written rule block that is not there yet is added at the end, and nothing is noted. -/
theorem add_blockNode {b : ClassBlockKind × RuleBlock} (block : b.2.body.IsBlock)
    (header : ∃ line span, b.2.header = ⟨b.1.name, none, none, [], line, span⟩) {e : Draft}
    (new : b.1 ∉ Catalog.keys e.document.classRules) :
    (e.add {} (blockNode b)).document
        = { e.document with classRules := e.document.classRules ++ [(b.1, b.2.relocate .unplace)] } ∧
      (e.add {} (blockNode b)).notes = e.notes := by
  have item : ClassItem.ofText (blockNode b).text = .opensBlock b.1 := ClassItem.ofText_block b.1
  have body : (blockNode b).bodyText = b.2.body :=
    (Forest.text_outline_shift b.2.body.lines 1).trans block.stack_lines
  obtain ⟨line, span, header⟩ := header
  rw [Draft.add, item]
  simp only [Draft.openBlock, Catalog.contains_eq_false new]
  rw [Catalog.upsert_of_not_mem new, RuleBlock.relocate, Header.relocate, header]
  simp only [body, Draft.repeated, Bool.false_eq_true, if_false, List.append_nil, and_true]
  rfl

theorem foldl_add_blocks {bs : List (ClassBlockKind × RuleBlock)}
    (blocks : ∀ b ∈ bs, b.2.body.IsBlock ∧
      ∃ line span, b.2.header = ⟨b.1.name, none, none, [], line, span⟩)
    {e : Draft} (nodup : (Catalog.keys e.document.classRules ++ Catalog.keys bs).Nodup) :
    ((bs.map blockNode).foldl (Draft.add {}) e).document
        = { e.document with
            classRules := e.document.classRules ++ bs.map fun b => (b.1, b.2.relocate .unplace) } ∧
      ((bs.map blockNode).foldl (Draft.add {}) e).notes = e.notes := by
  induction bs generalizing e with
  | nil => simp
  | cons b bs ih =>
    have new : b.1 ∉ Catalog.keys e.document.classRules := fun mem =>
      (List.nodup_append.1 nodup).2.2 b.1 mem b.1 List.mem_cons_self rfl
    obtain ⟨block, header⟩ := blocks b List.mem_cons_self
    obtain ⟨document, notes⟩ := add_blockNode block header new
    have rest : (Catalog.keys (e.add {} (blockNode b)).document.classRules ++ Catalog.keys bs).Nodup := by
      rw [document, Catalog.keys, List.map_append, List.append_assoc]
      exact nodup
    obtain ⟨documents, noted⟩ := ih (fun c hc => blocks c (List.mem_cons_of_mem b hc)) rest
    rw [List.map_cons, List.foldl_cons, documents, noted, document, notes, List.append_assoc]
    exact ⟨rfl, rfl⟩

/-- The sections and rule blocks of a written document. -/
def partNodes (d : Document) : List Node := (Catalog.values d.sections).map sectionNode ++ d.classRules.map blockNode

theorem Writable.kind_values (h : d.Writable) :
    (Catalog.values d.sections).map Section.kind = Catalog.keys d.sections := by
  rw [Catalog.values, Catalog.keys, List.map_map]
  exact List.map_congr_left fun e he => (h.sections e he).1

theorem Writable.values (h : d.Writable) :
    ∀ s ∈ Catalog.values d.sections, ∀ x ∈ s.declarations, x.Writable s.kind := by
  intro s hs
  obtain ⟨e, he, rfl⟩ := List.mem_map.1 hs
  rw [(h.sections e he).1]
  exact (h.sections e he).2

/-- The sections and rule blocks of a written document are taken up as those of the document read again. -/
theorem Writable.foldl_add_parts (h : d.Writable) {e : Draft} (noSections : e.document.sections = [])
    (noBlocks : e.document.classRules = []) :
    (d.partNodes.foldl (Draft.add {}) e).document
        = { e.document with sections := d.reread.sections, classRules := d.reread.classRules } ∧
      (d.partNodes.foldl (Draft.add {}) e).notes
        = e.notes ++ (Catalog.values d.sections).flatMap sectionNotes := by
  obtain ⟨sections, sectionNotes_eq⟩ := foldl_add_sections h.values (e := e) (by
    rw [h.kind_values, noSections]
    exact h.keys)
  obtain ⟨blocks, blockNotes_eq⟩ := foldl_add_blocks h.blocks
    (e := ((Catalog.values d.sections).map sectionNode).foldl (Draft.add {}) e) (by
      rw [sections, noBlocks]
      exact h.blockKeys)
  have entries : (Catalog.values d.sections).map (fun s => (s.kind, s.reread))
      = d.sections.map fun e => (e.1, e.2.reread) := by
    rw [Catalog.values, List.map_map]
    exact List.map_congr_left fun e he => Prod.ext (h.sections e he).1 rfl
  rw [partNodes, List.foldl_append, blocks, blockNotes_eq, sections, sectionNotes_eq, entries, noSections, noBlocks,
    reread]
  exact ⟨rfl, rfl⟩

/-- The items of a written document are taken up as the document read again. -/
theorem Writable.ofItems_renderBody (h : d.Writable) (name classType : Option Text) (notes : List Diagnostic) :
    (Draft.ofItems {} { name := name, classType := classType } notes (outline d.renderBody)).document
        = { d.reread with name := name, classType := classType, closedFromEmpty := false } ∧
      (Draft.ofItems {} { name := name, classType := classType } notes (outline d.renderBody)).notes
        = notes ++ (Catalog.values d.sections).flatMap sectionNotes := by
  have properties := h.foldl_add_properties
    (e := ⟨{ name := name, classType := classType }, none, notes⟩) rfl rfl
  rw [Draft.ofItems, h.outline_renderBody, List.append_assoc, List.foldl_append, properties]
  exact h.foldl_add_parts rfl rfl

/-- The items of a written document with something in it are taken up as the document read again. -/
theorem Writable.document_ofItems_renderBody (h : d.Writable) (open_ : d.closedFromEmpty = false)
    (notes : List Diagnostic) :
    (Draft.ofItems {} { name := d.name, classType := d.classType } notes (outline d.renderBody)).document
      = d.reread := by
  rw [(h.ofItems_renderBody d.name d.classType notes).1, reread, open_]

/-! ### Reading a written document -/

/-- The first line of the written document is no class header but taken for one. -/
def Untitled (d : Document) : Prop :=
  d.name = none ∧ d.owner = none ∧
    ∃ v ∈ d.classPrefix, (classHeader? {} (leaf ("prefix is ".toList ++ v))).isSome = true

/-- The line of the class header. -/
theorem titleLine_eq (name type : Text) :
    name ++ " is a ".toList ++ type = (titleHeader name (some type)).render := by
  rw [titleHeader, Header.render]
  simp only [List.cons_append, List.nil_append, Article.text]
  rw [Text.unwords_cons]
  simp

theorem Writable.renderLines_titled (h : d.Writable) {name : Text} (titled : d.name = some name) :
    d.renderLines = (titleHeader name d.classType).render :: Lines.indent d.renderBody := by
  obtain ⟨ls, typed, isClass⟩ := h.title name titled
  cases hc : d.classType with
  | none => rw [hc] at isClass; cases isClass
  | some type =>
    rw [renderLines, titled, ← titleLine_eq, hc]
    rfl

/-- The first line of a written document with a class header is this header. -/
theorem Writable.classRoot?_titled (h : d.Writable) {name : Text} (titled : d.name = some name) :
    classRoot? {} (outline d.renderLines)
      = some (titleHeader name d.classType, (outline d.renderBody).map (Node.relocate (.shift 1))) := by
  obtain ⟨ls, typed, isClass⟩ := h.title name titled
  have phrases : ({} : Options).phrases = [] := rfl
  have recognized : ∀ children, classHeader? {} ⟨(titleHeader name d.classType).render, 0, 0, ⟨0, 0⟩, children⟩
      = some (titleHeader name d.classType) := by
    intro children
    rw [classHeader?, phrases, typed.recognize_render]
    exact if_pos isClass
  rw [h.renderLines_titled titled, Forest.outline_cons_indent typed.isContent_render, classRoot?, recognized,
    Option.map_some, List.append_nil]

/-- A written document with a class header is read as the document read again, one level in. -/
theorem Writable.document_classify_titled (h : d.Writable) {name : Text} (titled : d.name = some name) :
    (classify {} [] (outline d.renderLines)).document = d.reread.relocate (.shift 1) := by
  have open_ : d.closedFromEmpty = false := by
    by_contra closed
    rw [h.closed (by simpa using closed)] at titled
    cases titled
  have items := Draft.document_ofItems_relocate (Relocation.shifts_shift 1) {}
    { name := d.name, classType := d.classType } [] [] (outline d.renderBody)
  rw [h.document_ofItems_renderBody open_] at items
  rw [classify, h.classRoot?_titled titled, ← items, titled]
  rfl

/-! ### Lines that are no class header -/

theorem classHeader?_eq_none {n : Node} {e : HeaderError}
    (h : Header.recognize [] n.text n.line n.span = .error e) : classHeader? {} n = none := by
  have phrases : ({} : Options).phrases = [] := rfl
  rw [classHeader?, phrases, h]

theorem recognize_section (kind : SectionKind) :
    Header.recognize [] kind.name 0 ⟨0, 0⟩ = .error .continuation := by
  cases kind <;> decide +kernel

theorem recognize_block (kind : ClassBlockKind) :
    Header.recognize [] kind.name 0 ⟨0, 0⟩ = .error .continuation := by
  cases kind <;> decide +kernel

/-- A line that states an owner is no typed header. -/
theorem recognize_owner (v : Text) :
    Header.recognize [] ("owned by ".toList ++ v) 0 ⟨0, 0⟩ = .error .continuation := by
  have alone : Lexeme.ReadIn [⟨[], .word "owned".toList⟩, ⟨[' '], .word "by".toList⟩] ([] ++ []) :=
    ⟨by simp, ⟨'o', "wned".toList, rfl, by decide, by decide +kernel⟩,
      by simp; decide, ⟨'b', "y".toList, rfl, by decide, by decide +kernel⟩, trivial⟩
  have breaks : Text.Breaks (' ' :: v) := by
    simp only [Text.Breaks, List.head?_cons, Option.mem_some_iff, forall_eq']
    decide
  have lexemes := Lexeme.ofText_source_append (alone.cut breaks (by simp))
  have text : Lexeme.source [⟨[], .word "owned".toList⟩, ⟨[' '], .word "by".toList⟩] ++ ([] ++ ' ' :: v)
      = "owned by ".toList ++ v := rfl
  rw [text] at lexemes
  rw [Header.recognize, lexemes]
  exact if_neg (by decide)

/-- Without a class header, the first line of a written document is not taken for one. -/
theorem Writable.classRoot?_renderBody (h : d.Writable) (headless : d.name = none)
    (titled : ¬ d.Untitled) : classRoot? {} (outline d.renderBody) = none := by
  have sections (s : Section) : classHeader? {} (sectionNode s) = none :=
    classHeader?_eq_none (recognize_section s.kind)
  have blocks (e : ClassBlockKind × RuleBlock) : classHeader? {} (blockNode e) = none :=
    classHeader?_eq_none (recognize_block e.1)
  have first {n : Node} {ns : List Node} (h : classHeader? {} n = none) :
      classRoot? {} (n :: ns) = none := by
    rw [classRoot?, h]
    rfl
  rw [h.outline_renderBody, renderProperties]
  cases ho : d.owner with
  | some v => exact first (classHeader?_eq_none (recognize_owner v))
  | none =>
    cases hp : d.classPrefix with
    | some v =>
      refine first ?_
      by_contra found
      exact titled ⟨headless, ho, v, hp, Option.isSome_iff_ne_none.2 found⟩
    | none =>
      cases Catalog.values d.sections with
      | cons s ss => exact first (sections s)
      | nil =>
        cases d.classRules with
        | cons e es => exact first (blocks e)
        | nil => rfl

/-- A first line that is taken for a class header leaves the sections and rule blocks behind it. -/
theorem Writable.classRoot?_untitled (h : d.Writable) (untitled : d.Untitled) :
    ∃ header, classRoot? {} (outline d.renderBody) = some (header, d.partNodes) := by
  obtain ⟨-, owner, v, hv, found⟩ := untitled
  obtain ⟨header, found⟩ := Option.isSome_iff_exists.1 found
  refine ⟨header, ?_⟩
  rw [h.outline_renderBody, renderProperties, owner, Option.mem_def.1 hv, List.append_assoc]
  show (classHeader? {} (leaf ("prefix is ".toList ++ v))).map _ = _
  rw [found]
  rfl

/-- A written document without class header is read as the document read again, unless its first line is
taken for a class header. -/
theorem Writable.document_classify_headless (h : d.Writable) (headless : d.name = none)
    (titled : ¬ d.Untitled) : (classify {} [] (outline d.renderLines)).document = d.reread := by
  by_cases nothing : d.sections = [] ∧ d.classRules = []
  · rw [h.headless headless nothing.1 nothing.2]
    rfl
  · have open_ : d.closedFromEmpty = false := by
      by_contra closed
      rw [h.closed (by simpa using closed)] at nothing
      exact nothing ⟨rfl, rfl⟩
    have lines : d.renderLines = d.renderBody := by rw [renderLines, headless]
    have items := h.document_ofItems_renderBody open_ []
    rw [headless, h.untitled headless] at items
    rw [lines, classify, h.classRoot?_renderBody headless titled]
    generalize Draft.ofItems {} {} [] (outline d.renderBody) = e at items
    have something : ¬ (d.reread.sections.isEmpty && d.reread.classRules.isEmpty) = true := by
      simpa [reread] using nothing
    rw [Draft.closeHeadless, items, if_neg something]

/-! ### Reading a written document -/

theorem Writable.isLine (h : d.Writable) : ∀ t ∈ d.renderLines, t.IsLine := by
  cases hn : d.name with
  | none =>
    rw [renderLines, hn]
    exact h.isLine_renderBody
  | some name =>
    obtain ⟨ls, typed, -⟩ := h.title name hn
    rw [h.renderLines_titled hn]
    intro t ht
    rcases List.mem_cons.1 ht with rfl | ht
    · exact typed.isContent_render.isLine_zero
    · exact Lines.isLine_indent h.isLine_renderBody t ht

theorem head?_text {t : Text} (ne : t ≠ []) (ls : List Text) : (Lines.text (t :: ls)).head? = t.head? := by
  obtain ⟨c, t, rfl⟩ := List.exists_cons_of_ne_nil ne
  rfl

/-- No written document starts with a byte order mark. -/
theorem Writable.head_ne_byteOrderMark (h : d.Writable) :
    ∀ c ∈ d.render.head?, c ≠ Source.byteOrderMark := by
  have sections (k : SectionKind) : ∀ c ∈ k.name.head?, c ≠ Source.byteOrderMark := by
    cases k <;> (rintro c ⟨⟩; decide)
  have blocks (k : ClassBlockKind) : ∀ c ∈ k.name.head?, c ≠ Source.byteOrderMark := by
    cases k <;> (rintro c ⟨⟩; decide)
  rw [render]
  -- The first character is that of whatever comes first: the title, a property, a section or a rule block.
  cases hn : d.name with
  | some name =>
    obtain ⟨ls, typed, -⟩ := h.title name hn
    obtain ⟨c, w, hw, start⟩ := typed.name.readIn.2.1.isNameStart
    have other : c ≠ Source.byteOrderMark := by
      rintro rfl
      exact absurd start (by decide +kernel)
    rw [renderLines, hn]
    rw [titleHeader] at hw
    simp only at hw
    rw [hw]
    simpa [Lines.text] using other
  | none =>
    rw [renderLines, hn]
    simp only [renderBody, renderProperties]
    cases d.owner with
    | some v => exact fun c hc => Option.some.inj hc ▸ (by decide : 'o' ≠ Source.byteOrderMark)
    | none =>
      cases d.classPrefix with
      | some v => exact fun c hc => Option.some.inj hc ▸ (by decide : 'p' ≠ Source.byteOrderMark)
      | none =>
        cases Catalog.values d.sections with
        | cons s ss =>
          have := head?_text s.kind.isContent_name.ne_nil
            (Lines.indent (Declaration.renderAll s.declarations) ++ ss.flatMap renderSection
              ++ d.classRules.flatMap renderBlock)
          simp only [Option.map_none, Option.toList, List.nil_append, List.flatMap_cons, renderSection,
            List.cons_append]
          rw [this]
          exact sections s.kind
        | nil =>
          cases d.classRules with
          | cons e es =>
            have := head?_text e.1.isContent_name.ne_nil
              (Lines.indent e.2.body.lines ++ es.flatMap renderBlock)
            simp only [Option.map_none, Option.toList, List.nil_append, List.flatMap_cons, List.flatMap_nil,
              renderBlock, List.cons_append]
            rw [this]
            exact blocks e.1
          | nil => simp [Lines.text]

/-- The forest of the text of a document is the outline of its lines. -/
theorem Writable.forest_render (h : d.Writable) :
    (forest d.render).map (Node.relocate .unplace) = outline d.renderLines :=
  Source.ofLines_layout h.isLine h.head_ne_byteOrderMark

/-- A document is read from its text as from the outline of its lines, numbers and places aside. -/
theorem Writable.relocate_document_read (h : d.Writable) : (read {} d.render).document.relocate .unplace
    = (classify {} [] (outline d.renderLines)).document := by
  have moved := document_classify_relocate Relocation.shifts_unplace {} (indentationNotes {} d.render) []
    (forest d.render)
  rw [h.forest_render] at moved
  exact moved.symm

/-- A written document is read as the document read again, numbers and places aside. -/
theorem Writable.document_read_render (h : d.Writable) (titled : ¬ d.Untitled) :
    ∃ ρ k, ρ.Shifts k ∧ (read {} d.render).document.relocate .unplace = d.reread.relocate ρ := by
  have again : (read {} d.render).document.relocate .unplace
      = ((read {} d.render).document.relocate .unplace).relocate .unplace := by
    rw [relocate_relocate]
    rfl
  rw [again, h.relocate_document_read]
  cases hn : d.name with
  | some name =>
    refine ⟨(Relocation.shift 1).andThen .unplace, 1, fun _ => rfl, ?_⟩
    rw [h.document_classify_titled hn, relocate_relocate]
  | none => exact ⟨.unplace, 0, Relocation.shifts_unplace, by rw [h.document_classify_headless hn titled]⟩

end Document

end BusinessClass
