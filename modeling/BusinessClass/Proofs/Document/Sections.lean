import BusinessClass.Document.Reading
import BusinessClass.Document.Render
import BusinessClass.Proofs.Document.Catalog
import BusinessClass.Proofs.Text.Block

/-!
# The sections of a document

The items of a class are taken up one by one, and the section that is open moves along. What comes out
depends on the order of the headers alone: an item belongs to the section named by the nearest section
header at or before it, unless a rule block is opened in between.

* `belonging` looks for that header; `sectionOf` and `blockOf` gather what belongs together, and `notesOf`
  the problems.
* `Draft.Sorts` says that a draft holds what some items add up to; `Draft.Sorts.add` is one step and
  `Draft.sorts_ofItems` the whole run.
* `Document.frame_ofItems`: apart from sections and rule blocks, a document holds what properties say.
* `sections_classify` describes the sections and rule blocks of every outline.
-/

namespace BusinessClass

namespace Text

theorem stack_eq_nil_iff {ts : List Text} (ne : ∀ t ∈ ts, t ≠ []) : stack ts = [] ↔ ts = [] := by
  constructor
  · intro h
    cases ts with
    | nil => rfl
    | cons t rest =>
      have first := ne t List.mem_cons_self
      cases rest with
      | nil => exact absurd (stack_singleton t ▸ h) first
      | cons u rest =>
        rw [stack_cons_cons] at h
        exact absurd (List.append_eq_nil_iff.1 h).1 first
  · rintro rfl
    rfl

/-- One more block goes below the blocks that are merged already. -/
theorem merge_concat (blocks : List Text) (b : Text) :
    merge [merge blocks, b] = merge (blocks ++ [b]) := by
  rw [merge, merge, merge, List.filter_append]
  generalize kept_eq : (blocks.filter fun b => !b.isEmpty) = kept
  have filled : ∀ t ∈ kept, t ≠ [] := by
    intro t ht
    rw [← kept_eq] at ht
    simpa using (List.mem_filter.1 ht).2
  by_cases none : kept = []
  · subst none
    simp
  · have ne := mt (stack_eq_nil_iff filled).1 none
    by_cases empty : b = []
    · simp [empty, ne]
    · have := stack_append none (List.cons_ne_nil b [])
      rw [stack_singleton] at this
      simp [empty, ne, this]

end Text

namespace Document

/-! ### What an item is -/

/-- Whether the item states an owner or a prefix. -/
def isProperty (n : Node) : Bool :=
  match ClassItem.ofText n.text with
  | .owner _ | .classPrefix _ => true
  | _ => false

/-- The section that the item opens. -/
def openedSection? (n : Node) : Option SectionKind :=
  match ClassItem.ofText n.text with
  | .opensSection kind => some kind
  | _ => none

/-- The rule block that the item opens. -/
def openedBlock? (n : Node) : Option ClassBlockKind :=
  match ClassItem.ofText n.text with
  | .opensBlock kind => some kind
  | _ => none

/-- Whether the item opens a section or a rule block. -/
def isHeader (n : Node) : Bool := (openedSection? n).isSome || (openedBlock? n).isSome

/-- The lines that the item has to declare something: a section header what stands under it, any other
item itself. -/
def offered (n : Node) : List Node := if (openedSection? n).isSome then n.children else [n]

/-- The items of a class: what stands under the class header and the other roots, or all roots if there is
no class header; properties left out. -/
def classItems (o : Options) (f : List Node) : List Node :=
  (match classRoot? o f with
    | some (_, items) => items
    | none => f).filter fun n => !isProperty n

/-! ### What belongs together -/

/-- The section that the last of some items belongs to: that of the nearest section header at or before it
with no header of a rule block in between. -/
def belonging (upTo : List Node) : Option SectionKind :=
  (upTo.reverse.find? isHeader).bind openedSection?

/-- Each item with the items in front of it. -/
def withBefore (items : List Node) : List (List Node × Node) :=
  items.mapIdx fun i n => (items.take i, n)

/-- The sections that have a header, in order of their first one. -/
def sectionKinds (items : List Node) : List SectionKind := (items.filterMap openedSection?).eraseDups

/-- The rule blocks that have a header, in order of their first one. -/
def blockKinds (items : List Node) : List ClassBlockKind := (items.filterMap openedBlock?).eraseDups

/-- The declarations of a section: in the order of the items, those that the items which belong to it offer. -/
def declarationsOf (o : Options) (kind : SectionKind) (items : List Node) : List Declaration :=
  (withBefore items).flatMap fun e =>
    if belonging (e.1 ++ [e.2]) = some kind then (Declaration.readAll o kind (offered e.2)).value else []

/-- A section that some items add up to. -/
def sectionOf (o : Options) (items : List Node) (kind : SectionKind) : Section where
  kind := kind
  line := (items.find? (openedSection? · == some kind)).elim 0 Node.line
  declarations := declarationsOf o kind items

/-- A rule block that some items add up to: header and place of the first, the lines of all of them. -/
def blockOf (items : List Node) (kind : ClassBlockKind) : RuleBlock :=
  let first := items.find? (openedBlock? · == some kind)
  ⟨⟨kind.name, none, none, [], first.elim 0 Node.line, first.elim ⟨0, 0⟩ Node.span⟩,
    Text.merge ((items.filter (openedBlock? · == some kind)).map Node.bodyText)⟩

/-- The problems with an item that has the given items in front of it. -/
def itemNotes (o : Options) (before : List Node) (n : Node) : List Diagnostic :=
  match ClassItem.ofText n.text with
  | .owner _ | .classPrefix _ => []
  | .opensSection kind =>
    Draft.repeated n (decide (kind ∈ before.filterMap openedSection?)) kind.name
      ++ (Declaration.readAll o kind n.children).notes
  | .opensBlock kind => Draft.repeated n (decide (kind ∈ before.filterMap openedBlock?)) kind.name
  | .content =>
    match belonging before with
    | some kind => (Declaration.readAll o kind [n]).notes
    | none => [n.note (.unknownSectionContent n.text)]

/-- The problems with some items in order. -/
def notesOf (o : Options) (items : List Node) : List Diagnostic :=
  (withBefore items).flatMap fun e => itemNotes o e.1 e.2

/-! ### One more item -/

variable {o : Options} {items : List Node} {n : Node}

/-- Properties open nothing. -/
theorem opens_none_of_property (property : isProperty n = true) : openedSection? n = none ∧ openedBlock? n = none := by
  rw [isProperty] at property
  rw [openedSection?, openedBlock?]
  cases item : ClassItem.ofText n.text with
  | owner v => exact ⟨rfl, rfl⟩
  | classPrefix v => exact ⟨rfl, rfl⟩
  | _ => simp [item] at property

theorem withBefore_concat (items : List Node) (n : Node) :
    withBefore (items ++ [n]) = withBefore items ++ [(items, n)] := by
  have front : items.mapIdx (fun i m => ((items ++ [n]).take i, m)) = withBefore items := by
    refine List.mapIdx_eq_mapIdx_iff.2 fun i hi => ?_
    rw [List.take_append_of_le_length (Nat.le_of_lt hi)]
  rw [withBefore, List.mapIdx_append, front]
  simp

theorem map_snd_withBefore (items : List Node) : (withBefore items).map Prod.snd = items := by
  induction items using List.reverseRecOn with
  | nil => rfl
  | append_singleton items m ih => rw [withBefore_concat, List.map_append, ih, List.map_singleton]

theorem belonging_concat (items : List Node) (n : Node) :
    belonging (items ++ [n]) = if isHeader n then openedSection? n else belonging items := by
  rw [belonging, List.reverse_append, List.reverse_singleton, List.singleton_append, List.find?_cons]
  cases isHeader n <;> rfl

theorem declarationsOf_concat (kind : SectionKind) : declarationsOf o kind (items ++ [n])
    = declarationsOf o kind items ++ if belonging (items ++ [n]) = some kind then
        (Declaration.readAll o kind (offered n)).value else [] := by
  rw [declarationsOf, withBefore_concat, List.flatMap_append, List.flatMap_singleton, declarationsOf]

theorem notesOf_concat : notesOf o (items ++ [n]) = notesOf o items ++ itemNotes o items n := by
  rw [notesOf, withBefore_concat, List.flatMap_append, List.flatMap_singleton, notesOf]

theorem isPrefix_of_mem_withBefore {e : List Node × Node} (h : e ∈ withBefore items) :
    (e.1 ++ [e.2]).IsPrefix items := by
  obtain ⟨i, hi, rfl⟩ := List.mem_mapIdx.1 h
  rw [List.take_append_getElem hi]
  exact List.take_prefix _ _

/-- An item belongs to a section that was opened before. -/
theorem mem_of_belonging {upTo : List Node} {kind : SectionKind} (h : belonging upTo = some kind) :
    kind ∈ upTo.filterMap openedSection? := by
  obtain ⟨n, found, opened⟩ := Option.bind_eq_some_iff.1 h
  exact List.mem_filterMap.2 ⟨n, List.mem_reverse.1 (List.mem_of_find?_eq_some found), opened⟩

theorem declarationsOf_eq_nil {kind : SectionKind} (h : kind ∉ items.filterMap openedSection?) :
    declarationsOf o kind items = [] := by
  refine List.flatMap_eq_nil_iff.2 fun e he => if_neg fun belongs => h ?_
  exact ((isPrefix_of_mem_withBefore he).filterMap _).subset (mem_of_belonging belongs)

theorem find?_concat_of_ne {κ : Type} [DecidableEq κ] {f : Node → Option κ} {k : κ} (other : f n ≠ some k) :
    (items ++ [n]).find? (f · == some k) = items.find? (f · == some k) := by
  have none : [n].find? (f · == some k) = none := by simpa using other
  rw [List.find?_append, none, Option.or_none]

theorem find?_concat_of_not_mem {κ : Type} [DecidableEq κ] {f : Node → Option κ} {k : κ}
    (absent : k ∉ items.filterMap f) (new : f n = some k) :
    (items ++ [n]).find? (f · == some k) = some n := by
  have none : items.find? (f · == some k) = none := by
    refine List.find?_eq_none.2 fun m hm same => absent ?_
    exact List.mem_filterMap.2 ⟨m, hm, by simpa using same⟩
  rw [List.find?_append, none]
  simp [new]

theorem find?_concat_of_mem {κ : Type} [DecidableEq κ] {f : Node → Option κ} {k : κ}
    (known : k ∈ items.filterMap f) :
    (items ++ [n]).find? (f · == some k) = items.find? (f · == some k) := by
  obtain ⟨m, hm, same⟩ := List.mem_filterMap.1 known
  have found : (items.find? (f · == some k)).isSome = true :=
    List.find?_isSome.2 ⟨m, hm, by simp [same]⟩
  rw [List.find?_append, Option.or_of_isSome found]

/-- An item changes no section that it does not belong to. -/
theorem sectionOf_concat_of_ne {kind : SectionKind} (other : belonging (items ++ [n]) ≠ some kind) :
    sectionOf o (items ++ [n]) kind = sectionOf o items kind := by
  have opens : openedSection? n ≠ some kind := by
    intro opens
    rw [belonging_concat, isHeader, opens] at other
    exact other rfl
  rw [sectionOf, sectionOf, find?_concat_of_ne opens, declarationsOf_concat, if_neg other, List.append_nil]

/-- The item opens the section that it belongs to, or the section was opened before. -/
theorem opened_or_mem {kind : SectionKind} (belongs : belonging (items ++ [n]) = some kind) :
    openedSection? n = some kind ∨ openedSection? n = none ∧ kind ∈ items.filterMap openedSection? := by
  rw [belonging_concat] at belongs
  split at belongs
  · exact Or.inl belongs
  · rename_i header
    have none : openedSection? n = none := by
      simpa using (Bool.or_eq_false_iff.1 (Bool.eq_false_iff.2 header)).1
    exact Or.inr ⟨none, mem_of_belonging belongs⟩

/-- An item adds what it offers to the section that it belongs to. -/
theorem sections_addTo {d : Draft} {kind : SectionKind}
    (sections : d.document.sections = (sectionKinds items).map fun kind => (kind, sectionOf o items kind))
    (belongs : belonging (items ++ [n]) = some kind) {ds : Noted (List Declaration)}
    (value : ds.value = (Declaration.readAll o kind (offered n)).value) :
    (d.addTo kind n.line ds).document.sections
      = (sectionKinds (items ++ [n])).map fun kind => (kind, sectionOf o (items ++ [n]) kind) := by
  have kinds : sectionKinds (items ++ [n]) = (items.filterMap openedSection? ++ [kind]).eraseDups := by
    rw [sectionKinds, List.filterMap_append]
    rcases opened_or_mem belongs with opened | ⟨none, known⟩
    · rw [List.filterMap_cons_some opened, List.filterMap_nil]
    · rw [List.filterMap_cons_none none, List.filterMap_nil, List.append_nil, Catalog.eraseDups_concat,
        if_pos known]
  have declarations : declarationsOf o kind (items ++ [n]) = declarationsOf o kind items ++ ds.value := by
    rw [declarationsOf_concat, if_pos belongs, value]
  rw [kinds, Draft.addTo, sections, sectionKinds]
  refine Catalog.upsert_map_eraseDups kind _ _ (fun k other => ?_) ?_
  · exact sectionOf_concat_of_ne fun same => other (Option.some.inj (same.symm.trans belongs))
  · rw [sectionOf, declarations]
    by_cases known : kind ∈ items.filterMap openedSection?
    · rw [find?_concat_of_mem known, if_pos known]
      rfl
    · have opened := (opened_or_mem belongs).resolve_right fun h => known h.2
      rw [find?_concat_of_not_mem known opened, declarationsOf_eq_nil known, if_neg known]
      rfl

/-- An item that belongs to no section changes none. -/
theorem sections_of_belonging_none (none : belonging (items ++ [n]) = none) :
    (sectionKinds (items ++ [n])).map (fun kind => (kind, sectionOf o (items ++ [n]) kind))
      = (sectionKinds items).map fun kind => (kind, sectionOf o items kind) := by
  have opens : openedSection? n = Option.none := by
    cases opened : openedSection? n with
    | none => rfl
    | some kind =>
      rw [belonging_concat, isHeader, opened] at none
      cases none
  have kinds : sectionKinds (items ++ [n]) = sectionKinds items := by
    rw [sectionKinds, List.filterMap_append, List.filterMap_cons_none opens, List.filterMap_nil,
      List.append_nil, sectionKinds]
  rw [kinds]
  refine List.map_congr_left fun kind _ => ?_
  rw [sectionOf_concat_of_ne (by simp [none])]

/-- An item that opens a rule block adds its lines to it. -/
theorem classRules_openBlock {d : Draft} {kind : ClassBlockKind}
    (classRules : d.document.classRules = (blockKinds items).map fun kind => (kind, blockOf items kind))
    (opens : openedBlock? n = some kind) :
    (d.openBlock kind n).document.classRules
      = (blockKinds (items ++ [n])).map fun kind => (kind, blockOf (items ++ [n]) kind) := by
  have kinds : blockKinds (items ++ [n]) = (items.filterMap openedBlock? ++ [kind]).eraseDups := by
    rw [blockKinds, List.filterMap_append, List.filterMap_cons_some opens, List.filterMap_nil]
  rw [kinds, Draft.openBlock, classRules, blockKinds]
  refine Catalog.upsert_map_eraseDups kind _ _ (fun k other => ?_) ?_
  · have opens_other : openedBlock? n ≠ some k := fun same => other (Option.some.inj (same.symm.trans opens))
    have lines : [n].filter (openedBlock? · == some k) = [] := by simpa using opens_other
    rw [blockOf, blockOf, find?_concat_of_ne opens_other, List.filter_append, lines, List.append_nil]
  · have lines : [n].filter (openedBlock? · == some kind) = [n] := by simp [opens]
    by_cases known : kind ∈ items.filterMap openedBlock?
    · rw [blockOf, find?_concat_of_mem known, List.filter_append, lines, List.map_append, List.map_singleton,
        ← Text.merge_concat, if_pos known]
      rfl
    · have none : items.filter (openedBlock? · == some kind) = [] := by
        refine List.filter_eq_nil_iff.2 fun m hm same => known ?_
        exact List.mem_filterMap.2 ⟨m, hm, by simpa using same⟩
      rw [blockOf, find?_concat_of_not_mem known opens, List.filter_append, none, lines, if_neg known]
      have single : Text.merge [n.bodyText] = n.bodyText := by
        by_cases empty : n.bodyText = [] <;> simp [Text.merge, empty]
      exact congrArg (RuleBlock.mk _) single

theorem classRules_of_not_opens (opens : openedBlock? n = none) :
    (blockKinds (items ++ [n])).map (fun kind => (kind, blockOf (items ++ [n]) kind))
      = (blockKinds items).map fun kind => (kind, blockOf items kind) := by
  have kinds : blockKinds (items ++ [n]) = blockKinds items := by
    rw [blockKinds, List.filterMap_append, List.filterMap_cons_none opens, List.filterMap_nil,
      List.append_nil, blockKinds]
  rw [kinds]
  refine List.map_congr_left fun kind _ => ?_
  have lines : [n].filter (openedBlock? · == some kind) = [] := by simp [opens]
  have first : (items ++ [n]).find? (openedBlock? · == some kind) = items.find? (openedBlock? · == some kind) :=
    find?_concat_of_ne (by simp [opens])
  rw [blockOf, blockOf, first, List.filter_append, lines, List.append_nil]

/-- A draft holds what some items add up to; `notes` are the problems found before. -/
structure Draft.Sorts (o : Options) (notes : List Diagnostic) (items : List Node) (d : Draft) : Prop where
  sections : d.document.sections = (sectionKinds items).map fun kind => (kind, sectionOf o items kind)
  classRules : d.document.classRules = (blockKinds items).map fun kind => (kind, blockOf items kind)
  current : d.current = belonging items
  notes : d.notes = notes ++ notesOf o items

/-- The sections of the draft are those that were opened. -/
theorem Draft.Sorts.keys_sections {notes : List Diagnostic} {d : Draft} (h : d.Sorts o notes items) :
    Catalog.keys d.document.sections = sectionKinds items := by
  rw [h.sections, Catalog.keys_map_self]

/-- The rule blocks of the draft are those that were opened. -/
theorem Draft.Sorts.keys_classRules {notes : List Diagnostic} {d : Draft} (h : d.Sorts o notes items) :
    Catalog.keys d.document.classRules = blockKinds items := by
  rw [h.classRules, Catalog.keys_map_self]

theorem Draft.sorts_nil (start : Document) (sections : start.sections = []) (classRules : start.classRules = [])
    (notes : List Diagnostic) : Draft.Sorts o notes [] ⟨start, none, notes⟩ where
  sections := sections
  classRules := classRules
  current := rfl
  notes := (List.append_nil notes).symm

variable {notes : List Diagnostic} {d : Draft}

/-- Taking up the header of a section. -/
theorem Draft.Sorts.add_section (h : d.Sorts o notes items) {kind : SectionKind}
    (item : ClassItem.ofText n.text = .opensSection kind) : (d.add o n).Sorts o notes (items ++ [n]) := by
  have opens : openedSection? n = some kind := by rw [openedSection?, item]
  have opensBlock : openedBlock? n = none := by rw [openedBlock?, item]
  have belongs : belonging (items ++ [n]) = some kind := by
    rw [belonging_concat, isHeader, opens]
    rfl
  have lines : offered n = n.children := by rw [offered, opens]; rfl
  have known : Catalog.contains d.document.sections kind = decide (kind ∈ items.filterMap openedSection?) := by
    rw [Catalog.contains_eq_mem, h.keys_sections]
    simp [sectionKinds]
  have noted : itemNotes o items n = Draft.repeated n (Catalog.contains d.document.sections kind) kind.name
      ++ (Declaration.readAll o kind n.children).notes := by
    rw [itemNotes, item, known]
  rw [Draft.add, item]
  refine ⟨sections_addTo h.sections belongs (by rw [lines]), ?_, belongs.symm, ?_⟩
  · rw [classRules_of_not_opens opensBlock]
    exact h.classRules
  · rw [notesOf_concat, noted, ← List.append_assoc, ← h.notes, ← List.append_assoc]
    rfl

/-- Taking up the header of a rule block. -/
theorem Draft.Sorts.add_block (h : d.Sorts o notes items) {kind : ClassBlockKind}
    (item : ClassItem.ofText n.text = .opensBlock kind) : (d.add o n).Sorts o notes (items ++ [n]) := by
  have opens : openedSection? n = none := by rw [openedSection?, item]
  have opensBlock : openedBlock? n = some kind := by rw [openedBlock?, item]
  have belongs : belonging (items ++ [n]) = none := by
    rw [belonging_concat, isHeader, opens, opensBlock]
    rfl
  have known : Catalog.contains d.document.classRules kind = decide (kind ∈ items.filterMap openedBlock?) := by
    rw [Catalog.contains_eq_mem, h.keys_classRules]
    simp [blockKinds]
  have noted : itemNotes o items n
      = Draft.repeated n (Catalog.contains d.document.classRules kind) kind.name := by
    rw [itemNotes, item, known]
  rw [Draft.add, item]
  refine ⟨?_, classRules_openBlock h.classRules opensBlock, belongs.symm, ?_⟩
  · rw [sections_of_belonging_none belongs]
    exact h.sections
  · rw [notesOf_concat, noted, ← List.append_assoc, ← h.notes]
    rfl

/-- Taking up a line that opens nothing. -/
theorem Draft.Sorts.add_content (h : d.Sorts o notes items) (item : ClassItem.ofText n.text = .content) :
    (d.add o n).Sorts o notes (items ++ [n]) := by
  have opens : openedSection? n = none := by rw [openedSection?, item]
  have opensBlock : openedBlock? n = none := by rw [openedBlock?, item]
  have belongs : belonging (items ++ [n]) = belonging items := by
    rw [belonging_concat, isHeader, opens, opensBlock]
    rfl
  have lines : offered n = [n] := by rw [offered, opens]; rfl
  have classRules : d.document.classRules
      = (blockKinds (items ++ [n])).map fun kind => (kind, blockOf (items ++ [n]) kind) := by
    rw [classRules_of_not_opens opensBlock]
    exact h.classRules
  rw [Draft.add, item]
  cases current : belonging items with
  | some kind =>
    have noted : itemNotes o items n = (Declaration.readAll o kind [n]).notes := by
      rw [itemNotes, item, current]
    rw [current] at belongs
    simp only [h.current, current]
    refine ⟨sections_addTo h.sections belongs (by rw [lines]), classRules, ?_, ?_⟩
    · rw [belongs, ← current, ← h.current]
      rfl
    · rw [notesOf_concat, noted, ← List.append_assoc, ← h.notes]
      rfl
  | none =>
    have noted : itemNotes o items n = [n.note (.unknownSectionContent n.text)] := by
      rw [itemNotes, item, current]
    rw [current] at belongs
    simp only [h.current, current]
    refine ⟨?_, classRules, belongs.symm, ?_⟩
    · rw [sections_of_belonging_none belongs]
      exact h.sections
    · rw [notesOf_concat, noted, ← List.append_assoc, ← h.notes]

/-- Taking up one more item that is no property. -/
theorem Draft.Sorts.add (h : d.Sorts o notes items) (content : isProperty n = false) :
    (d.add o n).Sorts o notes (items ++ [n]) := by
  cases item : ClassItem.ofText n.text with
  | owner v => simp [isProperty, item] at content
  | classPrefix v => simp [isProperty, item] at content
  | opensSection kind => exact h.add_section item
  | opensBlock kind => exact h.add_block item
  | content => exact h.add_content item

/-- Taking up a property adds to no section and to no rule block. -/
theorem Draft.Sorts.add_property (h : d.Sorts o notes items)
    (property : isProperty n = true) : (d.add o n).Sorts o notes items := by
  rw [Draft.add]
  cases item : ClassItem.ofText n.text with
  | owner v => exact ⟨h.sections, h.classRules, h.current, h.notes⟩
  | classPrefix v => exact ⟨h.sections, h.classRules, h.current, h.notes⟩
  | _ => simp [isProperty, item] at property

/-- Taking up items gives what the items other than properties add up to. -/
theorem Draft.sorts_ofItems (o : Options) (start : Document) (sections : start.sections = [])
    (classRules : start.classRules = []) (notes : List Diagnostic) (items : List Node) :
    (Draft.ofItems o start notes items).Sorts o notes (items.filter fun n => !isProperty n) := by
  have fold : ∀ (rest done : List Node) (d : Draft), d.Sorts o notes done →
      (rest.foldl (Draft.add o) d).Sorts o notes (done ++ rest.filter fun n => !isProperty n) := by
    intro rest
    induction rest with
    | nil =>
      intro done d h
      rwa [List.filter_nil, List.append_nil]
    | cons n rest ih =>
      intro done d h
      rw [List.foldl_cons, List.filter_cons]
      cases property : isProperty n with
      | true => exact ih done _ (h.add_property property)
      | false =>
        rw [Bool.not_false, if_pos rfl, List.append_cons]
        exact ih (done ++ [n]) _ (h.add property)
  exact fold items [] _ (Draft.sorts_nil start sections classRules notes)

/-! ### What properties say -/

/-- What a property says about the class. -/
def addProperty (d : Document) (m : Node) : Document :=
  match ClassItem.ofText m.text with
  | .owner v => { d with owner := some v }
  | .classPrefix v => { d with classPrefix := some v }
  | _ => d

/-- The document without its sections and rule blocks. -/
def frame (d : Document) : Document := { d with sections := [], classRules := [] }

theorem frame_add (o : Options) (d : Draft) (m : Node) :
    (d.add o m).document.frame = addProperty d.document.frame m := by
  rw [Draft.add, addProperty]
  cases ClassItem.ofText m.text with
  | content => cases d.current <;> rfl
  | _ => rfl

/-- Besides sections and rule blocks, taking up items puts what properties say into the document. -/
theorem frame_ofItems (o : Options) (start : Document) (notes : List Diagnostic) (items : List Node) :
    (Draft.ofItems o start notes items).document.frame = items.foldl addProperty start.frame := by
  have fold : ∀ (rest : List Node) (d : Draft),
      (rest.foldl (Draft.add o) d).document.frame = rest.foldl addProperty d.document.frame := by
    intro rest
    induction rest with
    | nil => exact fun d => rfl
    | cons m rest ih =>
      intro d
      rw [List.foldl_cons, ih, frame_add, List.foldl_cons]
  exact fold items ⟨start, none, notes⟩

theorem title_addProperty (d : Document) (m : Node) : (addProperty d m).name = d.name ∧
    (addProperty d m).classType = d.classType ∧ (addProperty d m).closedFromEmpty = d.closedFromEmpty := by
  rw [addProperty]
  cases ClassItem.ofText m.text <;> exact ⟨rfl, rfl, rfl⟩

/-- Taking up items changes neither name and type nor the mark of the empty document. -/
theorem title_ofItems (o : Options) (start : Document) (notes : List Diagnostic) (items : List Node) :
    (Draft.ofItems o start notes items).document.name = start.name ∧
      (Draft.ofItems o start notes items).document.classType = start.classType ∧
      (Draft.ofItems o start notes items).document.closedFromEmpty = start.closedFromEmpty := by
  have fold : ∀ d : Document, (items.foldl addProperty d).name = d.name ∧
      (items.foldl addProperty d).classType = d.classType ∧
      (items.foldl addProperty d).closedFromEmpty = d.closedFromEmpty := by
    induction items with
    | nil => exact fun d => ⟨rfl, rfl, rfl⟩
    | cons m items ih =>
      intro d
      obtain ⟨name, classType, closed⟩ := title_addProperty d m
      rw [List.foldl_cons, (ih _).1, (ih _).2.1, (ih _).2.2]
      exact ⟨name, classType, closed⟩
  have := fold start.frame
  rw [← frame_ofItems o start notes items] at this
  exact this

/-! ### Whole outlines -/

/-- Whether the first root is a class header does not depend on what stands under it, which goes to the items. -/
theorem classRoot?_cons (o : Options) (l : SourceLine) (children roots : List Node) :
    classRoot? o (Node.ofLine l children :: roots)
      = (classHeader? o (Node.ofLine l [])).map fun header => (header, children ++ roots) := rfl

/-- The outline has a class header, or an item that opens a section or a rule block. -/
def HasParts (o : Options) (f : List Node) : Prop :=
  (classRoot? o f).isSome = true ∨ ∃ n ∈ classItems o f, isHeader n = true

instance (o : Options) (f : List Node) : Decidable (HasParts o f) := inferInstanceAs (Decidable (_ ∨ _))

/-- The problem that there is no class header. -/
def headlessNotes (o : Options) (f : List Node) : List Diagnostic :=
  if (classRoot? o f).isSome then [] else [.ofDocument .missingClassHeader]

/-- An item that opens something makes a section or a rule block. -/
theorem kinds_ne_nil (h : ∃ n ∈ items, isHeader n = true) :
    ¬ (sectionKinds items = [] ∧ blockKinds items = []) := by
  rintro ⟨noSection, noBlock⟩
  obtain ⟨n, mem, header⟩ := h
  rcases Bool.or_eq_true_iff.1 header with opens | opens
  · obtain ⟨kind, opens⟩ := Option.isSome_iff_exists.1 opens
    have : kind ∈ sectionKinds items := List.mem_eraseDups.2 (List.mem_filterMap.2 ⟨n, mem, opens⟩)
    rw [noSection] at this
    cases this
  · obtain ⟨kind, opens⟩ := Option.isSome_iff_exists.1 opens
    have : kind ∈ blockKinds items := List.mem_eraseDups.2 (List.mem_filterMap.2 ⟨n, mem, opens⟩)
    rw [noBlock] at this
    cases this

/-- The reading of an outline with a class header. -/
theorem classify_of_root {r : Header × List Node} (notes : List Diagnostic) {f : List Node}
    (root : classRoot? o f = some r) : classify o notes f
      = (Draft.ofItems o { name := some r.1.name, classType := r.1.typeName } notes r.2).close := by
  rw [classify, root]

/-- The reading of an outline without class header that has something to open. -/
theorem classify_of_headless (notes : List Diagnostic) {f : List Node} (parts : HasParts o f)
    (root : classRoot? o f = none) : classify o notes f
      = ⟨(Draft.ofItems o {} notes f).document,
        (Draft.ofItems o {} notes f).notes ++ [.ofDocument .missingClassHeader]⟩ := by
  rw [HasParts, classItems, root] at parts
  have sorts := Draft.sorts_ofItems o {} rfl rfl notes f
  have something := kinds_ne_nil (parts.resolve_left (by simp))
  rw [classify, root]
  generalize Draft.ofItems o {} notes f = d at sorts
  have filled : ¬ (d.document.sections.isEmpty && d.document.classRules.isEmpty) = true := by
    simpa [sorts.sections, sorts.classRules] using something
  simp only [Draft.closeHeadless, if_neg filled]

/-- An outline with a class header, a section or a rule block is read as what its items add up to. -/
theorem sorts_classify (o : Options) (notes : List Diagnostic) {f : List Node} (parts : HasParts o f) :
    (classify o notes f).document.sections
        = (sectionKinds (classItems o f)).map (fun kind => (kind, sectionOf o (classItems o f) kind)) ∧
      (classify o notes f).document.classRules
        = (blockKinds (classItems o f)).map (fun kind => (kind, blockOf (classItems o f) kind)) ∧
      (classify o notes f).diagnostics = notes ++ notesOf o (classItems o f) ++ headlessNotes o f := by
  rw [classItems, headlessNotes]
  cases root : classRoot? o f with
  | some r =>
    have sorts := Draft.sorts_ofItems o { name := some r.1.name, classType := r.1.typeName } rfl rfl
      notes r.2
    rw [classify_of_root notes root]
    exact ⟨sorts.sections, sorts.classRules, sorts.notes.trans (List.append_nil _).symm⟩
  | none =>
    have sorts := Draft.sorts_ofItems o {} rfl rfl notes f
    rw [classify_of_headless notes parts root]
    exact ⟨sorts.sections, sorts.classRules, congrArg (· ++ _) sorts.notes⟩

/-- Any other outline is read as the empty document, whatever was noted. -/
theorem classify_of_not_hasParts (o : Options) (notes : List Diagnostic) {f : List Node}
    (none : ¬ HasParts o f) : classify o notes f = ⟨closedEmpty, [.ofDocument .emptyDocument]⟩ := by
  rw [HasParts, classItems] at none
  rw [classify]
  cases root : classRoot? o f with
  | some r => simp [root] at none
  | none =>
    rw [root] at none
    have sorts := Draft.sorts_ofItems o {} rfl rfl notes f
    have opens : ∀ n ∈ f.filter (fun n => !isProperty n), openedSection? n = Option.none ∧
        openedBlock? n = Option.none := by
      intro n mem
      have plain : isHeader n = false := by
        simpa using fun header => none (Or.inr ⟨n, mem, header⟩)
      simpa using Bool.or_eq_false_iff.1 plain
    have noSection : sectionKinds (f.filter fun n => !isProperty n) = [] := by
      rw [sectionKinds, List.filterMap_eq_nil_iff.2 fun n mem => (opens n mem).1]
      rfl
    have noBlock : blockKinds (f.filter fun n => !isProperty n) = [] := by
      rw [blockKinds, List.filterMap_eq_nil_iff.2 fun n mem => (opens n mem).2]
      rfl
    generalize Draft.ofItems o {} notes f = d at sorts
    have empty : (d.document.sections.isEmpty && d.document.classRules.isEmpty) = true := by
      rw [sorts.sections, sorts.classRules, noSection, noBlock]
      rfl
    simp only [Draft.closeHeadless, if_pos empty]

/-- What was opened has a first header. -/
theorem exists_first {κ : Type} [DecidableEq κ] {f : Node → Option κ} {k : κ}
    (h : k ∈ (items.filterMap f).eraseDups) : ∃ n ∈ items, items.find? (f · == some k) = some n ∧ f n = some k := by
  obtain ⟨m, mem, same⟩ := List.mem_filterMap.1 (List.mem_eraseDups.1 h)
  obtain ⟨n, first⟩ := Option.isSome_iff_exists.1
    (List.find?_isSome (p := (f · == some k)).2 ⟨m, mem, by simp [same]⟩)
  exact ⟨n, List.mem_of_find?_eq_some first, first, by simpa using List.find?_some first⟩

/-- The sections of an outline are those that have a header, in order of their first one. Each has the line
of its first header, and it declares what its headers and the items that belong to it offer. The rule blocks
are those that have a header; each joins the lines of all its headers. -/
theorem sections_classify (o : Options) (notes : List Diagnostic) {f : List Node} (parts : HasParts o f) :
    Catalog.keys (classify o notes f).document.sections = sectionKinds (classItems o f) ∧
      (sectionKinds (classItems o f)).Nodup ∧
      (∀ e ∈ (classify o notes f).document.sections, e.2.kind = e.1 ∧
        (∃ n, (classItems o f).find? (openedSection? · == some e.1) = some n ∧ e.2.line = n.line) ∧
        e.2.declarations = declarationsOf o e.1 (classItems o f)) ∧
      Catalog.keys (classify o notes f).document.classRules = blockKinds (classItems o f) ∧
      (blockKinds (classItems o f)).Nodup ∧
      ∀ e ∈ (classify o notes f).document.classRules,
        ∃ n, (classItems o f).find? (openedBlock? · == some e.1) = some n ∧
          e.2 = ⟨⟨e.1.name, none, none, [], n.line, n.span⟩,
            Text.merge (((classItems o f).filter (openedBlock? · == some e.1)).map Node.bodyText)⟩ := by
  obtain ⟨sections, classRules, -⟩ := sorts_classify o notes parts
  rw [sections, classRules]
  refine ⟨Catalog.keys_map_self _ _, Catalog.nodup_eraseDups _, fun e he => ?_, Catalog.keys_map_self _ _,
    Catalog.nodup_eraseDups _, fun e he => ?_⟩
  · obtain ⟨kind, mem, rfl⟩ := List.mem_map.1 he
    obtain ⟨n, -, first, -⟩ := exists_first mem
    exact ⟨rfl, ⟨n, first, by rw [sectionOf, first]; rfl⟩, rfl⟩
  · obtain ⟨kind, mem, rfl⟩ := List.mem_map.1 he
    obtain ⟨n, -, first, -⟩ := exists_first mem
    exact ⟨n, first, by rw [blockOf, first]; rfl⟩

/-- A section that is opened twice, with a rule block and a stray line in between. -/
def mergedSource : Text := Lines.text (
  ["A is a BusinessClass", "\tConditions", "\t\tB", "\tC", "\tCreate Rules", "\t\tx", "\tD", "\tRelations",
    "\tconditions", "\t\tE", "\tCreate Rules", "\t\ty", "Sets"].map String.toList)

/-- The outline of `mergedSource`. -/
def mergedForest : List Node := Forest.ofLines 0 (Source.lines {} mergedSource)

/-- In `mergedSource`, the line behind the section belongs to it and the line behind the rule block to none. -/
theorem sections_classify_mergedForest : HasParts {} mergedForest ∧
    Catalog.keys (classify {} [] mergedForest).document.sections = [.conditions, .relations, .sets] ∧
    Catalog.keys (classify {} [] mergedForest).document.classRules = [.createRules] ∧
    ∀ e ∈ (classify {} [] mergedForest).document.sections, e.1 = .conditions →
      e.2.declarations.map Declaration.name = [['B'], ['C'], ['E']] := by
  have parts : HasParts {} mergedForest := by decide +kernel
  obtain ⟨keys, -, sections, blockKeys, -, -⟩ := sections_classify {} [] parts
  refine ⟨parts, keys.trans (by decide +kernel), blockKeys.trans (by decide +kernel), fun e he kind => ?_⟩
  rw [(sections e he).2.2, kind]
  decide +kernel

end Document

end BusinessClass
