import BusinessClass.Proofs.Document.Sections
import Mathlib.Data.List.Perm.Basic

/-!
# Reordering a class

A class is written in parts: a section header or the header of a rule block with the content behind it, or a
property. Where all of them are different, each part adds an entry of its own to the document and problems of its
own to the diagnostics, whatever comes before it. So parts can be put in any order.

* `Document.Part` is one part of a class, `Document.Part.Distinct` says that all parts are different.
* `Document.Draft.Adds` says what a part adds; `Document.Draft.adds_items` takes up the items of one part.
* `Document.Draft.Holds` says that a draft holds what some parts add; `Document.Draft.holds_ofItems` is the
  induction over the parts.
* `Document.classify_reordered`: two classes with the same parts in different orders.
-/

namespace BusinessClass

namespace Declaration

/-- Lines are read one after the other. -/
theorem readAll_append (o : Options) (kind : SectionKind) (ms ns : List Node) :
    readAll o kind (ms ++ ns)
      = ⟨(readAll o kind ms).value ++ (readAll o kind ns).value,
          (readAll o kind ms).notes ++ (readAll o kind ns).notes⟩ := by
  show Noted.mk (Noted.gather (read o kind) (ms ++ ns)).value (Noted.gather (read o kind) (ms ++ ns)).notes = _
  rw [readAll, readAll, Noted.value_gather, Noted.value_gather, Noted.value_gather, Noted.notes_gather,
    Noted.notes_gather, Noted.notes_gather, List.filterMap_append, List.flatMap_append]

end Declaration

namespace Document

/-! ### Parts of a class -/

/-- The header of a section or rule block with the content up to the next header or property. -/
structure Block where
  header : Node
  content : List Node
  opens : isHeader header = true
  plain : ∀ n ∈ content, ClassItem.ofText n.text = .content

/-- A part of a class. -/
inductive Part
  /-- A section or rule block. -/
  | block (b : Block)
  /-- A line that states the owner or the prefix. -/
  | property (n : Node) (states : isProperty n = true)

namespace Part

/-- The items that make up the part. -/
def items : Part → List Node
  | block b => b.header :: b.content
  | property n _ => [n]

/-- The section that the part is. -/
def section? : Part → Option SectionKind
  | block b => openedSection? b.header
  | property _ _ => none

/-- The rule block that the part is. -/
def classRule? : Part → Option ClassBlockKind
  | block b => openedBlock? b.header
  | property _ _ => none

/-- The owner that the part states. -/
def owner? : Part → Option Text
  | block _ => none
  | property n _ =>
    match ClassItem.ofText n.text with
    | .owner v => some v
    | _ => none

/-- The prefix that the part states. -/
def classPrefix? : Part → Option Text
  | block _ => none
  | property n _ =>
    match ClassItem.ofText n.text with
    | .classPrefix v => some v
    | _ => none

/-- No two parts are the same section or the same rule block, and none states a second owner or prefix. -/
structure Distinct (parts : List Part) : Prop where
  sections : (parts.filterMap section?).Nodup
  classRules : (parts.filterMap classRule?).Nodup
  owner : (parts.filterMap owner?).length ≤ 1
  classPrefix : (parts.filterMap classPrefix?).length ≤ 1

instance (parts : List Part) : Decidable (Distinct parts) :=
  decidable_of_iff ((parts.filterMap section?).Nodup ∧ (parts.filterMap classRule?).Nodup ∧
      (parts.filterMap owner?).length ≤ 1 ∧ (parts.filterMap classPrefix?).length ≤ 1)
    ⟨fun ⟨sections, classRules, owner, classPrefix⟩ => ⟨sections, classRules, owner, classPrefix⟩,
      fun h => ⟨h.sections, h.classRules, h.owner, h.classPrefix⟩⟩

/-- Without the last part, the parts are still distinct, and the last part is none of the others. -/
theorem Distinct.of_concat {parts : List Part} {p : Part} (h : Distinct (parts ++ [p])) :
    Distinct parts ∧ (∀ kind ∈ p.section?, kind ∉ parts.filterMap section?) ∧
      ∀ kind ∈ p.classRule?, kind ∉ parts.filterMap classRule? := by
  obtain ⟨sections, classRules, owner, classPrefix⟩ := h
  rw [filterMap_concat, List.nodup_append] at sections classRules
  rw [filterMap_concat, List.length_append] at owner classPrefix
  refine ⟨⟨sections.1, classRules.1, by omega, by omega⟩, ?_, ?_⟩
  · intro kind is mem
    exact sections.2.2 kind mem kind (Option.mem_toList.2 is) rfl
  · intro kind is mem
    exact classRules.2.2 kind mem kind (Option.mem_toList.2 is) rfl

/-! ### What a part adds -/

/-- The entry of a section: the line of the header, and the declarations of the lines under it and of the content
behind it. -/
def addedSection? (o : Options) : Part → Option (SectionKind × Section)
  | block b => (openedSection? b.header).map fun kind =>
    (kind, ⟨kind, b.header.line, (Declaration.readAll o kind (b.header.children ++ b.content)).value⟩)
  | property _ _ => none

/-- The entry of a rule block: the place of the header and the lines under it. -/
def addedRule? : Part → Option (ClassBlockKind × RuleBlock)
  | block b => (openedBlock? b.header).map fun kind =>
    (kind, ⟨⟨kind.name, none, none, [], b.header.line, b.header.span⟩, b.header.bodyText⟩)
  | property _ _ => none

/-- The problems with a part: those of its declarations, and content that belongs to no section. -/
def notes (o : Options) : Part → List Diagnostic
  | block b =>
    match openedSection? b.header with
    | some kind => (Declaration.readAll o kind (b.header.children ++ b.content)).notes
    | none => b.content.map fun n => n.note (.unknownSectionContent n.text)
  | property _ _ => []

theorem keys_filterMap_addedSection? (o : Options) (parts : List Part) :
    Catalog.keys (parts.filterMap (addedSection? o)) = parts.filterMap section? := by
  rw [Catalog.keys, List.map_filterMap]
  refine List.filterMap_congr fun p _ => ?_
  cases p with
  | block b =>
    rw [addedSection?, section?, Option.map_map]
    exact Option.map_id'
  | property n states => rfl

theorem keys_filterMap_addedRule? (parts : List Part) :
    Catalog.keys (parts.filterMap addedRule?) = parts.filterMap classRule? := by
  rw [Catalog.keys, List.map_filterMap]
  refine List.filterMap_congr fun p _ => ?_
  cases p with
  | block b =>
    rw [addedRule?, classRule?, Option.map_map]
    exact Option.map_id'
  | property n states => rfl

end Part

/-! ### Taking up a part -/

namespace Draft

variable {o : Options}

/-- Declarations that are added to a section twice are added at once. -/
theorem addTo_addTo (d : Draft) (kind : SectionKind) (line line' : Nat) (ds es : Noted (List Declaration)) :
    (d.addTo kind line ds).addTo kind line' es
      = d.addTo kind line ⟨ds.value ++ es.value, ds.notes ++ es.notes⟩ := by
  simp only [addTo, Catalog.upsert_upsert, List.append_assoc]
  congr 2
  refine congrArg (Catalog.upsert kind · d.document.sections) (funext fun s => ?_)
  cases s with
  | none => rfl
  | some s => simp only [List.append_assoc]

/-- Content that follows what a section takes is taken along with it, as if it stood under the header. -/
theorem foldl_add_content {d : Draft} {kind : SectionKind} (current : d.current = some kind) (line : Nat)
    {content : List Node} (plain : ∀ n ∈ content, ClassItem.ofText n.text = .content) (taken : List Node) :
    content.foldl (add o) (d.addTo kind line (Declaration.readAll o kind taken))
      = d.addTo kind line (Declaration.readAll o kind (taken ++ content)) := by
  -- The section is the one open all along; every line moves from `content` to the end of `taken`.
  induction content generalizing taken with
  | nil => rw [List.append_nil, List.foldl_nil]
  | cons n content ih =>
    obtain ⟨first, rest⟩ := List.forall_mem_cons.1 plain
    have step : (d.addTo kind line (Declaration.readAll o kind taken)).add o n
        = d.addTo kind line (Declaration.readAll o kind (taken ++ [n])) := by
      have still : (d.addTo kind line (Declaration.readAll o kind taken)).current = some kind := current
      rw [add, first, Declaration.readAll_append, ← addTo_addTo d kind line n.line]
      simp only [still]
    rw [List.foldl_cons, step, ih rest, List.append_assoc, List.singleton_append]

/-- Content behind a rule block belongs nowhere. -/
theorem foldl_add_stray {content : List Node} (plain : ∀ n ∈ content, ClassItem.ofText n.text = .content)
    (document : Document) (notes : List Diagnostic) : content.foldl (add o) ⟨document, none, notes⟩
      = ⟨document, none, notes ++ content.map fun n => n.note (.unknownSectionContent n.text)⟩ := by
  induction content generalizing notes with
  | nil => rw [List.map_nil, List.append_nil, List.foldl_nil]
  | cons n content ih =>
    obtain ⟨first, rest⟩ := List.forall_mem_cons.1 plain
    have step : add o ⟨document, none, notes⟩ n
        = ⟨document, none, notes ++ [n.note (.unknownSectionContent n.text)]⟩ := by
      rw [add, first]
    rw [List.foldl_cons, step, ih rest, List.map_cons, List.append_assoc, List.singleton_append]

/-- A draft `e` has what a draft `d` has and what a part adds. -/
structure Adds (o : Options) (p : Part) (d e : Draft) : Prop where
  name : e.document.name = d.document.name
  classType : e.document.classType = d.document.classType
  owner : e.document.owner = p.owner?.or d.document.owner
  classPrefix : e.document.classPrefix = p.classPrefix?.or d.document.classPrefix
  closedFromEmpty : e.document.closedFromEmpty = d.document.closedFromEmpty
  sections : e.document.sections = d.document.sections ++ (p.addedSection? o).toList
  classRules : e.document.classRules = d.document.classRules ++ p.addedRule?.toList
  notes : e.notes = d.notes ++ p.notes o

/-- A section that is not there yet is added with the content behind its header. -/
theorem adds_section (d : Draft) (b : Block) {kind : SectionKind}
    (item : ClassItem.ofText b.header.text = .opensSection kind)
    (new : kind ∉ Catalog.keys d.document.sections) :
    Adds o (.block b) d ((b.header :: b.content).foldl (add o) d) := by
  have isSection : openedSection? b.header = some kind := by rw [openedSection?, item]
  have isRule : openedBlock? b.header = none := by rw [openedBlock?, item]
  have known : Catalog.contains d.document.sections kind = false := Catalog.contains_eq_false new
  rw [List.foldl_cons, add, item]
  simp only [openSection, repeated, known, Bool.false_eq_true, if_false, List.append_nil]
  rw [foldl_add_content rfl b.header.line b.plain]
  refine ⟨rfl, rfl, rfl, rfl, rfl, ?_, ?_, ?_⟩
  · rw [Part.addedSection?, isSection]
    exact Catalog.upsert_of_not_mem new
  · rw [Part.addedRule?, isRule]
    exact (List.append_nil _).symm
  · rw [Part.notes, isSection]
    rfl

/-- A rule block that is not there yet is added, and the content behind its header is noted. -/
theorem adds_rules (d : Draft) (b : Block) {kind : ClassBlockKind}
    (item : ClassItem.ofText b.header.text = .opensBlock kind)
    (new : kind ∉ Catalog.keys d.document.classRules) :
    Adds o (.block b) d ((b.header :: b.content).foldl (add o) d) := by
  have isSection : openedSection? b.header = none := by rw [openedSection?, item]
  have isRule : openedBlock? b.header = some kind := by rw [openedBlock?, item]
  have known : Catalog.contains d.document.classRules kind = false := Catalog.contains_eq_false new
  rw [List.foldl_cons, add, item]
  simp only [openBlock, repeated, known, Bool.false_eq_true, if_false, List.append_nil]
  rw [foldl_add_stray b.plain]
  refine ⟨rfl, rfl, rfl, rfl, rfl, ?_, ?_, ?_⟩
  · rw [Part.addedSection?, isSection]
    exact (List.append_nil _).symm
  · rw [Part.addedRule?, isRule]
    exact Catalog.upsert_of_not_mem new
  · rw [Part.notes, isSection]

/-- A property is put in the place of the one that was there. -/
theorem adds_property (d : Draft) {n : Node} (states : isProperty n = true) :
    Adds o (.property n states) d (d.add o n) := by
  have empty {α : Type} (as : List α) : as = as ++ [] := (List.append_nil as).symm
  cases item : ClassItem.ofText n.text with
  | owner v =>
    rw [add, item]
    refine ⟨rfl, rfl, ?_, ?_, rfl, empty _, empty _, empty _⟩
    · rw [Part.owner?, item]
      rfl
    · rw [Part.classPrefix?, item]
      rfl
  | classPrefix v =>
    rw [add, item]
    refine ⟨rfl, rfl, ?_, ?_, rfl, empty _, empty _, empty _⟩
    · rw [Part.owner?, item]
      rfl
    · rw [Part.classPrefix?, item]
      rfl
  | _ => simp [isProperty, item] at states

/-- A part that has no entry yet adds its own and changes none. -/
theorem adds_items (d : Draft) {p : Part}
    (newSection : ∀ kind ∈ p.section?, kind ∉ Catalog.keys d.document.sections)
    (newRule : ∀ kind ∈ p.classRule?, kind ∉ Catalog.keys d.document.classRules) :
    Adds o p d (p.items.foldl (add o) d) := by
  cases p with
  | block b =>
    have opens := b.opens
    cases item : ClassItem.ofText b.header.text with
    | opensSection kind =>
      refine adds_section d b item (newSection kind ?_)
      show openedSection? b.header = some kind
      rw [openedSection?, item]
    | opensBlock kind =>
      refine adds_rules d b item (newRule kind ?_)
      show openedBlock? b.header = some kind
      rw [openedBlock?, item]
    | _ => simp [isHeader, openedSection?, openedBlock?, item] at opens
  | property n states => exact adds_property d states

/-! ### Taking up all parts -/

/-- A draft holds what some parts add; `notes` are the problems found before. -/
structure Holds (o : Options) (name classType : Option Text) (notes : List Diagnostic) (parts : List Part)
    (d : Draft) : Prop where
  name : d.document.name = name
  classType : d.document.classType = classType
  owner : d.document.owner = (parts.filterMap Part.owner?).getLast?
  classPrefix : d.document.classPrefix = (parts.filterMap Part.classPrefix?).getLast?
  closedFromEmpty : d.document.closedFromEmpty = false
  sections : d.document.sections = parts.filterMap (Part.addedSection? o)
  classRules : d.document.classRules = parts.filterMap Part.addedRule?
  notes : d.notes = notes ++ parts.flatMap (Part.notes o)

/-- One more part. -/
theorem Holds.add {name classType : Option Text} {notes : List Diagnostic} {parts : List Part} {d e : Draft}
    (h : d.Holds o name classType notes parts) {p : Part} (added : Adds o p d e) :
    e.Holds o name classType notes (parts ++ [p]) where
  name := added.name.trans h.name
  classType := added.classType.trans h.classType
  owner := by rw [added.owner, h.owner, getLast?_filterMap_concat]
  classPrefix := by rw [added.classPrefix, h.classPrefix, getLast?_filterMap_concat]
  closedFromEmpty := added.closedFromEmpty.trans h.closedFromEmpty
  sections := by rw [added.sections, h.sections, filterMap_concat]
  classRules := by rw [added.classRules, h.classRules, filterMap_concat]
  notes := by rw [added.notes, h.notes, List.flatMap_append, List.flatMap_singleton, List.append_assoc]

/-- Taking up the items of distinct parts gives what the parts add. -/
theorem holds_ofItems (o : Options) (name classType : Option Text) (notes : List Diagnostic) {parts : List Part}
    (distinct : Part.Distinct parts) :
    (ofItems o { name := name, classType := classType } notes (parts.flatMap Part.items)).Holds o name classType
      notes parts := by
  induction parts using List.reverseRecOn with
  | nil => exact ⟨rfl, rfl, rfl, rfl, rfl, rfl, rfl, (List.append_nil notes).symm⟩
  | append_singleton parts p ih =>
    obtain ⟨before, newSection, newRule⟩ := distinct.of_concat
    have h := ih before
    have step : ofItems o { name := name, classType := classType } notes ((parts ++ [p]).flatMap Part.items)
        = p.items.foldl (add o)
          (ofItems o { name := name, classType := classType } notes (parts.flatMap Part.items)) := by
      rw [List.flatMap_append, List.flatMap_singleton, ofItems, List.foldl_append]
      rfl
    rw [step]
    -- The keys in the draft are those of the parts before, and this part is none of them.
    refine h.add (adds_items _ ?_ ?_)
    · intro kind mem
      rw [h.sections, Part.keys_filterMap_addedSection?]
      exact newSection kind mem
    · intro kind mem
      rw [h.classRules, Part.keys_filterMap_addedRule?]
      exact newRule kind mem

end Draft

/-! ### Another order -/

theorem eq_of_perm_of_length_le {α : Type} {as bs : List α} (perm : bs.Perm as) (le : as.length ≤ 1) : bs = as := by
  match as, le with
  | [], _ => exact perm.eq_nil
  | [a], _ => exact List.perm_singleton.1 perm

namespace Part

/-- Distinct parts are distinct in any order. -/
theorem Distinct.of_perm {parts parts' : List Part} (distinct : Distinct parts) (perm : parts'.Perm parts) :
    Distinct parts' where
  sections := (perm.filterMap section?).nodup_iff.2 distinct.sections
  classRules := (perm.filterMap classRule?).nodup_iff.2 distinct.classRules
  owner := (perm.filterMap owner?).length_eq ▸ distinct.owner
  classPrefix := (perm.filterMap classPrefix?).length_eq ▸ distinct.classPrefix

end Part

/-- Two readings say the same of a class and its parts, up to the order of these. -/
structure AgreeUpToOrder (r r' : Reading) : Prop where
  name : r'.document.name = r.document.name
  classType : r'.document.classType = r.document.classType
  owner : r'.document.owner = r.document.owner
  classPrefix : r'.document.classPrefix = r.document.classPrefix
  closedFromEmpty : r'.document.closedFromEmpty = r.document.closedFromEmpty
  sections : ∀ kind, r'.document.section? kind = r.document.section? kind
  classRules : ∀ kind, r'.document.classRule? kind = r.document.classRule? kind
  diagnostics : r'.diagnostics.Perm r.diagnostics

/-- The reading of a class with distinct parts holds what the parts add. -/
theorem exists_holds {o : Options} {l : SourceLine} {h : Header} (is : classHeader? o (Node.ofLine l []) = some h)
    {children roots : List Node} {parts : List Part} (items : children ++ roots = parts.flatMap Part.items)
    (distinct : Part.Distinct parts) (notes : List Diagnostic) :
    ∃ d : Draft, d.Holds o (some h.name) h.typeName notes parts ∧
      classify o notes (Node.ofLine l children :: roots) = ⟨d.document, d.notes⟩ := by
  have root : classRoot? o (Node.ofLine l children :: roots) = some (h, parts.flatMap Part.items) := by
    rw [classRoot?_cons, is, items]
    rfl
  exact ⟨_, Draft.holds_ofItems o (some h.name) h.typeName notes distinct, classify_of_root notes root⟩

/-- A class with distinct parts, below its header or beside it, can be written in any order: its name, type, owner
and prefix, every section and every rule block stay what they are, sections and rule blocks are listed in the new
order, and the same problems are reported. -/
theorem classify_reordered {o : Options} {l : SourceLine}
    (header : (classHeader? o (Node.ofLine l [])).isSome = true) {children roots children' roots' : List Node}
    {parts parts' : List Part} (items : children ++ roots = parts.flatMap Part.items)
    (items' : children' ++ roots' = parts'.flatMap Part.items) (perm : parts'.Perm parts)
    (distinct : Part.Distinct parts) (notes : List Diagnostic) :
    AgreeUpToOrder (classify o notes (Node.ofLine l children :: roots))
        (classify o notes (Node.ofLine l children' :: roots')) ∧
      Catalog.keys (classify o notes (Node.ofLine l children :: roots)).document.sections
        = parts.filterMap Part.section? ∧
      Catalog.keys (classify o notes (Node.ofLine l children' :: roots')).document.sections
        = parts'.filterMap Part.section? ∧
      Catalog.keys (classify o notes (Node.ofLine l children :: roots)).document.classRules
        = parts.filterMap Part.classRule? ∧
      Catalog.keys (classify o notes (Node.ofLine l children' :: roots')).document.classRules
        = parts'.filterMap Part.classRule? := by
  obtain ⟨root, is⟩ := Option.isSome_iff_exists.1 header
  obtain ⟨d, h, eq⟩ := exists_holds is items distinct notes
  obtain ⟨d', h', eq'⟩ := exists_holds is items' (distinct.of_perm perm) notes
  rw [eq, eq']
  have keys : Catalog.keys d.document.sections = parts.filterMap Part.section? := by
    rw [h.sections, Part.keys_filterMap_addedSection?]
  have ruleKeys : Catalog.keys d.document.classRules = parts.filterMap Part.classRule? := by
    rw [h.classRules, Part.keys_filterMap_addedRule?]
  refine ⟨?_, keys, ?_, ruleKeys, ?_⟩
  · constructor
    · exact h'.name.trans h.name.symm
    · exact h'.classType.trans h.classType.symm
    · show d'.document.owner = d.document.owner
      rw [h'.owner, h.owner, eq_of_perm_of_length_le (perm.filterMap Part.owner?) distinct.owner]
    · show d'.document.classPrefix = d.document.classPrefix
      rw [h'.classPrefix, h.classPrefix,
        eq_of_perm_of_length_le (perm.filterMap Part.classPrefix?) distinct.classPrefix]
    · exact h'.closedFromEmpty.trans h.closedFromEmpty.symm
    · refine Catalog.get?_of_perm ?_ (keys ▸ distinct.sections)
      show d'.document.sections.Perm d.document.sections
      rw [h'.sections, h.sections]
      exact perm.filterMap (Part.addedSection? o)
    · refine Catalog.get?_of_perm ?_ (ruleKeys ▸ distinct.classRules)
      show d'.document.classRules.Perm d.document.classRules
      rw [h'.classRules, h.classRules]
      exact perm.filterMap Part.addedRule?
    · show d'.notes.Perm d.notes
      rw [h'.notes, h.notes]
      exact (perm.flatMap_right (Part.notes o)).append_left notes
  · rw [h'.sections, Part.keys_filterMap_addedSection?]
  · rw [h'.classRules, Part.keys_filterMap_addedRule?]

/-- A node for a line of that text. -/
def lineNode (text : String) (depth number : Nat) (children : List Node) : Node :=
  Node.ofLine ⟨text.toList, depth, number, ⟨0, 0⟩⟩ children

/-- A prefix, conditions with one more behind them, rules with a line behind them, and an action with an empty
group. -/
def mixedParts : List Part :=
  [.property (lineNode "prefix is PA" 1 2 []) (by decide +kernel),
    .block ⟨lineNode "Conditions" 1 3 [lineNode "B" 2 4 []], [lineNode "C" 1 5 []], by decide +kernel,
      by decide +kernel⟩,
    .block ⟨lineNode "Create Rules" 1 6 [lineNode "x" 2 7 []], [lineNode "y" 1 8 []], by decide +kernel,
      by decide +kernel⟩,
    .block ⟨lineNode "Actions" 1 9 [lineNode "D is a Set Action" 2 10 [lineNode "Action Rules" 3 11
      [lineNode "E Set Rules" 4 12 []]]], [], by decide +kernel, by simp⟩]

/-- Backwards, `mixedParts` make up the same class: the conditions are the same two, and there are the same two
problems. -/
theorem classify_reordered_mixedParts :
    (classHeader? {} (lineNode "A is a BusinessClass" 0 1 [])).isSome = true ∧ Part.Distinct mixedParts ∧
      AgreeUpToOrder (classify {} [] [lineNode "A is a BusinessClass" 0 1 (mixedParts.flatMap Part.items)])
        (classify {} [] [lineNode "A is a BusinessClass" 0 1 (mixedParts.reverse.flatMap Part.items)]) ∧
      Catalog.keys (classify {} [] [lineNode "A is a BusinessClass" 0 1
        (mixedParts.reverse.flatMap Part.items)]).document.sections = [.actions, .conditions] ∧
      ((classify {} [] [lineNode "A is a BusinessClass" 0 1
          (mixedParts.reverse.flatMap Part.items)]).document.section? .conditions).map
        (fun s => s.declarations.map Declaration.name) = some [['B'], ['C']] ∧
      (classify {} [] [lineNode "A is a BusinessClass" 0 1
        (mixedParts.reverse.flatMap Part.items)]).diagnostics.length = 2 := by
  have header : (classHeader? {} (lineNode "A is a BusinessClass" 0 1 [])).isSome = true := by decide +kernel
  have distinct : Part.Distinct mixedParts := by decide +kernel
  obtain ⟨agree, -, keys, -, -⟩ := classify_reordered header (List.append_nil _) (List.append_nil _)
    (List.reverse_perm mixedParts) distinct []
  refine ⟨header, distinct, agree, keys.trans (by decide +kernel), ?_, ?_⟩
  · rw [lineNode, agree.sections]
    decide +kernel
  · rw [lineNode, agree.diagnostics.length_eq]
    decide +kernel

end Document

end BusinessClass
