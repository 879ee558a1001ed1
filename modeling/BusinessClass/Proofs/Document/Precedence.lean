import BusinessClass.Proofs.Document.Vocabulary
import Mathlib.Tactic.SplitIfs

/-!
# Precedence among headers

A reader looks a header up in a table and tries the ways to read a line one after the other. As no two headers of a
table match and no line can be read in two ways, what is found does not depend on any of these orders, and neither does
the document that is made of an outline.

* `findSome?_eq_of_perm`: what applies once is found in any order.
* `Precedence`: an order for each table of headers and for the ways to read a line, and reading in this order.
* `Precedence.item_eq` and `Precedence.part?_eq`: a line is the same in any order.
* `Precedence.readGroup_eq`, `readAction_eq` and `add_eq`: so are groups, actions and what an item adds to a class.
* `Precedence.classify_any_order`: headers are told apart, and any order gives the same document.
-/

namespace BusinessClass

/-! ### Searching in any order -/

/-- If a function has a value at no more than one place, that value is found in any order. -/
theorem findSome?_eq_of_perm {α β : Type} {f : α → Option β} (one : {a | (f a).isSome = true}.Subsingleton)
    {l l' : List α} (perm : l.Perm l') : l.findSome? f = l'.findSome? f := by
  induction perm with
  | nil => rfl
  | cons a _ ih => rw [List.findSome?_cons, List.findSome?_cons, ih]
  | swap a b l =>
    simp only [List.findSome?_cons]
    cases ha : f a with
    | none => cases f b <;> rfl
    | some x =>
      cases hb : f b with
      | none => rfl
      | some y =>
        obtain rfl : a = b := one (by simp [ha]) (by simp [hb])
        rw [ha] at hb
        rw [hb]
  | trans _ _ ih ih' => exact ih.trans ih'

/-- If no more than one entry fits, it is found in any order. -/
theorem find?_eq_of_perm {α : Type} {fits : α → Bool} (one : {a | fits a = true}.Subsingleton) {l l' : List α}
    (perm : l.Perm l') : l.find? fits = l'.find? fits := by
  rw [List.find?_eq_findSome?_guard, List.find?_eq_findSome?_guard]
  exact findSome?_eq_of_perm (by simpa using one) perm

/-- The entries of a table in any order. -/
abbrev Ranking {α : Type} (table : List α) : Type := {order : List α // order.Perm table}

/-- The orders in which headers are looked up and the ways to read a line are tried. -/
structure Precedence where
  /-- The headers of sections. -/
  sections : Ranking SectionKind.all
  /-- The headers of class-level rule blocks. -/
  blocks : Ranking ClassBlockKind.all
  /-- The headers of sub-sections. -/
  subsections : Ranking ActionSectionKind.all
  /-- The ways to read a line directly under a class header. -/
  items : Ranking ClassReading.all
  /-- The ways to read a line directly under the header of a group. -/
  parts : Ranking PartReading.all

namespace Precedence

/-- Every table from its end. -/
def backwards : Precedence where
  sections := ⟨_, List.reverse_perm _⟩
  blocks := ⟨_, List.reverse_perm _⟩
  subsections := ⟨_, List.reverse_perm _⟩
  items := ⟨_, List.reverse_perm _⟩
  parts := ⟨_, List.reverse_perm _⟩

variable (p : Precedence) (o : Options)

/-! ### Lines -/

/-- The section that a line opens. -/
def section? (text : Text) : Option SectionKind := p.sections.1.find? fun k => Text.sameWords text k.name

/-- The class-level rule block that a line opens. -/
def block? (text : Text) : Option ClassBlockKind := p.blocks.1.find? fun k => Text.sameWords text k.name

/-- The sub-section that a line opens. -/
def subsection? (text : Text) : Option ActionSectionKind := p.subsections.1.find? fun k => Text.sameWords text k.name

theorem section?_eq (text : Text) : p.section? text = SectionKind.ofHeader? text :=
  find?_eq_of_perm (SectionKind.vocabulary.subsingleton_sameWords text) p.sections.2

theorem block?_eq (text : Text) : p.block? text = ClassBlockKind.ofHeader? text :=
  find?_eq_of_perm (ClassBlockKind.vocabulary.subsingleton_sameWords text) p.blocks.2

theorem subsection?_eq (text : Text) : p.subsection? text = ActionSectionKind.ofHeader? text :=
  find?_eq_of_perm (ActionSectionKind.vocabulary.subsingleton_sameWords text) p.subsections.2

/-- What a line directly under a class header is if it is read in the given way. -/
def item? : ClassReading → Text → Option ClassItem
  | .property, text => ClassItem.property? text.words
  | .opensSection, text => (p.section? text).map .opensSection
  | .opensBlock, text => (p.block? text).map .opensBlock

/-- What kind of item a line is. -/
def item (text : Text) : ClassItem := (p.items.1.findSome? (p.item? · text)).getD .content

theorem item_eq (text : Text) : p.item text = ClassItem.ofText text := by
  have same : (p.item? · text) = (ClassReading.item? · text) := by
    funext r
    cases r with
    | property => rfl
    | opensSection => rw [item?, section?_eq, ClassReading.item?]
    | opensBlock => rw [item?, block?_eq, ClassReading.item?]
  rw [item, same, findSome?_eq_of_perm (ClassReading.subsingleton_item? text) p.items.2, ClassReading.ofText_eq]

/-- What a line directly under the header of a group opens. -/
def part? (text : Text) : Option PartHeader := p.parts.1.findSome? (PartReading.header? · text)

theorem part?_eq (text : Text) : p.part? text = PartReading.all.findSome? (PartReading.header? · text) :=
  findSome?_eq_of_perm (PartReading.subsingleton_header? text) p.parts.2

/-- Headers of all kinds end in the same words, and a group may be grouped by a field named like another header. -/
example : backwards.section? "FIELD  rules".toList = some .fieldRules ∧
    backwards.item "Create\texit RULES".toList = .opensBlock .createExitRules ∧
    backwards.part? "Exit Rules".toList = some .exit ∧
    backwards.part? "Exit Set Rules".toList = some (.nested (.path ["Exit".toList])) := by decide +kernel

/-! ### Groups -/

open SetRuleGroup (ofParts tooDeep unterminated)

mutual

/-- Reads a group at the given level of nesting. -/
def readGroup (level : Nat) (key : GroupKey) : Node → Noted SetRuleGroup
  | ⟨text, depth, line, span, children⟩ =>
    let parts := readParts level children
    ⟨ofParts key line depth parts.value, unterminated key ⟨text, depth, line, span, children⟩ ++ parts.notes⟩

/-- Reads what stands directly under the header of a group at the given level of nesting. -/
def readParts (level : Nat) : List Node → Noted (List GroupPart)
  | [] => ⟨[], []⟩
  | n :: ns =>
    let rest := readParts level ns
    match p.part? n.text with
    | some .entrance => ⟨.entrance n.bodyText :: rest.value, rest.notes⟩
    | some .exit => ⟨.exit n.bodyText :: rest.value, rest.notes⟩
    | some (.nested key) =>
      if o.admitsLevel (level + 1) then
        let g := readGroup (level + 1) key n
        ⟨.nested g.value :: rest.value, g.notes ++ rest.notes⟩
      else ⟨.rule n :: rest.value, tooDeep o key n :: rest.notes⟩
    | none => ⟨.rule n :: rest.value, rest.notes⟩

end

mutual

theorem readGroup_eq (level : Nat) (key : GroupKey) :
    (n : Node) → p.readGroup o level key n = SetRuleGroup.read o level key n
  | ⟨text, depth, line, span, children⟩ => by
    rw [readGroup, readParts_eq level children, SetRuleGroup.read]

theorem readParts_eq (level : Nat) : (ns : List Node) → p.readParts o level ns = SetRuleGroup.readParts o level ns
  | [] => rfl
  | n :: ns => by
    have group := fun key => readGroup_eq (level + 1) key n
    rw [readParts, SetRuleGroup.readParts, part?_eq]
    simp only [readParts_eq level ns, group, PartReading.all, List.findSome?_cons, List.findSome?_nil, PartReading.header?,
      Node.headerIs]
    cases GroupKey.ofHeader? n.text <;> split_ifs <;> rfl

end

/-! ### Actions -/

open ActionRules (consLine)

/-- Parts the lines under `Action Rules` into runs of plain lines and groups. -/
def readRuns : List Node → Noted (List (List Node ⊕ SetRuleGroup))
  | [] => ⟨[], []⟩
  | n :: ns =>
    let rest := readRuns ns
    match GroupKey.ofHeader? n.text with
    | none => ⟨consLine n rest.value, rest.notes⟩
    | some key =>
      if o.admitsLevel 1 then
        let g := p.readGroup o 1 key n
        ⟨.inr g.value :: rest.value, g.notes ++ rest.notes⟩
      else ⟨consLine n rest.value, tooDeep o key n :: rest.notes⟩

theorem readRuns_eq (forest : List Node) : p.readRuns o forest = ActionRules.readRuns o forest := by
  induction forest with
  | nil => rfl
  | cons n ns ih =>
    rw [readRuns, ActionRules.readRuns, ih]
    cases GroupKey.ofHeader? n.text with
    | none => rfl
    | some key => simp only [readGroup_eq]

/-- Hands out one line under an action. -/
def addPart (parts : Action.Parts) (n : Node) : Action.Parts :=
  match p.subsection? n.text with
  | some kind =>
    let repeated := if Catalog.contains parts.sections kind then parts.repeated ++ [(kind, n)] else parts.repeated
    { parts.addTo kind n.children with current := some kind, repeated := repeated }
  | none =>
    match parts.current with
    | some kind => parts.addTo kind [n]
    | none =>
      match n.qualifiers? o with
      | some qs => { parts with qualifiers := parts.qualifiers ++ qs }
      | none => { parts with body := parts.body ++ [n] }

theorem addPart_eq (parts : Action.Parts) (n : Node) : p.addPart o parts n = parts.add o n := by
  rw [addPart, subsection?_eq]
  rfl

/-- Reads the content of a sub-section; groups stand only in `Action Rules`. -/
def readSection (depth : Nat) (kind : ActionSectionKind) (nodes : List Node) : Noted ActionSection :=
  match kind with
  | .actionRules =>
    let runs := p.readRuns o nodes
    ⟨.actionRules ⟨runs.value.map (ActionRules.item (Action.baseDepth depth nodes))⟩, runs.notes⟩
  | _ => Action.readSection o depth kind nodes

theorem readSection_eq (depth : Nat) (kind : ActionSectionKind) (nodes : List Node) :
    p.readSection o depth kind nodes = Action.readSection o depth kind nodes := by
  cases kind with
  | actionRules =>
    rw [readSection, readRuns_eq]
    rfl
  | _ => rfl

/-- Reads an action; a line that is no typed header gives none. -/
def readAction (n : Node) : Noted (Option Action) :=
  match Header.recognize o.phrases n.text n.line n.span with
  | .error _ => ⟨none, [n.note (.malformedActionHeader n.text)]⟩
  | .ok header =>
    let parts := n.children.foldl (p.addPart o) {}
    let sections := Noted.gather (fun (kind, nodes) =>
      let content := p.readSection o n.depth kind nodes
      ⟨some (kind, content.value), content.notes⟩) parts.sections
    ⟨some
      { header := header.addQualifiers parts.qualifiers
        kind := ActionKind.ofType (header.typeName.getD [])
        body := parts.body
        sections := sections.value },
      parts.repeated.map (Action.repeatedSection header.name) ++ sections.notes⟩

theorem readAction_eq (n : Node) : p.readAction o n = Action.read o n := by
  have handedOut : p.addPart o = Action.Parts.add o := funext fun parts => funext (p.addPart_eq o parts)
  rw [readAction, Action.read, handedOut]
  simp only [readSection_eq]
  rfl

/-! ### Classes -/

open Document (Draft)

/-- Reads one declaration of a section; a line that is no header gives none. -/
def readDeclaration (kind : SectionKind) (n : Node) : Noted (Option Declaration) :=
  match kind with
  | .actions =>
    let a := p.readAction o n
    ⟨a.value.map .action, a.notes⟩
  | _ => Declaration.read o kind n

/-- Reads the declarations of a section in order. -/
def readDeclarations (kind : SectionKind) (nodes : List Node) : Noted (List Declaration) :=
  Noted.gather (p.readDeclaration o kind) nodes

theorem readDeclarations_eq (kind : SectionKind) (nodes : List Node) :
    p.readDeclarations o kind nodes = Declaration.readAll o kind nodes := by
  have each : p.readDeclaration o kind = Declaration.read o kind := by
    funext n
    cases kind with
    | actions =>
      rw [readDeclaration, readAction_eq]
      rfl
    | _ => rfl
  rw [readDeclarations, each, Declaration.readAll]

/-- Takes up one item of a class. -/
def add (d : Draft) (n : Node) : Draft :=
  match p.item n.text with
  | .owner name => { d with document := { d.document with owner := some name } }
  | .classPrefix text => { d with document := { d.document with classPrefix := some text } }
  | .opensSection kind =>
    let isKnown := Catalog.contains d.document.sections kind
    let noted := { d with current := some kind, notes := d.notes ++ Draft.repeated n isKnown kind.name }
    noted.addTo kind n.line (p.readDeclarations o kind n.children)
  | .opensBlock kind => d.openBlock kind n
  | .content =>
    match d.current with
    | some kind => d.addTo kind n.line (p.readDeclarations o kind [n])
    | none => { d with notes := d.notes ++ [n.note (.unknownSectionContent n.text)] }

theorem add_eq (d : Draft) (n : Node) : p.add o d n = d.add o n := by
  rw [add, item_eq, Draft.add]
  simp only [readDeclarations_eq]
  rfl

/-- The document of an outline; `notes` are the problems found before. -/
def classify (notes : List Diagnostic) (forest : List Node) : Reading :=
  match Document.classRoot? o forest with
  | some (header, items) =>
    let start : Document := { name := some header.name, classType := header.typeName }
    (items.foldl (p.add o) ⟨start, none, notes⟩).close
  | none => (forest.foldl (p.add o) ⟨{}, none, notes⟩).closeHeadless

/-- **Headers are told apart.** Texts that are the same up to letter case and spacing form classes. A line is the header
of at most one section, of at most one class-level rule block and of at most one sub-section; directly under a class
header it can be read in at most one way, and so it can directly under the header of a group. So the headers are found
in any order, and any order gives the same document and the same problems. -/
theorem classify_any_order :
    Equivalence (fun s t : Text => Text.sameWords s t = true) ∧
    (∀ text : Text,
      {k : SectionKind | Text.sameWords text k.name = true}.Subsingleton ∧
      {k : ClassBlockKind | Text.sameWords text k.name = true}.Subsingleton ∧
      {r : ClassReading | (r.item? text).isSome = true}.Subsingleton ∧
      {k : ActionSectionKind | Text.sameWords text k.name = true}.Subsingleton ∧
      {r : PartReading | (r.header? text).isSome = true}.Subsingleton) ∧
    (∀ (p : Precedence) (text : Text), p.section? text = SectionKind.ofHeader? text ∧
      p.block? text = ClassBlockKind.ofHeader? text ∧ p.subsection? text = ActionSectionKind.ofHeader? text) ∧
    ∀ (p : Precedence) (o : Options) (notes : List Diagnostic) (forest : List Node),
      p.classify o notes forest = Document.classify o notes forest := by
  refine ⟨Text.equivalence_sameWords, fun text => ?_, fun p text => ?_, fun p o notes forest => ?_⟩
  · exact ⟨SectionKind.vocabulary.subsingleton_sameWords text, ClassBlockKind.vocabulary.subsingleton_sameWords text,
      ClassReading.subsingleton_item? text, ActionSectionKind.vocabulary.subsingleton_sameWords text,
      PartReading.subsingleton_header? text⟩
  · exact ⟨p.section?_eq text, p.block?_eq text, p.subsection?_eq text⟩
  · have step : p.add o = Draft.add o := funext fun d => funext (p.add_eq o d)
    rw [classify, step, Document.classify]
    rfl

end Precedence

end BusinessClass
