import BusinessClass.Proofs.Document.Action
import BusinessClass.Proofs.Document.Items
import BusinessClass.Proofs.Source.Layout

/-!
# Documents that can be written

What is read can be written: its headers are lines that are read as these headers, its texts are blocks
of lines, and its keys are distinct.

* `Declaration.Writable` and `Document.Writable` say this of a declaration and of a document.
* `Declaration.writable_read` and `Document.writable_read`: whatever the source, it holds of what is read
  from it.
* `Declaration.Writable.renderLines_reread_iff` says which declarations are written in the same lines when
  they are read again.
-/

namespace BusinessClass

open Forest (outline Nested NestedTree Tidy)

/-! ### Declarations -/

namespace Declaration

/-- The declaration can be written as one of that section. -/
inductive Writable : SectionKind → Declaration → Prop
  | simple {kind : SectionKind} {h : Header} {body : List Node} (simple : kind ≠ .actions)
      (splits : Splits h body) : Writable kind (make kind h body)
  | action {a : Action} (writable : a.Writable) : Writable .actions (.action a)

/-- Every declaration that is read can be written. -/
theorem writable_read {kind : SectionKind} {n : Node} (tree : NestedTree n) (content : n.text.IsContent)
    (tidy : Tidy n.children) {d : Declaration} (read : (read {} kind n).value = some d) :
    d.Writable kind := by
  by_cases actions : kind = .actions
  · subst actions
    obtain ⟨a, ha, rfl⟩ := Option.map_eq_some_iff.1 read
    exact .action (Action.writable_read tree content tidy ha)
  · obtain ⟨h, body, split, rfl⟩ := read_eq_some actions read
    exact .simple actions (splits_of_split tree content tidy split)

variable {kind : SectionKind} {d : Declaration}

theorem Writable.flush (h : d.Writable kind) : Lines.Flush d.renderLines := by
  cases h with
  | simple simple splits =>
    rw [renderLines_make]
    exact splits.flush
  | action writable =>
    rw [renderLines]
    exact writable.flush

theorem Writable.isLine (h : d.Writable kind) : ∀ t ∈ d.renderLines, t.IsLine := by
  cases h with
  | simple simple splits =>
    rw [renderLines_make]
    exact splits.isLine
  | action writable =>
    rw [renderLines]
    exact writable.isLine

theorem Writable.of_action {a : Action} (h : Writable kind (.action a)) :
    kind = .actions ∧ a.Writable := by
  generalize hd : Declaration.action a = d at h
  cases h with
  | simple simple splits => cases kind <;> cases hd
  | action writable =>
    cases hd
    exact ⟨rfl, writable⟩

/-- A declaration is an action or written in the same lines when it is read again. -/
theorem Writable.action_or_renderLines (h : d.Writable kind) :
    (∃ a : Action, d = .action a ∧ a.Writable ∧ reread kind d = [.action a.reread]) ∨
      (∀ a, d ≠ .action a) ∧ (reread kind d).flatMap renderLines = d.renderLines := by
  cases h with
  | @simple _ h body simple splits =>
    refine Or.inr ⟨fun a ha => ?_, splits.renderLines_reread simple⟩
    cases kind <;> cases ha
  | @action a writable => exact Or.inl ⟨a, rfl, writable, writable.reread_action⟩

theorem Writable.length_renderLines_reread_le (h : d.Writable kind) :
    ((reread kind d).flatMap renderLines).length ≤ d.renderLines.length := by
  rcases h.action_or_renderLines with ⟨a, rfl, writable, again⟩ | ⟨-, same⟩
  · rw [again, List.flatMap_singleton, renderLines, renderLines]
    exact writable.length_renderLines_reread_le
  · rw [same]

/-- A declaration that is read again is written in the same lines unless it is an action with groups that
stand in another order than the written one. -/
theorem Writable.renderLines_reread_iff (h : d.Writable kind) :
    (reread kind d).flatMap renderLines = d.renderLines
      ↔ ∀ a, d = .action a → ∀ rules ∈ a.rules?, rules.InOrder := by
  rcases h.action_or_renderLines with ⟨a, rfl, writable, again⟩ | ⟨other, same⟩
  · rw [again, List.flatMap_singleton, renderLines, renderLines, writable.renderLines_reread_iff]
    refine ⟨fun all b hb => ?_, fun all => all a rfl⟩
    cases hb
    exact all
  · exact iff_of_true same fun a ha => absurd ha (other a)

end Declaration

/-! ### Headers and properties of a class -/

namespace Text

/-- A word behind other text ends a line. -/
theorem IsWord.isContent {w : Text} (h : w.IsWord) {c : Char} {t : Text} (start : isBlank c = false)
    (slash : c ≠ '/') (lines : ∀ d ∈ t, d ≠ '\n' ∧ d ≠ '\r') : IsContent (c :: t ++ w) := by
  obtain ⟨ne, blank⟩ := h
  have mem {d : Char} (hd : d ∈ c :: t ++ w) : d ≠ '\n' ∧ d ≠ '\r' := by
    have break_blank (hb : isBlank d = false) : d ≠ '\n' ∧ d ≠ '\r' := by
      constructor <;> rintro rfl <;> exact absurd hb (by decide)
    rcases List.mem_append.1 hd with hd | hd
    · rcases List.mem_cons.1 hd with rfl | hd
      · exact break_blank start
      · exact lines d hd
    · exact break_blank (blank d hd)
  refine ⟨by simp, by simpa using start, fun d hd => ?_, fun hd => (mem hd).1 rfl, fun hd => (mem hd).2 rfl, ?_⟩
  · obtain ⟨last, hl⟩ := Option.ne_none_iff_exists'.1 (mt List.getLast?_eq_none_iff.1 ne)
    rw [List.getLast?_append, hl] at hd
    obtain rfl := Option.some.inj hd
    exact blank _ (List.mem_of_getLast? hl)
  · have : ('/' == c) = false := by simpa using slash.symm
    change ('/' == c && _) = false
    rw [this, Bool.false_and]

end Text

namespace ClassItem

theorem property?_eq_some {ws : List Text} {i : ClassItem} (h : property? ws = some i) :
    ∃ a b v, ws = [a, b, v] ∧ (i = .owner v ∨ i = .classPrefix v) := by
  unfold property? at h
  split at h
  · rename_i a b v
    split at h
    · exact ⟨a, b, v, rfl, Or.inl (Option.some.inj h).symm⟩
    · split at h
      · exact ⟨a, b, v, rfl, Or.inr (Option.some.inj h).symm⟩
      · cases h
  · cases h

theorem property?_of_ofText {t : Text} {i : ClassItem} (h : ofText t = i)
    (isProperty : (∃ v, i = .owner v) ∨ ∃ v, i = .classPrefix v) : property? t.words = some i := by
  unfold ofText at h
  cases found : property? t.words with
  | some p =>
    rw [found] at h
    rw [← h]
  | none =>
    rw [found] at h
    rcases isProperty with ⟨v, rfl⟩ | ⟨v, rfl⟩ <;> split at h <;> simp_all

/-- The value of a property is a word. -/
theorem isWord_of_ofText {t v : Text} (h : ofText t = .owner v ∨ ofText t = .classPrefix v) :
    v.IsWord := by
  have found : ∃ i, property? t.words = some i ∧ (i = .owner v ∨ i = .classPrefix v) := by
    rcases h with h | h
    · exact ⟨_, property?_of_ofText h (Or.inl ⟨v, rfl⟩), Or.inl rfl⟩
    · exact ⟨_, property?_of_ofText h (Or.inr ⟨v, rfl⟩), Or.inr rfl⟩
  obtain ⟨i, found, hi⟩ := found
  obtain ⟨a, b, v', words, hv⟩ := property?_eq_some found
  have same : v' = v := by
    rcases hi with rfl | rfl <;> rcases hv with hv | hv <;> cases hv <;> rfl
  subst same
  exact Text.isWord_of_mem_words (t := t) (by rw [words]; simp)

theorem words_property {a b v : Text} (ha : a.IsWord) (hb : b.IsWord) (hv : v.IsWord) :
    Text.words (a ++ ' ' :: b ++ ' ' :: v) = [a, b, v] := by
  have spaced : a ++ ' ' :: b ++ ' ' :: v = Text.unwords [a, b, v] := by
    rw [Text.unwords_cons]
    simp
  rw [spaced]
  refine Text.words_unwords ?_
  simp only [List.mem_cons, List.not_mem_nil, or_false, forall_eq_or_imp, forall_eq]
  exact ⟨ha, hb, hv⟩

theorem ofText_of_property? {t : Text} {i : ClassItem} (h : property? t.words = some i) : ofText t = i := by
  rw [ofText, h]

theorem ofText_owner {v : Text} (word : v.IsWord) : ofText ("owned by ".toList ++ v) = .owner v := by
  have words : Text.words ("owned by ".toList ++ v) = ["owned".toList, "by".toList, v] :=
    words_property (a := "owned".toList) (b := "by".toList) (by decide +kernel) (by decide +kernel) word
  exact ofText_of_property? (by rw [words]; rfl)

theorem ofText_classPrefix {v : Text} (word : v.IsWord) :
    ofText ("prefix is ".toList ++ v) = .classPrefix v := by
  have words : Text.words ("prefix is ".toList ++ v) = ["prefix".toList, "is".toList, v] :=
    words_property (a := "prefix".toList) (b := "is".toList) (by decide +kernel) (by decide +kernel) word
  exact ofText_of_property? (by rw [words]; rfl)

theorem ofText_section (kind : SectionKind) : ofText kind.name = .opensSection kind := by
  cases kind <;> decide

theorem ofText_block (kind : ClassBlockKind) : ofText kind.name = .opensBlock kind := by
  cases kind <;> decide

end ClassItem

namespace Header

/-- A typed header with another article and no qualifiers can be written as well. -/
theorem Typed.titled {h : Header} {ls : List Lexeme} (typed : h.Typed ls) :
    (Header.mk h.name (some .a) h.typeName [] 0 ⟨0, 0⟩).Typed ls where
  name := typed.name
  typeName := typed.typeName
  whole := typed.whole
  article := fun none => (nomatch none)
  plain := typed.plain
  qualifiers := by simp

end Header

/-! ### Documents -/

namespace Document

/-- The header that a class with that name and type is written with. -/
def titleHeader (name : Text) (classType : Option Text) : Header :=
  ⟨name, some .a, classType, [], 0, ⟨0, 0⟩⟩

/-- The document can be written. -/
structure Writable (d : Document) : Prop where
  title : ∀ name ∈ d.name, ∃ ls, (titleHeader name d.classType).Typed ls ∧
    d.classType.any isClassType = true
  untitled : d.name = none → d.classType = none
  owner : ∀ v ∈ d.owner, v.IsWord
  classPrefix : ∀ v ∈ d.classPrefix, v.IsWord
  keys : (Catalog.keys d.sections).Nodup
  sections : ∀ e ∈ d.sections, e.2.kind = e.1 ∧ ∀ x ∈ e.2.declarations, x.Writable e.1
  blockKeys : (Catalog.keys d.classRules).Nodup
  blocks : ∀ e ∈ d.classRules, e.2.body.IsBlock ∧
    ∃ line span, e.2.header = ⟨e.1.name, none, none, [], line, span⟩
  closed : d.closedFromEmpty = true → d = closedEmpty
  headless : d.name = none → d.sections = [] → d.classRules = [] → d = closedEmpty

theorem writable_closedEmpty : closedEmpty.Writable where
  title := by simp [closedEmpty]
  untitled := fun _ => rfl
  owner := by simp [closedEmpty]
  classPrefix := by simp [closedEmpty]
  keys := List.nodup_nil
  sections := by simp [closedEmpty]
  blockKeys := List.nodup_nil
  blocks := by simp [closedEmpty]
  closed := fun _ => rfl
  headless := fun _ _ _ => rfl

/-- The lines of an item that are read as declarations are trees with content. -/
theorem tree_of_mem_declarations {items : List Node} (trees : ∀ n ∈ items, NestedTree n)
    (tidy : Tidy items) {current : Option SectionKind} :
    ∀ q ∈ (place current items).flatMap Placed.declarations,
      NestedTree q.2 ∧ q.2.text.IsContent ∧ Tidy q.2.children := by
  intro q hq
  rcases node_mem_of_mem_declarations q hq with mem | ⟨n, hn, mem⟩
  · exact ⟨trees _ mem, tidy.isContent mem, tidy.children mem⟩
  · have under := tidy.children hn
    exact ⟨(trees n hn).children.tree mem, under.isContent mem, under.children mem⟩

/-- A section consists of declarations that can be written. -/
theorem MadeOf.writable_sections {items : List Node} {d : Document} (made : d.MadeOf (place none items))
    (trees : ∀ n ∈ items, NestedTree n) (tidy : Tidy items) :
    ∀ e ∈ d.sections, e.2.kind = e.1 ∧ ∀ x ∈ e.2.declarations, x.Writable e.1 := by
  rintro ⟨kind, s⟩ he
  obtain ⟨kind_eq, declarations⟩ := made.sections kind s (Catalog.get?_of_mem made.keys he)
  refine ⟨kind_eq, fun x hx => ?_⟩
  rw [declarations] at hx
  obtain ⟨q, hq, read⟩ := List.mem_filterMap.1 hx
  split at read
  · rename_i same
    obtain ⟨tree, content, tidy⟩ := tree_of_mem_declarations trees tidy q hq
    exact same ▸ Declaration.writable_read tree content tidy read
  · cases read

theorem MadeOf.isWord_owner {done : List Placed} {d : Document} (made : d.MadeOf done) :
    ∀ v ∈ d.owner, v.IsWord := by
  intro v hv
  rw [made.owner] at hv
  obtain ⟨p, -, hp⟩ := List.mem_filterMap.1 (List.mem_of_getLast? hv)
  exact ClassItem.isWord_of_ofText (Or.inl (Placed.owner?_eq_some_iff.1 hp))

theorem MadeOf.isWord_classPrefix {done : List Placed} {d : Document} (made : d.MadeOf done) :
    ∀ v ∈ d.classPrefix, v.IsWord := by
  intro v hv
  rw [made.classPrefix] at hv
  obtain ⟨p, -, hp⟩ := List.mem_filterMap.1 (List.mem_of_getLast? hv)
  exact ClassItem.isWord_of_ofText (Or.inr (Placed.classPrefix?_eq_some_iff.1 hp))

/-- The forest of a source. -/
def forest (source : Text) : List Node := Forest.ofLines 0 (Source.lines {} source)

theorem nested_forest (source : Text) : Nested (forest source) := Forest.nested_ofLines _

theorem tidy_forest (source : Text) : Tidy (forest source) := by
  intro l hl
  rw [forest, Forest.lines_ofLines] at hl
  exact Source.isContent_of_mem_lines l hl

theorem classRoot?_eq_some {f : List Node} {r : Header × List Node} (h : classRoot? {} f = some r) :
    ∃ root roots header, f = root :: roots ∧ classHeader? {} root = some header := by
  cases f with
  | nil => cases h
  | cons root roots =>
    obtain ⟨header, found, -⟩ := Option.map_eq_some_iff.1 h
    exact ⟨root, roots, header, rfl, found⟩

/-- A source without a class header is read as what its roots add to an empty document. -/
theorem document_read_headless {source : Text} (headless : classRoot? {} (forest source) = none) :
    (read {} source).document
      = (Draft.ofItems {} {} (indentationNotes {} source) (forest source)).closeHeadless.document := by
  have : (read {} source).document
      = (classify {} (indentationNotes {} source) (forest source)).document := rfl
  rw [this, classify, headless]

/-- A source with a class header is read as what its items add to the header. -/
theorem madeOf_read {source : Text} {root : Node} {roots : List Node} {header : Header}
    (hf : forest source = root :: roots) (found : classHeader? {} root = some header) :
    (read {} source).document.MadeOf (place none (root.children ++ roots)) ∧
      (read {} source).document.name = some header.name ∧
      (read {} source).document.classType = header.typeName ∧
      (read {} source).document.closedFromEmpty = false := by
  have tidy := tidy_forest source
  rw [hf] at tidy
  obtain ⟨-, under, rest⟩ := Forest.tidy_cons.1 tidy
  have read_eq : (read {} source).document
      = (Draft.ofItems {} { name := some header.name, classType := header.typeName }
          (indentationNotes {} source) (root.children ++ roots)).document := by
    have root_eq : classRoot? {} (forest source) = some (header, root.children ++ roots) := by
      rw [hf, classRoot?, found]
      rfl
    have : (read {} source).document
        = (classify {} (indentationNotes {} source) (forest source)).document := rfl
    rw [this, classify, root_eq]
    rfl
  rw [read_eq]
  exact ⟨madeOf_ofItems _ _ _ (Forest.tidy_append.2 ⟨under, rest⟩), title_ofItems _ _ _ _⟩

/-- The items of a class are trees with content. -/
theorem tree_of_mem_items {root : Node} {roots : List Node} (nested : Nested (root :: roots))
    (tidy : Tidy (root :: roots)) :
    (∀ n ∈ root.children ++ roots, NestedTree n) ∧ Tidy (root.children ++ roots) := by
  obtain ⟨-, under, rest⟩ := Forest.tidy_cons.1 tidy
  refine ⟨fun n hn => ?_, Forest.tidy_append.2 ⟨under, rest⟩⟩
  rcases List.mem_append.1 hn with hn | hn
  · exact (nested.tree List.mem_cons_self).children.tree hn
  · exact nested.tree (List.mem_cons_of_mem root hn)

theorem typed_of_classHeader? {n : Node} (content : n.text.IsContent) {header : Header}
    (found : classHeader? {} n = some header) :
    (∃ ls, header.Typed ls) ∧ header.typeName.any isClassType = true := by
  have phrases : ({} : Options).phrases = [] := rfl
  rw [classHeader?, phrases] at found
  cases recognized : Header.recognize [] n.text n.line n.span with
  | error e => rw [recognized] at found; cases found
  | ok h =>
    rw [recognized] at found
    simp only at found
    split at found
    · rename_i isClass
      cases found
      exact ⟨Header.typed_of_recognize recognized content.no_feed content.no_return, isClass⟩
    · cases found

/-- Every document that is read can be written. -/
theorem writable_read (source : Text) : (read {} source).document.Writable := by
  have nested := nested_forest source
  have tidy := tidy_forest source
  have blocks {items : List Node} {d : Document} (made : d.MadeOf (place none items)) :
      ∀ e ∈ d.classRules, e.2.body.IsBlock ∧
        ∃ line span, e.2.header = ⟨e.1.name, none, none, [], line, span⟩ := by
    rintro ⟨kind, b⟩ he
    obtain ⟨block, -, header⟩ := made.blocks kind b (Catalog.get?_of_mem made.blockKeys he)
    exact ⟨block, header⟩
  cases found : classRoot? {} (forest source) with
  | some r =>
    obtain ⟨root, roots, header, hf, found⟩ := classRoot?_eq_some found
    rw [hf] at nested tidy
    obtain ⟨trees, items_tidy⟩ := tree_of_mem_items nested tidy
    obtain ⟨made, name, classType, closed⟩ := madeOf_read hf found
    obtain ⟨⟨ls, typed⟩, isClass⟩ := typed_of_classHeader? (tidy.isContent List.mem_cons_self) found
    refine ⟨fun v hv => ?_, fun none => ?_, made.isWord_owner, made.isWord_classPrefix, made.keys,
      made.writable_sections trees items_tidy, made.blockKeys, blocks made, fun yes => ?_, fun none => ?_⟩
    · rw [name] at hv
      cases hv
      rw [classType]
      exact ⟨ls, typed.titled, isClass⟩
    · rw [name] at none; cases none
    · rw [closed] at yes; cases yes
    · rw [name] at none; cases none
  | none =>
    have made := madeOf_ofItems none none (indentationNotes {} source) tidy
    obtain ⟨name, classType, closed⟩ := title_ofItems {} {} (indentationNotes {} source) (forest source)
    have hd := document_read_headless found
    generalize Draft.ofItems {} {} (indentationNotes {} source) (forest source) = e
      at hd made name classType closed
    rw [hd, Draft.closeHeadless]
    split
    · exact writable_closedEmpty
    · rename_i something
      refine ⟨fun v hv => ?_, fun _ => classType, made.isWord_owner, made.isWord_classPrefix, made.keys,
        made.writable_sections (fun n hn => nested.tree hn) tidy, made.blockKeys, blocks made,
        fun yes => ?_, fun _ sections classRules => ?_⟩
      · rw [name] at hv; cases hv
      · rw [closed] at yes; cases yes
      · rw [show e.document.sections = [] from sections, show e.document.classRules = [] from classRules]
          at something
        exact absurd rfl something

end Document

end BusinessClass
