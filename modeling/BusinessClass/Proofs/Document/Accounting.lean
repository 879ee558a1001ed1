import BusinessClass.Proofs.Document.Keeping
import BusinessClass.Proofs.Document.Regular

/-!
# Lines without a problem are accounted for

Where reading a source notes no problem, every line of it is kept in the document. The one exception are
class properties: the lines under `owned by` and `prefix is` are dropped, and so are all values but the
last.

* `Document.Keeps` says where in a document a line of an item is kept, `Document.Accounts` that all lines
  are.
* `Document.clean_of_notesOf`: where nothing is noted about the items, each was taken up without a note.
* `Document.accounts_iff` says of every source without problems when all its lines are kept.
-/

namespace BusinessClass

open Forest (nodes NestedTree Tidy)

namespace Document

/-! ### Where a document keeps a line -/

/-- The document keeps a line of the item or under it. -/
inductive Keeps (d : Document) (p : Placed) : Node → Prop
  | owner {v : Text} (item : p.item = .owner v) (value : d.owner = some v) : Keeps d p p.node
  | classPrefix {v : Text} (item : p.item = .classPrefix v) (value : d.classPrefix = some v) :
      Keeps d p p.node
  | sectionHeader {kind : SectionKind} (item : p.item = .opensSection kind)
      (found : (d.section? kind).isSome = true) : Keeps d p p.node
  | blockHeader {kind : ClassBlockKind} (item : p.item = .opensBlock kind)
      (found : (d.classRule? kind).isSome = true) : Keeps d p p.node
  | block {kind : ClassBlockKind} {b : RuleBlock} {m : Node} (item : p.item = .opensBlock kind)
      (under : m ∈ nodes p.node.children) (found : d.classRule? kind = some b) (holds : b.body.Holds m) :
      Keeps d p m
  | declaration {q : SectionKind × Node} {s : Section} {x : Declaration} {m : Node}
      (mem : q ∈ p.declarations) (found : d.section? q.1 = some s) (declared : x ∈ s.declarations)
      (heads : x.header.Heads q.2) (under : m ∈ nodes [q.2]) (keeps : x.Keeps q.2 m) : Keeps d p m

/-- The first line of the outline is the class header of the document, and the document keeps every other
line in the item that the line belongs to. -/
def Accounts (d : Document) : List Node → Prop
  | [] => True
  | root :: roots =>
    (∃ header, classHeader? {} root = some header ∧ d.name = some header.name ∧
      d.classType = header.typeName) ∧
    ∀ p ∈ placedItems (root :: roots), ∀ m ∈ nodes [p.node], d.Keeps p m

/-- A property that the item states is that of the document, and nothing stands under the item. -/
def Placed.Stated (d : Document) (p : Placed) : Prop :=
  (∀ v ∈ p.owner?, d.owner = some v ∧ p.node.isLeaf = true) ∧
    ∀ v ∈ p.classPrefix?, d.classPrefix = some v ∧ p.node.isLeaf = true

instance (d : Document) (p : Placed) : Decidable (p.Stated d) := inferInstanceAs (Decidable (_ ∧ _))

/-! ### Items that are taken up without a note -/

/-- The item is taken up without a note, repeated headers aside. -/
structure Placed.Clean (p : Placed) : Prop where
  opened : p.item = .content → p.current ≠ none
  declarations : ∀ q ∈ p.declarations, (Declaration.read {} q.1 q.2).notes = []

theorem notes_readAll {kind : SectionKind} {ns : List Node}
    (clean : (Declaration.readAll {} kind ns).notes = []) :
    ∀ n ∈ ns, (Declaration.read {} kind n).notes = [] := by
  rw [Declaration.readAll, Noted.notes_gather] at clean
  exact List.flatMap_eq_nil_iff.1 clean

/-- An item that nothing is noted about was taken up without a note. -/
theorem clean_of_itemNotes {before : List Node} {n : Node} (clean : itemNotes {} before n = []) :
    Placed.Clean ⟨belonging before, n⟩ := by
  generalize hp : Placed.mk (belonging before) n = p
  have item_eq : p.item = ClassItem.ofText n.text := by rw [← hp, Placed.item]
  rw [itemNotes] at clean
  cases item : ClassItem.ofText n.text with
  | opensSection kind =>
    rw [item] at item_eq clean
    refine ⟨by simp [item_eq], fun q hq => ?_⟩
    rw [Placed.declarations, item_eq, ← hp] at hq
    obtain ⟨c, hc, rfl⟩ := List.mem_map.1 hq
    exact notes_readAll (List.append_eq_nil_iff.1 clean).2 c hc
  | content =>
    rw [item] at item_eq clean
    cases current : belonging before with
    | none => simp [current] at clean
    | some kind =>
      rw [current] at clean
      refine ⟨fun _ => by simp [← hp, current], fun q hq => ?_⟩
      rw [Placed.declarations, item_eq, ← hp, current] at hq
      rw [List.mem_singleton.1 hq]
      exact notes_readAll clean n List.mem_cons_self
  | _ =>
    rw [item] at item_eq
    exact ⟨by simp [item_eq], by simp [Placed.declarations, item_eq]⟩

/-- Where nothing is noted about the items, each of them was taken up without a note. -/
theorem clean_of_notesOf {items : List Node} (clean : notesOf {} (items.filter fun n => !isProperty n) = []) :
    ∀ p ∈ place none items, p.Clean := by
  induction items using List.reverseRecOn with
  | nil => simp [place]
  | append_singleton items n ih =>
    have both : notesOf {} (items.filter fun n => !isProperty n) = [] ∧ Placed.Clean ⟨belonging items, n⟩ := by
      cases property : isProperty n with
      | true =>
        rw [filter_concat_of_property property] at clean
        refine ⟨clean, fun content => ?_, by simp [Placed.declarations_of_property, property]⟩
        rw [Placed.item] at content
        simp [isProperty, content] at property
      | false =>
        rw [filter_concat_of_content property, notesOf_concat] at clean
        obtain ⟨before, last⟩ := List.append_eq_nil_iff.1 clean
        exact ⟨before, belonging_filter items ▸ clean_of_itemNotes last⟩
    intro p hp
    rw [place_concat] at hp
    rcases List.mem_append.1 hp with hp | hp
    · exact ih both.1 p hp
    · rw [List.mem_singleton.1 hp]
      exact both.2

/-- A source that is read without a problem starts with its class header, and each of its items is taken up
without a note. -/
theorem clean_of_diagnostics {source : Text} (clean : (read {} source).diagnostics = []) :
    ∃ root roots header, forest source = root :: roots ∧ classHeader? {} root = some header ∧
      ∀ p ∈ placedItems (root :: roots), p.Clean := by
  have notes : (classify {} (indentationNotes {} source) (forest source)).diagnostics = [] :=
    List.map_eq_nil_iff.1 clean
  cases found : classRoot? {} (forest source) with
  | none =>
    rw [classify, found] at notes
    generalize Draft.ofItems {} {} (indentationNotes {} source) (forest source) = e at notes
    simp only [Draft.closeHeadless] at notes
    split at notes <;> simp at notes
  | some r =>
    obtain ⟨root, roots, header, hf, isHeader⟩ := classRoot?_eq_some found
    refine ⟨root, roots, header, hf, isHeader, ?_⟩
    rw [classify, hf, classRoot?, isHeader] at notes
    have sorts := Draft.sorts_ofItems {} { name := some header.name, classType := header.typeName } rfl rfl
      (indentationNotes {} source) (root.children ++ roots)
    exact clean_of_notesOf (List.append_eq_nil_iff.1 (sorts.notes.symm.trans notes)).2

/-! ### Clean items are kept -/

section Kept

variable {d : Document} {done : List Placed} {p : Placed} (made : d.MadeOf done) (mem : p ∈ done)
  (clean : p.Clean) (tree : NestedTree p.node) (tidy : Tidy p.node.children)

include made mem clean tree tidy

/-- The lines of a declaration of a clean item are kept. -/
theorem keeps_declaration {q : SectionKind × Node} (hq : q ∈ p.declarations) :
    ∀ m ∈ nodes [q.2], d.Keeps p m := by
  intro m hm
  have of_item : NestedTree q.2 ∧ Tidy q.2.children := by
    unfold Placed.declarations at hq
    split at hq
    · obtain ⟨c, hc, rfl⟩ := List.mem_map.1 hq
      exact ⟨tree.children.tree hc, tidy.children hc⟩
    · obtain ⟨kind, -, rfl⟩ := Option.map_eq_some_iff.1 (Option.mem_toList.1 hq)
      exact ⟨tree, tidy⟩
    · cases hq
  obtain ⟨x, value, heads, keeps⟩ := Declaration.keeps_read of_item.1 of_item.2 (clean.declarations q hq)
  have tagged : q ∈ done.flatMap Placed.declarations := List.mem_flatMap.2 ⟨p, mem, hq⟩
  obtain ⟨s, found⟩ := Option.isSome_iff_exists.1 (made.tagged q tagged)
  have declared : x ∈ s.declarations := by
    rw [(made.sections q.1 s found).2]
    exact List.mem_filterMap.2 ⟨q, tagged, by rw [if_pos rfl, value]⟩
  exact .declaration hq found declared heads hm (keeps m hm)

omit clean tree in
/-- The lines of a rule block are kept. -/
theorem keeps_block {kind : ClassBlockKind} (item : p.item = .opensBlock kind) :
    ∀ m ∈ nodes [p.node], d.Keeps p m := by
  intro m hm
  have opened : (kind, p.node) ∈ done.filterMap Placed.block? :=
    List.mem_filterMap.2 ⟨p, mem, by rw [Placed.block?, item]⟩
  obtain ⟨b, found⟩ := Option.isSome_iff_exists.1 (made.openedBlocks _ opened)
  rcases Forest.mem_nodes_singleton.1 hm with rfl | hm
  · exact .blockHeader item (by rw [found]; rfl)
  · refine .block item hm found ?_
    obtain ⟨l, hl, text⟩ := List.mem_map.1 (Forest.holds_text tidy (p.node.depth + 1) hm)
    rw [Text.Holds, (made.blocks kind b found).2.1]
    exact List.mem_map.2 ⟨l, List.mem_flatMap.2 ⟨_, opened, by rw [if_pos rfl]; exact hl⟩, text⟩

/-- A clean item that states its properties as the document has them is kept with all lines under it. -/
theorem keeps_of_clean (stated : p.Stated d) : ∀ m ∈ nodes [p.node], d.Keeps p m := by
  intro m hm
  have only_line (leaf : p.node.isLeaf = true) : m = p.node := by
    have none : p.node.children = [] := by simpa [Node.isLeaf] using leaf
    simpa [none] using hm
  cases item : p.item with
  | owner v =>
    obtain ⟨value, leaf⟩ := stated.1 v (Placed.owner?_eq_some_iff.2 item)
    rw [only_line leaf]
    exact .owner item value
  | classPrefix v =>
    obtain ⟨value, leaf⟩ := stated.2 v (Placed.classPrefix?_eq_some_iff.2 item)
    rw [only_line leaf]
    exact .classPrefix item value
  | opensSection kind =>
    rcases Forest.mem_nodes_singleton.1 hm with rfl | hm
    · exact .sectionHeader item (made.opened p mem kind item)
    · obtain ⟨c, hc, hm⟩ := Forest.mem_nodes_iff.1 hm
      have declaration : (kind, c) ∈ p.declarations := by
        rw [Placed.declarations, item]
        exact List.mem_map_of_mem hc
      exact keeps_declaration made mem clean tree tidy declaration m hm
  | opensBlock kind => exact keeps_block made mem tidy item m hm
  | content =>
    obtain ⟨kind, current⟩ := Option.ne_none_iff_exists'.1 (clean.opened item)
    have declaration : (kind, p.node) ∈ p.declarations := by
      rw [Placed.declarations, item, current]
      exact List.mem_singleton.2 rfl
    exact keeps_declaration made mem clean tree tidy declaration m hm

end Kept

/-- Of an item that states a property, its own line is kept and no other. -/
theorem Keeps.of_property {d : Document} {p : Placed} {m : Node} (keeps : d.Keeps p m) {v : Text} :
    (p.item = .owner v → d.owner = some v ∧ m = p.node) ∧
      (p.item = .classPrefix v → d.classPrefix = some v ∧ m = p.node) := by
  cases keeps with
  | owner item value => simp_all
  | classPrefix item value => simp_all
  | sectionHeader item => simp [item]
  | blockHeader item => simp [item]
  | block item => simp [item]
  | declaration mem =>
    constructor <;> intro item <;> simp [Placed.declarations, item] at mem

/-- Where an item is kept with all lines under it, it states its properties as the document has them. -/
theorem stated_of_keeps {d : Document} {p : Placed} (tree : NestedTree p.node)
    (keeps : ∀ m ∈ nodes [p.node], d.Keeps p m) : p.Stated d := by
  have leaf (only : ∀ m ∈ nodes [p.node], m = p.node) : p.node.isLeaf = true := by
    cases hc : p.node.children with
    | nil => simp [Node.isLeaf, hc]
    | cons c cs =>
      -- a child is deeper than its parent
      have mem : c ∈ p.node.children := by simp [hc]
      have same := only c (Forest.mem_nodes_singleton.2 (Or.inr (by simp [hc])))
      have deeper := tree.lt_depth mem
      rw [same] at deeper
      exact absurd deeper (Nat.lt_irrefl _)
  have self := keeps p.node (Forest.mem_nodes_singleton.2 (Or.inl rfl))
  refine ⟨fun v hv => ?_, fun v hv => ?_⟩
  · have item := Placed.owner?_eq_some_iff.1 hv
    exact ⟨(self.of_property.1 item).1, leaf fun m hm => ((keeps m hm).of_property.1 item).2⟩
  · have item := Placed.classPrefix?_eq_some_iff.1 hv
    exact ⟨(self.of_property.2 item).1, leaf fun m hm => ((keeps m hm).of_property.2 item).2⟩

theorem Accounts.stated {d : Document} {f : List Node} (accounts : d.Accounts f) (nested : Forest.Nested f)
    (tidy : Tidy f) : ∀ p ∈ placedItems f, p.Stated d := by
  cases f with
  | nil => simp [placedItems]
  | cons root roots =>
    intro p hp
    exact stated_of_keeps ((tree_of_mem_items nested tidy).1 _ (node_mem_of_mem_place p hp)) (accounts.2 p hp)

/-! ### Sources without problems -/

/-- A source that is read without a problem is accounted for exactly when every line that states an owner or
a prefix states that of the document and has nothing under it. -/
theorem accounts_iff {source : Text} (clean : (read {} source).diagnostics = []) :
    (read {} source).document.Accounts (forest source)
      ↔ ∀ p ∈ placedItems (forest source), p.Stated (read {} source).document := by
  have nested := nested_forest source
  have tidy := tidy_forest source
  refine ⟨fun accounts => accounts.stated nested tidy, fun stated => ?_⟩
  obtain ⟨root, roots, header, hf, found, clean⟩ := clean_of_diagnostics clean
  obtain ⟨made, name, classType, -⟩ := madeOf_read hf found
  rw [hf] at nested tidy stated ⊢
  obtain ⟨trees, items_tidy⟩ := tree_of_mem_items nested tidy
  refine ⟨⟨header, found, name, classType⟩, fun p hp => ?_⟩
  have mem := node_mem_of_mem_place p hp
  exact keeps_of_clean made hp (clean p hp) (trees _ mem) (items_tidy.children mem) (stated p hp)

theorem accounts_orderSource : (read {} orderSource).diagnostics = [] ∧
    (read {} orderSource).document.Accounts (forest orderSource) := by
  have clean : (read {} orderSource).diagnostics = [] := by decide +kernel
  have stated : ∀ p ∈ placedItems (forest orderSource), p.Stated (read {} orderSource).document := by
    decide +kernel
  exact ⟨clean, (accounts_iff clean).2 stated⟩

/-- A class with a line under its owner. -/
def lostSource : Text := Lines.text (
  ["Widget is a BusinessClass", "\towned by Inventory", "\t\tLost line", "\tPersistent Fields"].map String.toList)

theorem not_accounts_lostSource : (read {} lostSource).diagnostics = [] ∧
    ¬ (read {} lostSource).document.Accounts (forest lostSource) := by
  have lost : ¬ ∀ p ∈ placedItems (forest lostSource), p.Stated (read {} lostSource).document := by
    decide +kernel
  refine ⟨by decide +kernel, fun accounts => lost ?_⟩
  exact accounts.stated (nested_forest lostSource) (tidy_forest lostSource)

end Document

end BusinessClass
