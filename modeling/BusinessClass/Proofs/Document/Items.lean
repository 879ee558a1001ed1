import BusinessClass.Proofs.Document.Sections
import BusinessClass.Proofs.Outline.Layout
import BusinessClass.Proofs.SetRules.RoundTrip

/-!
# What a document is made of

The items of a class are taken up one after the other. Each of them stands in the section that is open
in front of it, and what it adds to the document depends on nothing else.

* `Document.place` puts items in their sections; `Placed.declarations`, `Placed.block?`, `Placed.owner?`
  and `Placed.classPrefix?` say what each of them adds.
* `Document.place_concat`: an item stands in the section that the items in front of it belong to.
* `Document.MadeOf` says that a document consists of what items added. `Document.madeOf_ofItems` derives it
  for every run from what the items of a run add up to.
-/

namespace BusinessClass

namespace Document

/-- An item of a class and the section that is open in front of it. -/
structure Placed where
  current : Option SectionKind
  node : Node

namespace Placed

/-- What kind of item it is. -/
def item (p : Placed) : ClassItem := .ofText p.node.text

/-- The section that is open behind the item. -/
def next (p : Placed) : Option SectionKind :=
  match p.item with
  | .opensSection kind => some kind
  | .opensBlock _ => none
  | _ => p.current

/-- The lines of the item that are read as declarations, each with its section. -/
def declarations (p : Placed) : List (SectionKind × Node) :=
  match p.item with
  | .opensSection kind => p.node.children.map (kind, ·)
  | .content => (p.current.map (·, p.node)).toList
  | _ => []

/-- The rule block that the item opens, with the line that opens it. -/
def block? (p : Placed) : Option (ClassBlockKind × Node) :=
  match p.item with
  | .opensBlock kind => some (kind, p.node)
  | _ => none

/-- The owner that the item states. -/
def owner? (p : Placed) : Option Text :=
  match p.item with
  | .owner name => some name
  | _ => none

/-- The prefix that the item states. -/
def classPrefix? (p : Placed) : Option Text :=
  match p.item with
  | .classPrefix text => some text
  | _ => none

theorem owner?_eq_some_iff {p : Placed} {v : Text} : p.owner? = some v ↔ p.item = .owner v := by
  rw [owner?]
  cases p.item <;> simp

theorem classPrefix?_eq_some_iff {p : Placed} {v : Text} :
    p.classPrefix? = some v ↔ p.item = .classPrefix v := by
  rw [classPrefix?]
  cases p.item <;> simp

end Placed

/-- The items of a class in their sections. -/
def place (current : Option SectionKind) : List Node → List Placed
  | [] => []
  | n :: ns => ⟨current, n⟩ :: place (Placed.next ⟨current, n⟩) ns

/-- The items of a class whose outline starts with the class header, in their sections. -/
def placedItems : List Node → List Placed
  | [] => []
  | root :: roots => place none (root.children ++ roots)

theorem node_mem_of_mem_place {current : Option SectionKind} {items : List Node} :
    ∀ p ∈ place current items, p.node ∈ items := by
  induction items generalizing current with
  | nil => simp [place]
  | cons n ns ih =>
    intro p hp
    rcases List.mem_cons.1 hp with rfl | hp
    · exact List.mem_cons_self
    · exact List.mem_cons_of_mem n (ih p hp)

/-- The lines of an item that are read as declarations are the item itself or stand directly under it. -/
theorem node_mem_of_mem_declarations {current : Option SectionKind} {items : List Node} :
    ∀ q ∈ (place current items).flatMap Placed.declarations,
      q.2 ∈ items ∨ ∃ n ∈ items, q.2 ∈ n.children := by
  intro q hq
  obtain ⟨p, hp, hq⟩ := List.mem_flatMap.1 hq
  have mem := node_mem_of_mem_place p hp
  unfold Placed.declarations at hq
  split at hq
  · obtain ⟨c, hc, rfl⟩ := List.mem_map.1 hq
    exact Or.inr ⟨p.node, mem, hc⟩
  · obtain ⟨kind, -, rfl⟩ := Option.map_eq_some_iff.1 (Option.mem_toList.1 hq)
    exact Or.inl mem
  · cases hq

/-- The declarations of a section among lines that are read as declarations. -/
def declared (kind : SectionKind) (tagged : List (SectionKind × Node)) : List Declaration :=
  tagged.filterMap fun q => if q.1 = kind then (Declaration.read {} q.1 q.2).value else none

theorem declared_append (kind : SectionKind) (s t : List (SectionKind × Node)) :
    declared kind (s ++ t) = declared kind s ++ declared kind t := List.filterMap_append

/-- Lines that are read as declarations of one section add to no other. -/
theorem declared_map (kind k : SectionKind) (nodes : List Node) : declared kind (nodes.map (k, ·))
    = if k = kind then (Declaration.readAll {} kind nodes).value else [] := by
  rw [declared, List.filterMap_map]
  split
  · rename_i same
    subst same
    rw [Declaration.readAll, Noted.value_gather]
    exact congrArg (List.filterMap · nodes) (funext fun n => if_pos rfl)
  · rename_i other
    exact List.filterMap_eq_nil_iff.2 fun n _ => if_neg other

/-- The lines of a rule block among lines that open rule blocks. -/
def blockLines (kind : ClassBlockKind) (opened : List (ClassBlockKind × Node)) : List Text :=
  opened.flatMap fun q => if q.1 = kind then q.2.bodyText.lines else []

/-- A document consists of what the items that are done have added to it. -/
structure MadeOf (done : List Placed) (d : Document) : Prop where
  owner : d.owner = (done.filterMap Placed.owner?).getLast?
  classPrefix : d.classPrefix = (done.filterMap Placed.classPrefix?).getLast?
  keys : (Catalog.keys d.sections).Nodup
  sections : ∀ kind s, d.section? kind = some s →
    s.kind = kind ∧ s.declarations = declared kind (done.flatMap Placed.declarations)
  opened : ∀ p ∈ done, ∀ kind, p.item = .opensSection kind → (d.section? kind).isSome = true
  tagged : ∀ q ∈ done.flatMap Placed.declarations, (d.section? q.1).isSome = true
  blockKeys : (Catalog.keys d.classRules).Nodup
  blocks : ∀ kind b, d.classRule? kind = some b → b.body.IsBlock ∧
    b.body.lines = blockLines kind (done.filterMap Placed.block?) ∧
    ∃ line span, b.header = ⟨kind.name, none, none, [], line, span⟩
  openedBlocks : ∀ q ∈ done.filterMap Placed.block?, (d.classRule? q.1).isSome = true

/-! ### Where an item stands -/

/-- An item that opens something is followed by what it opens, any other item by what is open in front of it. -/
theorem Placed.next_eq (p : Placed) :
    p.next = if isHeader p.node then openedSection? p.node else p.current := by
  rw [Placed.next, Placed.item, isHeader, openedSection?, openedBlock?]
  cases ClassItem.ofText p.node.text <;> rfl

/-- What is open behind an item is what the items up to it belong to. -/
theorem next_belonging (items : List Node) (n : Node) :
    Placed.next ⟨belonging items, n⟩ = belonging (items ++ [n]) := by
  rw [Placed.next_eq, belonging_concat]

/-- Each item stands in the section that the items in front of it belong to. -/
theorem place_concat (items : List Node) (n : Node) :
    place none (items ++ [n]) = place none items ++ [⟨belonging items, n⟩] := by
  -- Over what is still to be placed, the items in front of it left free.
  have behind : ∀ rest front : List Node, place (belonging front) (rest ++ [n])
      = place (belonging front) rest ++ [⟨belonging (front ++ rest), n⟩] := by
    intro rest
    induction rest with
    | nil =>
      intro front
      rw [List.append_nil]
      rfl
    | cons m rest ih =>
      intro front
      rw [List.cons_append, place, place, next_belonging, ih, List.append_assoc]
      rfl
  exact behind items []

theorem filter_concat_of_property {items : List Node} {n : Node} (property : isProperty n = true) :
    (items ++ [n]).filter (fun n => !isProperty n) = items.filter fun n => !isProperty n := by
  simp [List.filter_append, property]

theorem filter_concat_of_content {items : List Node} {n : Node} (content : isProperty n = false) :
    (items ++ [n]).filter (fun n => !isProperty n) = (items.filter fun n => !isProperty n) ++ [n] := by
  simp [List.filter_append, content]

/-- Properties have no part in what items belong to. -/
theorem belonging_filter (items : List Node) :
    belonging (items.filter fun n => !isProperty n) = belonging items := by
  induction items using List.reverseRecOn with
  | nil => rfl
  | append_singleton items n ih =>
    cases property : isProperty n with
    | true =>
      obtain ⟨noSection, noBlock⟩ := opens_none_of_property property
      rw [filter_concat_of_property property, ih, belonging_concat, isHeader, noSection, noBlock]
      rfl
    | false => rw [filter_concat_of_content property, belonging_concat, belonging_concat, ih]

/-- What items open is opened by those that are no properties. -/
theorem filterMap_filter_of_property {κ : Type} {f : Node → Option κ}
    (opensNothing : ∀ n, isProperty n = true → f n = none) (items : List Node) :
    (items.filter fun n => !isProperty n).filterMap f = items.filterMap f := by
  rw [List.filterMap_filter]
  refine List.filterMap_congr fun n _ => ?_
  cases property : isProperty n with
  | true => exact (opensNothing n property).symm
  | false => rfl

/-! ### What an item adds -/

theorem Placed.declarations_of_property {p : Placed} (property : isProperty p.node = true) :
    p.declarations = [] := by
  rw [isProperty] at property
  rw [Placed.declarations, Placed.item]
  cases item : ClassItem.ofText p.node.text <;> simp_all

/-- An item other than a property offers its lines to the section that is open behind it. -/
theorem Placed.declarations_eq {p : Placed} (content : isProperty p.node = false) :
    p.declarations = p.next.toList.flatMap fun kind => (offered p.node).map (kind, ·) := by
  rw [isProperty] at content
  rw [Placed.declarations, Placed.next, Placed.item, offered, openedSection?]
  cases item : ClassItem.ofText p.node.text with
  | content => cases p.current <;> rfl
  | opensSection kind => simp
  | opensBlock kind => rfl
  | _ => simp [item] at content

/-- What is read as a declaration belongs to the section that is open behind its item. -/
theorem Placed.next_of_mem_declarations {p : Placed} {q : SectionKind × Node} (hq : q ∈ p.declarations) :
    p.next = some q.1 := by
  cases property : isProperty p.node with
  | true =>
    rw [declarations_of_property property] at hq
    cases hq
  | false =>
    rw [declarations_eq property] at hq
    obtain ⟨kind, next, hq⟩ := List.mem_flatMap.1 hq
    obtain ⟨n, -, rfl⟩ := List.mem_map.1 hq
    exact Option.mem_toList.1 next

/-- A section is open behind an item only if an item up to there opens it. -/
theorem mem_of_next_eq {items : List Node} {kind : SectionKind} :
    ∀ p ∈ place none items, p.next = some kind → kind ∈ items.filterMap openedSection? := by
  induction items using List.reverseRecOn with
  | nil => simp [place]
  | append_singleton items n ih =>
    intro p hp opened
    rw [place_concat] at hp
    rcases List.mem_append.1 hp with hp | hp
    · rw [List.filterMap_append]
      exact List.mem_append_left _ (ih p hp opened)
    · rw [List.mem_singleton.1 hp, next_belonging] at opened
      exact mem_of_belonging opened

/-- The declarations of a section are what the items offer to it. -/
theorem declared_place (kind : SectionKind) (items : List Node) :
    declared kind ((place none items).flatMap Placed.declarations)
      = declarationsOf {} kind (items.filter fun n => !isProperty n) := by
  induction items using List.reverseRecOn with
  | nil => rfl
  | append_singleton items n ih =>
    rw [place_concat, List.flatMap_append, List.flatMap_singleton, declared_append, ih]
    -- A property offers no declaration; any other item offers to the section it belongs to.
    cases property : isProperty n with
    | true =>
      rw [filter_concat_of_property property, Placed.declarations_of_property property]
      exact List.append_nil _
    | false =>
      rw [filter_concat_of_content property, declarationsOf_concat, ← filter_concat_of_content property,
        belonging_filter, Placed.declarations_eq property, next_belonging]
      cases belonging (items ++ [n]) with
      | none => rfl
      | some k =>
        rw [Option.toList_some, List.flatMap_singleton, declared_map]
        simp only [Option.some.injEq]

theorem Placed.block?_eq (p : Placed) : p.block? = (openedBlock? p.node).map (·, p.node) := by
  rw [Placed.block?, Placed.item, openedBlock?]
  cases ClassItem.ofText p.node.text <;> rfl

/-- The lines of a rule block are those under its headers. -/
theorem blockLines_place (kind : ClassBlockKind) (items : List Node) :
    blockLines kind ((place none items).filterMap Placed.block?)
      = ((items.filter fun n => !isProperty n).filter (openedBlock? · == some kind)).flatMap
          fun n => n.bodyText.lines := by
  induction items using List.reverseRecOn with
  | nil => rfl
  | append_singleton items n ih =>
    rw [place_concat, filterMap_concat, blockLines, List.flatMap_append, ← blockLines, ih, Placed.block?_eq]
    cases property : isProperty n with
    | true =>
      rw [filter_concat_of_property property, (opens_none_of_property property).2]
      exact List.append_nil _
    | false =>
      rw [filter_concat_of_content property, List.filter_append, List.flatMap_append]
      cases opens : openedBlock? n with
      | none => simp [opens]
      | some k => by_cases same : k = kind <;> simp [opens, same]

/-! ### Owner and prefix -/

/-- The owner and the prefix are what the last items that state them say. -/
theorem stated_ofItems (name classType : Option Text) (notes : List Diagnostic) (items : List Node) :
    (Draft.ofItems {} { name := name, classType := classType } notes items).document.owner
        = ((place none items).filterMap Placed.owner?).getLast? ∧
      (Draft.ofItems {} { name := name, classType := classType } notes items).document.classPrefix
        = ((place none items).filterMap Placed.classPrefix?).getLast? := by
  have step (d : Document) (p : Placed) : (addProperty d p.node).owner = p.owner?.or d.owner ∧
      (addProperty d p.node).classPrefix = p.classPrefix?.or d.classPrefix := by
    rw [addProperty, Placed.owner?, Placed.classPrefix?, Placed.item]
    cases ClassItem.ofText p.node.text <;> exact ⟨rfl, rfl⟩
  have stated : (items.foldl addProperty { name := name, classType := classType }).owner
        = ((place none items).filterMap Placed.owner?).getLast? ∧
      (items.foldl addProperty { name := name, classType := classType }).classPrefix
        = ((place none items).filterMap Placed.classPrefix?).getLast? := by
    induction items using List.reverseRecOn with
    | nil => exact ⟨rfl, rfl⟩
    | append_singleton items n ih =>
      obtain ⟨owner, classPrefix⟩ := step (items.foldl addProperty { name := name, classType := classType })
        ⟨belonging items, n⟩
      rw [List.foldl_append, List.foldl_cons, List.foldl_nil, place_concat, getLast?_filterMap_concat,
        getLast?_filterMap_concat, owner, classPrefix, ih.1, ih.2]
      exact ⟨rfl, rfl⟩
  have frames := frame_ofItems {} { name := name, classType := classType } notes items
  exact ⟨(congrArg owner frames).trans stated.1, (congrArg classPrefix frames).trans stated.2⟩

/-! ### Taking up items -/

/-- A document that items are taken up into consists of what they add. -/
theorem madeOf_ofItems (name classType : Option Text) (notes : List Diagnostic) {items : List Node}
    (tidy : Forest.Tidy items) :
    (Draft.ofItems {} { name := name, classType := classType } notes items).document.MadeOf
      (place none items) := by
  obtain ⟨owner, classPrefix⟩ := stated_ofItems name classType notes items
  have sorts := Draft.sorts_ofItems {} { name := name, classType := classType } rfl rfl notes items
  generalize Draft.ofItems {} { name := name, classType := classType } notes items = d at *
  have opensSection := filterMap_filter_of_property (fun n h => (opens_none_of_property h).1) items
  have opensBlock := filterMap_filter_of_property (fun n h => (opens_none_of_property h).2) items
  -- Sections and rule blocks are there exactly if an item opens them.
  have section_eq (kind : SectionKind) : d.document.section? kind
      = if kind ∈ items.filterMap openedSection? then
          some (sectionOf {} (items.filter fun n => !isProperty n) kind) else none := by
    rw [section?, sorts.sections, Catalog.get?_map_self, sectionKinds, opensSection]
    simp only [List.mem_eraseDups]
  have block_eq (kind : ClassBlockKind) : d.document.classRule? kind
      = if kind ∈ items.filterMap openedBlock? then
          some (blockOf (items.filter fun n => !isProperty n) kind) else none := by
    rw [classRule?, sorts.classRules, Catalog.get?_map_self, blockKinds, opensBlock]
    simp only [List.mem_eraseDups]
  have opened {p : Placed} (hp : p ∈ place none items) {kind : SectionKind} (next : p.next = some kind) :
      (d.document.section? kind).isSome = true := by
    rw [section_eq, if_pos (mem_of_next_eq p hp next)]
    rfl
  refine ⟨owner, classPrefix, ?_, fun kind s found => ?_, fun p hp kind item => ?_, fun q hq => ?_, ?_,
    fun kind b found => ?_, fun q hq => ?_⟩
  · rw [sorts.keys_sections]
    exact Catalog.nodup_eraseDups _
  · rw [section_eq] at found
    split at found
    · obtain rfl := Option.some.inj found
      exact ⟨rfl, (declared_place kind items).symm⟩
    · cases found
  · exact opened hp (by rw [Placed.next, item])
  · obtain ⟨p, hp, hq⟩ := List.mem_flatMap.1 hq
    exact opened hp (Placed.next_of_mem_declarations hq)
  · rw [sorts.keys_classRules]
    exact Catalog.nodup_eraseDups _
  · rw [block_eq] at found
    split at found
    · obtain rfl := Option.some.inj found
      have blocks : ∀ t ∈ ((items.filter fun n => !isProperty n).filter
          (openedBlock? · == some kind)).map Node.bodyText, t.IsBlock := by
        intro t ht
        obtain ⟨n, hn, rfl⟩ := List.mem_map.1 ht
        exact Forest.isBlock_text (tidy.children (List.mem_of_mem_filter (List.mem_of_mem_filter hn))) _
      refine ⟨Text.isBlock_merge blocks, ?_, _, _, rfl⟩
      rw [blockLines_place, blockOf, Text.lines_merge blocks, List.flatMap_map]
    · cases found
  · obtain ⟨p, hp, hq⟩ := List.mem_filterMap.1 hq
    rw [Placed.block?_eq] at hq
    obtain ⟨kind, opens, rfl⟩ := Option.map_eq_some_iff.1 hq
    rw [block_eq, if_pos (List.mem_filterMap.2 ⟨p.node, node_mem_of_mem_place p hp, opens⟩)]
    rfl

end Document

end BusinessClass
