import BusinessClass.Proofs.Document.Writable
import BusinessClass.Proofs.SetRules.Keeping

/-!
# Lines that a document keeps

Where reading a declaration notes no problem, every line of its tree is kept: as a header, among the
qualifiers of the declaration, in a body or in a text.

* `Declaration.Keeps` and `ActionSection.Keeps` say where a line is kept.
* `Action.mem_contents_iff`: what stands in a sub-section is what the sub-section is given.
* `Declaration.keeps_read`: a declaration that is read without a note keeps every line of its tree.
-/

namespace BusinessClass

open Forest (nodes NestedTree Tidy)

/-! ### Where a line is kept -/

namespace Header

/-- The header is that of the line, with qualifiers added. -/
def Heads (h : Header) (n : Node) : Prop :=
  ∃ g qs, Header.ofText [] n.text n.line n.span = .ok g ∧ h = g.addQualifiers qs

end Header

namespace Declaration

/-- The body of the declaration stores the line. -/
def Stores : Declaration → Node → Prop
  | .field d, m => m ∈ nodes d.body
  | .relation d, m => m ∈ nodes d.body
  | .setDefinition d, m => m ∈ nodes d.body
  | .condition d, m => d.definition.Holds m
  | .action d, m => m ∈ nodes d.body
  | .ruleBlock d, m => d.body.Holds m

end Declaration

/-- The lines directly in sub-sections of an action, each with its sub-section: what stands under the
header, and what follows it up to the next header. -/
def Action.contents (current : Option ActionSectionKind) : List Node → List (ActionSectionKind × Node)
  | [] => []
  | n :: ns =>
    match ActionSectionKind.ofHeader? n.text with
    | some kind => n.children.map (kind, ·) ++ contents (some kind) ns
    | none => (current.map (·, n)).toList ++ contents current ns

mutual

/-- The declaration that is read from the line `n` keeps a line of `n` or under it. -/
inductive Declaration.Keeps : Declaration → Node → Node → Prop
  | header {x : Declaration} {n : Node} (heads : x.header.Heads n) : Declaration.Keeps x n n
  | qualifiers {x : Declaration} {n m : Node} {qs : List Text} (mem : m ∈ n.children)
      (line : m.qualifiers? {} = some qs) (added : ∀ q ∈ qs, q ∈ x.header.qualifiers) : Declaration.Keeps x n m
  | body {x : Declaration} {n m : Node} (under : m ∈ nodes n.children) (stored : x.Stores m) : Declaration.Keeps x n m
  | subsectionHeader {a : Action} {n c : Node} {kind : ActionSectionKind} (mem : c ∈ n.children)
      (header : ActionSectionKind.ofHeader? c.text = some kind) (found : (a.section? kind).isSome = true) :
      Declaration.Keeps (.action a) n c
  | subsection {a : Action} {n m : Node} {q : ActionSectionKind × Node} {content : ActionSection}
      (mem : q ∈ Action.contents none n.children) (found : a.section? q.1 = some content)
      (under : m ∈ nodes [q.2]) (keeps : ActionSection.Keeps content q.2 m) : Declaration.Keeps (.action a) n m

/-- The content of a sub-section keeps a line of `n` or under it, where `n` is directly in it. -/
inductive ActionSection.Keeps : ActionSection → Node → Node → Prop
  | field {ds : List Declaration} {x : Declaration} {n m : Node} (mem : x ∈ ds) (heads : x.header.Heads n)
      (keeps : Declaration.Keeps x n m) : ActionSection.Keeps (.fields ds) n m
  | entry {ns : List Node} {n m : Node} (mem : m ∈ nodes ns) : ActionSection.Keeps (.entries ns) n m
  | rule {t : Text} {n m : Node} (holds : t.Holds m) : ActionSection.Keeps (.rules t) n m
  | selection {s : InstanceSelection} {n m : Node} (holds : s.text.Holds m) : ActionSection.Keeps (.selection s) n m
  | actionRules {rules : ActionRules} {n m : Node} (keeps : rules.Keeps n m) : ActionSection.Keeps (.actionRules rules) n m

end

/-! ### Declarations other than actions -/

namespace Declaration

theorem header_make (kind : SectionKind) (h : Header) (body : List Node) : (make kind h body).header = h := by
  cases kind <;> rfl

theorem stores_make (kind : SectionKind) (h : Header) {body : List Node} (tidy : Tidy body) {m : Node}
    (mem : m ∈ nodes body) : (make kind h body).Stores m := by
  cases kind with
  | conditions | fieldRules | ruleBlocks => exact Forest.holds_text tidy _ mem
  | _ => exact mem

/-- A line of qualifiers has nothing under it. -/
theorem eq_of_mem_qualifiers {c m : Node} {qs : List Text} (line : c.qualifiers? {} = some qs)
    (mem : m ∈ nodes [c]) : m = c := by
  unfold Node.qualifiers? at line
  split at line
  · rename_i leaf
    have none : c.children = [] := by simpa [Node.isLeaf] using leaf
    simpa [none] using mem
  · cases line

/-- Reading header and body of a declaration keeps every line of its tree. -/
theorem keeps_make (kind : SectionKind) {n : Node} (tidy : Tidy n.children) {h : Header} {body : List Node}
    (split_eq : split {} n = .ok (h, body)) :
    h.Heads n ∧ ∀ m ∈ nodes [n], (make kind h body).Keeps n m := by
  obtain ⟨g, read, rfl, rfl⟩ := split_eq_ok split_eq
  have heads : (g.addQualifiers (n.children.filterMap (Node.qualifiers? {})).flatten).Heads n :=
    ⟨g, _, read, rfl⟩
  refine ⟨heads, fun m hm => ?_⟩
  rcases Forest.mem_nodes_singleton.1 hm with rfl | hm
  · exact .header (by rwa [header_make])
  obtain ⟨c, hc, under⟩ := Forest.mem_nodes_iff.1 hm
  cases line : c.qualifiers? {} with
  | some qs =>
    obtain rfl := eq_of_mem_qualifiers line under
    refine .qualifiers hc line fun q hq => ?_
    rw [header_make]
    refine List.mem_append_right _ (List.mem_flatten.2 ⟨qs, ?_, hq⟩)
    exact List.mem_filterMap.2 ⟨m, hc, line⟩
  | none =>
    have mem : c ∈ n.children.filter fun child => (child.qualifiers? {}).isNone :=
      List.mem_filter.2 ⟨hc, by rw [line]; rfl⟩
    exact .body hm (stores_make kind _ (tidy.sublist List.filter_sublist)
      (Forest.mem_nodes_iff.2 ⟨c, mem, under⟩))

theorem notes_ofSplit (n : Node) (make : Header → List Node → Declaration) (clean : (ofSplit {} n make).notes = []) :
    ∃ h body, split {} n = .ok (h, body) := by
  unfold ofSplit at clean
  split at clean
  · rename_i h body split_eq
    exact ⟨h, body, split_eq⟩
  · cases clean

end Declaration

/-! ### Lines in the sub-sections of an action -/

namespace Action

theorem filterMap_map_tagged (kind k : ActionSectionKind) (ns : List Node) :
    (ns.map (k, ·)).filterMap (fun q => if q.1 = kind then some q.2 else none) = if k = kind then ns else [] := by
  rw [List.filterMap_map]
  split
  · rename_i same
    subst same
    exact (congrArg (List.filterMap · ns) (funext fun n => if_pos rfl)).trans List.filterMap_some
  · rename_i other
    exact List.filterMap_eq_nil_iff.2 fun n _ => if_neg other

/-- What a sub-section is given is what stands in it, in order. -/
theorem givenTo_append (kind : ActionSectionKind) (front rest : List Node) :
    givenTo {} kind (front ++ rest) = givenTo {} kind front
      ++ (contents (openBehind front) rest).filterMap fun q => if q.1 = kind then some q.2 else none := by
  induction rest generalizing front with
  | nil => rw [contents, List.filterMap_nil]; simp
  | cons n rest ih =>
    rw [List.append_cons, ih, givenTo_concat, openBehind_concat, List.append_assoc, contents]
    refine congrArg (givenTo {} kind front ++ ·) ?_
    -- A header switches to its sub-section for all that follows; any other line stays with the open one.
    cases opens : opened? n with
    | some k =>
      have header : ActionSectionKind.ofHeader? n.text = some k := opens
      rw [role, opens, header, Option.some_or]
      simp only
      rw [List.filterMap_append, filterMap_map_tagged]
      rfl
    | none =>
      have header : ActionSectionKind.ofHeader? n.text = none := opens
      rw [role, opens, header, Option.none_or]
      simp only
      rw [List.filterMap_append]
      refine congrArg (· ++ _) ?_
      cases openBehind front with
      | some k => exact (filterMap_map_tagged kind k [n]).symm
      | none => cases n.qualifiers? {} <;> rfl

theorem mem_contents_iff {kind : ActionSectionKind} {children : List Node} {m : Node} :
    (kind, m) ∈ contents none children ↔ m ∈ givenTo {} kind children := by
  have given : givenTo {} kind children
      = (contents none children).filterMap fun q => if q.1 = kind then some q.2 else none :=
    givenTo_append kind [] children
  rw [given, List.mem_filterMap]
  constructor
  · exact fun mem => ⟨_, mem, if_pos rfl⟩
  · rintro ⟨⟨k, c⟩, mem, is⟩
    split at is
    · rename_i same
      obtain rfl : k = kind := same
      obtain rfl := Option.some.inj is
      exact mem
    · cases is

/-! ### Sub-sections and actions -/

/-- A sub-section that is read without a note keeps every line. -/
theorem keeps_readSection {ns : List Node} (trees : ∀ n ∈ ns, NestedTree n) (tidy : Tidy ns) {depth : Nat}
    {k : ActionSectionKind} (clean : (readSection {} depth k ns).notes = []) {n : Node} (mem : n ∈ ns) :
    ∀ m ∈ nodes [n], (readSection {} depth k ns).value.Keeps n m := by
  intro m hm
  have under : m ∈ nodes ns := Forest.mem_nodes_iff.2 ⟨n, mem, hm⟩
  have holds := Forest.holds_text tidy (baseDepth depth ns) under
  have fields (kind : k.holdsFields = true) (split : ∃ h body, Declaration.split {} n = .ok (h, body)) :
      (readSection {} depth k ns).value.Keeps n m := by
    obtain ⟨h, body, split⟩ := split
    obtain ⟨heads, keeps⟩ := Declaration.keeps_make .persistentFields (tidy.children mem) split
    rw [value_readSection_fields kind, Declaration.readAll, Noted.value_gather]
    refine .field (x := Declaration.make .persistentFields h body) (List.mem_filterMap.2 ⟨n, mem, ?_⟩) heads
      (keeps m hm)
    rw [Declaration.value_read (by decide), split]
    rfl
  have gathered {f : Node → Noted (Option Declaration)} (none : (Noted.gather f ns).notes = []) :
      (f n).notes = [] := by
    rw [Noted.notes_gather] at none
    exact List.flatMap_eq_nil_iff.1 none n mem
  cases k with
  | parameters => exact fields rfl (Declaration.notes_ofSplit n _ (gathered clean))
  | localFields => exact fields rfl (Declaration.notes_ofSplit n _ (gathered clean))
  | queueMappingFields | sortOrder | accumulators => exact .entry under
  | parameterRules => exact .rule holds
  | instanceSelection => exact .selection holds
  | actionRules => exact .actionRules (ActionRules.keeps_read trees tidy _ mem m hm)

/-- An action that is read without a note is read, and its sub-sections are read without a note. -/
theorem clean_read {n : Node} (clean : (read {} n).notes = []) :
    ∃ a, (read {} n).value = some a ∧
      ∀ e ∈ (distribute {} n.children).sections, (readSection {} n.depth e.1 e.2).notes = [] := by
  have phrases : ({} : Options).phrases = [] := rfl
  rw [read, phrases] at clean ⊢
  cases recognized : Header.recognize [] n.text n.line n.span with
  | error e => rw [recognized] at clean; cases clean
  | ok header =>
    rw [recognized] at clean
    refine ⟨_, rfl, fun e he => ?_⟩
    have sections := (List.append_eq_nil_iff.1 clean).2
    rw [readSections, Noted.notes_gather] at sections
    exact List.flatMap_eq_nil_iff.1 sections e he

theorem keeps_read {n : Node} (tree : NestedTree n) (tidy : Tidy n.children)
    (clean : (read {} n).notes = []) :
    ∃ a, (read {} n).value = some a ∧ a.header.Heads n ∧
      ∀ m ∈ nodes [n], (Declaration.action a).Keeps n m := by
  obtain ⟨a, value, clean⟩ := clean_read clean
  obtain ⟨header, recognized, eq⟩ := read_eq_some value
  have heads : a.header.Heads n := by
    rw [eq]
    exact ⟨header, _, Header.ofText_of_recognize recognized, rfl⟩
  have found (k : ActionSectionKind) : a.section? k
      = (Catalog.get? (distribute {} n.children).sections k).map
          fun ns => (readSection {} n.depth k ns).value := by
    rw [section?, eq]
    exact Catalog.get?_map_key k (fun k ns => (readSection {} n.depth k ns).value) _
  have qualifiers : (distribute {} n.children).qualifiers ⊆ a.header.qualifiers := by
    rw [eq]
    exact List.subset_append_right _ _
  have body : a.body = (distribute {} n.children).body := by rw [eq]
  have sorts := Parts.sorts_distribute {} n.children
  have trees := (from_distribute n.children).trees tree.children tidy
  refine ⟨a, value, heads, fun m hm => ?_⟩
  have content {k : ActionSectionKind} {c : Node} (mem : c ∈ givenTo {} k n.children)
      (hm : m ∈ nodes [c]) : (Declaration.action a).Keeps n m := by
    have opened : k ∈ n.children.filterMap opened? := by
      by_contra absent
      rw [givenTo_eq_nil absent] at mem
      cases mem
    have get := sorts.get?_sections k
    rw [if_pos opened] at get
    have entry := Catalog.mem_of_get? get
    exact .subsection (mem_contents_iff.2 mem) (by rw [found, get]; rfl) hm
      (keeps_readSection (trees _ entry).1 (trees _ entry).2 (clean _ entry) mem m hm)
  rcases Forest.mem_nodes_singleton.1 hm with rfl | hm
  · exact .header heads
  obtain ⟨c, hc, under⟩ := Forest.mem_nodes_iff.1 hm
  obtain ⟨role, mem⟩ := exists_mem_cast (o := {}) hc
  obtain ⟨_, _, _, plays⟩ := exists_plays_of_mem_cast mem
  cases plays with
  | header opens =>
    rcases Forest.mem_nodes_singleton.1 under with rfl | inside
    · refine .subsectionHeader hc opens ?_
      rw [found, sorts.get?_sections, if_pos (List.mem_filterMap.2 ⟨m, hc, opens⟩)]
      rfl
    · obtain ⟨e, he, inside⟩ := Forest.mem_nodes_iff.1 inside
      exact content (mem_givenTo.2 (Or.inr ⟨c, mem, he⟩)) inside
  | stray => exact content (mem_givenTo.2 (Or.inl mem)) under
  | qualifier leads plain leaf line =>
    have line := qualifiers?_eq_some_iff.2 ⟨leaf, line⟩
    obtain rfl := Declaration.eq_of_mem_qualifiers line under
    refine .qualifiers hc line fun q hq => qualifiers ?_
    rw [sorts.qualifiers]
    exact mem_phrasesOf.2 ⟨_, _, mem, hq⟩
  | body =>
    refine .body hm (Forest.mem_nodes_iff.2 ⟨c, ?_, under⟩)
    rw [body, sorts.body]
    exact mem_bodyOf.2 mem

end Action

namespace Declaration

/-- A declaration that is read without a note keeps every line of its tree. -/
theorem keeps_read {kind : SectionKind} {n : Node} (tree : NestedTree n) (tidy : Tidy n.children)
    (clean : (read {} kind n).notes = []) :
    ∃ x, (read {} kind n).value = some x ∧ x.header.Heads n ∧ ∀ m ∈ nodes [n], x.Keeps n m := by
  have simple (other : kind ≠ .actions) (split : ∃ h body, split {} n = .ok (h, body)) :
      ∃ x, (read {} kind n).value = some x ∧ x.header.Heads n ∧ ∀ m ∈ nodes [n], x.Keeps n m := by
    obtain ⟨h, body, split⟩ := split
    obtain ⟨heads, keeps⟩ := keeps_make kind tidy split
    refine ⟨make kind h body, ?_, by rwa [header_make], keeps⟩
    rw [value_read other, split]
    rfl
  cases kind with
  | actions =>
    obtain ⟨a, value, heads, keeps⟩ := Action.keeps_read tree tidy clean
    exact ⟨.action a, by rw [read, value]; rfl, heads, keeps⟩
  | _ => exact simple (by decide) (notes_ofSplit n _ clean)

end Declaration

end BusinessClass
