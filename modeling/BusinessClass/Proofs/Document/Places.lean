import BusinessClass.Proofs.Diagnostic.Origin
import BusinessClass.Proofs.Document.Vocabulary
import BusinessClass.Proofs.Document.Writable
import BusinessClass.Proofs.Source.Places

/-!
# Places of a document and of its problems

Every line number and every span in the result of reading a source leads back to the line of the source that the
part was read from.

* `Source.stands_of_mem_nodes`: the nodes of the outline stand where they say.
* `Header.StandsIn` and `Diagnostic.StandsIn`: what is read from a line stands on it.
* `Document.openedSection?_eq` and `Document.openedBlock?_eq`: an item opens what its line is a header of.
* `Document.places_read`: all places in a document and its diagnostics are right.
-/

namespace BusinessClass

open Forest (nodes)

/-- A node of the outline stands where it says. -/
theorem Source.stands_of_mem_nodes (o : Options) (source : Text) :
    ∀ n ∈ nodes (Forest.ofLines 0 (lines o source)), Stands source n.text n.line n.span := by
  intro n hn
  have mem : n.toLine ∈ Forest.lines (Forest.ofLines 0 (lines o source)) := List.mem_map_of_mem hn
  rw [Forest.lines_ofLines] at mem
  exact stands_of_mem_lines n.toLine mem

/-- The header stands on its line, and the line is read as the header with the first of its qualifiers. -/
def Header.StandsIn (o : Options) (source : Text) (h : Header) : Prop :=
  ∃ t g, Source.Stands source t h.line h.span ∧ Header.ofText o.phrases t h.line h.span = .ok g ∧
    g.name = h.name ∧ g.article = h.article ∧ g.typeName = h.typeName ∧ g.qualifiers <+: h.qualifiers

theorem Header.ReadFrom.standsIn {o : Options} {source : Text} {n : Node} {h : Header} (read : h.ReadFrom o n)
    (stands : Source.Stands source n.text n.line n.span) : h.StandsIn o source := by
  have line := read.line
  have span := read.span
  obtain ⟨g, qs, ofText, rfl⟩ := read
  refine ⟨n.text, g, ?_, ?_, rfl, rfl, rfl, List.prefix_append _ _⟩
  · rwa [line, span]
  · rwa [line, span]

/-- The diagnostic has the severity of its kind and the name of the source. It is one of the document as a whole, or
it concerns the line that stands at its place. -/
structure Diagnostic.StandsIn (o : Options) (source : Text) (d : Diagnostic) : Prop where
  severity : d.severity = d.kind.severity
  sourceName : d.sourceName = o.sourceName
  place : (d.kind = .missingClassHeader ∨ d.kind = .emptyDocument) ∧ d.line = 0 ∧ d.span = none ∨
    ∃ t span, d.span = some span ∧ Source.Stands source t d.line span ∧ d.kind.Concerns t

namespace ClassItem

/-- Nothing is opened by a line that states a property. -/
theorem ofText_of_property {t : Text} {p : ClassItem} (property : property? t.words = some p) :
    (∃ v, ofText t = .owner v) ∨ ∃ v, ofText t = .classPrefix v := by
  rw [ofText_of_property? property]
  obtain ⟨a, b, v, -, is⟩ := property?_eq_some property
  exact is.imp (fun eq => ⟨v, eq⟩) fun eq => ⟨v, eq⟩

end ClassItem

namespace Document

/-- An item opens the section that its line is a header of. -/
theorem openedSection?_eq (n : Node) : openedSection? n = SectionKind.ofHeader? n.text := by
  rw [openedSection?]
  cases property : ClassItem.property? n.text.words with
  | some p =>
    have none : SectionKind.ofHeader? n.text = none := by
      refine Option.eq_none_iff_forall_ne_some.2 fun kind header => ?_
      rw [ClassItem.property?_of_section header] at property
      cases property
    rcases ClassItem.ofText_of_property property with ⟨v, item⟩ | ⟨v, item⟩ <;> rw [item, none]
  | none =>
    rw [ClassItem.ofText, property]
    cases SectionKind.ofHeader? n.text <;> cases ClassBlockKind.ofHeader? n.text <;> rfl

/-- An item opens the rule block that its line is a header of. -/
theorem openedBlock?_eq (n : Node) : openedBlock? n = ClassBlockKind.ofHeader? n.text := by
  rw [openedBlock?]
  cases block : ClassBlockKind.ofHeader? n.text with
  | none =>
    cases property : ClassItem.property? n.text.words with
    | some p => rcases ClassItem.ofText_of_property property with ⟨v, item⟩ | ⟨v, item⟩ <;> rw [item]
    | none =>
      rw [ClassItem.ofText, property, block]
      cases SectionKind.ofHeader? n.text <;> rfl
  | some kind =>
    rw [ClassItem.ofText, ClassItem.property?_of_block block, SectionKind.ofHeader?_of_block block, block]

variable {o : Options} {notes : List Diagnostic} {f : List Node}

/-- A section has the line of a header that opens it. -/
theorem exists_of_mem_sections {e : SectionKind × Section} (he : e ∈ (classify o notes f).document.sections) :
    ∃ n ∈ nodes f, e.2.line = n.line ∧ SectionKind.ofHeader? n.text = some e.1 := by
  obtain ⟨items, inside, sections, -⟩ := exists_items o notes f
  rw [sections] at he
  obtain ⟨kind, opened, rfl⟩ := List.mem_map.1 he
  obtain ⟨n, mem, first, opens⟩ := exists_first opened
  refine ⟨n, inside.subset ((Forest.sublist_nodes items).subset mem), ?_, by rwa [← openedSection?_eq]⟩
  rw [sectionOf, first]
  rfl

/-- A rule block of the class stands at a header that opens it. -/
theorem exists_of_mem_classRules {e : ClassBlockKind × RuleBlock} (he : e ∈ (classify o notes f).document.classRules) :
    ∃ n ∈ nodes f, e.2.header = ⟨e.1.name, none, none, [], n.line, n.span⟩ ∧
      ClassBlockKind.ofHeader? n.text = some e.1 := by
  obtain ⟨items, inside, -, classRules⟩ := exists_items o notes f
  rw [classRules] at he
  obtain ⟨kind, opened, rfl⟩ := List.mem_map.1 he
  obtain ⟨n, mem, first, opens⟩ := exists_first opened
  refine ⟨n, inside.subset ((Forest.sublist_nodes items).subset mem), ?_, by rwa [← openedBlock?_eq]⟩
  rw [blockOf, first]
  rfl

/-- What is noted about an outline was noted before, is a problem of the document as a whole, or is noted at one of
its lines. -/
theorem notedIn_classify {d : Diagnostic} (hd : d ∈ (classify o notes f).diagnostics) :
    d ∈ notes ∨ d = .ofDocument .missingClassHeader ∨ d = .ofDocument .emptyDocument ∨ d.NotedIn f := by
  by_cases parts : HasParts o f
  · rw [(sorts_classify o notes parts).2.2] at hd
    rcases List.mem_append.1 hd with hd | hd
    · rcases List.mem_append.1 hd with hd | hd
      · exact Or.inl hd
      · have noted := notedIn_notesOf hd
        exact Or.inr (Or.inr (Or.inr (noted.mono fun n hn => (nodes_classItems_sublist o f).subset hn)))
    · rw [headlessNotes] at hd
      split at hd
      · cases hd
      · exact Or.inr (Or.inl (List.mem_singleton.1 hd))
  · rw [classify_of_not_hasParts o notes parts] at hd
    exact Or.inr (Or.inr (Or.inl (List.mem_singleton.1 hd)))

/-- A diagnostic of a source stands in it. -/
theorem standsIn_of_mem_diagnostics (o : Options) (source : Text) :
    ∀ d ∈ (read o source).diagnostics, d.StandsIn o source := by
  intro filed mem
  obtain ⟨d, hd, rfl⟩ := List.mem_map.1 mem
  rcases notedIn_classify hd with hd | rfl | rfl | ⟨n, hn, kind, concerns, -, rfl⟩
  · obtain ⟨l, hl, rfl⟩ := List.mem_map.1 hd
    obtain ⟨t, stands⟩ := Source.stands_of_mem_malformed l hl
    exact ⟨rfl, rfl, Or.inr ⟨t, l.span, rfl, stands, .of_none rfl rfl t⟩⟩
  · exact ⟨rfl, rfl, Or.inl ⟨Or.inl rfl, rfl, rfl⟩⟩
  · exact ⟨rfl, rfl, Or.inl ⟨Or.inr rfl, rfl, rfl⟩⟩
  · exact ⟨rfl, rfl, Or.inr ⟨n.text, n.span, rfl, Source.stands_of_mem_nodes o source n hn, concerns⟩⟩

/-- Every place in the result of reading a source is right. A diagnostic concerns the line that it stands on. The
header of every declaration stands on its line and is what the line says, up to the qualifiers below it, and every
node that a declaration stores stands where it says. Sections, rule blocks of the class and groups stand on lines
that are their headers. -/
theorem places_read (o : Options) (source : Text) :
    (∀ d ∈ (read o source).diagnostics, d.StandsIn o source) ∧
      (∀ d ∈ (read o source).document.allDeclarations, d.header.StandsIn o source ∧
        ∀ n ∈ d.storedNodes, Source.Stands source n.text n.line n.span) ∧
      (∀ e ∈ (read o source).document.sections,
        ∃ t span, Source.Stands source t e.2.line span ∧ SectionKind.ofHeader? t = some e.1) ∧
      (∀ e ∈ (read o source).document.classRules,
        ∃ t, Source.Stands source t e.2.header.line e.2.header.span ∧ ClassBlockKind.ofHeader? t = some e.1) ∧
      ∀ e ∈ (read o source).document.leveledGroups,
        ∃ t span, Source.Stands source t e.2.line span ∧ GroupKey.ofHeader? t = some e.2.key := by
  have stands := Source.stands_of_mem_nodes o source
  refine ⟨standsIn_of_mem_diagnostics o source, fun d hd => ?_, fun e he => ?_, fun e he => ?_, fun e he => ?_⟩
  · obtain ⟨n, hn, from_⟩ := exists_of_mem_allDeclarations hd
    refine ⟨from_.header.standsIn (stands n hn), fun m hm => stands m ?_⟩
    have below := (Forest.nodes_children_sublist n).subset (from_.stored m hm)
    exact (Forest.nodes_sublist_of_mem n hn).subset below
  · obtain ⟨n, hn, line, opens⟩ := exists_of_mem_sections he
    exact ⟨n.text, n.span, line ▸ stands n hn, opens⟩
  · obtain ⟨n, hn, header, opens⟩ := exists_of_mem_classRules he
    rw [header]
    exact ⟨n.text, stands n hn, opens⟩
  · obtain ⟨c, hc, line, opens⟩ := exists_of_mem_leveledGroups he
    exact ⟨c.text, c.span, line ▸ stands c hc, opens⟩

end Document

end BusinessClass
