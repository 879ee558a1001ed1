import BusinessClass.Document.Reading
import BusinessClass.Proofs.Source.Layout
import Mathlib.Data.List.Basic
import Mathlib.Data.List.Pairwise

/-!
# What becomes of each physical line

A physical line without content or with a comment says nothing. Every other one is a source line or has malformed
indentation, and never both. Lines and problems are filed under the number of the physical line, in order.

* `Source.Falls` says that a source consists of given pieces, perhaps behind a byte order mark.
* `filter_filterMap_number`: of what a list of lines gives, the entries with the number of one line are what this
  line gives.
* `PhysicalLine.Within` says that a number and a span lie on a line; `pairwise_filterMap_of_within`: what lies on
  different lines is in order.
* `Source.Partition` gathers what becomes of the physical lines; `partition_scan`: this is what reading does.
-/

namespace BusinessClass

namespace PhysicalLine

variable {o : Options} {l : PhysicalLine}

/-! ### What a line says -/

/-- The line has no content, or a comment. -/
def Silent (o : Options) (t : Text) : Prop := t.trim = [] ∨ o.commentMarker ≠ [] ∧ o.commentMarker <+: t.trim

theorem silent_iff : Silent o l.text ↔ (l.content.isEmpty || o.isComment l.content) = true := by
  have content : l.content = l.text.trim := rfl
  simp [Silent, Options.isComment, content]

/-- Blanks at the end of a line with content are no part of its indentation. -/
theorem indent_eq (ne_nil : l.text.trim ≠ []) : l.indent = l.text.indent := by
  obtain ⟨blanks, shape, -⟩ := l.exists_text_eq
  have blank : ∀ c ∈ l.indent, isBlank c = true := fun c hc => List.mem_takeWhile_imp hc
  obtain ⟨d, t, ht⟩ := List.exists_cons_of_ne_nil (show l.content ≠ [] from ne_nil)
  have head : ∀ c ∈ l.content.head?, isBlank c = false := Text.isBlank_head_trimStart l.body
  have stop : isBlank d = false := head d (by rw [ht]; rfl)
  rw [shape, Text.indent, List.takeWhile_append_of_pos blank, ht, List.cons_append,
    List.takeWhile_cons_of_neg (by simp [stop]), List.append_nil]

/-- A line with content is its indentation, its content and blanks. -/
theorem exists_text_eq_of_content (ne_nil : l.text.trim ≠ []) :
    ∃ blanks, l.text = l.text.indent ++ (l.text.trim ++ blanks) ∧
      ∀ c ∈ l.text.indent ++ blanks, isBlank c = true := by
  obtain ⟨blanks, shape, blank⟩ := l.exists_text_eq
  refine ⟨blanks, ?_, fun c hc => ?_⟩
  · rw [← indent_eq ne_nil]
    exact shape
  · rcases List.mem_append.1 hc with hc | hc
    · exact List.mem_takeWhile_imp hc
    · exact blank c hc

/-- The problem that is noted for a line, if its indentation is malformed. -/
def note? (o : Options) (l : PhysicalLine) : Option Diagnostic :=
  (l.read o).bind fun
    | .ok _ => none
    | .error m => some (Document.malformedLine m)

theorem of_silent (silent : Silent o l.text) : l.line? o = none ∧ l.note? o = none := by
  have read : l.read o = none := by rw [PhysicalLine.read, if_pos (silent_iff.1 silent)]
  rw [line?, note?, read]
  exact ⟨rfl, rfl⟩

theorem of_measure_ok (speaks : ¬ Silent o l.text) {depth : Nat}
    (measured : Indent.measure l.text.indent o.levelWidth = .ok depth) :
    l.line? o = some ⟨l.text.trim, depth, l.number, l.span⟩ ∧ l.note? o = none := by
  have read : l.read o = some (.ok ⟨l.text.trim, depth, l.number, l.span⟩) := by
    rw [PhysicalLine.read, if_neg (mt silent_iff.2 speaks), indent_eq fun ne_nil => speaks (.inl ne_nil), measured]
    rfl
  rw [line?, note?, read]
  exact ⟨rfl, rfl⟩

theorem of_measure_error (speaks : ¬ Silent o l.text) {error : IndentError}
    (measured : Indent.measure l.text.indent o.levelWidth = .error error) :
    l.line? o = none ∧ l.note? o = some (Document.malformedLine ⟨error, l.number, l.span⟩) := by
  have read : l.read o = some (.error ⟨error, l.number, l.span⟩) := by
    rw [PhysicalLine.read, if_neg (mt silent_iff.2 speaks), indent_eq fun ne_nil => speaks (.inl ne_nil), measured]
  rw [line?, note?, read]
  exact ⟨rfl, rfl⟩

/-! ### Where a line says it -/

/-- The number is that of the line, and the span lies on the line and is not empty. -/
structure Within (l : PhysicalLine) (number : Nat) (span : Span) : Prop where
  number : number = l.number
  start : l.offset ≤ span.start
  nonempty : span.start < span.stop
  stop : span.stop ≤ l.offset + l.text.byteSize

theorem within_span (ne_nil : l.content ≠ []) : Within l l.number l.span := by
  obtain ⟨c, t, ht⟩ := List.exists_cons_of_ne_nil ne_nil
  obtain ⟨n, size, -, -⟩ := Text.exists_byteSize_cons c t
  obtain ⟨blanks, shape, -⟩ := l.exists_text_eq
  have whole := congrArg Text.byteSize shape
  have parts := l.byteSize_body
  simp only [Text.byteSize_append] at whole
  rw [ht, size] at parts whole
  refine ⟨rfl, ?_, ?_, ?_⟩ <;> simp only [span] <;> omega

theorem within_of_line? {s : SourceLine} (line : l.line? o = some s) : Within l s.number s.span := by
  obtain ⟨⟨ne_nil, -⟩, -⟩ := read_eq_some (line?_eq_some_iff.1 line)
  obtain ⟨depth, -, rfl⟩ := of_line? line
  exact within_span ne_nil

/-- A problem is noted for a line with content, at the content. -/
theorem of_note? {d : Diagnostic} (note : l.note? o = some d) :
    l.content ≠ [] ∧ d.line = l.number ∧ d.span = some l.span := by
  obtain ⟨r, read, noted⟩ := Option.bind_eq_some_iff.1 note
  obtain ⟨⟨ne_nil, -⟩, ⟨depth, -, rfl⟩ | ⟨e, rfl⟩⟩ := read_eq_some read
  · cases noted
  · cases noted
    exact ⟨ne_nil, rfl, rfl⟩

theorem within_of_note? {d : Diagnostic} (note : l.note? o = some d) {span : Span} (place : d.span = some span) :
    Within l d.line span := by
  obtain ⟨ne_nil, number, eq⟩ := of_note? note
  obtain rfl := Option.some.inj (eq.symm.trans place)
  rw [number]
  exact within_span ne_nil

end PhysicalLine

namespace Source

/-! ### Physical lines -/

/-- A source is a byte order mark, if it starts with one, and pieces behind it. -/
structure Falls (source mark : Text) (ps : List (Text × Text)) : Prop where
  whole : source = mark ++ flatten ps
  mark_eq : mark = [] ∧ source.head? ≠ some byteOrderMark ∨ mark = [byteOrderMark]
  cut : Cut ps

theorem exists_falls (source : Text) : ∃ mark ps, Falls source mark ps := by
  obtain ⟨mark, rest, whole, mark_eq, -⟩ := exists_physicalLines_eq source
  exact ⟨mark, pieces rest, by rw [flatten_pieces, whole], mark_eq, cut_pieces rest⟩

variable {o : Options} {source mark : Text} {ps : List (Text × Text)}

theorem Falls.physicalLines_eq (falls : Falls source mark ps) : physicalLines source = locate 1 mark.byteSize ps := by
  have pieces_eq := falls.cut.pieces_flatten
  rcases falls.mark_eq with ⟨rfl, head⟩ | rfl
  · have whole : source = flatten ps := falls.whole
    rw [physicalLines_of_head fun c hc isMark => head (isMark ▸ hc), whole, pieces_eq]
    rfl
  · rw [falls.whole, List.singleton_append, physicalLines, if_pos rfl, pieces_eq]
    rfl

theorem getElem?_locate (number offset i : Nat) (ps : List (Text × Text)) :
    (locate number offset ps)[i]?
      = ps[i]?.map fun p => ⟨p.1, number + i, offset + (flatten (ps.take i)).byteSize⟩ := by
  induction ps generalizing number offset i with
  | nil => rfl
  | cons p ps ih =>
    rw [locate_cons]
    cases i with
    | zero => rfl
    | succ i =>
      rw [List.getElem?_cons_succ, List.getElem?_cons_succ, ih, List.take_succ_cons, flatten_cons]
      simp only [Text.byteSize_append, Nat.add_assoc, Nat.add_comm 1]

/-- Later lines have greater numbers and stand behind the end of earlier ones. -/
theorem pairwise_locate (number offset : Nat) (ps : List (Text × Text)) :
    (locate number offset ps).Pairwise fun l m => l.number < m.number ∧ l.offset + l.text.byteSize ≤ m.offset := by
  induction ps generalizing number offset with
  | nil => exact .nil
  | cons p ps ih =>
    rw [locate_cons]
    refine List.pairwise_cons.2 ⟨fun m hm => ?_, ih _ _⟩
    obtain ⟨before, q, after, -, rfl, -⟩ := exists_of_mem_locate m hm
    simp only [Text.byteSize_append]
    omega

/-- Of what a list of lines gives, the entries with the number of one line are what this line gives. -/
theorem filter_filterMap_number {α : Type} {give : PhysicalLine → Option α} {number : α → Nat}
    (kept : ∀ l a, give l = some a → number a = l.number) {ls : List PhysicalLine}
    (nodup : (ls.map PhysicalLine.number).Nodup) {l : PhysicalLine} (mem : l ∈ ls) :
    (ls.filterMap give).filter (number · = l.number) = (give l).toList := by
  have others {ms : List PhysicalLine} (h : l.number ∉ ms.map PhysicalLine.number) :
      (ms.filterMap give).filter (number · = l.number) = [] := by
    refine List.filter_eq_nil_iff.2 fun a ha => ?_
    obtain ⟨m, hm, given⟩ := List.mem_filterMap.1 ha
    rw [decide_eq_true_iff, kept m a given]
    exact fun same => h (List.mem_map.2 ⟨m, hm, same⟩)
  obtain ⟨before, after, rfl⟩ := List.append_of_mem mem
  rw [List.map_append, List.map_cons, List.nodup_append, List.nodup_cons] at nodup
  obtain ⟨-, ⟨notAfter, -⟩, apart⟩ := nodup
  have notBefore : l.number ∉ before.map PhysicalLine.number := fun h =>
    apart _ h _ List.mem_cons_self rfl
  rw [List.filterMap_append, List.filter_append, others notBefore, List.nil_append]
  cases given : give l with
  | none => rw [List.filterMap_cons_none given, others notAfter, Option.toList_none]
  | some a =>
    rw [List.filterMap_cons_some given, List.filter_cons_of_pos (by simpa using kept l a given), others notAfter,
      Option.toList_some]

section Order

variable {α β : Type} {give : PhysicalLine → Option α} {number : α → Nat} {covers : α → Span → Prop}
  (within : ∀ l a, give l = some a → ∀ r, covers a r → PhysicalLine.Within l (number a) r)

include within

/-- What lies on different lines is in the order of the lines. -/
theorem pairwise_filterMap_of_within (kept : ∀ l a, give l = some a → number a = l.number) (start offset : Nat)
    (ps : List (Text × Text)) :
    ((locate start offset ps).filterMap give).Pairwise fun a b =>
      number a < number b ∧ ∀ r, covers a r → ∀ s, covers b s → r.stop ≤ s.start := by
  refine List.pairwise_filterMap.2 ((pairwise_locate start offset ps).imp ?_)
  intro l m order a ha b hb
  refine ⟨by rw [kept l a ha, kept m b hb]; exact order.1, fun r hr s hs => ?_⟩
  have first := (within l a ha r hr).stop
  have second := (within m b hb s hs).start
  omega

/-- Two kinds of entries are apart if no line gives both. -/
theorem apart_of_within {give' : PhysicalLine → Option β} {number' : β → Nat} {covers' : β → Span → Prop}
    (within' : ∀ l b, give' l = some b → ∀ r, covers' b r → PhysicalLine.Within l (number' b) r)
    (never : ∀ l a b, give l = some a → give' l = some b → False) (start offset : Nat) (ps : List (Text × Text)) :
    ∀ a ∈ (locate start offset ps).filterMap give, ∀ b ∈ (locate start offset ps).filterMap give',
      ∀ r, covers a r → ∀ s, covers' b s → r.stop ≤ s.start ∨ s.stop ≤ r.start := by
  intro a ha b hb r hr s hs
  obtain ⟨l, hl, ha⟩ := List.mem_filterMap.1 ha
  obtain ⟨m, hm, hb⟩ := List.mem_filterMap.1 hb
  have first := within l a ha r hr
  have second := within' m b hb s hs
  have different : l ≠ m := fun same => never l a b ha (same ▸ hb)
  have symm : Std.Symm fun l m : PhysicalLine =>
      l.offset + l.text.byteSize ≤ m.offset ∨ m.offset + m.text.byteSize ≤ l.offset := ⟨fun _ _ => Or.symm⟩
  have order : (locate start offset ps).Pairwise fun l m =>
      l.offset + l.text.byteSize ≤ m.offset ∨ m.offset + m.text.byteSize ≤ l.offset :=
    (pairwise_locate start offset ps).imp fun h => Or.inl h.2
  have := order.forall hl hm different
  have := first.start
  have := first.stop
  have := second.start
  have := second.stop
  omega

end Order

/-! ### Lines and problems -/

theorem indentationNotes_eq_filterMap (o : Options) (source : Text) :
    Document.indentationNotes o source = (physicalLines source).filterMap (PhysicalLine.note? o) := by
  rw [Document.indentationNotes, malformed, scan, List.filterMap_filterMap, List.map_filterMap]
  refine List.filterMap_congr fun l _ => ?_
  rw [PhysicalLine.note?]
  rcases l.read o with - | (e | s) <;> rfl

/-- A problem with the indentation is noted for a physical line. -/
theorem exists_of_mem_indentationNotes {d : Diagnostic} (hd : d ∈ Document.indentationNotes o source) :
    ∃ l ∈ physicalLines source, l.note? o = some d := by
  rw [indentationNotes_eq_filterMap] at hd
  exact List.mem_filterMap.1 hd

/-- Where the content of the line at position `i` stands, which is `t`: behind the mark, the pieces before it and its
own indentation. -/
def place (mark : Text) (ps : List (Text × Text)) (i : Nat) (t : Text) : Span :=
  let start := (mark ++ flatten (ps.take i) ++ t.indent).byteSize
  ⟨start, start + t.trim.byteSize⟩

/-- What becomes of the physical lines of a source, which are the pieces `ps` behind `mark`: the line at position `i`
has the number `i + 1`. -/
structure Partition (o : Options) (source mark : Text) (ps : List (Text × Text)) (lines : List SourceLine)
    (notes : List Diagnostic) : Prop where
  /-- A line without content or with a comment says nothing. -/
  silent : ∀ i t e, ps[i]? = some (t, e) → PhysicalLine.Silent o t →
    lines.filter (·.number = i + 1) = [] ∧ notes.filter (·.line = i + 1) = []
  /-- Any other line whose indentation stands for a depth is one source line, and no problem. -/
  line : ∀ i t e depth, ps[i]? = some (t, e) → ¬ PhysicalLine.Silent o t →
    Indent.measure t.indent o.levelWidth = .ok depth →
    lines.filter (·.number = i + 1) = [⟨t.trim, depth, i + 1, place mark ps i t⟩] ∧
      notes.filter (·.line = i + 1) = []
  /-- Any other line is one problem, and no source line. -/
  note : ∀ i t e error, ps[i]? = some (t, e) → ¬ PhysicalLine.Silent o t →
    Indent.measure t.indent o.levelWidth = .error error →
    lines.filter (·.number = i + 1) = [] ∧ notes.filter (·.line = i + 1)
      = [⟨.malformedIndentation error.message, .error, i + 1, some (place mark ps i t), none⟩]
  /-- There are no other source lines and problems. -/
  numbers : (∀ s ∈ lines, ∃ i < ps.length, s.number = i + 1) ∧ ∀ d ∈ notes, ∃ i < ps.length, d.line = i + 1
  /-- A line with content is its indentation, its content and blanks, and its place covers the content. -/
  covered : ∀ i t e, ps[i]? = some (t, e) → t.trim ≠ [] → source.slice? (place mark ps i t) = some t.trim ∧
    ∃ blanks, t = t.indent ++ (t.trim ++ blanks) ∧ ∀ c ∈ t.indent ++ blanks, isBlank c = true
  /-- No span is empty, and every problem has one. -/
  nonempty : (∀ s ∈ lines, s.span.start < s.span.stop) ∧ ∀ d ∈ notes, ∃ r, d.span = some r ∧ r.start < r.stop
  /-- Numbers and spans of source lines grow. -/
  increasing_lines : lines.Pairwise fun s t => s.number < t.number ∧ s.span.stop ≤ t.span.start
  /-- So do those of problems. -/
  increasing_notes : notes.Pairwise fun d e =>
    d.line < e.line ∧ ∀ r, d.span = some r → ∀ s, e.span = some s → r.stop ≤ s.start
  /-- No source line and no problem share a byte. -/
  apart : ∀ s ∈ lines, ∀ d ∈ notes, ∀ r, d.span = some r → s.span.stop ≤ r.start ∨ r.stop ≤ s.span.start
  /-- The text of a source line is content, on one line. -/
  trimmed : ∀ s ∈ lines, s.text.IsTrimmed

/-! ### Reading does this -/

/-- The line at position `i` of the pieces `ps` behind `mark`, which is `t`. -/
def lineAt (mark : Text) (ps : List (Text × Text)) (i : Nat) (t : Text) : PhysicalLine :=
  ⟨t, i + 1, mark.byteSize + (flatten (ps.take i)).byteSize⟩

theorem span_lineAt (mark : Text) (ps : List (Text × Text)) (i : Nat) {t : Text} (ne_nil : t.trim ≠ []) :
    (lineAt mark ps i t).span = place mark ps i t := by
  have body := (lineAt mark ps i t).byteSize_body
  have indent := PhysicalLine.indent_eq (l := lineAt mark ps i t) ne_nil
  have offset : (lineAt mark ps i t).offset = (mark ++ flatten (ps.take i)).byteSize := by
    rw [Text.byteSize_append]
    rfl
  rw [PhysicalLine.span, body, indent, offset, place, Text.byteSize_append (mark ++ _), Nat.add_assoc]
  rfl

namespace Falls

variable (falls : Falls source mark ps)

include falls

theorem lineAt_mem {i : Nat} {t e : Text} (h : ps[i]? = some (t, e)) : lineAt mark ps i t ∈ physicalLines source := by
  refine List.mem_of_getElem? (i := i) ?_
  rw [falls.physicalLines_eq, getElem?_locate, h, Nat.add_comm 1 i]
  rfl

/-- A physical line is one of the pieces. -/
theorem number_of_mem {l : PhysicalLine} (mem : l ∈ physicalLines source) : ∃ i < ps.length, l.number = i + 1 := by
  rw [falls.physicalLines_eq] at mem
  obtain ⟨before, p, after, rfl, rfl, -⟩ := exists_of_mem_locate l mem
  exact ⟨before.length, by simp, Nat.add_comm 1 _⟩

theorem nodup_numbers : ((physicalLines source).map PhysicalLine.number).Nodup := by
  rw [falls.physicalLines_eq, numbers_locate]
  exact List.nodup_range'

/-- What is filed under the number of a line is what this line gives. -/
theorem filter_number (o : Options) {i : Nat} {t e : Text} (h : ps[i]? = some (t, e)) :
    (lines o source).filter (·.number = i + 1) = ((lineAt mark ps i t).line? o).toList ∧
      (Document.indentationNotes o source).filter (·.line = i + 1) = ((lineAt mark ps i t).note? o).toList := by
  rw [lines_eq_filterMap, indentationNotes_eq_filterMap]
  have mem := falls.lineAt_mem h
  exact ⟨filter_filterMap_number (fun l s hs => (PhysicalLine.within_of_line? hs).number) falls.nodup_numbers mem,
    filter_filterMap_number (fun l d hd => (PhysicalLine.of_note? hd).2.1) falls.nodup_numbers mem⟩

/-- The place of the content of a line covers it. -/
theorem slice?_place {i : Nat} {t e : Text} (h : ps[i]? = some (t, e)) (ne_nil : t.trim ≠ []) :
    source.slice? (place mark ps i t) = some t.trim := by
  have stands := stands_of_mem_physicalLines _ (falls.lineAt_mem h)
  rw [← span_lineAt mark ps i ne_nil]
  exact stands.covered

end Falls

/-- A source falls into physical lines, and reading sorts them in this way. -/
theorem partition_scan (o : Options) (source : Text) :
    (∃ mark ps, Falls source mark ps) ∧
      ∀ mark ps, Falls source mark ps →
        Partition o source mark ps (lines o source) (Document.indentationNotes o source) := by
  refine ⟨exists_falls source, fun mark ps falls => ?_⟩
  have withinLine : ∀ l s, PhysicalLine.line? o l = some s → ∀ r, s.span = r → l.Within s.number r :=
    fun l s hs r hr => hr ▸ PhysicalLine.within_of_line? hs
  have withinNote : ∀ l d, PhysicalLine.note? o l = some d → ∀ r, d.span = some r → l.Within d.line r :=
    fun l d hd r hr => PhysicalLine.within_of_note? hd hr
  exact {
    silent := fun i t e h silent => by
      obtain ⟨line, note⟩ := PhysicalLine.of_silent (l := lineAt mark ps i t) silent
      obtain ⟨lines, notes⟩ := falls.filter_number o h
      rw [lines, notes, line, note]
      exact ⟨rfl, rfl⟩
    line := fun i t e depth h speaks measured => by
      obtain ⟨line, note⟩ := PhysicalLine.of_measure_ok (l := lineAt mark ps i t) speaks measured
      obtain ⟨lines, notes⟩ := falls.filter_number o h
      rw [lines, notes, line, note, span_lineAt mark ps i fun ne_nil => speaks (.inl ne_nil)]
      exact ⟨rfl, rfl⟩
    note := fun i t e error h speaks measured => by
      obtain ⟨line, note⟩ := PhysicalLine.of_measure_error (l := lineAt mark ps i t) speaks measured
      obtain ⟨lines, notes⟩ := falls.filter_number o h
      rw [lines, notes, line, note, span_lineAt mark ps i fun ne_nil => speaks (.inl ne_nil)]
      exact ⟨rfl, rfl⟩
    numbers := by
      constructor
      · intro s hs
        obtain ⟨l, hl, line⟩ := exists_of_mem_lines hs
        rw [(PhysicalLine.within_of_line? line).number]
        exact falls.number_of_mem hl
      · intro d hd
        obtain ⟨l, hl, note⟩ := exists_of_mem_indentationNotes hd
        rw [(PhysicalLine.of_note? note).2.1]
        exact falls.number_of_mem hl
    covered := fun i t e h ne_nil => ⟨falls.slice?_place h ne_nil,
      PhysicalLine.exists_text_eq_of_content (l := lineAt mark ps i t) ne_nil⟩
    nonempty := by
      constructor
      · intro s hs
        obtain ⟨l, -, line⟩ := exists_of_mem_lines hs
        exact (PhysicalLine.within_of_line? line).nonempty
      · intro d hd
        obtain ⟨l, -, note⟩ := exists_of_mem_indentationNotes hd
        have place := (PhysicalLine.of_note? note).2.2
        exact ⟨l.span, place, (PhysicalLine.within_of_note? note place).nonempty⟩
    increasing_lines := by
      rw [lines_eq_filterMap, falls.physicalLines_eq]
      refine (pairwise_filterMap_of_within withinLine ?_ _ _ _).imp fun h => ⟨h.1, h.2 _ rfl _ rfl⟩
      exact fun l s hs => (withinLine l s hs _ rfl).number
    increasing_notes := by
      rw [indentationNotes_eq_filterMap, falls.physicalLines_eq]
      refine pairwise_filterMap_of_within withinNote ?_ _ _ _
      exact fun l d hd => (PhysicalLine.of_note? hd).2.1
    apart := by
      rw [lines_eq_filterMap, indentationNotes_eq_filterMap, falls.physicalLines_eq]
      intro s hs d hd r hr
      refine apart_of_within withinLine withinNote (fun l s d line note => ?_) _ _ _ s hs d hd _ rfl r hr
      rw [PhysicalLine.note?, PhysicalLine.line?_eq_some_iff.1 line] at note
      cases note
    trimmed := fun s hs => by
      obtain ⟨l, hl, line⟩ := exists_of_mem_lines hs
      exact (trimmed_of_line? (not_mem_text_of_mem_physicalLines l hl) line).1 }

end Source

end BusinessClass
