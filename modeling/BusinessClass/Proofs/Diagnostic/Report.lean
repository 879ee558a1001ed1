import BusinessClass.Proofs.Diagnostic.ReportLine
import BusinessClass.Proofs.Document.Places
import BusinessClass.Proofs.Json.Literal
import BusinessClass.Proofs.Source.Partition

/-!
# Where a report points

A report finds the place of a problem by the offset at which the span of the problem starts. Spans count bytes and
reports count characters, and more characters end a line of a report than a line of a source. So a report points at
the line and the column of a problem only if the two ways of counting agree on all that stands in front of it.

* `Report.header_mem_linesOf_iff`: a report has the head of a place exactly if it shows the problem there.
* `Report.shows_iff`: when a report shows a text where it stands in its line.
* `Source.exists_source_eq`: what stands in front of the content of a physical line.
* `Document.exists_physicalLine_of_mem_diagnostics`: a problem with a span is about the content of a physical line.
* `Report.points_iff`: when the report of a problem points at its line and column.
-/

namespace BusinessClass

namespace Report

/-! ### The head of a place -/

/-- The line of a report that names a place: the source, the number of a line and a column in it. -/
def header (label : Text) (number column : Nat) : Text :=
  let number := Text.ofNat number
  List.replicate (number.length + 2) ' ' ++ "╭─[".toList ++ label ++ ":".toList ++ number ++ ":".toList
    ++ Text.ofNat column ++ "]".toList

/-- A report shows a span at a line and a column. -/
def Shows (source : Text) (s : Span) (number column : Nat) : Prop :=
  ∃ p, place? source s = some p ∧ p.line.number = number ∧ p.start - p.line.offset + 1 = column

theorem dropWhile_replicate (n : Nat) {c : Char} (t : Text) (visible : c ≠ ' ') :
    (List.replicate n ' ' ++ c :: t).dropWhile (· == ' ') = c :: t := by
  have spaces : ∀ d ∈ List.replicate n ' ', (d == ' ') = true := fun d hd => by simp [List.eq_of_mem_replicate hd]
  rw [List.dropWhile_append_of_pos spaces, List.dropWhile_cons_of_neg (by simpa using visible)]

theorem dropWhile_header (label : Text) (number column : Nat) :
    (header label number column).dropWhile (· == ' ')
      = "╭─[".toList ++ (label ++ ':' :: (Text.ofNat number ++ ':' :: (Text.ofNat column ++ "]".toList))) := by
  simp only [header, List.append_assoc]
  exact dropWhile_replicate _ _ (by decide)

/-- Lines and columns can be read off the head of a place, whatever the name of the source is. -/
theorem header_inj {label : Text} {number column number' column' : Nat} :
    header label number column = header label number' column' ↔ number = number' ∧ column = column' := by
  refine ⟨fun same => ?_, fun ⟨hn, hc⟩ => by rw [hn, hc]⟩
  have colon (n : Nat) : ':' ∉ Text.ofNat n := fun mem => absurd (Text.isDigit_of_mem_ofNat mem) (by decide)
  have value {m n : Nat} (eq : Text.ofNat m = Text.ofNat n) : m = n := by
    rw [← Text.digitsValue_ofNat m, eq, Text.digitsValue_ofNat]
  have rest := congrArg (List.dropWhile (· == ' ')) same
  rw [dropWhile_header, dropWhile_header] at rest
  -- Behind the name and its colon, the next colon ends the number.
  have numbers := (List.cons.inj (List.append_cancel_left (List.append_cancel_left rest))).2
  have none : ':' ∉ Text.ofNat column ++ "]".toList := by
    rw [List.mem_append, not_or]
    exact ⟨colon column, by decide⟩
  obtain ⟨hn, -, hc⟩ := (List.append_cons_inj_of_notMem (colon number) none).1 numbers
  exact ⟨value hn, value (List.append_cancel_right hc)⟩

/-- The first character of a line of a report that is no space. -/
def sign (x : Text) : Option Char := (x.dropWhile (· == ' ')).head?

theorem sign_replicate (n : Nat) {c : Char} (t : Text) (visible : c ≠ ' ') :
    sign (List.replicate n ' ' ++ c :: t) = some c := by
  rw [sign, dropWhile_replicate n t visible]
  rfl

theorem sign_header (label : Text) (number column : Nat) : sign (header label number column) = some '╭' := by
  rw [sign, dropWhile_header]
  rfl

/-- Below its head, the lines of a picture start with a number, or with a bar or the edge below it. -/
theorem sign_of_mem_tail_body {label : Text} {p : Place} {hint : Option Text} :
    ∀ x ∈ (body label p hint).tail, sign x ≠ some '╭' := by
  have bar (n : Nat) (t : Text) : sign (List.replicate n ' ' ++ '│' :: t) ≠ some '╭' := by
    rw [sign_replicate n t (by decide)]
    decide
  intro x hx
  simp only [body, List.cons_append, List.tail_cons, List.mem_cons, List.mem_append, List.nil_append,
    List.not_mem_nil, or_false, List.append_assoc] at hx
  rcases hx with rfl | rfl | rfl | rfl | help | rfl
  · exact bar _ _
  · obtain ⟨d, ds, digits, digit⟩ := Json.Numeral.exists_ofNat_eq_cons p.line.number
    have visible : d ≠ ' ' := by
      rintro rfl
      cases digit
    rw [digits]
    have first := sign_replicate 1 (ds ++ (" │ ".toList ++ shownLine p.line)) visible
    intro corner
    rw [Option.some.inj (first.symm.trans corner)] at digit
    cases digit
  · exact bar _ _
  · exact bar _ _
  · cases hint with
    | none => cases help
    | some hint =>
      simp only [List.mem_cons, List.not_mem_nil, or_false] at help
      rcases help with rfl | rfl <;> exact bar _ _
  · intro corner
    cases corner

/-- A picture has the head of the place that it shows, and of no other. -/
theorem header_mem_body_iff {label : Text} {p : Place} {hint : Option Text} {number column : Nat} :
    header label number column ∈ body label p hint
      ↔ p.line.number = number ∧ p.start - p.line.offset + 1 = column := by
  have parts : body label p hint
      = header label p.line.number (p.start - p.line.offset + 1) :: (body label p hint).tail := rfl
  have notBelow : header label number column ∉ (body label p hint).tail :=
    fun mem => sign_of_mem_tail_body _ mem (sign_header label number column)
  rw [parts, List.mem_cons, or_iff_left notBelow, header_inj]
  exact and_congr eq_comm eq_comm

/-- A report has the head of a place if it shows the problem there. -/
theorem header_mem_linesOf_iff {label source : Text} {d : Diagnostic} {number column : Nat} :
    header label number column ∈ linesOf label source d ↔ ∃ s, d.span = some s ∧ Shows source s number column := by
  have noTitle : header label number column ≠ title d.severity ++ d.kind.message := by
    intro same
    have signs := sign_header label number column
    rw [same] at signs
    cases severity : d.severity <;> rw [severity] at signs <;> cases signs
  rw [linesOf, List.mem_cons, or_iff_right noTitle]
  cases span : d.span with
  | none => simp
  | some s =>
    cases place : place? source s with
    | none => simp [Shows, place]
    | some p => simp [Shows, place, header_mem_body_iff]

/-! ### What is shown of a source -/

/-- A span that is not empty is shown on the line that its start belongs to, unless it ends outside the source. -/
theorem shows_iff_of_line? {source : Text} {s : Span} (nonempty : s.start < s.stop) {line : Line}
    (found : line? source s.start = some line) {number column : Nat} :
    Shows source s number column
      ↔ s.stop ≤ source.length + 1 ∧ line.number = number ∧ s.start - line.offset + 1 = column := by
  have last : (if s.start = s.stop then s.start else max s.start (s.stop - 1)) = s.stop - 1 := by
    rw [if_neg (Nat.ne_of_lt nonempty), Nat.max_eq_right (Nat.le_sub_one_of_lt nonempty)]
  rw [Shows, place?, last, found]
  by_cases inside : s.stop ≤ source.length + 1
  · simp [inside]
  · simp [inside]

/-- The bytes of what stands in front exceed the characters of the lines in front by the characters of the indentation
exactly if all characters in front take one byte. -/
theorem distance_eq_iff {front lead indent : Text} (mark : lead = indent ∨ lead = Source.byteOrderMark :: indent) :
    (front ++ lead).byteSize - front.length = indent.length ↔ ∀ c ∈ front ++ lead, c.utf8Size = 1 := by
  have leFront := front.length_le_byteSize
  have leLead := lead.length_le_byteSize
  rw [List.forall_mem_append, ← Text.byteSize_eq_length_iff, ← Text.byteSize_eq_length_iff, Text.byteSize_append]
  rcases mark with rfl | rfl
  · omega
  · have size : Text.byteSize (Source.byteOrderMark :: indent) = 3 + indent.byteSize := Text.byteSize_cons _ _
    have := indent.length_le_byteSize
    rw [size, List.length_cons]
    omega

/-- Of a source that holds a text behind lines and the start of another line, a report shows the text where it stands
exactly if the characters in front take one byte each, none of them is a foreign end, and the span does not end outside
the source. -/
theorem shows_iff {source lead content behind indent : Text} {qs : List (Text × Text)}
    (whole : source = Source.flatten qs ++ (lead ++ (content ++ behind))) (front : Lead (lead ++ (content ++ behind)) qs)
    (plain : '\n' ∉ lead ∧ '\r' ∉ lead) (mark : lead = indent ∨ lead = Source.byteOrderMark :: indent)
    (ne_nil : content ≠ []) {s : Span} (start : s.start = (Source.flatten qs ++ lead).byteSize)
    (nonempty : s.start < s.stop) :
    Shows source s (qs.length + 1) (indent.length + 1) ↔
      (∀ c ∈ Source.flatten qs ++ lead, c.utf8Size = 1 ∧ isForeignEnd c = false) ∧ s.stop ≤ source.length + 1 := by
  have stands : content ++ behind ≠ [] := fun none => ne_nil (List.append_eq_nil_iff.1 none).1
  obtain ⟨ls, lines_eq, flat, le, same⟩ := exists_lines_flatten front
  obtain ⟨y, ys, rest_eq⟩ := List.exists_cons_of_ne_nil (lines_ne_nil (List.append_ne_nil_of_right_ne_nil lead stands))
  have behindFront : ls.flatten.length ≤ s.start := by
    have := (Source.flatten qs).length_le_byteSize
    rw [start, flat, Text.byteSize_append]
    omega
  have lines_source : lines source = ls ++ y :: ys := by rw [whole, lines_eq, rest_eq]
  have found := line?_of_lines lines_source behindFront
  have first (one : ∀ c ∈ Source.flatten qs ++ lead, c.utf8Size = 1) :
      ys = [] ∨ s.start < (Source.flatten qs).length + y.length ↔ ∀ c ∈ lead, isForeignEnd c = false := by
    rw [start, Text.byteSize_eq_length_iff.2 one, List.length_append, Nat.add_lt_add_iff_left]
    exact in_first_line_iff plain stands rest_eq
  have distance : s.start - (Source.flatten qs).length = indent.length
      ↔ ∀ c ∈ Source.flatten qs ++ lead, c.utf8Size = 1 := start ▸ distance_eq_iff mark
  rw [flat] at found
  rw [shows_iff_of_line? nonempty found, and_comm]
  refine and_congr_left fun _ => ⟨fun ⟨number, column⟩ => ?_, fun all => ?_⟩
  · -- The line has the right number, so it is the first one behind those of the lines in front.
    have least : ls.length + 1 ≤ qs.length + 1 := (number_le_lineAt _ _ _).trans number.le
    have count : ls.length = qs.length := Nat.le_antisymm (Nat.le_of_succ_le_succ least) le
    have inside := inside_of_number_le (number.trans (congrArg (· + 1) count.symm)).le
    rw [lineAt_of_inside inside] at column
    have one := distance.1 (Nat.succ.inj column)
    have free := List.forall_mem_append.2 ⟨same.1 count, (first one).1 inside⟩
    exact fun c hc => ⟨one c hc, free c hc⟩
  · obtain ⟨freeFront, freeLead⟩ := List.forall_mem_append.1 fun c hc => (all c hc).2
    have one := fun c hc => (all c hc).1
    rw [lineAt_of_inside ((first one).2 freeLead), same.2 freeFront]
    exact ⟨rfl, congrArg (· + 1) (distance.2 one)⟩

end Report

namespace Source

open Report (Lead)

/-- A byte order mark in front of a source belongs to the first line of a report. -/
theorem exists_lead_of_mark {rest indent : Text} {before : List (Text × Text)} (lead : Lead (indent ++ rest) before)
    (plain : '\n' ∉ indent ∧ '\r' ∉ indent) :
    ∃ qs front, byteOrderMark :: (flatten before ++ indent) = flatten qs ++ front ∧ qs.length = before.length ∧
      (front = indent ∨ front = byteOrderMark :: indent) ∧ ('\n' ∉ front ∧ '\r' ∉ front) ∧ Lead (front ++ rest) qs := by
  have noEnd : '\n' ≠ byteOrderMark ∧ '\r' ≠ byteOrderMark := by decide
  cases before with
  | nil =>
    refine ⟨[], byteOrderMark :: indent, rfl, rfl, .inr rfl, ?_, trivial⟩
    simpa only [List.mem_cons, not_or] using ⟨⟨noEnd.1, plain.1⟩, noEnd.2, plain.2⟩
  | cons p before =>
    obtain ⟨content, ending⟩ := p
    obtain ⟨text, ends, more⟩ := lead
    refine ⟨(byteOrderMark :: content, ending) :: before, indent, by simp, rfl, .inl rfl, plain, ?_, ends, more⟩
    simpa only [List.mem_cons, not_or] using ⟨⟨noEnd.1, text.1⟩, noEnd.2, text.2⟩

/-- In front of the content of a physical line stand the lines before it and its own indentation, and a byte order mark
if the source has one. -/
theorem exists_source_eq {source : Text} {l : PhysicalLine} (hl : l ∈ physicalLines source) :
    ∃ qs lead behind, source = flatten qs ++ (lead ++ (l.content ++ behind)) ∧ l.number = qs.length + 1 ∧
      l.span.start = (flatten qs ++ lead).byteSize ∧ (lead = l.indent ∨ lead = byteOrderMark :: l.indent) ∧
      ('\n' ∉ lead ∧ '\r' ∉ lead) ∧ Lead (lead ++ (l.content ++ behind)) qs := by
  obtain ⟨mark, rest, source_eq, marked, lines_eq⟩ := exists_physicalLines_eq source
  have noEnd := not_mem_text_of_mem_physicalLines l hl
  rw [lines_eq] at hl
  obtain ⟨before, p, after, cut, rfl, -⟩ := exists_of_mem_locate l hl
  generalize l_eq : PhysicalLine.mk p.1 (1 + before.length) (mark.byteSize + (flatten before).byteSize) = l at *
  obtain ⟨blanks, shape, -⟩ := l.exists_text_eq
  -- The rest of the source behind the mark, cut around the content.
  have text : l.text = p.1 := by rw [← l_eq]
  have number : l.number = 1 + before.length := by rw [← l_eq]
  have offset : l.offset = (mark ++ flatten before).byteSize := by rw [← l_eq, Text.byteSize_append]
  have behind : rest = flatten before ++ (l.indent ++ (l.content ++ (blanks ++ (p.2 ++ flatten after)))) := by
    rw [← flatten_pieces rest, cut]
    simp [flatten, ← text, shape]
  have start : l.span.start = (mark ++ flatten before ++ l.indent).byteSize := by
    rw [Text.byteSize_append, ← offset]
    rfl
  have plain : '\n' ∉ l.indent ∧ '\r' ∉ l.indent := by
    have sub : l.indent ⊆ l.text := shape ▸ List.subset_append_left _ _
    exact ⟨fun h => noEnd.1 (sub h), fun h => noEnd.2 (sub h)⟩
  have lead : Lead (l.indent ++ (l.content ++ (blanks ++ (p.2 ++ flatten after)))) before := by
    have cut := Lead.of_cut (cut ▸ cut_pieces rest) (List.cons_ne_nil p after)
    rwa [flatten_cons, ← text, shape, List.append_assoc, List.append_assoc] at cut
  rcases marked with ⟨rfl, -⟩ | rfl
  · refine ⟨before, l.indent, _, source_eq.trans behind, ?_, start, .inl rfl, plain, lead⟩
    rw [number, Nat.add_comm]
  · obtain ⟨qs, front, whole, count, marked, plain, lead⟩ := exists_lead_of_mark lead plain
    refine ⟨qs, front, _, ?_, ?_, ?_, marked, plain, lead⟩
    · rw [← List.append_assoc (flatten qs), ← whole, source_eq, behind]
      simp only [List.cons_append, List.nil_append, List.append_assoc]
    · rw [number, count, Nat.add_comm]
    · rw [start, ← whole]
      rfl

end Source

/-- A diagnostic with a span is about the content of a physical line. -/
theorem Document.exists_physicalLine_of_mem_diagnostics {o : Options} {source : Text} {d : Diagnostic}
    (mem : d ∈ (read o source).diagnostics) {s : Span} (span : d.span = some s) :
    ∃ l ∈ Source.physicalLines source, l.number = d.line ∧ l.span = s ∧ l.content ≠ [] := by
  obtain ⟨d, hd, rfl⟩ := List.mem_map.1 mem
  rcases notedIn_classify hd with hd | rfl | rfl | ⟨n, hn, kind, -, -, rfl⟩
  · obtain ⟨l, hl, note⟩ := Source.exists_of_mem_indentationNotes hd
    obtain ⟨ne_nil, number, place⟩ := PhysicalLine.of_note? note
    exact ⟨l, hl, number.symm, Option.some.inj (place.symm.trans span), ne_nil⟩
  · cases span
  · cases span
  · have line : n.toLine ∈ Source.lines o source := by
      rw [← Forest.lines_ofLines 0 (Source.lines o source)]
      exact List.mem_map_of_mem hn
    obtain ⟨l, hl, line⟩ := Source.exists_of_mem_lines line
    obtain ⟨⟨ne_nil, -⟩, -⟩ := PhysicalLine.read_eq_some (PhysicalLine.line?_eq_some_iff.1 line)
    obtain ⟨depth, -, eq⟩ := PhysicalLine.of_line? line
    obtain ⟨-, -, number, place⟩ := SourceLine.mk.inj eq
    exact ⟨l, hl, number.symm, place.symm.trans (Option.some.inj span), ne_nil⟩

namespace Report

/-- The report of a problem that has a place points at its line, and behind the indentation of this line, exactly if
in front of the problem all characters take one byte and none is a vertical tab or a form feed, and the place does not
end outside the source, counted in characters. -/
theorem points_iff (o : Options) (source label : Text) (d : Diagnostic) (s : Span)
    (mem : d ∈ (Document.read o source).diagnostics) (span : d.span = some s) :
    ∃ l ∈ Source.physicalLines source, l.number = d.line ∧ l.span = s ∧
      ∃ before behind, source = before ++ (l.content ++ behind) ∧ before.byteSize = s.start ∧
        (header label d.line (l.indent.length + 1) ∈ linesOf label source d ↔
          (∀ c ∈ before, c.utf8Size = 1 ∧ c ≠ '\x0b' ∧ c ≠ '\x0c') ∧ s.stop ≤ source.length + 1) := by
  obtain ⟨l, hl, number, rfl, ne_nil⟩ := Document.exists_physicalLine_of_mem_diagnostics mem span
  obtain ⟨qs, lead, behind, whole, count, start, mark, plain, front⟩ := Source.exists_source_eq hl
  refine ⟨l, hl, number, rfl, Source.flatten qs ++ lead, behind, by rw [whole, List.append_assoc], start.symm, ?_⟩
  have shown := shows_iff whole front plain mark ne_nil start (PhysicalLine.within_span ne_nil).nonempty
  have free (c : Char) :
      c.utf8Size = 1 ∧ isForeignEnd c = false ↔ c.utf8Size = 1 ∧ c ≠ '\x0b' ∧ c ≠ '\x0c' :=
    and_congr_right fun one => by rw [← Bool.not_eq_true, isForeignEnd_iff one, not_or]
  simp only [header_mem_linesOf_iff, span, Option.some.injEq, exists_eq_left', ← number, count, shown, free]

/-- A class with a line in front of all sections, and with another line in front of this one. -/
def straySource (line : Text) : Text := "W is a BusinessClass\n".toList ++ line ++ "\n\tstray\n".toList

/-- What is noted about the line in front of all sections, behind another one of six bytes. -/
def stray : Diagnostic := .make (.unknownSectionContent "stray".toList) 3 (some ⟨29, 34⟩)

theorem points_iff_stray : stray ∈ (Document.read {} (straySource "\t// go".toList)).diagnostics ∧
    stray.span = some ⟨29, 34⟩ ∧
    header "input".toList 3 2 ∈ linesOf "input".toList (straySource "\t// go".toList) stray := by
  have mem : stray ∈ (Document.read {} (straySource "\t// go".toList)).diagnostics := by decide +kernel
  have ascii : (straySource "\t// go".toList).all (fun c => c.utf8Size = 1 ∧ c ≠ '\x0b' ∧ c ≠ '\x0c') = true := by
    decide +kernel
  have column : ∀ l ∈ Source.physicalLines (straySource "\t// go".toList), l.number = 3 → l.indent.length + 1 = 2 := by
    decide +kernel
  obtain ⟨l, hl, number, -, before, behind, whole, -, points⟩ := points_iff {} _ "input".toList _ _ mem rfl
  rw [column l hl number] at points
  refine ⟨mem, rfl, points.2 ⟨fun c hc => of_decide_eq_true (List.all_eq_true.1 ascii c ?_), by decide⟩⟩
  rw [whole]
  exact List.mem_append_left _ hc

/-- An accent in front of a problem moves its report: the two bytes of the letter are taken for two characters. -/
theorem not_points_accent : stray ∈ (Document.read {} (straySource "\t// é".toList)).diagnostics ∧
    (∀ l ∈ Source.physicalLines (straySource "\t// é".toList), l.number = 3 →
      l.span = ⟨29, 34⟩ ∧ l.indent.length + 1 = 2) ∧
    header "input".toList 3 2 ∉ linesOf "input".toList (straySource "\t// é".toList) stray ∧
    header "input".toList 3 3 ∈ linesOf "input".toList (straySource "\t// é".toList) stray := by
  decide +kernel

end Report

end BusinessClass
