import BusinessClass.Proofs.Text.Block
import BusinessClass.Source.Line

/-!
# Places in a source

Cutting a source into pieces loses no character, so the offset of a physical line is the size of what stands
in front of it. Hence the number and the span that a line carries lead back to what the line holds.

* `Text.slice?_append`: the span behind a text and in front of another covers exactly what stands between them.
* `PhysicalLine.line?` and `PhysicalLine.read_eq_some`: what a line says, and when it is a source line.
* `Source.flatten_pieces`: the pieces of a source, one behind the other, are the source.
* `Source.Stands` says that a text stands on a line of a source and that a span covers it.
* `stands_of_mem_physicalLines`: the content of every physical line stands where the line says, and so do the
  source lines (`stands_of_mem_lines`) and the malformed ones (`stands_of_mem_malformed`).
-/

namespace BusinessClass

namespace Text

/-! ### Bytes -/

/-- The first character takes its own bytes and leaves those of the rest. -/
theorem exists_byteSize_cons (c : Char) (t : Text) : ∃ n, byteSize (c :: t) = n + 1 ∧ c.utf8Size ≤ n + 1 ∧
    n + 1 - c.utf8Size = byteSize t := by
  have pos := c.utf8Size_pos
  refine ⟨c.utf8Size - 1 + byteSize t, ?_, ?_, ?_⟩
  · rw [byteSize_cons]
    omega
  · omega
  · omega

theorem dropBytes?_append (s t : Text) : dropBytes? (byteSize s) (s ++ t) = some t := by
  induction s with
  | nil => cases t <;> rfl
  | cons c s ih =>
    obtain ⟨n, size, fits, rest⟩ := exists_byteSize_cons c s
    rw [size, List.cons_append, dropBytes?, if_pos fits, rest, ih]

theorem takeBytes?_append (s t : Text) : takeBytes? (byteSize s) (s ++ t) = some s := by
  induction s with
  | nil => cases t <;> rfl
  | cons c s ih =>
    obtain ⟨n, size, fits, rest⟩ := exists_byteSize_cons c s
    rw [size, List.cons_append, takeBytes?, if_pos fits, rest, ih]
    rfl

/-- The span behind a text and in front of another covers what stands between them. -/
theorem slice?_append (s t u : Text) : slice? (s ++ (t ++ u)) ⟨byteSize s, byteSize s + byteSize t⟩ = some t := by
  rw [slice?, if_pos (Nat.le_add_right _ _), dropBytes?_append, Option.bind_some, Nat.add_sub_cancel_left,
    takeBytes?_append]

/-! ### Blanks at the end -/

/-- What is dropped from the end of a text is blank. -/
theorem exists_trimEnd_append (t : Text) : ∃ blanks, t = t.trimEnd ++ blanks ∧ ∀ c ∈ blanks, isBlank c = true := by
  induction t with
  | nil => exact ⟨[], rfl, by simp⟩
  | cons c t ih =>
    obtain ⟨blanks, ht, blank⟩ := ih
    rw [trimEnd_cons]
    split
    · rename_i all
      rw [all.1, List.nil_append] at ht
      refine ⟨c :: blanks, by rw [List.nil_append, ← ht], List.forall_mem_cons.2 ⟨all.2, blank⟩⟩
    · exact ⟨blanks, by rw [List.cons_append, ← ht], blank⟩

end Text

namespace PhysicalLine

/-! ### One line -/

/-- A line is its indentation, its content and the blanks behind. -/
theorem exists_text_eq (l : PhysicalLine) :
    ∃ blanks, l.text = l.indent ++ (l.content ++ blanks) ∧ ∀ c ∈ blanks, isBlank c = true := by
  obtain ⟨blanks, body, blank⟩ := l.text.exists_trimEnd_append
  refine ⟨blanks, ?_, blank⟩
  rw [← List.append_assoc, content, indent, Text.indent_append_trimStart]
  exact body

theorem byteSize_body (l : PhysicalLine) : l.body.byteSize = l.indent.byteSize + l.content.byteSize := by
  rw [← Text.byteSize_append, content, indent, Text.indent_append_trimStart]

/-- The source line that a physical line is, if it has a depth. -/
def line? (o : Options) (l : PhysicalLine) : Option SourceLine := (l.read o).bind Except.toOption

variable {o : Options} {l : PhysicalLine}

theorem line?_eq_some_iff {s : SourceLine} : l.line? o = some s ↔ l.read o = some (.ok s) := by
  rw [line?]
  rcases l.read o with - | (e | s') <;> simp [Except.toOption]

/-- A line that says something has content, which is no comment. What it says, it says with its own number and span;
a source line has its content and depth. -/
theorem read_eq_some {r : Except MalformedLine SourceLine} (h : l.read o = some r) :
    (l.content ≠ [] ∧ o.isComment l.content = false) ∧
      ((∃ depth, Indent.measure l.indent o.levelWidth = .ok depth ∧ r = .ok ⟨l.content, depth, l.number, l.span⟩) ∨
        ∃ e, r = .error ⟨e, l.number, l.span⟩) := by
  rw [read] at h
  split at h
  · cases h
  · rename_i something
    simp only [Bool.or_eq_true, not_or, Bool.not_eq_true, List.isEmpty_eq_false_iff] at something
    refine ⟨something, ?_⟩
    split at h
    · rename_i depth measured
      cases h
      exact Or.inl ⟨depth, measured, rfl⟩
    · rename_i e _
      cases h
      exact Or.inr ⟨e, rfl⟩

/-- A source line has the content, the depth and the place of its physical line. -/
theorem of_line? {s : SourceLine} (h : l.line? o = some s) :
    ∃ depth, Indent.measure l.indent o.levelWidth = .ok depth ∧ s = ⟨l.content, depth, l.number, l.span⟩ := by
  rcases (read_eq_some (line?_eq_some_iff.1 h)).2 with ⟨depth, measured, eq⟩ | ⟨e, eq⟩
  · exact ⟨depth, measured, Except.ok.inj eq⟩
  · cases eq

end PhysicalLine

namespace Source

/-! ### Pieces -/

/-- Pieces one behind the other, each with its ending. -/
def flatten (ps : List (Text × Text)) : Text := ps.flatMap fun p => p.1 ++ p.2

/-- Cutting a source loses no character. -/
theorem flatten_pieces (t : Text) : flatten (pieces t) = t := by
  fun_induction pieces t with
  | case1 => rfl
  | case2 cs ih => exact congrArg ('\n' :: ·) ih
  | case3 cs ih => exact congrArg ('\r' :: '\n' :: ·) ih
  | case4 cs _ ih => exact congrArg ('\r' :: ·) ih
  | case5 c cs _ _ _ none ih =>
    rw [none] at ih
    rw [← ih]
    rfl
  | case6 c cs _ _ _ content ending rest some ih =>
    rw [some] at ih
    exact congrArg (c :: ·) ih

theorem locate_cons (number offset : Nat) (p : Text × Text) (ps : List (Text × Text)) :
    locate number offset (p :: ps)
      = ⟨p.1, number, offset⟩ :: locate (number + 1) (offset + (p.1 ++ p.2).byteSize) ps := by
  rw [locate, Text.byteSize_append, Nat.add_assoc]

/-- A located piece stands behind the pieces in front of it. -/
theorem exists_of_mem_locate {number offset : Nat} {ps : List (Text × Text)} :
    ∀ l ∈ locate number offset ps, ∃ before p after, ps = before ++ p :: after ∧
      l = ⟨p.1, number + before.length, offset + (flatten before).byteSize⟩ ∧
      (locate number offset ps)[before.length]? = some l := by
  induction ps generalizing number offset with
  | nil => simp [locate]
  | cons p ps ih =>
    intro l hl
    rw [locate_cons] at hl ⊢
    rcases List.mem_cons.1 hl with rfl | hl
    · exact ⟨[], p, ps, rfl, rfl, rfl⟩
    · obtain ⟨before, q, after, rfl, rfl, found⟩ := ih l hl
      refine ⟨p :: before, q, after, rfl, ?_, found⟩
      simp only [List.length_cons, flatten, List.flatMap_cons, Text.byteSize_append]
      congr 1 <;> omega

/-! ### Lines -/

/-- A source is the byte order mark in front, if there is one, and the pieces of its lines. -/
theorem exists_physicalLines_eq (source : Text) : ∃ mark rest, source = mark ++ rest ∧
    (mark = [] ∧ source.head? ≠ some byteOrderMark ∨ mark = [byteOrderMark]) ∧
    physicalLines source = locate 1 mark.byteSize (pieces rest) := by
  cases source with
  | nil => exact ⟨[], [], rfl, Or.inl ⟨rfl, by simp⟩, rfl⟩
  | cons c cs =>
    rw [physicalLines]
    split
    · rename_i isMark
      subst isMark
      exact ⟨[byteOrderMark], cs, rfl, Or.inr rfl, rfl⟩
    · rename_i noMark
      exact ⟨[], c :: cs, rfl, Or.inl ⟨rfl, fun head => noMark (Option.some.inj head)⟩, rfl⟩

/-- The text stands on the line with the given number, between blanks, and the span covers it. -/
structure Stands (source t : Text) (line : Nat) (span : Span) : Prop where
  pos : 1 ≤ line
  content : (physicalLines source)[line - 1]?.map (fun l => l.text.trim) = some t
  covered : source.slice? span = some t

/-- What a physical line holds stands where the line says. -/
theorem stands_of_mem_physicalLines {source : Text} :
    ∀ l ∈ physicalLines source, Stands source l.content l.number l.span := by
  intro l hl
  obtain ⟨mark, rest, source_eq, -, lines_eq⟩ := exists_physicalLines_eq source
  rw [lines_eq] at hl
  obtain ⟨before, p, after, cut, rfl, found⟩ := exists_of_mem_locate l hl
  generalize hl' : PhysicalLine.mk p.1 (1 + before.length) (mark.byteSize + (flatten before).byteSize) = l at found
  have text : l.text = p.1 := by rw [← hl']
  have number : l.number = 1 + before.length := by rw [← hl']
  have offset : l.offset = (mark ++ flatten before).byteSize := by rw [← hl', Text.byteSize_append]
  -- What stands in front of the content is taken as one text, whose size is where the span starts.
  obtain ⟨blanks, shape, -⟩ := l.exists_text_eq
  have source_shape : source
      = (mark ++ flatten before ++ l.indent) ++ (l.content ++ (blanks ++ (p.2 ++ flatten after))) := by
    rw [source_eq, ← flatten_pieces rest, cut]
    simp [flatten, ← text, shape]
  have span : l.span = ⟨(mark ++ flatten before ++ l.indent).byteSize,
      (mark ++ flatten before ++ l.indent).byteSize + l.content.byteSize⟩ := by
    rw [PhysicalLine.span, offset, l.byteSize_body, Text.byteSize_append (mark ++ flatten before), Nat.add_assoc]
  refine ⟨by omega, ?_, ?_⟩
  · rw [number, Nat.add_sub_cancel_left, lines_eq, found]
    rfl
  · rw [span, source_shape]
    exact Text.slice?_append _ _ _

theorem lines_eq_filterMap (o : Options) (source : Text) :
    lines o source = (physicalLines source).filterMap (PhysicalLine.line? o) := List.filterMap_filterMap

/-- A source line is what a physical line says. -/
theorem exists_of_mem_lines {o : Options} {source : Text} {s : SourceLine} (hs : s ∈ lines o source) :
    ∃ l ∈ physicalLines source, l.line? o = some s := by
  rw [lines_eq_filterMap] at hs
  exact List.mem_filterMap.1 hs

/-- A source line stands where it says. -/
theorem stands_of_mem_lines {o : Options} {source : Text} :
    ∀ s ∈ lines o source, Stands source s.text s.number s.span := by
  intro s hs
  obtain ⟨l, hl, line⟩ := exists_of_mem_lines hs
  obtain ⟨depth, -, rfl⟩ := PhysicalLine.of_line? line
  exact stands_of_mem_physicalLines l hl

/-- The content of a line with malformed indentation stands where the line says. -/
theorem stands_of_mem_malformed {o : Options} {source : Text} :
    ∀ m ∈ malformed o source, ∃ t, Stands source t m.number m.span := by
  intro m hm
  obtain ⟨r, hr, error⟩ := List.mem_filterMap.1 hm
  obtain ⟨l, hl, read⟩ := List.mem_filterMap.1 hr
  rcases (PhysicalLine.read_eq_some read).2 with ⟨depth, -, rfl⟩ | ⟨e, rfl⟩
  · cases error
  · cases error
    exact ⟨l.content, stands_of_mem_physicalLines l hl⟩

end Source

end BusinessClass
