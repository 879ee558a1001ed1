import BusinessClass.Proofs.Source.Layout

/-!
# Sources written plainly

Of a source, only the lines that have a depth count, and of these the number, the depth and the content. A source
can be written plainly: every line ends with a line feed, a line that counts is a tab for each level and its
content, and all others are empty. It is then read as the same lines, up to their places.

* `PhysicalLine.plain` and `Source.plain` write a line and a source plainly.
* `PhysicalLine.read_plain_of_some` and `PhysicalLine.read_plain_of_none`: a line that is written plainly says the
  same, or nothing if it does not count.
* `Source.scan_plain`: so does a source, and it has no malformed line.
-/

namespace BusinessClass

namespace Indent

/-- Only a line without indentation has depth zero. -/
theorem eq_nil_of_measure_eq_zero {leading : Text} {width : Nat} (h : measure leading width = .ok 0) :
    leading = [] := by
  have pos : 0 < max width 1 := by omega
  obtain ⟨n, m, rfl, stands⟩ := measure_eq_ok_iff.1 h
  rcases (depth_eq_ok_iff pos).1 stands with ⟨rfl, ceil⟩ | ⟨tabs, -, zero⟩
  · -- spaces alone are rounded up, so that only no space makes no level
    rw [← roundUp_eq_ceil pos, eq_comm, Nat.div_eq_zero_iff] at ceil
    obtain rfl : m = 0 := by omega
    rfl
  · exact absurd (Nat.add_eq_zero_iff.1 zero.symm).1 tabs.ne'

end Indent

namespace PhysicalLine

/-- The line written plainly: a tab for each level and the content, or nothing if the line has no depth. -/
def plain (o : Options) (l : PhysicalLine) : Text :=
  (l.line? o).elim [] fun s => List.replicate s.depth '\t' ++ s.text

variable {o : Options} {l : PhysicalLine}

theorem not_mem_plain (ends : '\n' ∉ l.text ∧ '\r' ∉ l.text) : '\n' ∉ l.plain o ∧ '\r' ∉ l.plain o := by
  rw [plain]
  cases line : l.line? o with
  | none => exact ⟨List.not_mem_nil, List.not_mem_nil⟩
  | some s =>
    obtain ⟨trimmed, -⟩ := Source.trimmed_of_line? ends line
    simp [List.mem_replicate, trimmed.no_feed, trimmed.no_return]

/-- A line without a depth is written as nothing, which says nothing. -/
theorem read_plain_of_none (none : l.line? o = none) (offset : Nat) :
    read o ⟨l.plain o, l.number, offset⟩ = Option.none := by
  rw [plain, none]
  rfl

/-- A line with a depth that is written plainly says the same. -/
theorem read_plain_of_some (ends : '\n' ∉ l.text ∧ '\r' ∉ l.text) {s : SourceLine} (some : l.line? o = some s)
    (offset : Nat) : ∃ s', read o ⟨l.plain o, l.number, offset⟩ = Option.some (.ok s') ∧
      s'.relocate .unspan = s.relocate .unspan := by
  obtain ⟨trimmed, noComment⟩ := Source.trimmed_of_line? ends some
  obtain ⟨span, read⟩ := Source.read_tabs trimmed noComment s.depth l.number offset
  refine ⟨⟨s.text, s.depth, l.number, span⟩, ?_, ?_⟩
  · rw [plain, some]
    exact read
  · obtain ⟨depth, -, rfl⟩ := of_line? some
    rfl

end PhysicalLine

namespace Source

variable {o : Options}

/-- The source written plainly. -/
def plain (o : Options) (source : Text) : Text := Lines.text ((physicalLines source).map (PhysicalLine.plain o))

/-- Located pieces that are written plainly say the same. -/
theorem scan_plain_locate (ps : List (Text × Text)) (ends : ∀ p ∈ ps, '\n' ∉ p.1 ∧ '\r' ∉ p.1) :
    ∀ number offset offset' : Nat, ∃ read : List SourceLine,
      (locate number offset' (((locate number offset ps).map (PhysicalLine.plain o)).map (·, ['\n']))).filterMap
          (PhysicalLine.read o) = read.map .ok ∧
        read.map (SourceLine.relocate .unspan)
          = ((locate number offset ps).filterMap (PhysicalLine.line? o)).map (SourceLine.relocate .unspan) := by
  -- Both runs are at the same number. The offsets differ from the first line on, and are left free.
  induction ps with
  | nil => exact fun _ _ _ => ⟨[], rfl, rfl⟩
  | cons p ps ih =>
    intro number offset offset'
    obtain ⟨read, scan, same⟩ := ih (fun q hq => ends q (List.mem_cons_of_mem p hq)) (number + 1)
      (offset + (p.1 ++ p.2).byteSize)
      (offset' + (PhysicalLine.plain o ⟨p.1, number, offset⟩ ++ ['\n']).byteSize)
    rw [locate_cons, List.map_cons, List.map_cons, locate_cons]
    cases line : PhysicalLine.line? o ⟨p.1, number, offset⟩ with
    | none =>
      refine ⟨read, ?_, ?_⟩
      · rw [List.filterMap_cons_none (PhysicalLine.read_plain_of_none line offset'), scan]
      · rw [List.filterMap_cons_none line, same]
    | some s =>
      obtain ⟨s', plain, place⟩ := PhysicalLine.read_plain_of_some (ends p List.mem_cons_self) line offset'
      refine ⟨s' :: read, ?_, ?_⟩
      · rw [List.filterMap_cons_some plain, scan, List.map_cons]
      · rw [List.filterMap_cons_some line, List.map_cons, List.map_cons, place, same]

/-- The first line of a plain source starts with no byte order mark, if that of the source does not. -/
theorem head?_plain {l : PhysicalLine} (first : l.text.head? ≠ some byteOrderMark) (rest : Text) :
    ∀ c ∈ (l.plain o ++ '\n' :: rest).head?, c ≠ byteOrderMark := by
  intro c hc
  rw [PhysicalLine.plain] at hc
  cases line : l.line? o with
  | none =>
    rw [line] at hc
    cases hc
    decide
  | some s =>
    rw [line, Option.elim_some] at hc
    obtain ⟨depth, measured, rfl⟩ := PhysicalLine.of_line? line
    cases depth with
    | succ k =>
      cases hc
      decide
    | zero =>
      -- The content starts where the line does.
      obtain ⟨blanks, shape, -⟩ := l.exists_text_eq
      rw [Indent.eq_nil_of_measure_eq_zero measured, List.nil_append] at shape
      cases chars : l.content with
      | nil =>
        rw [chars] at hc
        cases hc
        decide
      | cons d t =>
        rw [chars] at hc shape
        cases hc
        rw [shape] at first
        exact fun isMark => first (congrArg some isMark)

/-- The pieces of a text start as the text does. -/
theorem head?_of_pieces {t : Text} {c : Char} {p : Text × Text} {ps : List (Text × Text)} (cut : pieces t = p :: ps)
    (head : p.1.head? = some c) : t.head? = some c := by
  obtain ⟨u, hu⟩ := List.head?_eq_some_iff.1 head
  rw [← flatten_pieces t, cut, flatten, List.flatMap_cons, hu]
  rfl

/-- A source that is written plainly has the same lines, up to places, and no malformed one. -/
theorem scan_plain {source : Text} (single : ¬ [byteOrderMark, byteOrderMark] <+: source) :
    ∃ read : List SourceLine, scan o (plain o source) = read.map .ok ∧
      read.map (SourceLine.relocate .unspan) = (lines o source).map (SourceLine.relocate .unspan) := by
  obtain ⟨mark, rest, source_eq, marked, lines_eq⟩ := exists_physicalLines_eq source
  have unmarked : rest.head? ≠ some byteOrderMark := by
    rcases marked with ⟨rfl, head⟩ | rfl
    · rwa [source_eq] at head
    · intro head
      obtain ⟨t, rfl⟩ := List.head?_eq_some_iff.1 head
      exact single (source_eq ▸ List.prefix_append _ t)
  have ends : ∀ t ∈ (physicalLines source).map (PhysicalLine.plain o), '\n' ∉ t ∧ '\r' ∉ t := by
    intro t ht
    obtain ⟨l, hl, rfl⟩ := List.mem_map.1 ht
    exact PhysicalLine.not_mem_plain (not_mem_text_of_mem_physicalLines l hl)
  have head : ∀ c ∈ (plain o source).head?, c ≠ byteOrderMark := by
    rw [plain, lines_eq]
    cases cut : pieces rest with
    | nil => simp [locate, Lines.text]
    | cons p ps =>
      rw [locate_cons, List.map_cons, Lines.text, List.flatMap_cons, List.append_assoc]
      exact head?_plain (fun head => unmarked (head?_of_pieces cut head)) _
  rw [scan, physicalLines_of_head head, plain, pieces_text ends, lines_eq_filterMap, lines_eq]
  exact scan_plain_locate (pieces rest) not_mem_of_mem_pieces 1 mark.byteSize 0

end Source

end BusinessClass
