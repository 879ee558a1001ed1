import BusinessClass.Proofs.Outline.Layout
import BusinessClass.Proofs.Source.Indent
import BusinessClass.Proofs.Source.Pieces

/-!
# Sources laid out line by line

Reading a source keeps the content of its lines; and a source that consists of written lines is read back
as these lines, without a malformed one.

* `trimmed_of_line?` and `isContent_of_mem_lines`: what a source line holds is content.
* `increasing_number_lines`: the numbers of source lines grow.
* `pieces_text` and `read_tabs`: lines of tabs and content are cut and read as they are.
* `scan_layout` and `scan_stack`: every written line gives a source line of its own.
* `ofLines_layout`: the forest of written lines is their outline, up to numbers and places.
-/

namespace BusinessClass

namespace Source

/-! ### Content of source lines -/

theorem not_mem_text_of_mem_physicalLines {source : Text} :
    ∀ l ∈ physicalLines source, '\n' ∉ l.text ∧ '\r' ∉ l.text := by
  intro l hl
  obtain ⟨mark, rest, -, -, lines_eq⟩ := exists_physicalLines_eq source
  rw [lines_eq] at hl
  obtain ⟨before, p, after, cut, rfl, -⟩ := exists_of_mem_locate l hl
  exact not_mem_of_mem_pieces p (cut ▸ List.mem_append_right before List.mem_cons_self)

theorem content_subset (l : PhysicalLine) : ∀ c ∈ l.content, c ∈ l.text := by
  intro c hc
  obtain ⟨blanks, shape, -⟩ := l.exists_text_eq
  rw [shape]
  exact List.mem_append_right _ (List.mem_append_left _ hc)

/-- What a line that has a depth says is trimmed and no comment. -/
theorem trimmed_of_line? {o : Options} {l : PhysicalLine} (ends : '\n' ∉ l.text ∧ '\r' ∉ l.text) {s : SourceLine}
    (h : l.line? o = some s) : s.text.IsTrimmed ∧ o.isComment s.text = false := by
  obtain ⟨⟨ne_nil, noComment⟩, -⟩ := PhysicalLine.read_eq_some (PhysicalLine.line?_eq_some_iff.1 h)
  obtain ⟨depth, -, rfl⟩ := PhysicalLine.of_line? h
  refine ⟨⟨ne_nil, Text.isBlank_head_trimStart _, fun c hc => ?_, fun h => ends.1 (content_subset l _ h),
    fun h => ends.2 (content_subset l _ h)⟩, noComment⟩
  exact Text.isBlank_getLast_trimEnd l.text c (Text.getLast?_trimStart_subset _ c hc)

/-- What a source line holds is content. -/
theorem isContent_of_mem_lines {source : Text} : ∀ l ∈ lines {} source, l.text.IsContent := by
  intro s hs
  obtain ⟨l, hl, line⟩ := exists_of_mem_lines hs
  obtain ⟨trimmed, noComment⟩ := trimmed_of_line? (not_mem_text_of_mem_physicalLines l hl) line
  refine ⟨trimmed.ne_nil, trimmed.head, trimmed.last, trimmed.no_feed, trimmed.no_return, ?_⟩
  simpa [Options.isComment] using noComment

/-! ### Numbers of source lines -/

theorem numbers_locate (number offset : Nat) (ps : List (Text × Text)) :
    (locate number offset ps).map PhysicalLine.number = List.range' number ps.length := by
  induction ps generalizing number offset with
  | nil => rfl
  | cons p ps ih => rw [locate, List.map_cons, ih, List.length_cons, List.range'_succ]

/-- The numbers of source lines grow from line to line. -/
theorem increasing_number_lines (o : Options) (source : Text) :
    ((lines o source).map SourceLine.number).Pairwise (· < ·) := by
  have sub (ls : List PhysicalLine) : ((ls.filterMap (PhysicalLine.line? o)).map SourceLine.number).Sublist
      (ls.map PhysicalLine.number) := by
    induction ls with
    | nil => exact .slnil
    | cons l ls ih =>
      rw [List.filterMap_cons]
      cases line : l.line? o with
      | none => exact ih.cons _
      | some s =>
        obtain ⟨depth, -, rfl⟩ := PhysicalLine.of_line? line
        exact ih.cons_cons _
  have numbers : ((physicalLines source).map PhysicalLine.number).Pairwise (· < ·) := by
    obtain ⟨mark, rest, -, -, lines_eq⟩ := exists_physicalLines_eq source
    rw [lines_eq, numbers_locate]
    exact List.pairwise_lt_range'
  rw [lines_eq_filterMap]
  exact numbers.sublist (sub _)

/-- Every source line has a number of its own. -/
theorem nodup_number_lines (o : Options) (source : Text) :
    ((lines o source).map SourceLine.number).Nodup :=
  (increasing_number_lines o source).imp Nat.ne_of_lt

/-! ### Reading written lines -/

/-- A text of lines is cut into these lines. -/
theorem pieces_text {ls : List Text} (h : ∀ l ∈ ls, '\n' ∉ l ∧ '\r' ∉ l) :
    pieces (Lines.text ls) = ls.map (·, ['\n']) := by
  rw [pieces_eq_iff]
  induction ls with
  | nil => exact ⟨.nil, rfl⟩
  | cons l ls ih =>
    obtain ⟨cut, whole⟩ := ih fun m hm => h m (List.mem_cons_of_mem l hm)
    refine ⟨.line (h l List.mem_cons_self) (.inl rfl) cut, ?_⟩
    rw [List.map_cons, flatten_cons, whole]
    simp [Lines.text]

theorem measure_tabs (k width : Nat) : Indent.measure (List.replicate k '\t') width = .ok k := by
  have pos : 0 < max width 1 := by omega
  have tabs : Indent.run k 0 = List.replicate k '\t' := List.append_nil _
  have whole := Indent.depth_whole pos k 0
  rw [Nat.zero_mul] at whole
  rw [← tabs, Indent.measure_run, whole, Nat.add_zero]

/-- Tabs and content are read as the line that they stand for, if the content starts no comment. -/
theorem read_tabs {o : Options} {u : Text} (trimmed : u.IsTrimmed) (noComment : o.isComment u = false)
    (k number offset : Nat) :
    ∃ span, PhysicalLine.read o ⟨List.replicate k '\t' ++ u, number, offset⟩
      = some (.ok ⟨u, k, number, span⟩) := by
  have last : ∀ c ∈ (List.replicate k '\t' ++ u).getLast?, isBlank c = false := by
    intro c hm
    obtain ⟨d, hd⟩ := Option.ne_none_iff_exists'.1 (mt List.getLast?_eq_none_iff.1 trimmed.ne_nil)
    rw [List.getLast?_append, hd] at hm
    exact trimmed.last c (by rw [hd]; exact hm)
  have tabs : ∀ c ∈ List.replicate k '\t', isBlank c = true := by
    intro c hm
    rw [List.eq_of_mem_replicate hm]
    exact Text.isBlank_tab
  have head : u.dropWhile isBlank = u := Text.trimStart_eq_self trimmed.head
  -- The blanks in front are the tabs alone, since the content starts and ends with none.
  have body_eq : (PhysicalLine.mk (List.replicate k '\t' ++ u) number offset).body
      = List.replicate k '\t' ++ u := Text.trimEnd_eq_self last
  have content_eq : (PhysicalLine.mk (List.replicate k '\t' ++ u) number offset).content = u := by
    rw [PhysicalLine.content, body_eq, Text.trimStart, List.dropWhile_append_of_pos tabs, head]
  have indent_eq : (PhysicalLine.mk (List.replicate k '\t' ++ u) number offset).indent
      = List.replicate k '\t' := by
    have := Text.indent_append_trimStart (List.replicate k '\t' ++ u)
    rw [Text.trimStart, List.dropWhile_append_of_pos tabs, head] at this
    rw [PhysicalLine.indent, body_eq]
    exact List.append_cancel_right this
  have something : (u.isEmpty || o.isComment u) = false := by
    rw [noComment, Bool.or_false]
    exact List.isEmpty_eq_false_iff.2 trimmed.ne_nil
  refine ⟨(PhysicalLine.mk (List.replicate k '\t' ++ u) number offset).span, ?_⟩
  rw [PhysicalLine.read, content_eq, indent_eq, measure_tabs, something]
  rfl

/-- A written line is read as the line that it stands for. -/
theorem read_layout {u : Text} (hc : u.IsContent) (k number offset : Nat) :
    ∃ l, PhysicalLine.read {} ⟨List.replicate k '\t' ++ u, number, offset⟩ = some (.ok l) ∧
      l.relocate .unplace = SourceLine.ofText (List.replicate k '\t' ++ u) := by
  have noComment : ({} : Options).isComment u = false := by
    simpa [Options.isComment] using hc.no_comment
  obtain ⟨span, read⟩ := read_tabs hc.isTrimmed noComment k number offset
  refine ⟨_, read, ?_⟩
  simp [SourceLine.ofText, SourceLine.relocate, Relocation.unplace, hc.dropWhile_tabs, hc.takeWhile_tabs]

theorem physicalLines_of_head {source : Text} (head : ∀ c ∈ source.head?, c ≠ byteOrderMark) :
    physicalLines source = locate 1 0 (pieces source) := by
  cases source with
  | nil => rfl
  | cons c cs => rw [physicalLines, if_neg (head c rfl)]

/-- If no line of a source is malformed, what its lines say are its source lines. -/
theorem lines_of_scan {o : Options} {source : Text} {read : List SourceLine}
    (h : scan o source = read.map .ok) : lines o source = read := by
  rw [lines, h, List.filterMap_map]
  exact List.filterMap_some

theorem malformed_of_scan {o : Options} {source : Text} {read : List SourceLine}
    (h : scan o source = read.map .ok) : malformed o source = [] := by
  rw [malformed, h, List.filterMap_map, List.filterMap_eq_nil_iff]
  exact fun _ _ => rfl

/-- Every piece that is a written line gives a source line of its own, whatever ends it. -/
theorem filterMap_read_locate {ps : List (Text × Text)} (h : ∀ p ∈ ps, p.1.IsLine) (number offset : Nat) :
    ∃ read : List SourceLine, (locate number offset ps).filterMap (PhysicalLine.read {}) = read.map .ok ∧
      read.map (SourceLine.relocate .unplace) = (ps.map Prod.fst).map SourceLine.ofText := by
  induction ps generalizing number offset with
  | nil => exact ⟨[], rfl, rfl⟩
  | cons p ps ih =>
    obtain ⟨l, hl, hu⟩ := read_layout (h p List.mem_cons_self) _ number offset
    rw [Text.IsLine.eq] at hl hu
    obtain ⟨read, hr, hru⟩ := ih (fun q hq => h q (List.mem_cons_of_mem p hq)) (number + 1)
      (offset + p.1.byteSize + p.2.byteSize)
    refine ⟨l :: read, ?_, by simp [hu, hru]⟩
    rw [locate, List.filterMap_cons_some hl, hr, List.map_cons]

/-- The forest of a source that gives written lines is their outline, up to numbers and places. -/
theorem ofLines_of_scan {source : Text} {ls : List Text} {read : List SourceLine} (h : scan {} source = read.map .ok)
    (same : read.map (SourceLine.relocate .unplace) = ls.map SourceLine.ofText) :
    (Forest.ofLines 0 (lines {} source)).map (Node.relocate .unplace) = Forest.outline ls := by
  rw [lines_of_scan h, ← Forest.ofLines_relocate_of_shifts _ Relocation.shifts_unplace, same]
  rfl

/-- Every written line gives a source line of its own, also without an ending behind the last one. -/
theorem scan_stack {ls : List Text} (h : ∀ l ∈ ls, l.IsLine)
    (head : ∀ c ∈ (Text.stack ls).head?, c ≠ byteOrderMark) :
    ∃ read : List SourceLine, scan {} (Text.stack ls) = read.map .ok ∧
      read.map (SourceLine.relocate .unplace) = ls.map SourceLine.ofText := by
  have contents := map_fst_feedBetween ls
  have lines : ∀ p ∈ feedBetween ls, p.1.IsLine := fun p hp =>
    h p.1 (contents ▸ List.mem_map_of_mem (f := Prod.fst) hp)
  obtain ⟨read, hr, hu⟩ := filterMap_read_locate lines 1 0
  rw [scan, physicalLines_of_head head,
    pieces_stack (fun l hl => ⟨(h l hl).no_feed, (h l hl).no_return⟩) fun l hl => (h l hl).ne_nil]
  exact ⟨read, hr, by rw [hu, contents]⟩

/-- Every written line gives a source line of its own. -/
theorem scan_layout {ls : List Text} (h : ∀ l ∈ ls, l.IsLine)
    (head : ∀ c ∈ (Lines.text ls).head?, c ≠ byteOrderMark) :
    ∃ read : List SourceLine, scan {} (Lines.text ls) = read.map .ok ∧
      read.map (SourceLine.relocate .unplace) = ls.map SourceLine.ofText := by
  have lines : ∀ p ∈ ls.map (·, ['\n']), p.1.IsLine := by
    intro p hp
    obtain ⟨l, hl, rfl⟩ := List.mem_map.1 hp
    exact h l hl
  have contents : (ls.map (·, ['\n'])).map Prod.fst = ls := by simp [Function.comp_def]
  obtain ⟨read, hr, hu⟩ := filterMap_read_locate lines 1 0
  rw [scan, physicalLines_of_head head, pieces_text fun l hl => ⟨(h l hl).no_feed, (h l hl).no_return⟩]
  exact ⟨read, hr, by rw [hu, contents]⟩

variable {ls : List Text} (h : ∀ l ∈ ls, l.IsLine)
  (head : ∀ c ∈ (Lines.text ls).head?, c ≠ byteOrderMark)

include h head

theorem malformed_layout : malformed {} (Lines.text ls) = [] := by
  obtain ⟨read, hr, -⟩ := scan_layout h head
  exact malformed_of_scan hr

/-- The forest of written lines is their outline, up to numbers and places. -/
theorem ofLines_layout :
    (Forest.ofLines 0 (lines {} (Lines.text ls))).map (Node.relocate .unplace)
      = Forest.outline ls := by
  obtain ⟨read, hr, hu⟩ := scan_layout h head
  exact ofLines_of_scan hr hu

end Source

end BusinessClass
