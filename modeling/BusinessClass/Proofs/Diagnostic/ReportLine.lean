import BusinessClass.Diagnostic.Report
import BusinessClass.Proofs.Source.Pieces

/-!
# Lines of a report

A report cuts a source into lines of its own, at more characters than the source lines end with, and finds the line of
an offset by counting characters.

* `Text.byteSize_eq_length_iff`: when a text has as many bytes as characters.
* `Report.isForeignEnd`: a character that ends a line of a report and none of a source.
* `Report.Lead`: pieces that stand in front of a text as lines of a source do.
* `Report.exists_lines_flatten`: a report has a line for every line of a source, and more only if a foreign end stands
  in one of them. `Report.in_first_line_iff`: the same for the start of a line.
* `Report.line?_of_lines`: the line of an offset is looked for behind the lines that end in front of it.
-/

namespace BusinessClass

namespace Text

/-! ### Bytes and characters -/

theorem length_le_byteSize (t : Text) : t.length ≤ byteSize t := by
  induction t with
  | nil => exact Nat.le_refl 0
  | cons c t ih =>
    have := c.utf8Size_pos
    rw [List.length_cons, byteSize_cons]
    omega

/-- A text has as many bytes as characters exactly if each character takes one. -/
theorem byteSize_eq_length_iff {t : Text} : byteSize t = t.length ↔ ∀ c ∈ t, c.utf8Size = 1 := by
  induction t with
  | nil => simp
  | cons c t ih =>
    have pos := c.utf8Size_pos
    have le := length_le_byteSize t
    rw [List.forall_mem_cons, ← ih, byteSize_cons, List.length_cons]
    omega

end Text

namespace Report

/-! ### Lines of a report -/

/-- Whether the character ends a line of a report and none of a source. -/
def isForeignEnd (c : Char) : Bool := isLineEnd c && c != '\n' && c != '\r'

/-- Of the characters of one byte, two end a line of a report and none of a source. -/
theorem isForeignEnd_iff {c : Char} (one : c.utf8Size = 1) : isForeignEnd c = true ↔ c = '\x0b' ∨ c = '\x0c' := by
  have wide : c ≠ '\u0085' ∧ c ≠ '\u2028' ∧ c ≠ '\u2029' := by
    refine ⟨?_, ?_, ?_⟩ <;> rintro rfl <;> exact absurd one (by decide)
  constructor
  · intro h
    simp only [isForeignEnd, isLineEnd, Bool.and_eq_true, Bool.or_eq_true, beq_iff_eq, bne_iff_ne] at h
    obtain ⟨⟨ends, feed⟩, ret⟩ := h
    simpa only [feed, ret, wide, false_or, or_false] using ends
  · rintro (rfl | rfl) <;> decide

theorem isLineEnd_eq {c : Char} (feed : c ≠ '\n') (ret : c ≠ '\r') : isLineEnd c = isForeignEnd c := by
  rw [isForeignEnd, bne_iff_ne.2 feed, bne_iff_ne.2 ret, Bool.and_true, Bool.and_true]

/-- A character in front of a text ends a line or goes to the front of the first one. -/
theorem lines_cons {c : Char} {t : Text} (pair : c = '\r' → t.head? ≠ some '\n') :
    lines (c :: t) = if isLineEnd c then [c] :: lines t else Text.consHead c (lines t) := by
  refine lines.eq_3 c t fun cs hc ht => pair hc ?_
  rw [ht]
  rfl

theorem flatten_consHead (c : Char) (ls : List Text) : (Text.consHead c ls).flatten = c :: ls.flatten := by
  cases ls <;> rfl

/-- The lines of a report, one behind the other, are the source. -/
theorem flatten_lines (t : Text) : (lines t).flatten = t := by
  fun_induction lines t with
  | case1 => rfl
  | case2 cs ih => simp [ih]
  | case3 c cs _ stop ih => simp [ih]
  | case4 c cs _ stop ih => rw [flatten_consHead, ih]

/-- No line of a report is empty: each has an ending, or something in front of the end of the source. -/
theorem ne_nil_of_mem_lines {t y : Text} (mem : y ∈ lines t) : y ≠ [] := by
  fun_induction lines t with
  | case1 => cases mem
  | case2 cs ih =>
    rcases List.mem_cons.1 mem with rfl | mem
    · exact List.cons_ne_nil _ _
    · exact ih mem
  | case3 c cs _ stop ih =>
    rcases List.mem_cons.1 mem with rfl | mem
    · exact List.cons_ne_nil _ _
    · exact ih mem
  | case4 c cs _ stop ih =>
    cases eq : lines cs with
    | nil =>
      rw [eq] at mem
      rcases List.mem_singleton.1 mem with rfl
      exact List.cons_ne_nil _ _
    | cons z zs =>
      rw [eq] at mem ih
      rcases List.mem_cons.1 mem with rfl | mem
      · exact List.cons_ne_nil _ _
      · exact ih (List.mem_cons_of_mem z mem)

theorem lines_ne_nil {t : Text} (ne_nil : t ≠ []) : lines t ≠ [] := by
  intro none
  have := flatten_lines t
  rw [none] at this
  exact ne_nil this.symm

/-! ### Lines of a source -/

/-- The pieces stand in front of the text as lines of a source do: only their endings end lines. -/
def Lead (rest : Text) : List (Text × Text) → Prop
  | [] => True
  | (content, ending) :: qs => ('\n' ∉ content ∧ '\r' ∉ content) ∧
    (ending = ['\n'] ∨ ending = ['\r', '\n'] ∨ ending = ['\r'] ∧ (Source.flatten qs ++ rest).head? ≠ some '\n') ∧
    Lead rest qs

/-- The pieces of a source in front of some others. -/
theorem Lead.of_cut {qs ps : List (Text × Text)} (cut : Source.Cut (qs ++ ps)) (ne_nil : ps ≠ []) :
    Lead (Source.flatten ps) qs := by
  induction qs with
  | nil => trivial
  | cons q qs ih =>
    obtain ⟨content, ending⟩ := q
    rw [List.cons_append] at cut
    generalize whole : (content, ending) :: (qs ++ ps) = all at cut
    cases cut with
    | nil => cases whole
    | last plain _ =>
      have none := (List.cons.inj whole).2
      exact absurd (List.append_eq_nil_iff.1 none).2 ne_nil
    | line plain ends more =>
      obtain ⟨eq, rfl⟩ := List.cons.inj whole
      obtain ⟨rfl, rfl⟩ := Prod.mk.inj eq
      refine ⟨plain, ?_, ih more⟩
      rwa [show Source.flatten (qs ++ ps) = Source.flatten qs ++ Source.flatten ps from List.flatMap_append] at ends

/-- An ending of a line of a source ends one line of a report. -/
theorem lines_ending {ending rest : Text}
    (ends : ending = ['\n'] ∨ ending = ['\r', '\n'] ∨ ending = ['\r'] ∧ rest.head? ≠ some '\n') :
    lines (ending ++ rest) = ending :: lines rest := by
  rcases ends with rfl | rfl | ⟨rfl, alone⟩
  · exact lines_cons fun h => nomatch h
  · rfl
  · exact lines_cons fun _ => alone

/-- A line of a source with its ending makes up lines of a report: one, unless another character ends a line in it. -/
theorem exists_lines_piece {content ending rest : Text} (plain : '\n' ∉ content ∧ '\r' ∉ content)
    (ends : ending = ['\n'] ∨ ending = ['\r', '\n'] ∨ ending = ['\r'] ∧ rest.head? ≠ some '\n') :
    ∃ ls, lines (content ++ (ending ++ rest)) = ls ++ lines rest ∧ ls.flatten = content ++ ending ∧ 1 ≤ ls.length ∧
      (ls.length = 1 ↔ ∀ c ∈ content, isForeignEnd c = false) := by
  induction content with
  | nil => exact ⟨[ending], lines_ending ends, by simp, Nat.le_refl 1, by simp⟩
  | cons c content ih =>
    simp only [List.mem_cons, not_or] at plain
    obtain ⟨ls, lines_eq, flat, pos, one⟩ := ih ⟨plain.1.2, plain.2.2⟩
    rw [List.cons_append, lines_cons fun h => absurd h (Ne.symm plain.2.1), lines_eq,
      isLineEnd_eq (Ne.symm plain.1.1) (Ne.symm plain.2.1)]
    -- A foreign end closes a line of its own; another character joins the first line behind it.
    cases foreign : isForeignEnd c with
    | true =>
      refine ⟨[c] :: ls, rfl, by simp [flat], Nat.succ_pos _, ?_⟩
      have : ls.length ≠ 0 := Nat.ne_of_gt pos
      simp [foreign, this]
    | false =>
      obtain ⟨l, ls, rfl⟩ := List.exists_cons_of_length_pos pos
      refine ⟨(c :: l) :: ls, rfl, congrArg (c :: ·) flat, pos, ?_⟩
      rw [List.forall_mem_cons, ← one]
      simp [foreign]

/-- A report has a line for every line of a source, and more only if another character ends a line in one of them. -/
theorem exists_lines_flatten {rest : Text} {qs : List (Text × Text)} (lead : Lead rest qs) :
    ∃ ls, lines (Source.flatten qs ++ rest) = ls ++ lines rest ∧ ls.flatten = Source.flatten qs ∧
      qs.length ≤ ls.length ∧ (ls.length = qs.length ↔ ∀ c ∈ Source.flatten qs, isForeignEnd c = false) := by
  induction qs with
  | nil => exact ⟨[], rfl, rfl, Nat.le_refl 0, by simp⟩
  | cons q qs ih =>
    obtain ⟨content, ending⟩ := q
    obtain ⟨plain, ends, more⟩ := lead
    obtain ⟨ls, lines_eq, flat, le, same⟩ := ih more
    obtain ⟨ms, first_eq, first_flat, pos, one⟩ := exists_lines_piece plain ends
    -- Endings are no foreign ends, so only the contents count.
    have own : ∀ c ∈ ending, isForeignEnd c = false := by
      rcases ends with rfl | rfl | ⟨rfl, -⟩ <;> simp [isForeignEnd]
    refine ⟨ms ++ ls, ?_, ?_, ?_, ?_⟩
    · rw [Source.flatten_cons, List.append_assoc, List.append_assoc, first_eq, lines_eq, List.append_assoc]
    · rw [List.flatten_append, first_flat, flat, Source.flatten_cons, List.append_assoc]
    · rw [List.length_append, List.length_cons]
      omega
    · have split : (∀ c ∈ Source.flatten ((content, ending) :: qs), isForeignEnd c = false) ↔
          (∀ c ∈ content, isForeignEnd c = false) ∧ ∀ c ∈ Source.flatten qs, isForeignEnd c = false := by
        simp only [Source.flatten_cons, List.forall_mem_append]
        exact ⟨fun h => ⟨h.1, h.2.2⟩, fun h => ⟨h.1, own, h.2⟩⟩
      rw [split, ← one, ← same, List.length_append, List.length_cons]
      omega

/-- A text in which no line ends goes on in the first line of a report. -/
theorem exists_lines_plain {lead rest : Text} (plain : ∀ c ∈ lead, isLineEnd c = false) (ne_nil : rest ≠ []) :
    ∃ y ys, lines (lead ++ rest) = y :: ys ∧ lead.length < y.length := by
  induction lead with
  | nil =>
    obtain ⟨y, ys, eq⟩ := List.exists_cons_of_ne_nil (lines_ne_nil ne_nil)
    exact ⟨y, ys, eq, List.length_pos_iff.2 (ne_nil_of_mem_lines (eq ▸ List.mem_cons_self))⟩
  | cons c lead ih =>
    obtain ⟨y, ys, eq, lt⟩ := ih (List.forall_mem_cons.1 plain).2
    have stop := (List.forall_mem_cons.1 plain).1
    refine ⟨c :: y, ys, ?_, Nat.succ_lt_succ lt⟩
    rw [List.cons_append, lines_cons, stop, eq]
    · rfl
    · rintro rfl
      cases stop

/-- A text in which another character ends a line makes up the first line of a report. -/
theorem exists_lines_foreign {lead rest : Text} (plain : '\n' ∉ lead ∧ '\r' ∉ lead) {c : Char} (mem : c ∈ lead)
    (foreign : isForeignEnd c = true) (ne_nil : rest ≠ []) :
    ∃ y ys, lines (lead ++ rest) = y :: ys ∧ y.length ≤ lead.length ∧ ys ≠ [] := by
  induction lead with
  | nil => cases mem
  | cons d lead ih =>
    simp only [List.mem_cons, not_or] at plain
    rw [List.cons_append, lines_cons fun h => absurd h (Ne.symm plain.2.1),
      isLineEnd_eq (Ne.symm plain.1.1) (Ne.symm plain.2.1)]
    cases here : isForeignEnd d with
    | true =>
      refine ⟨[d], lines (lead ++ rest), rfl, by simp, lines_ne_nil fun none => ?_⟩
      exact ne_nil (List.append_eq_nil_iff.1 none).2
    | false =>
      have mem' : c ∈ lead := by
        rcases List.mem_cons.1 mem with rfl | mem
        · rw [here] at foreign
          cases foreign
        · exact mem
      obtain ⟨y, ys, eq, le, more⟩ := ih ⟨plain.1.2, plain.2.2⟩ mem'
      rw [eq]
      exact ⟨d :: y, ys, rfl, Nat.succ_le_succ le, more⟩

/-- The start of a line is in the first line of a report exactly if no other character ends a line in it. -/
theorem in_first_line_iff {lead rest y : Text} {ys : List Text} (plain : '\n' ∉ lead ∧ '\r' ∉ lead) (ne_nil : rest ≠ [])
    (lines_eq : lines (lead ++ rest) = y :: ys) :
    ys = [] ∨ lead.length < y.length ↔ ∀ c ∈ lead, isForeignEnd c = false := by
  constructor
  · intro inside c hc
    refine Bool.eq_false_iff.2 fun foreign => ?_
    obtain ⟨z, zs, eq, short, more⟩ := exists_lines_foreign plain hc foreign ne_nil
    obtain ⟨rfl, rfl⟩ := List.cons.inj (lines_eq.symm.trans eq)
    rcases inside with none | long
    · exact more none
    · exact Nat.not_lt.2 short long
  · intro free
    have noStop : ∀ c ∈ lead, isLineEnd c = false := fun c hc => by
      rw [isLineEnd_eq (fun eq => plain.1 (eq ▸ hc)) (fun eq => plain.2 (eq ▸ hc)), free c hc]
    obtain ⟨z, zs, eq, long⟩ := exists_lines_plain noStop ne_nil
    obtain ⟨rfl, rfl⟩ := List.cons.inj (lines_eq.symm.trans eq)
    exact .inr long

/-! ### The line that an offset belongs to -/

/-- Lines that end at or before an offset are passed over. -/
theorem lineAt_append {offset : Nat} (line : Line) (ls : List Text) (y : Text) (ys : List Text)
    (le : line.offset + line.text.length + ls.flatten.length ≤ offset) :
    lineAt offset line (ls ++ y :: ys)
      = lineAt offset ⟨y, line.number + ls.length + 1, line.offset + line.text.length + ls.flatten.length⟩ ys := by
  induction ls generalizing line with
  | nil =>
    have passed : line.offset + line.text.length ≤ offset := le
    rw [List.nil_append, lineAt, if_neg (Nat.not_lt.2 passed)]
    rfl
  | cons l ls ih =>
    rw [List.flatten_cons, List.length_append] at le
    have passed : line.offset + line.text.length + l.length + ls.flatten.length ≤ offset := by omega
    have number : line.number + 1 + ls.length = line.number + (ls.length + 1) := by omega
    rw [List.cons_append, lineAt, if_neg (by omega), ih ⟨l, line.number + 1, _⟩ passed, List.flatten_cons,
      List.length_append, List.length_cons, number, Nat.add_assoc _ l.length]

/-- Behind lines that end at or before an offset, the line it belongs to is looked for from the next one on. -/
theorem line?_of_lines {source y : Text} {ls ys : List Text} {offset : Nat} (lines_eq : lines source = ls ++ y :: ys)
    (le : ls.flatten.length ≤ offset) :
    line? source offset = some (lineAt offset ⟨y, ls.length + 1, ls.flatten.length⟩ ys) := by
  rw [line?, lines_eq]
  cases ls with
  | nil => rfl
  | cons l ls =>
    rw [List.flatten_cons, List.length_append] at le ⊢
    refine congrArg some ((lineAt_append ⟨l, 1, 0⟩ ls y ys (by simpa using le)).trans ?_)
    congr 2 <;> simp [Nat.add_comm]

theorem number_le_lineAt (offset : Nat) (line : Line) (rest : List Text) :
    line.number ≤ (lineAt offset line rest).number := by
  induction rest generalizing line with
  | nil => exact Nat.le_refl _
  | cons next rest ih =>
    rw [lineAt]
    split
    · exact Nat.le_refl _
    · exact Nat.le_of_succ_le (ih ⟨next, line.number + 1, line.offset + line.text.length⟩)

/-- The line of an offset is the first one if this is the last one or the offset is not behind it. -/
theorem lineAt_of_inside {offset : Nat} {line : Line} {rest : List Text}
    (inside : rest = [] ∨ offset < line.offset + line.text.length) : lineAt offset line rest = line := by
  cases rest with
  | nil => rfl
  | cons next rest => exact if_pos (inside.resolve_left (List.cons_ne_nil next rest))

/-- Otherwise it has a greater number. -/
theorem inside_of_number_le {offset : Nat} {line : Line} {rest : List Text}
    (le : (lineAt offset line rest).number ≤ line.number) : rest = [] ∨ offset < line.offset + line.text.length := by
  cases rest with
  | nil => exact .inl rfl
  | cons next rest =>
    rw [lineAt] at le
    split at le
    · rename_i inside
      exact .inr inside
    · have := number_le_lineAt offset ⟨next, line.number + 1, line.offset + line.text.length⟩ rest
      exact absurd (Nat.le_trans this le) (Nat.not_succ_le_self _)

end Report

end BusinessClass
