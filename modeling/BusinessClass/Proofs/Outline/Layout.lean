import BusinessClass.Document.Render
import BusinessClass.Proofs.Outline.Relocation
import BusinessClass.Proofs.Text.Block

/-!
# Outlines of written lines

A written line is tabs and content. The outline of written lines is the forest that they stand for,
without numbers and places.

* `outline_append`: lines that start at depth zero have an outline of their own.
* `outline_indent`: moving lines one level in shifts their outline.
* `text_outline`: the text of an outline is the lines that it was made of.
* `outline_renderLines`: the outline of a written forest is the forest, counted from its shallowest
  root.
-/

namespace BusinessClass

namespace SourceLine

/-- The line that a written line stands for, without number and place. -/
def ofText (t : Text) : SourceLine :=
  ⟨t.dropWhile (· == '\t'), (t.takeWhile (· == '\t')).length, 0, ⟨0, 0⟩⟩

theorem ofText_cons_tab (t : Text) : ofText ('\t' :: t) = (ofText t).relocate (.shift 1) := by
  simp [ofText, relocate]

theorem ofText_of_isContent {t : Text} (h : t.IsContent) : ofText t = ⟨t, 0, 0, ⟨0, 0⟩⟩ := by
  have hd := h.dropWhile_tabs 0
  have ht := h.takeWhile_tabs 0
  simp only [List.replicate_zero, List.nil_append] at hd ht
  simp [ofText, hd, ht]

theorem ofText_lineOf {l : SourceLine} (h : l.text.IsContent) (base : Nat) :
    ofText (Forest.lineOf base l) = l.relocate (.rebase base) := by
  simp [ofText, Forest.lineOf, h.dropWhile_tabs, h.takeWhile_tabs, relocate, Relocation.rebase]

theorem lineOf_ofText (t : Text) : Forest.lineOf 0 (ofText t) = t := Text.IsLine.eq

theorem isContent_text_ofText {t : Text} (h : t.IsLine) : (ofText t).text.IsContent := h

end SourceLine

namespace Forest

/-- Every line of the forest has content. -/
def Tidy (f : List Node) : Prop := ∀ l ∈ lines f, l.text.IsContent

@[simp] theorem tidy_nil : Tidy [] := by simp [Tidy]

theorem tidy_cons {n : Node} {ns : List Node} :
    Tidy (n :: ns) ↔ n.text.IsContent ∧ Tidy n.children ∧ Tidy ns := by
  simp [Tidy, or_imp, forall_and]

theorem tidy_append {f g : List Node} : Tidy (f ++ g) ↔ Tidy f ∧ Tidy g := by
  simp [Tidy, or_imp, forall_and]

theorem Tidy.sublist {f g : List Node} (hg : Tidy g) (h : f.Sublist g) : Tidy f :=
  fun l hl => hg l (mem_lines_of_sublist h l hl)

theorem Tidy.isContent {f : List Node} (h : Tidy f) {n : Node} (mem : n ∈ f) : n.text.IsContent :=
  h _ (toLine_mem_lines mem)

theorem Tidy.children {f : List Node} (h : Tidy f) {n : Node} (mem : n ∈ f) : Tidy n.children :=
  fun l hl => h l (lines_children_subset mem l hl)

/-- Trees are tidy together when each of them is. -/
theorem tidy_of_forall {f : List Node} (h : ∀ n ∈ f, n.text.IsContent ∧ Tidy n.children) : Tidy f := by
  intro l hl
  obtain ⟨n, hn, rfl | hl⟩ := mem_lines_iff.1 hl
  · exact (h n hn).1
  · exact (h n hn).2 l hl

theorem tidy_relocate (ρ : Relocation) {f : List Node} : Tidy (f.map (Node.relocate ρ)) ↔ Tidy f := by
  simp [Tidy]

end Forest

namespace Lines

/-- The first line, if there is one, is at depth zero. -/
def Flush (ls : List Text) : Prop := ∀ t ∈ ls.head?, (SourceLine.ofText t).depth = 0

theorem flush_nil : Flush [] := by simp [Flush]

theorem flush_cons {t : Text} (h : t.IsContent) (ls : List Text) : Flush (t :: ls) := by
  simp [Flush, SourceLine.ofText_of_isContent h]

theorem Flush.append {ls ms : List Text} (hl : Flush ls) (hm : Flush ms) : Flush (ls ++ ms) := by
  cases ls with
  | nil => exact hm
  | cons l ls => exact hl

theorem flush_flatMap {α : Type} {f : α → List Text} {as : List α} (h : ∀ a ∈ as, Flush (f a)) :
    Flush (as.flatMap f) := by
  induction as with
  | nil => exact flush_nil
  | cons a as ih =>
    rw [List.flatMap_cons]
    exact (h a List.mem_cons_self).append (ih fun b hb => h b (List.mem_cons_of_mem a hb))

@[simp] theorem length_indent (ls : List Text) : (indent ls).length = ls.length := by simp [indent]

@[simp] theorem indent_inj {ls ms : List Text} : indent ls = indent ms ↔ ls = ms :=
  List.map_inj_right fun _ _ h => (List.cons.inj h).2

theorem isLine_indent {ls : List Text} (h : ∀ t ∈ ls, t.IsLine) : ∀ t ∈ indent ls, t.IsLine := by
  intro t ht
  obtain ⟨u, hu, rfl⟩ := List.mem_map.1 ht
  exact (h u hu).cons_tab

end Lines

namespace Forest

/-! ### The outline of written lines -/

/-- The forest that written lines stand for. -/
def outline (ls : List Text) : List Node := ofLines 0 (ls.map SourceLine.ofText)

@[simp] theorem lines_outline (ls : List Text) : lines (outline ls) = ls.map SourceLine.ofText :=
  lines_ofLines 0 _

theorem nested_outline (ls : List Text) : Nested (outline ls) := nested_ofLines _

theorem tidy_outline {ls : List Text} (h : ∀ l ∈ ls, l.IsLine) : Tidy (outline ls) := by
  intro l hl
  rw [lines_outline] at hl
  obtain ⟨t, ht, rfl⟩ := List.mem_map.1 hl
  exact SourceLine.isContent_text_ofText (h t ht)

/-- Lines that start at depth zero have an outline of their own. -/
theorem outline_append {ls ms : List Text} (h : Lines.Flush ms) :
    outline (ls ++ ms) = outline ls ++ outline ms := by
  rw [outline, List.map_append, ofLines_append]
  · rfl
  · intro m hm l _
    rw [List.head?_map] at hm
    obtain ⟨t, ht, rfl⟩ := Option.map_eq_some_iff.1 hm
    rw [h t ht]
    exact Nat.zero_le _

theorem outline_flatMap {α : Type} {f : α → List Text} {as : List α} (h : ∀ a ∈ as, Lines.Flush (f a)) :
    outline (as.flatMap f) = as.flatMap fun a => outline (f a) := by
  induction as with
  | nil => rfl
  | cons a as ih =>
    have rest := fun b hb => h b (List.mem_cons_of_mem a hb)
    rw [List.flatMap_cons, List.flatMap_cons, outline_append (Lines.flush_flatMap rest), ih rest]

/-- Moving lines one level in shifts their outline. -/
theorem outline_indent (ls : List Text) :
    outline (Lines.indent ls) = (outline ls).map (Node.relocate (.shift 1)) := by
  rw [outline, outline, ← ofLines_relocate_of_shifts _ (Relocation.shifts_shift 1), Lines.indent,
    List.map_map, List.map_map]
  exact congrArg _ (List.map_congr_left fun t _ => SourceLine.ofText_cons_tab t)

/-- Content in front of indented lines is their parent. -/
theorem outline_cons_indent {t : Text} (h : t.IsContent) (ls : List Text) :
    outline (t :: Lines.indent ls)
      = [⟨t, 0, 0, ⟨0, 0⟩, (outline ls).map (Node.relocate (.shift 1))⟩] := by
  have deeper : ∀ m ∈ (Lines.indent ls).map SourceLine.ofText, (SourceLine.ofText t).depth < m.depth := by
    intro m hm
    simp only [Lines.indent, List.map_map, List.mem_map, Function.comp] at hm
    obtain ⟨u, -, rfl⟩ := hm
    simp [SourceLine.ofText_of_isContent h, SourceLine.ofText_cons_tab]
  rw [outline, List.map_cons, ofLines_cons_of_lt deeper, ← outline, outline_indent,
    SourceLine.ofText_of_isContent h]
  rfl

/-- Content alone is a leaf. -/
theorem outline_singleton {t : Text} (h : t.IsContent) : outline [t] = [⟨t, 0, 0, ⟨0, 0⟩, []⟩] :=
  outline_cons_indent h []

/-- The text of an outline is the lines that it was made of. -/
theorem text_outline (ls : List Text) : text (outline ls) 0 = Text.stack ls := by
  have written : lineOf 0 ∘ SourceLine.ofText = id := funext SourceLine.lineOf_ofText
  rw [text_eq, lines_outline, List.map_map, written, List.map_id]

/-- The text of an outline that was shifted, relative to the depth that it was shifted to. -/
theorem text_outline_shift (ls : List Text) (k : Nat) :
    text ((outline ls).map (Node.relocate (.shift k))) k = Text.stack ls := by
  have := text_relocate_shift _ (Relocation.shifts_shift k) (outline ls) 0
  rwa [Nat.zero_add, text_outline] at this

/-! ### Writing forests -/

theorem isLine_lineOf {f : List Node} (h : Tidy f) (b : Nat) :
    ∀ t ∈ (lines f).map (lineOf b), t.IsLine := by
  intro t ht
  obtain ⟨l, hl, rfl⟩ := List.mem_map.1 ht
  exact (h l hl).isLine _

theorem lines_text {f : List Node} (h : Tidy f) (b : Nat) :
    (text f b).lines = (lines f).map (lineOf b) := by
  rw [text_eq, Text.lines_stack (isLine_lineOf h b)]

theorem isBlock_text {f : List Node} (h : Tidy f) (b : Nat) : (text f b).IsBlock := by
  rw [text_eq]
  exact Text.isBlock_stack (isLine_lineOf h b)

theorem isLine_renderLines {f : List Node} (h : Tidy f) : ∀ t ∈ renderLines f, t.IsLine := by
  rw [renderLines, lines_text h]
  exact isLine_lineOf h _

/-- The outline of lines that are written relative to a depth that none of them falls below. -/
theorem outline_lines_text {f : List Node} (tidy : Tidy f) {b : Nat} (le : ∀ l ∈ lines f, b ≤ l.depth) :
    outline ((text f b).lines) = (ofLines 0 (lines f)).map (Node.relocate (.rebase b)) := by
  have ofText_lineOf : ((lines f).map (lineOf b)).map SourceLine.ofText
      = (lines f).map (SourceLine.relocate (.rebase b)) := by
    rw [List.map_map]
    exact List.map_congr_left fun l hl => SourceLine.ofText_lineOf (tidy l hl) b
  rw [lines_text tidy, outline, ofText_lineOf, ofLines_relocate]
  intro l hl m hm
  have := le l hl
  have := le m hm
  simp only [Relocation.rebase]
  omega

/-- The roots that trees have when they are written one below the other are roots of these trees. -/
theorem exists_of_mem_outline_text {f : List Node} (trees : ∀ n ∈ f, NestedTree n) (tidy : Tidy f)
    {b : Nat} (le : ∀ l ∈ lines f, b ≤ l.depth) :
    ∀ n ∈ outline (text f b).lines, ∃ m ∈ f, n.text = m.text := by
  intro n hn
  rw [outline_lines_text tidy le] at hn
  obtain ⟨r, hr, rfl⟩ := List.mem_map.1 hn
  obtain ⟨m, hm, h⟩ := List.mem_map.1 ((roots_ofLines_lines trees).subset (List.mem_map_of_mem hr))
  exact ⟨m, hm, by rw [Node.text_relocate, ← Node.text_toLine, ← h, Node.text_toLine]⟩

theorem minDepth_le_of_mem_lines {f : List Node} (nested : Nested f) :
    ∀ l ∈ lines f, minDepth f ≤ l.depth :=
  le_depth_of_mem_lines (fun _ hn => nested.tree hn) fun _ hn => minDepth_le hn

/-- The outline of a written forest is the forest, counted from its shallowest root. -/
theorem outline_renderLines {f : List Node} (nested : Nested f) (tidy : Tidy f) :
    outline (renderLines f) = f.map (Node.relocate (.rebase (minDepth f))) := by
  rw [renderLines, outline_lines_text tidy (minDepth_le_of_mem_lines nested), ofLines_lines nested]

/-- Lines are written as they are when their shallowest one is at the depth that they were shifted
to. -/
theorem renderLines_outline_shift {ls : List Text} (h : ∀ t ∈ ls, t.IsLine)
    (flush : ls = [] ∨ ∃ t ∈ ls, (SourceLine.ofText t).depth = 0) (k : Nat) :
    renderLines ((outline ls).map (Node.relocate (.shift k))) = ls := by
  rcases flush with rfl | ⟨t, ht, hd⟩
  · rfl
  · have root : ∃ n ∈ outline ls, n.depth = 0 := by
      have mem : SourceLine.ofText t ∈ lines (outline ls) := by
        rw [lines_outline]
        exact List.mem_map_of_mem ht
      obtain ⟨n, hn, hl⟩ := mem_lines_iff.1 mem
      refine ⟨n, hn, ?_⟩
      rcases hl with hl | hl
      · rw [← Node.depth_toLine, ← hl, hd]
      · have := ((nested_outline ls).tree hn).lt_of_mem_lines _ hl
        omega
    obtain ⟨n, hn, hd⟩ := root
    have ne : outline ls ≠ [] := List.ne_nil_of_mem hn
    have min : minDepth ((outline ls).map (Node.relocate (.shift k))) = k := by
      rw [minDepth_relocate_of_shifts _ (Relocation.shifts_shift k) ne,
        minDepth_eq (d := 0) (fun _ _ => Nat.zero_le _) ⟨n, hn, hd⟩, Nat.zero_add]
    rw [renderLines, min, text_outline_shift, Text.lines_stack h]

theorem renderLines_relocate {ρ : Relocation} {k : Nat} (h : ρ.Shifts k) (f : List Node) :
    renderLines (f.map (Node.relocate ρ)) = renderLines f := by
  by_cases ne : f = []
  · subst ne
    rfl
  · rw [renderLines, renderLines, minDepth_relocate_of_shifts ρ h ne, text_relocate_shift ρ h]

end Forest

end BusinessClass
