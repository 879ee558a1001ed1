import BusinessClass.Proofs.SetRules.ActionRules
import Mathlib.Algebra.Ring.Nat

/-!
# Which lines belong to groups

Rules are written one item below the other, so lines of a text that start deeper than the group in front
of it are read as lines of that group.

* `RuleItem.view` is an item as it matters: a text by its lines without indentation, a group without the
  numbers of its lines.
* `plainSize_outline_le` and `plainSize_outline_lt`: reading written rules never takes a line out of a
  group, and it puts one into a group as soon as some text is not detached.
* `Writable.view_reread_iff`: the items of rules that are read again are the same exactly when every text
  is detached from the group in front of it.
-/

namespace BusinessClass

open Forest (outline)

namespace RuleItem

/-- The item without the indentation of text and without the numbers of lines. -/
def view : RuleItem → List Text ⊕ SetRuleGroup
  | .text t => .inl (t.lines.map fun l => l.dropWhile (· == '\t'))
  | .group g => .inr (g.relocate .erase)

/-- The number of lines that belong to no group. -/
def plainCount : RuleItem → Nat
  | .text t => t.lines.length
  | .group _ => 0

theorem plainCount_eq (i : RuleItem) : i.plainCount = Sum.elim List.length (fun _ => 0) i.view := by
  cases i <;> simp [plainCount, view]

end RuleItem

namespace ActionRules

open RuleItem (Alternates Detached plainCount view)

/-! ### Lines outside groups -/

/-- The number of lines of a forest that belong to no group. -/
def plainSize (f : List Node) : Nat :=
  (f.map fun n => if (GroupKey.ofHeader? n.text).isNone then (Forest.lines [n]).length else 0).sum

theorem plainSize_cons (n : Node) (f : List Node) : plainSize (n :: f)
    = (if (GroupKey.ofHeader? n.text).isNone then (Forest.lines [n]).length else 0) + plainSize f := by
  simp [plainSize]

theorem plainSize_append (f g : List Node) : plainSize (f ++ g) = plainSize f + plainSize g := by
  simp [plainSize]

theorem plainSize_of_plain {f : List Node} (plain : ∀ n ∈ f, GroupKey.ofHeader? n.text = none) :
    plainSize f = (Forest.lines f).length := by
  induction f with
  | nil => rfl
  | cons n ns ih =>
    rw [plainSize_cons, plain n List.mem_cons_self, ih fun m hm => plain m (List.mem_cons_of_mem n hm)]
    simp only [Option.isNone_none, if_true, Forest.lines_cons, Forest.lines_nil, List.append_nil,
      List.length_cons, List.length_append]
    omega

theorem plainSize_dropWhile_le (p : Node → Bool) (f : List Node) : plainSize (f.dropWhile p) ≤ plainSize f := by
  have := List.takeWhile_append_dropWhile (p := p) (l := f)
  have sum := plainSize_append (f.takeWhile p) (f.dropWhile p)
  rw [this] at sum
  omega

/-- The number of lines outside groups that a line and the lines under it are. -/
def aloneSize : Node ⊕ SetRuleGroup → Nat
  | .inl n => (Forest.lines [n]).length
  | .inr _ => 0

/-- The lines outside groups that rules are read from are those of its texts. -/
theorem sum_plainCount_read {f : List Node} (tidy : Forest.Tidy f) :
    ((read {} 0 f).value.items.map plainCount).sum = plainSize f := by
  have count : ∀ r ∈ f.foldr (addRun {}) [], plainCount (item 0 r) = ((joined r).map aloneSize).sum := by
    intro r hr
    cases r with
    | inl run =>
      have runOf := runOf_foldr_addRun f _ hr
      have plain := fun n hn => (runOf.2 n hn).2
      have lines : plainCount (item 0 (.inl run)) = plainSize run := by
        rw [item, plainCount, Forest.lines_text (runOf.tidy tidy), List.length_map, plainSize_of_plain plain]
      rw [lines, plainSize, joined, List.map_map]
      refine congrArg List.sum (List.map_congr_left fun n hn => ?_)
      rw [plain n hn]
      rfl
    | inr g => rfl
  have each : ∀ n ∈ f, aloneSize (alone {} n)
      = if (GroupKey.ofHeader? n.text).isNone then (Forest.lines [n]).length else 0 := by
    intro n _
    cases group : GroupKey.ofHeader? n.text with
    | none => rw [alone_of_plain group]; rfl
    | some key => rw [alone_of_group group]; rfl
  have whole : ((f.foldr (addRun {}) []).map fun r => ((joined r).map aloneSize).sum).sum
      = (((f.foldr (addRun {}) []).flatMap joined).map aloneSize).sum := by
    rw [List.map_flatMap, List.flatMap_def, List.sum_flatten, List.map_map]
    rfl
  calc ((read {} 0 f).value.items.map plainCount).sum
      = ((f.foldr (addRun {}) []).map fun r => plainCount (item 0 r)).sum := by
        rw [items_read, List.map_map]
        rfl
    _ = ((f.map (alone {})).map aloneSize).sum := by
        rw [List.map_congr_left count, whole, flatMap_joined_runs]
    _ = plainSize f := by
        rw [List.map_map, plainSize, ← List.map_congr_left each]
        rfl

/-! ### Lines that come under groups -/

/-- Lines behind a group come under it until one is at the depth of the group. -/
theorem plainSize_outline_group {g : SetRuleGroup} (h : g.Writable) (ls : List Text) :
    plainSize (outline (g.renderLines ++ ls)) = plainSize ((outline ls).dropWhile fun n => 0 < n.depth) := by
  have content := h.key_writable.isContent
  have deeper : ∀ l ∈ (Lines.indent g.innerLines).map SourceLine.ofText, 0 < l.depth := by
    intro l hl
    simp only [Lines.indent, List.map_map, List.mem_map, Function.comp] at hl
    obtain ⟨t, -, rfl⟩ := hl
    rw [SourceLine.ofText_cons_tab, SourceLine.depth_relocate]
    exact Nat.succ_pos _
  have under : Forest.isUnder 0 ⟨g.key.header, 0, 0, ⟨0, 0⟩⟩ = fun n => decide (0 < n.depth) :=
    funext fun n => Forest.isUnder_zero _ n
  have opens : (GroupKey.ofHeader? g.key.header).isNone = false := by
    rw [h.key_writable.ofHeader?]
    rfl
  rw [SetRuleGroup.renderLines_eq, outline, List.cons_append, List.map_cons, List.map_append,
    Forest.ofLines_cons, SourceLine.ofText_of_isContent content, Forest.grow, under,
    Forest.dropWhile_ofLines_append _ deeper, plainSize_cons, Node.text_ofLine, opens]
  simp [outline]

theorem plainSize_outline_text {t : Text} {ls : List Text} (h : RuleItem.Writable (.text t))
    (flush : Lines.Flush ls) :
    plainSize (outline (t.lines ++ ls)) = t.lines.length + plainSize (outline ls) := by
  rw [Forest.outline_append flush, plainSize_append, plainSize_of_plain h.2.2, Forest.lines_outline,
    List.length_map]

theorem flush_behind_text {t : Text} {items : List RuleItem} (h : ∀ i ∈ items, i.Writable)
    (alternates : (RuleItem.text t :: items).IsChain Alternates) :
    Lines.Flush (items.flatMap RuleItem.renderLines) := by
  cases items with
  | nil => exact Lines.flush_nil
  | cons i items =>
    have := (List.isChain_cons.1 alternates).1 i rfl
    cases i with
    | text u => exact this.elim
    | group g =>
      have writable : g.Writable := h (.group g) List.mem_cons_self
      rw [List.flatMap_cons, RuleItem.renderLines, SetRuleGroup.renderLines_eq]
      exact Lines.flush_cons writable.key_writable.isContent _

/-- Text that is not detached from a group loses a line to it. -/
theorem plainSize_dropWhile_lt {t : Text} {ls : List Text} (h : RuleItem.Writable (.text t))
    (flush : Lines.Flush ls) (hangs : ¬ Lines.Flush t.lines) :
    plainSize ((outline (t.lines ++ ls)).dropWhile fun n => 0 < n.depth)
      < plainSize (outline (t.lines ++ ls)) := by
  have head : (outline t.lines).head?.map Node.toLine = (t.lines.map SourceLine.ofText).head? :=
    Forest.head_ofLines 0 _
  have plain := h.2.2
  rw [Forest.outline_append flush]
  cases hf : outline t.lines with
  | nil =>
    rw [hf] at head
    cases hl : t.lines with
    | nil => exact absurd (hl ▸ Lines.flush_nil) hangs
    | cons l rest => rw [hl] at head; cases head
  | cons n ns =>
    rw [hf] at head plain
    have deeper : 0 < n.depth := by
      cases hl : t.lines with
      | nil => rw [hl] at head; cases head
      | cons l rest =>
        rw [hl] at head hangs
        have depth : n.depth = (SourceLine.ofText l).depth := congrArg SourceLine.depth (Option.some.inj head)
        simp only [Lines.Flush, List.head?_cons, Option.mem_some_iff, forall_eq'] at hangs
        omega
    have le := plainSize_dropWhile_le (fun n => decide (0 < n.depth)) (ns ++ outline ls)
    rw [List.cons_append, List.dropWhile_cons_of_pos (by simpa using deeper), plainSize_cons,
      plain n List.mem_cons_self]
    simp only [Option.isNone_none, if_true, Forest.lines_cons, List.length_cons]
    omega

variable {items : List RuleItem}

/-- Reading written rules takes no line out of a group. -/
theorem plainSize_outline_le (h : ∀ i ∈ items, i.Writable) (alternates : items.IsChain Alternates) :
    plainSize (outline (items.flatMap RuleItem.renderLines)) ≤ (items.map plainCount).sum := by
  induction items with
  | nil => exact Nat.le_refl 0
  | cons i items ih =>
    have rest := fun j hj => h j (List.mem_cons_of_mem i hj)
    specialize ih rest (List.isChain_cons.1 alternates).2
    rw [List.flatMap_cons, List.map_cons, List.sum_cons]
    cases i with
    | text t =>
      rw [RuleItem.renderLines, plainSize_outline_text (h _ List.mem_cons_self)
        (flush_behind_text rest alternates), plainCount]
      omega
    | group g =>
      have writable : g.Writable := h (.group g) List.mem_cons_self
      have le := plainSize_dropWhile_le (fun n => decide (0 < n.depth))
        (outline (items.flatMap RuleItem.renderLines))
      rw [RuleItem.renderLines, plainSize_outline_group writable, plainCount]
      omega

/-- Where some text is not detached, a line outside groups comes under a group. -/
theorem plainSize_outline_lt (h : ∀ i ∈ items, i.Writable) (alternates : items.IsChain Alternates)
    (hangs : ¬ items.IsChain Detached) :
    plainSize (outline (items.flatMap RuleItem.renderLines)) < (items.map plainCount).sum := by
  induction items with
  | nil => exact absurd .nil hangs
  | cons i items ih =>
    have rest := fun j hj => h j (List.mem_cons_of_mem i hj)
    have alternate := (List.isChain_cons.1 alternates).2
    rw [List.isChain_cons, not_and_or] at hangs
    rw [List.flatMap_cons, List.map_cons, List.sum_cons]
    cases i with
    | text t =>
      have later : ¬ items.IsChain Detached := hangs.resolve_left (by simp [Detached])
      have lt := ih rest alternate later
      rw [RuleItem.renderLines, plainSize_outline_text (h _ List.mem_cons_self)
        (flush_behind_text rest alternates), plainCount]
      omega
    | group g =>
      have writable : g.Writable := h (.group g) List.mem_cons_self
      rw [RuleItem.renderLines, plainSize_outline_group writable, plainCount]
      -- Either the text behind this group hangs, and its first line comes under the group, or one further on does.
      rcases hangs with hangs | later
      · cases items with
        | nil => simp at hangs
        | cons j items =>
          cases j with
          | group g' => simp [Detached] at hangs
          | text t =>
            have text : RuleItem.Writable (.text t) := rest _ List.mem_cons_self
            have here : ¬ Lines.Flush t.lines := by
              rw [RuleItem.flush_text_iff text.1]
              simpa [Detached] using hangs
            have lt := plainSize_dropWhile_lt text
              (flush_behind_text (fun j hj => rest j (List.mem_cons_of_mem _ hj)) alternate) here
            have le := plainSize_outline_le rest alternate
            rw [List.flatMap_cons, RuleItem.renderLines] at le ⊢
            omega
      · have lt := ih rest alternate later
        have le := plainSize_dropWhile_le (fun n => decide (0 < n.depth))
          (outline (items.flatMap RuleItem.renderLines))
        omega

/-! ### The items of rules that are read again -/

variable {rules : ActionRules}

theorem map_view_relocate (ρ : Relocation) (rules : ActionRules) :
    (rules.relocate ρ).items.map view = rules.items.map view := by
  rw [relocate, List.map_map]
  refine List.map_congr_left fun i _ => ?_
  cases i with
  | text t => rfl
  | group g =>
    have := SetRuleGroup.relocate_relocate ρ .erase [g]
    exact congrArg Sum.inr (List.cons.inj this).1

/-- The items of rules that are read again are the same exactly when every text is detached from the
group in front of it. -/
theorem Writable.view_reread_iff (h : rules.Writable) :
    rules.reread.items.map view = rules.items.map view ↔ rules.items.IsChain Detached := by
  constructor
  · intro same
    by_contra hangs
    -- equal items have the same number of lines outside groups
    have count := congrArg (fun views => (views.map (Sum.elim List.length fun _ => 0)).sum) same
    simp only [List.map_map, Function.comp_def, ← RuleItem.plainCount_eq] at count
    have lt := plainSize_outline_lt h.items h.alternates hangs
    rw [reread, sum_plainCount_read (Forest.tidy_outline h.isLine)] at count
    exact absurd count (Nat.ne_of_lt lt)
  · intro detached
    rw [h.reread_eq detached, map_view_relocate]

end ActionRules

end BusinessClass
