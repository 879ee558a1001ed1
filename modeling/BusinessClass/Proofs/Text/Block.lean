import BusinessClass.Text.Basic

/-!
# Content, lines and blocks of text

* `Text.IsTrimmed`: what stands on a line between indentation and trailing blanks. `Text.IsContent`: the
  same, if the line is no comment.
* `Text.IsLine`: tabs and content. `Text.IsBlock`: lines one below the other.
* `lines_stack`: a block falls into the lines that it was made of, and `stack_lines`: the other way
  round.
-/

namespace BusinessClass

namespace Text

/-! ### Trimming -/

theorem trimEnd_cons (c : Char) (t : Text) :
    trimEnd (c :: t) = if trimEnd t = [] ∧ isBlank c = true then [] else c :: trimEnd t := by
  rw [trimEnd]
  cases trimEnd t with
  | nil => cases h : isBlank c <;> simp
  | cons d ds => simp

/-- No blank is left at the end. -/
theorem isBlank_getLast_trimEnd (t : Text) : ∀ c ∈ (trimEnd t).getLast?, isBlank c = false := by
  induction t with
  | nil => simp [trimEnd]
  | cons c t ih =>
    intro d hd
    rw [trimEnd_cons] at hd
    split at hd
    · simp at hd
    · rename_i h
      cases ht : trimEnd t with
      | nil =>
        rw [ht] at hd
        simp only [List.getLast?_singleton, Option.mem_some_iff] at hd
        simp_all
      | cons e es =>
        rw [ht] at ih hd
        exact ih d (by rwa [List.getLast?_cons_cons] at hd)

theorem trimEnd_eq_self {t : Text} (h : ∀ c ∈ t.getLast?, isBlank c = false) : trimEnd t = t := by
  induction t with
  | nil => rfl
  | cons c t ih =>
    rw [trimEnd_cons]
    cases t with
    | nil => simp [trimEnd, h c (by simp)]
    | cons d ds =>
      rw [ih fun e he => h e (by rwa [List.getLast?_cons_cons])]
      simp

theorem trimStart_eq_self {t : Text} (h : ∀ c ∈ t.head?, isBlank c = false) : trimStart t = t := by
  cases t with
  | nil => rfl
  | cons c t => simp [trimStart, h c (by simp)]

theorem isBlank_head_trimStart (t : Text) : ∀ c ∈ (trimStart t).head?, isBlank c = false := by
  intro c hc
  have := List.head?_dropWhile_not isBlank t
  rw [trimStart, Option.mem_def] at hc
  rw [hc] at this
  simpa using this

theorem getLast?_trimStart_subset (t : Text) : ∀ c ∈ (trimStart t).getLast?, c ∈ t.getLast? := by
  intro c hc
  obtain ⟨pre, h⟩ := List.dropWhile_suffix isBlank (l := t)
  rw [trimStart] at hc
  rw [← h, List.getLast?_append, Option.mem_def.1 hc]
  rfl

/-! ### Content -/

/-- Text without blanks at its ends and without line endings. -/
structure IsTrimmed (t : Text) : Prop where
  ne_nil : t ≠ []
  head : ∀ c ∈ t.head?, isBlank c = false
  last : ∀ c ∈ t.getLast?, isBlank c = false
  no_feed : '\n' ∉ t
  no_return : '\r' ∉ t

/-- The text between the indentation and the trailing blanks of a line that says something. -/
structure IsContent (t : Text) : Prop where
  ne_nil : t ≠ []
  head : ∀ c ∈ t.head?, isBlank c = false
  last : ∀ c ∈ t.getLast?, isBlank c = false
  no_feed : '\n' ∉ t
  no_return : '\r' ∉ t
  no_comment : "//".toList.isPrefixOf t = false

theorem IsContent.isTrimmed {t : Text} (h : IsContent t) : IsTrimmed t :=
  ⟨h.ne_nil, h.head, h.last, h.no_feed, h.no_return⟩

-- the quantifiers over characters are decided on the characters of the text alone
instance (t : Text) : Decidable (IsContent t) :=
  decidable_of_iff (t ≠ [] ∧ (t.head?.all (!isBlank ·)) = true ∧ (t.getLast?.all (!isBlank ·)) = true ∧
      '\n' ∉ t ∧ '\r' ∉ t ∧ "//".toList.isPrefixOf t = false)
    ⟨fun ⟨ne, head, last, feed, ret, comment⟩ =>
        ⟨ne, by simpa [Option.all_eq_true] using head, by simpa [Option.all_eq_true] using last, feed, ret,
          comment⟩,
      fun h => ⟨h.ne_nil, by simpa [Option.all_eq_true] using h.head,
        by simpa [Option.all_eq_true] using h.last, h.no_feed, h.no_return, h.no_comment⟩⟩

/-- Tabs and content. -/
def IsLine (t : Text) : Prop := IsContent (t.dropWhile (· == '\t'))

theorem isBlank_tab : isBlank '\t' = true := by decide

theorem IsContent.dropWhile_tabs {t : Text} (h : IsContent t) (k : Nat) :
    (List.replicate k '\t' ++ t).dropWhile (· == '\t') = t := by
  induction k with
  | zero =>
    cases t with
    | nil => rfl
    | cons c t =>
      have : (c == '\t') = false := by
        rw [beq_eq_false_iff_ne]
        rintro rfl
        exact absurd (h.head '\t' rfl) (by decide)
      simp [this]
  | succ k ih => rw [List.replicate_succ, List.cons_append, List.dropWhile_cons_of_pos (by simp), ih]

theorem IsContent.takeWhile_tabs {t : Text} (h : IsContent t) (k : Nat) :
    (List.replicate k '\t' ++ t).takeWhile (· == '\t') = List.replicate k '\t' := by
  have := List.takeWhile_append_dropWhile (p := (· == '\t')) (l := List.replicate k '\t' ++ t)
  rw [h.dropWhile_tabs k] at this
  exact List.append_cancel_right this

theorem IsContent.isLine {t : Text} (h : IsContent t) (k : Nat) :
    IsLine (List.replicate k '\t' ++ t) := by
  rw [IsLine, h.dropWhile_tabs k]
  exact h

/-- Content is a line by itself. -/
theorem IsContent.isLine_zero {t : Text} (h : IsContent t) : IsLine t := h.isLine 0

theorem IsLine.eq {t : Text} :
    List.replicate (t.takeWhile (· == '\t')).length '\t' ++ t.dropWhile (· == '\t') = t := by
  have h : t.takeWhile (· == '\t') = List.replicate (t.takeWhile (· == '\t')).length '\t' :=
    List.eq_replicate_iff.2 ⟨rfl, fun c hc => by simpa using List.all_eq_true.1 List.all_takeWhile c hc⟩
  rw [← h, List.takeWhile_append_dropWhile]

theorem IsLine.ne_nil {t : Text} (h : IsLine t) : t ≠ [] := by
  rintro rfl
  exact IsContent.ne_nil h rfl

theorem IsLine.no_feed {t : Text} (h : IsLine t) : '\n' ∉ t := by
  rw [← IsLine.eq (t := t)]
  simp [IsContent.no_feed h]

theorem IsLine.no_return {t : Text} (h : IsLine t) : '\r' ∉ t := by
  rw [← IsLine.eq (t := t)]
  simp [IsContent.no_return h]

theorem IsLine.cons_tab {t : Text} (h : IsLine t) : IsLine ('\t' :: t) := by
  rw [IsLine, List.dropWhile_cons_of_pos (by simp)]
  exact h

/-! ### Blocks -/

@[simp] theorem stack_nil : stack [] = [] := rfl

@[simp] theorem stack_singleton (t : Text) : stack [t] = t := by simp [stack, List.intercalate]

theorem stack_cons_cons (t u : Text) (ts : List Text) :
    stack (t :: u :: ts) = t ++ '\n' :: stack (u :: ts) := by
  simp [stack, List.intercalate]

theorem lines_append_feed {t : Text} (feed : '\n' ∉ t) (ret : '\r' ∉ t) (u : Text) :
    lines (t ++ '\n' :: u) = t :: lines u := by
  induction t with
  | nil => rfl
  | cons c t ih =>
    have hn : c ≠ '\n' := fun h => feed (h ▸ List.mem_cons_self)
    have hr : c ≠ '\r' := fun h => ret (h ▸ List.mem_cons_self)
    have := ih (fun h => feed (List.mem_cons_of_mem c h)) fun h => ret (List.mem_cons_of_mem c h)
    rw [List.cons_append, lines.eq_4 _ _ (by simpa using hn) (by simp [hr]), this, consHead_cons]

theorem lines_eq_singleton {t : Text} (ne : t ≠ []) (feed : '\n' ∉ t) (ret : '\r' ∉ t) :
    lines t = [t] := by
  induction t with
  | nil => exact absurd rfl ne
  | cons c t ih =>
    have hn : c ≠ '\n' := fun h => feed (h ▸ List.mem_cons_self)
    have hr : c ≠ '\r' := fun h => ret (h ▸ List.mem_cons_self)
    rw [lines.eq_4 _ _ (by simpa using hn) (by simp [hr])]
    cases t with
    | nil => rfl
    | cons d ds =>
      rw [ih (by simp) (fun h => feed (List.mem_cons_of_mem c h))
        fun h => ret (List.mem_cons_of_mem c h)]
      rfl

/-- A block falls into the lines that it was made of. -/
theorem lines_stack {ls : List Text} (h : ∀ l ∈ ls, IsLine l) : lines (stack ls) = ls := by
  induction ls with
  | nil => rfl
  | cons l ls ih =>
    have hl := h l List.mem_cons_self
    cases ls with
    | nil => rw [stack_singleton, lines_eq_singleton hl.ne_nil hl.no_feed hl.no_return]
    | cons m ms =>
      rw [stack_cons_cons, lines_append_feed hl.no_feed hl.no_return,
        ih fun l' hl' => h l' (List.mem_cons_of_mem l hl')]

/-- Lines one below the other. -/
def IsBlock (t : Text) : Prop := ∃ ls, (∀ l ∈ ls, IsLine l) ∧ t = stack ls

theorem isBlock_stack {ls : List Text} (h : ∀ l ∈ ls, IsLine l) : IsBlock (stack ls) := ⟨ls, h, rfl⟩

theorem IsBlock.isLine {t : Text} (h : IsBlock t) : ∀ l ∈ lines t, IsLine l := by
  obtain ⟨ls, hls, rfl⟩ := h
  rwa [lines_stack hls]

/-- A block is made of the lines that it falls into. -/
theorem IsBlock.stack_lines {t : Text} (h : IsBlock t) : stack (lines t) = t := by
  obtain ⟨ls, hls, rfl⟩ := h
  rw [lines_stack hls]

theorem IsBlock.lines_eq_nil_iff {t : Text} (h : IsBlock t) : lines t = [] ↔ t = [] := by
  constructor
  · intro ht
    rw [← h.stack_lines, ht, stack_nil]
  · rintro rfl
    rfl

theorem stack_append {ls ms : List Text} (hl : ls ≠ []) (hm : ms ≠ []) :
    stack (ls ++ ms) = stack [stack ls, stack ms] := by
  induction ls with
  | nil => exact absurd rfl hl
  | cons l ls ih =>
    cases ls with
    | nil =>
      obtain ⟨m, ms, rfl⟩ := List.exists_cons_of_ne_nil hm
      rw [stack_singleton, List.singleton_append, stack_cons_cons, stack_cons_cons, stack_singleton]
    | cons l' ls =>
      have := ih (by simp)
      rw [stack_cons_cons, stack_singleton] at this
      rw [List.cons_append, List.cons_append, stack_cons_cons, ← List.cons_append, this,
        stack_cons_cons, stack_cons_cons, stack_singleton, List.append_assoc, List.cons_append]

/-- A block with something in it has a line. -/
theorem IsBlock.lines_ne_nil {t : Text} (h : IsBlock t) (ne : t ≠ []) : lines t ≠ [] :=
  mt h.lines_eq_nil_iff.1 ne

end Text

end BusinessClass
