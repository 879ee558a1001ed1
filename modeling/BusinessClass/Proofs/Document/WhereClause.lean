import BusinessClass.Document.WhereClause
import BusinessClass.Proofs.Source.Places
import BusinessClass.Proofs.Text.Checked
import BusinessClass.Proofs.Text.Single
import Mathlib.Data.List.TakeWhile

/-!
# What the filter of a clause is

The filter of a `where` clause is what stands between the first parenthesis behind the keyword and the one that closes
it. Parentheses are counted from the first one on: the one that closes it stands where as many were closed as
opened, for the first time.

* `Text.Closes` says that a text closes a number of open parentheses and all of its own; `Text.Balanced` is the case
  of none. `untilClosed_eq_some_iff`: the search for a closing parenthesis finds such texts.
* `closing?` is the search with a count that cannot go below zero; `closing?_succ`: it never has to.
* `WhereClause.Marks` says where the first keyword that stands alone is, `WhereClause.Matches` which text a
  parenthesis encloses.
* `filter?_eq_some_iff` says when a clause has a filter and which, `balanced_filter?` that it is balanced, and
  `filter?_clause` that it is also the filter of the clause around it; `filter?_encloses` gathers them.
-/

namespace BusinessClass

namespace Text

/-! ### Balanced parentheses -/

/-- From `depth` open parentheses on, the text never closes more than there are, and it closes all of them. -/
structure Closes (depth : Nat) (t : Text) : Prop where
  prefixes : ∀ p, p <+: t → p.count ')' ≤ depth + p.count '('
  total : t.count ')' = depth + t.count '('

/-- No prefix of the text closes more parentheses than it opens, and the text closes all that it opens. -/
abbrev Balanced (t : Text) : Prop := Closes 0 t

variable {depth : Nat} {c : Char} {s t : Text}

theorem forall_prefix_cons {P : Text → Prop} : (∀ p, p <+: c :: t → P p) ↔ P [] ∧ ∀ p, p <+: t → P (c :: p) := by
  constructor
  · intro h
    exact ⟨h [] (List.nil_prefix), fun p hp => h _ (List.cons_prefix_cons.2 ⟨rfl, hp⟩)⟩
  · rintro ⟨nil, cons⟩ p hp
    rcases List.prefix_cons_iff.1 hp with rfl | ⟨q, rfl, hq⟩
    · exact nil
    · exact cons q hq

theorem closes_nil_iff : Closes depth [] ↔ depth = 0 := by
  constructor
  · intro h
    simpa using h.total.symm
  · rintro rfl
    exact ⟨fun p hp => by simp [List.prefix_nil.1 hp], rfl⟩

theorem closes_open_iff : Closes depth ('(' :: t) ↔ Closes (depth + 1) t := by
  constructor
  · rintro ⟨prefixes, total⟩
    refine ⟨fun p hp => ?_, ?_⟩
    · have := (forall_prefix_cons.1 prefixes).2 p hp
      simp at this
      omega
    · simp at total
      omega
  · rintro ⟨prefixes, total⟩
    refine ⟨forall_prefix_cons.2 ⟨by simp, fun p hp => ?_⟩, ?_⟩
    · have := prefixes p hp
      simp
      omega
    · simp
      omega

theorem closes_close_iff : Closes depth (')' :: t) ↔ ∃ d, depth = d + 1 ∧ Closes d t := by
  constructor
  · rintro ⟨prefixes, total⟩
    have first := (forall_prefix_cons.1 prefixes).2 [] (List.nil_prefix)
    obtain ⟨d, rfl⟩ : ∃ d, depth = d + 1 := ⟨depth - 1, by simp at first; omega⟩
    refine ⟨d, rfl, fun p hp => ?_, ?_⟩
    · have := (forall_prefix_cons.1 prefixes).2 p hp
      simp at this
      omega
    · simp at total
      omega
  · rintro ⟨d, rfl, prefixes, total⟩
    refine ⟨forall_prefix_cons.2 ⟨by simp, fun p hp => ?_⟩, ?_⟩
    · have := prefixes p hp
      simp
      omega
    · simp
      omega

theorem closes_other_iff (opening : c ≠ '(') (closing : c ≠ ')') : Closes depth (c :: t) ↔ Closes depth t := by
  constructor
  · rintro ⟨prefixes, total⟩
    refine ⟨fun p hp => ?_, by simpa [opening, closing] using total⟩
    simpa [opening, closing] using (forall_prefix_cons.1 prefixes).2 p hp
  · rintro ⟨prefixes, total⟩
    refine ⟨forall_prefix_cons.2 ⟨by simp, fun p hp => ?_⟩, by simpa [opening, closing] using total⟩
    simpa [opening, closing] using prefixes p hp

/-- Text without parentheses at the ends of a balanced text does not matter. -/
theorem Balanced.of_append {u v : Text} (h : Balanced (u ++ (t ++ v))) (left : '(' ∉ u ∧ ')' ∉ u)
    (right : '(' ∉ v ∧ ')' ∉ v) : Balanced t := by
  refine ⟨fun p hp => ?_, ?_⟩
  · have := h.prefixes (u ++ p) ((List.prefix_append_right_inj u).2 (hp.trans (List.prefix_append t v)))
    simpa [List.count_eq_zero_of_not_mem left.1, List.count_eq_zero_of_not_mem left.2] using this
  · have := h.total
    simpa [List.count_eq_zero_of_not_mem left.1, List.count_eq_zero_of_not_mem left.2,
      List.count_eq_zero_of_not_mem right.1, List.count_eq_zero_of_not_mem right.2] using this

end Text

namespace WhereClause

open Text (Closes Balanced)

variable {depth : Nat} {s t : Text}

/-- One character that does not end the search: what is found behind it is found with it in front. -/
theorem map_cons_untilClosed {c : Char} {d : Nat}
    (found : ∀ u, untilClosed d t = some u ↔ (∃ rest, t = u ++ ')' :: rest) ∧ Closes d u)
    (step : ∀ u, Closes depth (c :: u) ↔ Closes d u) (goesOn : c = ')' → depth ≠ 0) :
    (untilClosed d t).map (c :: ·) = some s ↔ (∃ rest, c :: t = s ++ ')' :: rest) ∧ Closes depth s := by
  rw [Option.map_eq_some_iff]
  constructor
  · rintro ⟨u, hu, rfl⟩
    obtain ⟨⟨rest, rfl⟩, closes⟩ := (found u).1 hu
    exact ⟨⟨rest, rfl⟩, (step u).2 closes⟩
  · rintro ⟨⟨rest, eq⟩, closes⟩
    cases s with
    | nil =>
      obtain ⟨closing, -⟩ := List.cons.inj eq
      exact absurd (Text.closes_nil_iff.1 closes) (goesOn closing)
    | cons d u =>
      obtain ⟨rfl, tail_eq⟩ := List.cons.inj eq
      exact ⟨u, (found u).2 ⟨⟨rest, tail_eq⟩, (step u).1 closes⟩, rfl⟩

/-- The search for the parenthesis that closes finds the text up to it, which closes all that is open but the
outermost one. -/
theorem untilClosed_eq_some_iff : untilClosed depth t = some s ↔ (∃ rest, t = s ++ ')' :: rest) ∧ Closes depth s := by
  induction t generalizing depth s with
  | nil => simp [untilClosed]
  | cons c t ih =>
    unfold untilClosed
    -- An opening parenthesis counts up and a closing one down, and the search ends at depth zero.
    by_cases opening : c = '('
    · rw [if_pos opening]
      refine map_cons_untilClosed (fun u => ih) (fun u => ?_) fun closing => ?_
      · rw [opening]
        exact Text.closes_open_iff
      · rw [opening] at closing
        cases closing
    · rw [if_neg opening]
      by_cases closing : c = ')'
      · rw [if_pos closing]
        subst closing
        cases depth with
        | zero =>
          constructor
          · intro h
            cases h
            exact ⟨⟨t, rfl⟩, Text.closes_nil_iff.2 rfl⟩
          · rintro ⟨⟨rest, eq⟩, closes⟩
            cases s with
            | nil => rfl
            | cons d u =>
              obtain ⟨rfl, -⟩ := List.cons.inj eq
              obtain ⟨d, eq, -⟩ := Text.closes_close_iff.1 closes
              cases eq
        | succ depth =>
          refine map_cons_untilClosed (fun u => ih) (fun u => ?_) fun _ => Nat.succ_ne_zero depth
          rw [Text.closes_close_iff]
          exact ⟨fun ⟨d, eq, closes⟩ => Nat.succ.inj eq ▸ closes, fun closes => ⟨depth, rfl, closes⟩⟩
      · rw [if_neg closing]
        exact map_cons_untilClosed (fun u => ih) (fun u => Text.closes_other_iff opening closing)
          fun same => absurd same closing

/-- The text between the first parenthesis and the one that closes it. -/
theorem parenthesized_eq_some_iff : parenthesized t = some s ↔
    ∃ front rest, t = front ++ '(' :: (s ++ ')' :: rest) ∧ '(' ∉ front ∧ Balanced s := by
  rw [parenthesized]
  constructor
  · intro h
    split at h
    · cases h
    · rename_i c inside found
      have c_eq : c = '(' := by
        have := List.head?_dropWhile_not (· != '(') t
        rw [found] at this
        simpa using this
      obtain ⟨⟨rest, rfl⟩, closes⟩ := untilClosed_eq_some_iff.1 h
      refine ⟨t.takeWhile (· != '('), rest, ?_, fun mem => ?_, closes⟩
      · rw [c_eq] at found
        rw [← found, List.takeWhile_append_dropWhile]
      · simpa using List.mem_takeWhile_imp mem
  · rintro ⟨front, rest, rfl, none, balanced⟩
    rw [dropWhile_ne_append none]
    exact untilClosed_eq_some_iff.2 ⟨⟨rest, rfl⟩, balanced⟩

/-! ### The count of open parentheses -/

/-- The search for the parenthesis that closes as a count of those that are open: the place of the parenthesis in
bytes, from `offset` on. The search fails if the count would go below zero. -/
def closing? (depth offset : Nat) : Text → Option (Option Nat)
  | [] => some none
  | c :: cs =>
    let next := offset + c.utf8Size
    if c = '(' then closing? (depth + 1) next cs
    else if c = ')' then
      (sub? depth 1).bind fun left => if left = 0 then some (some offset) else closing? left next cs
    else closing? depth next cs

/-- From an open parenthesis on, the count does not go below zero, and it finds the parenthesis that closes. -/
theorem closing?_succ (depth offset : Nat) (t : Text) :
    closing? (depth + 1) offset t = some ((untilClosed depth t).map fun s => offset + Text.byteSize s) := by
  induction t generalizing depth offset with
  | nil => rfl
  | cons c t ih =>
    have behind (d : Nat) : (untilClosed d t).map (fun s => offset + c.utf8Size + Text.byteSize s)
        = ((untilClosed d t).map (c :: ·)).map fun s => offset + Text.byteSize s := by
      rw [Option.map_map]
      exact congrArg (Option.map · _) (funext fun s => Nat.add_assoc offset c.utf8Size (Text.byteSize s))
    unfold closing? untilClosed
    by_cases opening : c = '('
    · simp only [if_pos opening, ih, behind]
    · by_cases closing : c = ')'
      · simp only [if_neg opening, if_pos closing, sub?_succ_one, Option.bind_some]
        cases depth with
        | zero => simp
        | succ depth => simp only [Nat.succ_ne_zero, if_false, ih, behind]
      · simp only [if_neg opening, if_neg closing, ih, behind]

/-! ### The keyword -/

/-- No letter or number touches what stands between the two texts. -/
def StandsAlone (before after : Text) : Prop :=
  (∀ c ∈ before.getLast?, isAlphanumeric c = false) ∧ ∀ c ∈ after.head?, isAlphanumeric c = false

/-- The first keyword that stands alone in the text is the one between `before` and `after`. -/
structure Marks (t before after : Text) : Prop where
  here : t = before ++ keyword ++ after
  alone : StandsAlone before after
  first : ∀ u v, t = u ++ keyword ++ v → StandsAlone u v → before.length ≤ u.length

theorem touches_eq_false_iff {neighbour : Option Char} :
    touches neighbour = false ↔ ∀ c ∈ neighbour, isAlphanumeric c = false := by
  cases neighbour <;> simp [touches]

/-- As `Marks`, for a text that stands behind another one which ends with the character `last`. -/
structure MarksBehind (last : Option Char) (t before after : Text) : Prop where
  here : t = before ++ keyword ++ after
  alone : touches (before.getLast?.or last) = false ∧ touches after.head? = false
  first : ∀ u v, t = u ++ keyword ++ v → touches (u.getLast?.or last) = false ∧ touches v.head? = false →
    before.length ≤ u.length

theorem getLast?_cons_or (c : Char) (u : Text) (last : Option Char) :
    (c :: u).getLast?.or last = u.getLast?.or (some c) := by
  cases u <;> simp [List.getLast?_cons]

/-- A keyword that stands alone at the very front is the first one. -/
theorem exists_marksBehind_iff_of_front {last : Option Char} {rest after : Text} (left : touches last = false)
    (right : touches rest.head? = false) : (∃ before, MarksBehind last (keyword ++ rest) before after) ↔ rest = after := by
  constructor
  · rintro ⟨before, marks⟩
    have none := marks.first [] rest rfl ⟨left, right⟩
    obtain rfl := List.eq_nil_of_length_eq_zero (Nat.le_zero.1 none)
    exact List.append_cancel_left marks.here
  · rintro rfl
    exact ⟨[], rfl, ⟨left, right⟩, fun _ _ _ _ => Nat.zero_le _⟩

/-- If no keyword stands alone at the very front, the first one is the first one behind the first character. -/
theorem exists_marksBehind_cons_iff {c : Char} {last : Option Char} {after : Text}
    (front : ∀ v, c :: t = keyword ++ v → ¬ (touches last = false ∧ touches v.head? = false)) :
    (∃ before, MarksBehind last (c :: t) before after) ↔ ∃ before, MarksBehind (some c) t before after := by
  constructor
  · rintro ⟨before, here, alone, first⟩
    cases before with
    | nil => exact absurd alone (front after here)
    | cons d before =>
      obtain ⟨rfl, behind⟩ := List.cons.inj here
      rw [getLast?_cons_or] at alone
      refine ⟨before, behind, alone, fun u v here' alone' => ?_⟩
      have := first (c :: u) v (congrArg (c :: ·) here') (by rwa [getLast?_cons_or])
      exact Nat.le_of_succ_le_succ this
  · rintro ⟨before, rfl, alone, first⟩
    refine ⟨c :: before, rfl, by rwa [getLast?_cons_or], fun u v here alone => ?_⟩
    cases u with
    | nil => exact absurd alone (front v here)
    | cons d u =>
      obtain ⟨rfl, behind⟩ := List.cons.inj here
      rw [getLast?_cons_or] at alone
      exact Nat.succ_le_succ (first u v behind alone)

/-- The search for the keyword finds the first one that stands alone. -/
theorem afterKeyword_eq_some_iff {last : Option Char} {t after : Text} :
    afterKeyword last t = some after ↔ ∃ before, MarksBehind last t before after := by
  induction t generalizing last with
  | nil =>
    constructor
    · intro h
      cases h
    · rintro ⟨before, marks⟩
      have := congrArg List.length marks.here
      simp [keyword] at this
  | cons c t ih =>
    rw [afterKeyword]
    -- Either the keyword stands alone here, or the first such place is further on.
    split
    · rename_i found
      simp only [Bool.and_eq_true, Bool.not_eq_true', List.isPrefixOf_iff_prefix] at found
      obtain ⟨⟨⟨rest, here⟩, left⟩, right⟩ := found
      rw [← here, List.drop_left] at right ⊢
      rw [exists_marksBehind_iff_of_front left right, Option.some.injEq]
    · rename_i other
      rw [exists_marksBehind_cons_iff, ih]
      rintro v here ⟨left, right⟩
      rw [here, List.drop_left] at other
      refine other ?_
      simp only [Bool.and_eq_true, Bool.not_eq_true', List.isPrefixOf_iff_prefix]
      exact ⟨⟨List.prefix_append _ _, left⟩, right⟩

theorem afterKeyword_none_eq_some_iff {after : Text} :
    afterKeyword none t = some after ↔ ∃ before, Marks t before after := by
  have alone_iff (u v : Text) :
      (touches (u.getLast?.or none) = false ∧ touches v.head? = false) ↔ StandsAlone u v := by
    rw [Option.or_none, touches_eq_false_iff, touches_eq_false_iff, StandsAlone]
  rw [afterKeyword_eq_some_iff]
  constructor
  · rintro ⟨before, here, alone, first⟩
    exact ⟨before, here, (alone_iff _ _).1 alone, fun u v here' h => first u v here' ((alone_iff u v).2 h)⟩
  · rintro ⟨before, here, alone, first⟩
    exact ⟨before, here, (alone_iff _ _).2 alone, fun u v here' h => first u v here' ((alone_iff u v).1 h)⟩

/-! ### The matching parenthesis -/

/-- The text ends at the first point at which the parentheses that it opens are closed. -/
structure Matches (group : Text) : Prop where
  total : group.count ')' = group.count '('
  first : ∀ p, p <+: group → p ≠ [] → p ≠ group → p.count ')' ≠ p.count '('

/-- The first parenthesis of the text stands behind `front`, and the one that matches it behind `inside`. -/
structure Opens (t front inside behind : Text) : Prop where
  here : t = front ++ '(' :: (inside ++ ')' :: behind)
  first : '(' ∉ front
  matching : Matches ('(' :: (inside ++ [')']))

/-- A count that goes up or down by one at most does not get below zero without being there. -/
theorem count_le_of_ne (h : ∀ p, p <+: t → p.count ')' ≠ p.count '(' + 1) :
    ∀ p, p <+: t → p.count ')' ≤ p.count '(' := by
  intro p
  induction p using List.reverseRecOn with
  | nil => simp
  | append_singleton p c ih =>
    intro hp
    have before := ih ((List.prefix_append p [c]).trans hp)
    have here := h (p ++ [c]) hp
    simp only [List.count_append, List.count_singleton] at here ⊢
    split_ifs at here ⊢ <;> simp_all <;> omega

/-- What a parenthesis and the one that matches it enclose is balanced. -/
theorem matches_iff {inside : Text} : Matches ('(' :: (inside ++ [')'])) ↔ Balanced inside := by
  constructor
  · rintro ⟨total, first⟩
    refine ⟨fun p hp => ?_, by simpa using total⟩
    refine (count_le_of_ne (fun q hq eq => ?_) p hp).trans (Nat.le_add_left _ _)
    refine first ('(' :: q) ?_ (List.cons_ne_nil _ _) ?_ (by simpa using eq)
    · exact List.cons_prefix_cons.2 ⟨rfl, hq.trans (List.prefix_append _ _)⟩
    · intro same
      have := hq.length_le
      have := congrArg List.length same
      simp at this
      omega
  · intro balanced
    refine ⟨by simpa using balanced.total, fun p hp ne other eq => ?_⟩
    rcases List.prefix_cons_iff.1 hp with rfl | ⟨q, rfl, hq⟩
    · exact ne rfl
    · rcases List.prefix_concat_iff.1 hq with rfl | hq
      · exact other rfl
      · have := balanced.prefixes q hq
        simp at eq
        omega

/-- The search for the parentheses finds the first one and the one that matches it. -/
theorem parenthesized_eq_some_iff_opens : parenthesized t = some s ↔ ∃ front behind, Opens t front s behind := by
  rw [parenthesized_eq_some_iff]
  constructor
  · rintro ⟨front, behind, here, first, balanced⟩
    exact ⟨front, behind, here, first, matches_iff.2 balanced⟩
  · rintro ⟨front, behind, here, first, matching⟩
    exact ⟨front, behind, here, first, matches_iff.1 matching⟩

/-- From the first parenthesis on the count does not go below zero, and the place it ends at is that of the
parenthesis that matches. -/
theorem exists_closing? {front group : Text} (first : '(' ∉ front) : ∃ place, closing? 0 0 ('(' :: group) = some place ∧
    ∀ i, place = some i ↔
      ∃ inside behind, Opens (front ++ '(' :: group) front inside behind ∧ i = 1 + Text.byteSize inside := by
  refine ⟨(untilClosed 0 group).map fun s => 1 + Text.byteSize s, closing?_succ 0 1 group, fun i => ?_⟩
  rw [Option.map_eq_some_iff]
  constructor
  · rintro ⟨inside, found, rfl⟩
    obtain ⟨⟨behind, rfl⟩, balanced⟩ := untilClosed_eq_some_iff.1 found
    exact ⟨inside, behind, ⟨rfl, first, matches_iff.2 balanced⟩, rfl⟩
  · rintro ⟨inside, behind, opens, rfl⟩
    have group_eq := List.append_cancel_left opens.here
    refine ⟨inside, untilClosed_eq_some_iff.2 ⟨⟨behind, (List.cons.inj group_eq).2⟩, ?_⟩, rfl⟩
    exact matches_iff.1 opens.matching

/-! ### The filter -/

/-- A filter is what the first parenthesis behind the keyword and its match enclose, trimmed. -/
theorem filter?_eq_some_iff {e : Text} : filter? t = some e ↔ ∃ before after front inside behind,
    Marks (Text.unwords t.words) before after ∧ Opens after front inside behind ∧ e = inside.trim := by
  rw [filter?, Option.map_eq_some_iff]
  constructor
  · rintro ⟨inside, found, rfl⟩
    obtain ⟨after, marked, enclosed⟩ := Option.bind_eq_some_iff.1 found
    obtain ⟨before, marks⟩ := afterKeyword_none_eq_some_iff.1 marked
    obtain ⟨front, behind, opens⟩ := parenthesized_eq_some_iff_opens.1 enclosed
    exact ⟨before, after, front, inside, behind, marks, opens, rfl⟩
  · rintro ⟨before, after, front, inside, behind, marks, opens, rfl⟩
    refine ⟨inside, Option.bind_eq_some_iff.2 ⟨after, afterKeyword_none_eq_some_iff.2 ⟨before, marks⟩, ?_⟩, rfl⟩
    exact parenthesized_eq_some_iff_opens.2 ⟨front, behind, opens⟩

/-- Trimming takes away blanks at the ends and nothing else. -/
theorem exists_trim_append (t : Text) : ∃ u v, t = u ++ (t.trim ++ v) ∧ (∀ c ∈ u, isBlank c = true) ∧
    ∀ c ∈ v, isBlank c = true := by
  obtain ⟨behind, eq, blank⟩ := t.exists_trimEnd_append
  refine ⟨t.trimEnd.indent, behind, ?_, fun c hc => List.mem_takeWhile_imp hc, blank⟩
  rw [← List.append_assoc, Text.trim, Text.indent_append_trimStart]
  exact eq

/-- Blanks are no parentheses. -/
theorem not_mem_of_isBlank (blank : ∀ c ∈ t, isBlank c = true) : '(' ∉ t ∧ ')' ∉ t :=
  ⟨fun mem => absurd (blank _ mem) (by decide), fun mem => absurd (blank _ mem) (by decide)⟩

/-- The parentheses of a filter are balanced. -/
theorem balanced_filter? {e : Text} (h : filter? t = some e) : Balanced e := by
  obtain ⟨before, after, front, inside, behind, -, opens, rfl⟩ := filter?_eq_some_iff.1 h
  have balanced := matches_iff.1 opens.matching
  obtain ⟨u, v, eq, left, right⟩ := exists_trim_append inside
  rw [eq] at balanced
  exact balanced.of_append (not_mem_of_isBlank left) (not_mem_of_isBlank right)

/-- The blanks of a filter are single spaces. -/
theorem single_filter? {e : Text} (h : filter? t = some e) : Text.Single e := by
  obtain ⟨before, after, front, inside, behind, marks, opens, rfl⟩ := filter?_eq_some_iff.1 h
  have joined : Text.Single (Text.unwords t.words) := Text.single_unwords fun w => Text.isWord_of_mem_words
  obtain ⟨u, v, eq, -, -⟩ := exists_trim_append inside
  refine joined.of_infix ⟨before ++ keyword ++ front ++ '(' :: u, v ++ ')' :: behind, ?_⟩
  rw [marks.here, opens.here]
  conv_rhs => rw [eq]
  simp

/-- A clause around a text. -/
def clause (e : Text) : Text := keyword ++ " (".toList ++ e ++ ")".toList

/-- The filter of the clause around a filter is that filter. -/
theorem filter?_clause {e : Text} (h : filter? t = some e) : filter? (clause e) = some e := by
  have left : Text.Single (keyword ++ " (".toList) :=
    show Text.Single (Text.unwords [keyword, ['(']]) from Text.single_unwords (by decide)
  have right : Text.Single ")".toList := show Text.Single (Text.unwords [[')']]) from Text.single_unwords (by decide)
  have single : Text.Single (clause e) := by
    refine (left.append (single_filter? h) fun a ha blank => ?_).append right fun _ _ _ b hb => ?_
    · obtain rfl := Option.some.inj ha
      cases blank
    · obtain rfl := Option.some.inj hb
      rfl
  have joined : Text.unwords (clause e).words = clause e :=
    Text.unwords_words single (fun c hc => by obtain rfl := Option.some.inj hc; rfl) fun c hc => by
      rw [clause, List.getLast?_append] at hc
      obtain rfl := Option.some.inj hc
      rfl
  obtain ⟨before, after, front, inside, behind, -, opens, trimmed⟩ := filter?_eq_some_iff.1 h
  refine filter?_eq_some_iff.2 ⟨[], " (".toList ++ e ++ ")".toList, " ".toList, e, [], ?_, ?_, ?_⟩
  · rw [joined]
    refine ⟨by simp [clause], ⟨by simp, fun c hc => ?_⟩, fun _ _ _ _ => Nat.zero_le _⟩
    obtain rfl := Option.some.inj hc
    decide
  · exact ⟨by simp, by decide, matches_iff.2 (balanced_filter? h)⟩
  · rw [trimmed]
    exact (Text.trim_eq_self inside.isBlank_head_trim inside.isBlank_getLast_trim).symm

/-- **The filter of a clause is the balanced group behind its keyword.** A text holds a filter exactly if the keyword
stands alone in it and the first parenthesis behind the first such keyword has a match; it is then what the two
enclose, without blanks at its ends. The count of open parentheses, from the first one on, never goes below zero and
ends at the match, if there is one. Every filter is balanced, and it is the filter of the clause around it. -/
theorem filter?_encloses (t : Text) :
    (∀ e, filter? t = some e ↔ ∃ before after front inside behind,
      Marks (Text.unwords t.words) before after ∧ Opens after front inside behind ∧ e = inside.trim) ∧
    (∀ before front group, Marks (Text.unwords t.words) before (front ++ '(' :: group) → '(' ∉ front →
      ∃ place, closing? 0 0 ('(' :: group) = some place ∧ ∀ i, place = some i ↔
        ∃ inside behind, Opens (front ++ '(' :: group) front inside behind ∧ i = 1 + Text.byteSize inside) ∧
    ∀ e, filter? t = some e →
      ((∀ p, p <+: e → p.count ')' ≤ p.count '(') ∧ e.count ')' = e.count '(') ∧ filter? (clause e) = some e := by
  refine ⟨fun e => filter?_eq_some_iff, fun before front group _ first => exists_closing? first, fun e h => ?_⟩
  have balanced := balanced_filter? h
  refine ⟨⟨fun p hp => ?_, ?_⟩, filter?_clause h⟩
  · simpa using balanced.prefixes p hp
  · simpa using balanced.total

/-- Neither the keyword inside a word counts nor the one behind the filter, and inner parentheses belong to it. -/
theorem filter?_encloses_nested :
    let t := "somewhere (a) where,\n\twhere  ( Rate\t= (1) or é ) where (b))".toList
    let e := "Rate = (1) or é".toList
    filter? t = some e ∧ (∃ before after front inside behind,
      Marks (Text.unwords (Text.words t)) before after ∧ Opens after front inside behind ∧ e = Text.trim inside) ∧
    filter? (clause e) = some e := by
  intro t e
  have found : filter? t = some e := by decide +kernel
  obtain ⟨encloses, -, again⟩ := filter?_encloses t
  exact ⟨found, (encloses e).1 found, (again e found).2⟩

example : filter? "where )( (a)".toList = none ∧ closing? 0 0 "( (a)".toList = some none ∧
    closing? 0 0 "())".toList = some (some 1) ∧ closing? 0 0 ")".toList = none := by decide +kernel

end WhereClause

end BusinessClass
