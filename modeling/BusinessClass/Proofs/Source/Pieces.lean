import BusinessClass.Proofs.Source.Places

/-!
# The one way to cut a source

A source falls into pieces at its line endings in one way only: a carriage return takes a line feed behind it
along, and what follows the last ending is a piece only if it is not empty.

* `Source.Cut` says which lists of pieces are cut in this way.
* `pieces_eq_iff`: cutting a source gives these pieces, and no others.
* `pieces_stack`: lines one below the other are cut into these lines.
-/

namespace BusinessClass

namespace Source

/-- Pieces as a source is cut into them, each with its ending. -/
inductive Cut : List (Text × Text) → Prop
  | nil : Cut []
  /-- The last piece may have no ending, and then it is not empty. -/
  | last {content : Text} (plain : '\n' ∉ content ∧ '\r' ∉ content) (ne_nil : content ≠ []) : Cut [(content, [])]
  | line {content ending : Text} {ps : List (Text × Text)} (plain : '\n' ∉ content ∧ '\r' ∉ content)
    (ends : ending = ['\n'] ∨ ending = ['\r', '\n'] ∨ ending = ['\r'] ∧ (flatten ps).head? ≠ some '\n')
    (more : Cut ps) : Cut ((content, ending) :: ps)

@[simp] theorem flatten_nil : flatten [] = [] := rfl

@[simp] theorem flatten_cons (p : Text × Text) (ps : List (Text × Text)) :
    flatten (p :: ps) = p.1 ++ (p.2 ++ flatten ps) := by
  simp [flatten]

/-- Cutting gives pieces that hold no line ending inside, and loses no line ending between them. -/
theorem cut_pieces (t : Text) : Cut (pieces t) := by
  fun_induction pieces t with
  | case1 => exact .nil
  | case2 cs ih => exact .line (by simp) (.inl rfl) ih
  | case3 cs ih => exact .line (by simp) (.inr (.inl rfl)) ih
  | case4 cs alone ih =>
    refine .line (by simp) (.inr (.inr ⟨rfl, fun head => ?_⟩)) ih
    rw [flatten_pieces] at head
    obtain ⟨rest, rfl⟩ := List.head?_eq_some_iff.1 head
    exact alone rest rfl
  | case5 c cs feed _ ret none ih =>
    have hn : ¬ '\n' = c := fun h => feed h.symm
    have hr : ¬ '\r' = c := fun h => ret h.symm
    exact .last (by simp [hn, hr]) (by simp)
  | case6 c cs feed _ ret content ending rest some ih =>
    have hn : ¬ '\n' = c := fun h => feed h.symm
    have hr : ¬ '\r' = c := fun h => ret h.symm
    rw [some] at ih
    cases ih with
    | last plain ne_nil => exact .last (by simp [hn, hr, plain]) (by simp)
    | line plain ends more => exact .line (by simp [hn, hr, plain]) ends more

/-- A character that ends no line goes to the front of the first piece. -/
theorem pieces_cons {c : Char} (feed : c ≠ '\n') (ret : c ≠ '\r') (t : Text) :
    pieces (c :: t) = match pieces t with
      | [] => [([c], [])]
      | (content, ending) :: rest => (c :: content, ending) :: rest :=
  pieces.eq_5 _ _ (by simpa using feed) (by simp [ret]) (by simpa using ret)

theorem pieces_of_plain {t : Text} (plain : '\n' ∉ t ∧ '\r' ∉ t) (ne_nil : t ≠ []) : pieces t = [(t, [])] := by
  induction t with
  | nil => exact absurd rfl ne_nil
  | cons c t ih =>
    simp only [List.mem_cons, not_or] at plain
    rw [pieces_cons (Ne.symm plain.1.1) (Ne.symm plain.2.1)]
    by_cases ht : t = []
    · rw [ht]
      rfl
    · rw [ih ⟨plain.1.2, plain.2.2⟩ ht]

/-- A line with its ending in front of a text is cut off as one piece. -/
theorem pieces_line {content ending rest : Text} (plain : '\n' ∉ content ∧ '\r' ∉ content)
    (ends : ending = ['\n'] ∨ ending = ['\r', '\n'] ∨ ending = ['\r'] ∧ rest.head? ≠ some '\n') :
    pieces (content ++ (ending ++ rest)) = (content, ending) :: pieces rest := by
  induction content with
  | nil =>
    rcases ends with rfl | rfl | ⟨rfl, alone⟩
    · rfl
    · rfl
    · refine pieces.eq_4 rest fun t ht => alone ?_
      rw [ht]
      rfl
  | cons c content ih =>
    simp only [List.mem_cons, not_or] at plain
    rw [List.cons_append, pieces_cons (Ne.symm plain.1.1) (Ne.symm plain.2.1), ih ⟨plain.1.2, plain.2.2⟩]

/-- Pieces that are cut in this way are found again in the text that they make up. -/
theorem Cut.pieces_flatten {ps : List (Text × Text)} (cut : Cut ps) : pieces (flatten ps) = ps := by
  induction cut with
  | nil => rfl
  | last plain ne_nil =>
    rw [flatten_cons, flatten_nil, List.append_nil, List.append_nil]
    exact pieces_of_plain plain ne_nil
  | line plain ends _ ih => rw [flatten_cons, pieces_line plain ends, ih]

/-- There is one way to cut a source. -/
theorem pieces_eq_iff {t : Text} {ps : List (Text × Text)} : pieces t = ps ↔ Cut ps ∧ flatten ps = t := by
  constructor
  · rintro rfl
    exact ⟨cut_pieces t, flatten_pieces t⟩
  · rintro ⟨cut, rfl⟩
    exact cut.pieces_flatten

example : pieces "a\r\r\n\nb\r".toList =
    [(['a'], ['\r']), ([], ['\r', '\n']), ([], ['\n']), (['b'], ['\r'])] := by decide

theorem Cut.plain {ps : List (Text × Text)} (cut : Cut ps) : ∀ p ∈ ps, '\n' ∉ p.1 ∧ '\r' ∉ p.1 := by
  induction cut with
  | nil => simp
  | last plain _ => simpa using plain
  | line plain _ _ ih => exact List.forall_mem_cons.2 ⟨plain, ih⟩

theorem not_mem_of_mem_pieces {source : Text} : ∀ p ∈ pieces source, '\n' ∉ p.1 ∧ '\r' ∉ p.1 :=
  (cut_pieces source).plain

/-! ### Lines one below the other -/

/-- Lines with a line feed behind each but the last. -/
def feedBetween : List Text → List (Text × Text)
  | [] => []
  | [l] => [(l, [])]
  | l :: m :: ls => (l, ['\n']) :: feedBetween (m :: ls)

theorem map_fst_feedBetween (ls : List Text) : (feedBetween ls).map Prod.fst = ls := by
  fun_induction feedBetween ls with
  | case1 => rfl
  | case2 l => rfl
  | case3 l m ls ih => rw [List.map_cons, ih]

/-- Texts one below the other are cut into these texts. -/
theorem pieces_stack {ls : List Text} (plain : ∀ l ∈ ls, '\n' ∉ l ∧ '\r' ∉ l) (ne_nil : ∀ l ∈ ls, l ≠ []) :
    pieces (Text.stack ls) = feedBetween ls := by
  rw [pieces_eq_iff]
  fun_induction feedBetween ls with
  | case1 => exact ⟨.nil, rfl⟩
  | case2 l => exact ⟨.last (plain l (by simp)) (ne_nil l (by simp)), by simp⟩
  | case3 l m ls ih =>
    obtain ⟨cut, whole⟩ := ih (fun k hk => plain k (List.mem_cons_of_mem l hk))
      fun k hk => ne_nil k (List.mem_cons_of_mem l hk)
    refine ⟨.line (plain l List.mem_cons_self) (.inl rfl) cut, ?_⟩
    rw [flatten_cons, whole, Text.stack_cons_cons]
    rfl

end Source

end BusinessClass
