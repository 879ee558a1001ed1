import BusinessClass.Text.Basic
import Mathlib.Data.List.TakeWhile

/-!
# Words and pieces put together again

* `dropWhile_ne_append` and `dropWhile_ne_of_not_mem`: a search for the first of its kind.
* `IsWord`: characters that are not blank, and at least one of them.
* `isWord_of_mem_words`: this is what the words of a text are.
* `words_unwords`: words with spaces between them are the words of that text.
* `intercalate_split`: pieces with the separator between them are the text that was split, and `split_intercalate`:
  such a text splits into them.
-/

namespace BusinessClass

section First

variable {α : Type} [BEq α] [LawfulBEq α] {x : α}

/-- What stands in front of the first `x` is skipped. -/
theorem dropWhile_ne_append {front : List α} (first : x ∉ front) (back : List α) :
    (front ++ x :: back).dropWhile (· != x) = x :: back := by
  have skip : ∀ y ∈ front, (y != x) = true := fun y hy => bne_iff_ne.2 (ne_of_mem_of_not_mem hy first)
  rw [List.dropWhile_append_of_pos skip, List.dropWhile_cons_of_neg (by simp)]

theorem dropWhile_ne_of_not_mem {l : List α} (missing : x ∉ l) : l.dropWhile (· != x) = [] :=
  List.dropWhile_eq_nil_iff.2 fun _ hy => bne_iff_ne.2 (ne_of_mem_of_not_mem hy missing)

end First

namespace Text

variable {sep : Char → Bool}

theorem split_eq_singleton {w : Text} (h : ∀ c ∈ w, sep c = false) : split sep w = [w] := by
  induction w with
  | nil => rfl
  | cons c w ih =>
    simp [split, h c List.mem_cons_self, ih fun d hd => h d (List.mem_cons_of_mem c hd)]

theorem split_append_cons {w : Text} (h : ∀ c ∈ w, sep c = false) {d : Char} (hd : sep d = true)
    (t : Text) : split sep (w ++ d :: t) = w :: split sep t := by
  induction w with
  | nil => simp [split, hd]
  | cons c w ih =>
    simp [split, h c List.mem_cons_self, ih fun d hd => h d (List.mem_cons_of_mem c hd)]

/-- What holds no separator goes on as the first piece of the text behind it. -/
theorem split_append {w : Text} (h : ∀ c ∈ w, sep c = false) {t v : Text} {vs : List Text} (ht : split sep t = v :: vs) :
    split sep (w ++ t) = (w ++ v) :: vs := by
  induction w with
  | nil => exact ht
  | cons c w ih =>
    simp [split, h c List.mem_cons_self, ih fun d hd => h d (List.mem_cons_of_mem c hd)]

/-- No piece holds a separator, and all characters of a piece come from the text. -/
theorem mem_split {t : Text} : ∀ w ∈ split sep t, ∀ c ∈ w, sep c = false ∧ c ∈ t := by
  induction t with
  | nil => simp
  | cons d t ih =>
    intro w hw c hc
    rw [split] at hw
    split at hw
    · rcases List.mem_cons.1 hw with rfl | hw
      · cases hc
      · exact ⟨(ih w hw c hc).1, List.mem_cons_of_mem d (ih w hw c hc).2⟩
    · rename_i hd
      cases hs : split sep t with
      | nil => exact absurd hs (split_ne_nil sep t)
      | cons v vs =>
        rw [hs, consHead_cons] at hw
        rcases List.mem_cons.1 hw with rfl | hw
        · rcases List.mem_cons.1 hc with rfl | hc
          · exact ⟨by simpa using hd, List.mem_cons_self⟩
          · have := ih v (by rw [hs]; exact List.mem_cons_self) c hc
            exact ⟨this.1, List.mem_cons_of_mem d this.2⟩
        · have := ih w (by rw [hs]; exact List.mem_cons_of_mem v hw) c hc
          exact ⟨this.1, List.mem_cons_of_mem d this.2⟩

/-- A character of a text is a separator or stands in a piece between separators. -/
theorem exists_mem_split (sep : Char → Bool) {t : Text} {c : Char} (hc : c ∈ t) :
    sep c = true ∨ ∃ w ∈ split sep t, c ∈ w := by
  induction t with
  | nil => cases hc
  | cons d t ih =>
    obtain ⟨v, vs, hs⟩ := List.exists_cons_of_ne_nil (split_ne_nil sep t)
    rw [hs] at ih
    rw [split]
    split
    · rename_i hd
      rcases List.mem_cons.1 hc with rfl | hc
      · exact .inl hd
      · refine (ih hc).imp_right ?_
        rintro ⟨w, hw, mem⟩
        rw [hs]
        exact ⟨w, List.mem_cons_of_mem _ hw, mem⟩
    · rw [hs, consHead_cons]
      rcases List.mem_cons.1 hc with rfl | hc
      · exact .inr ⟨c :: v, List.mem_cons_self, List.mem_cons_self⟩
      · refine (ih hc).imp_right ?_
        rintro ⟨w, hw, mem⟩
        rcases List.mem_cons.1 hw with rfl | hw
        · exact ⟨d :: w, List.mem_cons_self, List.mem_cons_of_mem d mem⟩
        · exact ⟨w, List.mem_cons_of_mem _ hw, mem⟩

/-- Characters that are not blank, and at least one of them. -/
def IsWord (w : Text) : Prop := w ≠ [] ∧ ∀ c ∈ w, isBlank c = false

instance (w : Text) : Decidable w.IsWord :=
  decidable_of_iff (w ≠ [] ∧ (w.all (!isBlank ·)) = true) (by simp [IsWord])

theorem isWord_of_mem_words {t w : Text} (h : w ∈ words t) : w.IsWord := by
  obtain ⟨mem, ne⟩ := List.mem_filter.1 h
  exact ⟨by simpa using ne, fun c hc => (mem_split w mem c hc).1⟩

theorem unwords_cons (w : Text) (ws : List Text) :
    unwords (w :: ws) = w ++ ws.flatMap (' ' :: ·) := by
  induction ws generalizing w with
  | nil => simp [unwords, List.intercalate]
  | cons v vs ih =>
    have : unwords (w :: v :: vs) = w ++ ' ' :: unwords (v :: vs) := by
      simp [unwords, List.intercalate]
    rw [this, ih, List.flatMap_cons, List.cons_append]

theorem mem_unwords {c : Char} {ws : List Text} (h : c ∈ unwords ws) : c = ' ' ∨ ∃ w ∈ ws, c ∈ w := by
  cases ws with
  | nil => cases h
  | cons w ws =>
    rw [unwords_cons, List.mem_append, List.mem_flatMap] at h
    rcases h with h | ⟨v, hv, h⟩
    · exact Or.inr ⟨w, List.mem_cons_self, h⟩
    · rcases List.mem_cons.1 h with rfl | h
      · exact Or.inl rfl
      · exact Or.inr ⟨v, List.mem_cons_of_mem w hv, h⟩

/-- Words with spaces between them are the words of that text. -/
theorem words_unwords {ws : List Text} (h : ∀ w ∈ ws, w.IsWord) : words (unwords ws) = ws := by
  induction ws with
  | nil => rfl
  | cons w ws ih =>
    have hw := h w List.mem_cons_self
    have rest := ih fun v hv => h v (List.mem_cons_of_mem w hv)
    cases ws with
    | nil => simp [unwords_cons, words, split_eq_singleton hw.2, hw.1]
    | cons v vs =>
      have : unwords (w :: v :: vs) = w ++ ' ' :: unwords (v :: vs) := by
        simp [unwords_cons]
      rw [this, words, split_append_cons hw.2 (by decide)]
      simpa [words, hw.1] using rest

/-- Pieces with the separator between them are the text that was split. -/
theorem intercalate_split (d : Char) (t : Text) : [d].intercalate (split (· == d) t) = t := by
  induction t with
  | nil => rfl
  | cons c t ih =>
    rw [split]
    obtain ⟨v, vs, hs⟩ := List.exists_cons_of_ne_nil (split_ne_nil (· == d) t)
    rw [hs] at ih
    split
    · rename_i hc
      obtain rfl := by simpa using hc
      rw [hs]
      have : [c].intercalate ([] :: v :: vs) = c :: [c].intercalate (v :: vs) := by
        simp [List.intercalate]
      rw [this, ih]
    · rw [hs, consHead_cons]
      cases vs with
      | nil => simp_all [List.intercalate]
      | cons u us => simp_all [List.intercalate]

/-- Pieces without the separator are what splits off a text in which it stands between them. -/
theorem split_intercalate {d : Char} {pieces : List Text} (ne_nil : pieces ≠ []) (apart : ∀ p ∈ pieces, d ∉ p) :
    split (· == d) ([d].intercalate pieces) = pieces := by
  induction pieces with
  | nil => exact absurd rfl ne_nil
  | cons p ps ih =>
    have hp : ∀ c ∈ p, (c == d) = false := fun c hc =>
      beq_eq_false_iff_ne.2 fun eq => apart p List.mem_cons_self (eq ▸ hc)
    cases ps with
    | nil => rw [List.intercalate_singleton, split_eq_singleton hp]
    | cons q qs =>
      have rest := ih (List.cons_ne_nil q qs) fun r hr => apart r (List.mem_cons_of_mem p hr)
      rw [List.intercalate_cons_cons, List.append_assoc, List.singleton_append, split_append_cons hp (beq_self_eq_true d),
        rest]

end Text

end BusinessClass
