import BusinessClass.Proofs.Text.Block
import BusinessClass.Proofs.Text.Words
import Mathlib.Data.List.Chain

/-!
# Texts whose blanks are single spaces

* `Text.Single`: every blank is a space, and no blank follows another one.
* `single_unwords`: so it is in words with spaces between them, and in every part of such a text.
* `unwords_words`: a text of this kind without blanks at its ends consists of its words.
-/

namespace BusinessClass

namespace Text

/-- Every blank of the text is a space, and none of them follows another one. -/
structure Single (t : Text) : Prop where
  apart : t.IsChain fun a b => isBlank a = true → isBlank b = false
  spaces : ∀ c ∈ t, isBlank c = true → c = ' '

variable {s t : Text}

theorem Single.of_infix (h : Single t) (part : s <:+: t) : Single s where
  apart := List.IsChain.infix h.apart part
  spaces c hc := h.spaces c (part.subset hc)

theorem Single.append (hs : Single s) (ht : Single t)
    (between : ∀ a ∈ s.getLast?, isBlank a = true → ∀ b ∈ t.head?, isBlank b = false) : Single (s ++ t) := by
  refine ⟨hs.apart.append ht.apart fun a ha b hb blank => between a ha blank b hb, fun c hc => ?_⟩
  rcases List.mem_append.1 hc with hc | hc
  · exact hs.spaces c hc
  · exact ht.spaces c hc

theorem IsWord.single {w : Text} (h : w.IsWord) : Single w := by
  constructor
  · refine List.isChain_iff_forall_rel_of_append_cons_cons.2 fun {a b l₁ l₂} eq blank => ?_
    have := h.2 a (by rw [eq]; simp)
    rw [blank] at this
    cases this
  · intro c hc blank
    rw [h.2 c hc] at blank
    cases blank

theorem IsWord.isBlank_head {w : Text} (h : w.IsWord) : ∀ c ∈ (w ++ t).head?, isBlank c = false := by
  obtain ⟨c, cs, rfl⟩ := List.exists_cons_of_ne_nil h.1
  intro d hd
  obtain rfl := Option.some.inj hd
  exact h.2 c List.mem_cons_self

/-- The blanks of words with spaces between them are these spaces. -/
theorem single_unwords {ws : List Text} (h : ∀ w ∈ ws, w.IsWord) : Single (unwords ws) := by
  induction ws with
  | nil => exact ⟨List.isChain_nil, fun c hc => nomatch hc⟩
  | cons w ws ih =>
    have hw := h w List.mem_cons_self
    have rest := ih fun v hv => h v (List.mem_cons_of_mem w hv)
    cases ws with
    | nil => simpa [unwords_cons] using hw.single
    | cons v vs =>
      have split : unwords (w :: v :: vs) = w ++ ([' '] ++ unwords (v :: vs)) := by simp [unwords_cons]
      rw [split]
      have space : Single [' '] := ⟨List.isChain_singleton ' ', by simp⟩
      refine hw.single.append (space.append rest fun _ _ _ => ?_) fun a ha blank => ?_
      · rw [unwords_cons]
        exact (h v (List.mem_cons_of_mem w List.mem_cons_self)).isBlank_head
      · rw [hw.2 a (List.mem_of_getLast? ha)] at blank
        cases blank

/-- Words that the text consists of: the head of the list is the word that the first character belongs to. -/
theorem exists_unwords : (t : Text) → Single t → (∀ c ∈ t.head?, isBlank c = false) →
    (∀ c ∈ t.getLast?, isBlank c = false) → ∃ ws : List Text, (∀ w ∈ ws, w.IsWord) ∧ unwords ws = t
  | [], _, _, _ => ⟨[], by simp, rfl⟩
  | [c], _, head, _ => ⟨[[c]], by simpa [IsWord] using head, rfl⟩
  | c :: d :: ds, single, head, last => by
    have hc : isBlank c = false := head c rfl
    have tail : Single (d :: ds) := single.of_infix (List.suffix_cons c _).isInfix
    have lastTail : ∀ e ∈ (d :: ds).getLast?, isBlank e = false := fun e he => last e (by rwa [List.getLast?_cons_cons])
    -- The character joins the word behind it, or is a word by itself in front of a space.
    cases hd : isBlank d with
    | false =>
      obtain ⟨ws, hws, eq⟩ := exists_unwords (d :: ds) tail (by simpa using hd) lastTail
      cases ws with
      | nil => cases eq
      | cons w ws =>
        have hw := hws w List.mem_cons_self
        refine ⟨(c :: w) :: ws, ?_, ?_⟩
        · rintro v hv
          rcases List.mem_cons.1 hv with rfl | hv
          · exact ⟨List.cons_ne_nil c w, List.forall_mem_cons.2 ⟨hc, hw.2⟩⟩
          · exact hws v (List.mem_cons_of_mem w hv)
        · rw [unwords_cons] at eq ⊢
          rw [List.cons_append, eq]
    | true =>
      obtain rfl := tail.spaces d List.mem_cons_self hd
      have next : ∀ e ∈ ds.head?, isBlank e = false := fun e he => (List.isChain_cons.1 tail.apart).1 e he hd
      have ne : ds ≠ [] := by
        rintro rfl
        rw [lastTail ' ' rfl] at hd
        cases hd
      have lastRest : ∀ e ∈ ds.getLast?, isBlank e = false := by
        obtain ⟨e, es, rfl⟩ := List.exists_cons_of_ne_nil ne
        simpa using lastTail
      obtain ⟨ws, hws, eq⟩ := exists_unwords ds (tail.of_infix (List.suffix_cons ' ' _).isInfix) next lastRest
      refine ⟨[c] :: ws, ?_, ?_⟩
      · rintro v hv
        rcases List.mem_cons.1 hv with rfl | hv
        · simpa [IsWord] using hc
        · exact hws v hv
      · cases ws with
        | nil => exact absurd eq.symm ne
        | cons w ws =>
          rw [unwords_cons] at eq
          rw [unwords_cons, List.flatMap_cons, ← eq]
          rfl

/-- A text whose blanks are single spaces, none of them at its ends, consists of its words. -/
theorem unwords_words (single : Single t) (head : ∀ c ∈ t.head?, isBlank c = false)
    (last : ∀ c ∈ t.getLast?, isBlank c = false) : unwords (words t) = t := by
  obtain ⟨ws, hws, rfl⟩ := exists_unwords t single head last
  rw [words_unwords hws]

/-! ### The ends of a text that was trimmed -/

theorem isBlank_head_trim (t : Text) : ∀ c ∈ (trim t).head?, isBlank c = false :=
  isBlank_head_trimStart (trimEnd t)

theorem isBlank_getLast_trim (t : Text) : ∀ c ∈ (trim t).getLast?, isBlank c = false :=
  fun c hc => isBlank_getLast_trimEnd t c (getLast?_trimStart_subset _ c hc)

theorem trim_eq_self (head : ∀ c ∈ t.head?, isBlank c = false) (last : ∀ c ∈ t.getLast?, isBlank c = false) :
    trim t = t := by
  rw [trim, trimEnd_eq_self last, trimStart_eq_self head]

end Text

end BusinessClass
