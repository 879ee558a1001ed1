import BusinessClass.Proofs.Header.Lossless

/-!
# Tokens with single spaces between them

The tokens of a line can be moved apart. Written with single spaces between them they are read as the same tokens, a
quote without its partner included; and a piece of the line from one token to another is read as the tokens in it,
unless such a quote is among them.

* `Lexeme.ReadIn.respaced`: lexemes are still read off if other blanks stand between them.
* `ofText?_respaced`: so are the tokens of a text, and those of a piece of it.
-/

namespace BusinessClass

namespace Lexeme

/-- A space in front of each token. -/
def apart (ts : List Token) : List Lexeme := ts.map fun t => ⟨[' '], t⟩

theorem source_apart (ts : List Token) : source (apart ts) = (ts.map Token.text).flatMap (' ' :: ·) := by
  induction ts with
  | nil => rfl
  | cons t ts ih =>
    rw [apart, List.map_cons, source_cons, ← apart, ih]
    rfl

theorem breaks_source_apart (ts : List Token) : (source (apart ts)).Breaks := by
  cases ts with
  | nil => exact Text.breaks_nil
  | cons t ts =>
    intro c hc
    obtain rfl : ' ' = c := by simpa [apart] using hc
    decide

/-- What stands in front of the tokens and between them is not in a token. -/
theorem not_mem_source_apart {ls : List Lexeme} {c : Char} (notSpace : c ≠ ' ') (h : c ∉ source ls) :
    c ∉ source (apart (tokens ls)) := by
  induction ls with
  | nil => exact h
  | cons l ls ih =>
    simp only [source_cons, List.mem_append, not_or] at h
    simp only [tokens_cons, apart, List.map_cons, source_cons, List.mem_append, List.mem_singleton, not_or]
    exact ⟨notSpace, h.2.1, ih h.2.2⟩

/-- Lexemes that are read off are still read off with a space in front of each. -/
theorem ReadIn.respaced {ls : List Lexeme} {rest : Text} (h : ReadIn ls rest) : ReadIn (apart (tokens ls)) [] := by
  induction ls with
  | nil => trivial
  | cons l ls ih =>
    obtain ⟨-, reads, more⟩ := readIn_cons.1 h
    refine readIn_cons.2 ⟨fun c hc => ?_, ?_, ih more⟩
    · rw [List.mem_singleton.1 hc]
      decide
    rw [← apart, List.append_nil]
    by_cases quote : l.token = .mark '"'
    · -- a quote that was not closed before is not closed by a space
      rw [quote] at reads ⊢
      have alone : '"' ∉ source ls := fun mem => Token.reads_quote_iff.1 reads (List.mem_append_left rest mem)
      exact Token.reads_quote_iff.2 (not_mem_source_apart (by decide) alone)
    · exact Token.Reads.cut (breaks_source_apart _) (u := []) reads quote

/-- Tokens that are read off in some text are read with single spaces between them. -/
theorem ofText_unwords_of_readIn {ls : List Lexeme} {rest : Text} (h : ReadIn ls rest) (ne_nil : ls ≠ []) :
    ofText (Text.unwords ((tokens ls).map Token.text)) = withGap [] (apart (tokens ls)) := by
  have joined : source (withGap [] (apart (tokens ls))) = Text.unwords ((tokens ls).map Token.text) := by
    obtain ⟨l, ls, rfl⟩ := List.exists_cons_of_ne_nil ne_nil
    rw [tokens_cons, List.map_cons, Text.unwords_cons, ← source_apart]
    rfl
  have no_gap : ∀ c ∈ ([] : Text), isBlank c = true := by simp
  have read := ofText_source_append (h.respaced.withGap no_gap)
  rwa [List.append_nil, joined, ofText_eq_nil (t := []) rfl, List.append_nil] at read

@[simp] theorem tokens_apart (ts : List Token) : tokens (apart ts) = ts := by
  rw [tokens, apart, List.map_map]
  exact List.map_id ts

theorem ofText?_of_ne_nil {t : Text} (ne_nil : ofText t ≠ []) : ofText? t = some (ofText t) := by
  have some_token : t.all isBlank = false := by
    rw [← Bool.not_eq_true]
    intro blank
    exact ne_nil (ofText_eq_nil (List.dropWhile_eq_nil_iff.2 (List.all_eq_true.1 blank)))
  rw [ofText?, some_token, Bool.and_false]
  rfl

theorem eq_ofText_of_ofText? {t : Text} {ls : List Lexeme} (h : ofText? t = some ls) : ls = ofText t := by
  rw [ofText?] at h
  split at h
  · cases h
  · exact (Option.some.inj h).symm

/-- **Single spaces between tokens do not change them.** The tokens of a text, written with single spaces between them,
are read as the same tokens. The piece of the text from where one of them starts to where a later one stops is read as
the tokens from the one to the other, if no quote without a partner is among them. -/
theorem ofText?_respaced {t : Text} {ls : List Lexeme} (read : ofText? t = some ls) (ne_nil : ls ≠ []) :
    (∃ ms, ofText? (Text.unwords ((tokens ls).map Token.text)) = some ms ∧ tokens ms = tokens ls) ∧
    ∀ before run after, ls = before ++ (run ++ after) → run ≠ [] → .mark '"' ∉ tokens run →
      ∃ first last piece, (spans 0 ls)[before.length]? = some first ∧
        (spans 0 ls)[before.length + (run.length - 1)]? = some last ∧
        t.slice? ⟨first.start, last.stop⟩ = some piece ∧ ∃ ms, ofText? piece = some ms ∧ tokens ms = tokens run := by
  obtain rfl := eq_ofText_of_ofText? read
  obtain ⟨trail, -, whole, reads⟩ := readIn_ofText t
  constructor
  · have again := ofText_unwords_of_readIn reads ne_nil
    refine ⟨_, ofText?_of_ne_nil ?_, ?_⟩
    · rw [again]
      obtain ⟨l, ls, eq⟩ := List.exists_cons_of_ne_nil ne_nil
      simp [eq, apart, withGap]
    · rw [again, tokens_withGap, tokens_apart]
  · intro before run after split run_ne_nil closed
    have part : run <:+: ofText t := ⟨before, after, by rw [split, List.append_assoc]⟩
    have alone := (complete_of_ofText part run_ne_nil closed).ofText_verbatim
    obtain ⟨first, last, starts, stops, slice⟩ := slice?_verbatim before run_ne_nil after trail
    rw [← split] at starts stops slice
    rw [whole] at slice
    refine ⟨first, last, verbatim run, starts, stops, slice, _, ofText?_of_ne_nil ?_, ?_⟩
    · rw [alone]
      obtain ⟨l, ls, rfl⟩ := List.exists_cons_of_ne_nil run_ne_nil
      exact List.cons_ne_nil _ _
    · rw [alone, tokens_withGap]

/-- Digits behind a zero, a letter behind digits, a blank that is no space, a string of two words, a point without
digits behind it and a quote without a partner. -/
def touching : Text := "007x\u00a0\"a  b\"5.5.A \"½ c".toList

theorem ofText?_respaced_touching :
    ofText? touching = some (ofText touching) ∧ ofText touching ≠ [] ∧
      (∃ ms, ofText? "0 0 7 x \"a  b\" 5.5 . A \" ½ c".toList = some ms ∧ tokens ms = tokens (ofText touching)) ∧
      ∃ ms, ofText? "7x\u00a0\"a  b\"5.5.".toList = some ms ∧
        tokens ms = [.number "7".toList, .word "x".toList, .quoted "a  b".toList, .number "5.5".toList, .mark '.'] := by
  have read : ofText? touching = some (ofText touching) := by decide +kernel
  have ne_nil : ofText touching ≠ [] := by decide +kernel
  obtain ⟨spaced, pieces⟩ := ofText?_respaced read ne_nil
  have joined : Text.unwords ((tokens (ofText touching)).map Token.text) = "0 0 7 x \"a  b\" 5.5 . A \" ½ c".toList := by
    decide +kernel
  rw [joined] at spaced
  have split : ofText touching =
      (ofText touching).take 2 ++ (((ofText touching).drop 2).take 5 ++ (ofText touching).drop 7) := by decide +kernel
  obtain ⟨first, last, piece, starts, stops, slice, ms, again, same⟩ :=
    pieces _ _ _ split (by decide +kernel) (by decide +kernel)
  have start : (spans 0 (ofText touching))[((ofText touching).take 2).length]? = some ⟨2, 3⟩ := by decide +kernel
  have stop : (spans 0 (ofText touching))[((ofText touching).take 2).length +
      ((((ofText touching).drop 2).take 5).length - 1)]? = some ⟨15, 16⟩ := by decide +kernel
  cases start.symm.trans starts
  cases stop.symm.trans stops
  have cut : touching.slice? ⟨2, 16⟩ = some "7x\u00a0\"a  b\"5.5.".toList := by decide +kernel
  cases cut.symm.trans slice
  have tokens_eq : tokens (((ofText touching).drop 2).take 5) =
      [.number "7".toList, .word "x".toList, .quoted "a  b".toList, .number "5.5".toList, .mark '.'] := by
    decide +kernel
  exact ⟨read, ne_nil, spaced, ms, again, same.trans tokens_eq⟩

end Lexeme

end BusinessClass
