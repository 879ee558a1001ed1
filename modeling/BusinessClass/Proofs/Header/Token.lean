import BusinessClass.Header.Token
import BusinessClass.Proofs.Outline.Nesting
import BusinessClass.Proofs.Text.Block
import BusinessClass.Proofs.Text.Name

/-!
# Reading tokens again

A token is read off the front of a text, and what follows it decides where it ends. A text can be cut
and go on with a blank instead without changing the tokens in front of the cut, as long as no quote is
left open.

* `Token.Reads` says that a token is read off in front of a text, `Lexeme.ReadIn` the same of lexemes.
* `Token.reads_iff`: what a token of each kind consists of, and where it ends; so a word is a name that the text behind
  it does not continue (`reads_word_iff`).
* `readIn_ofText`: the lexemes of a text are read off it, and no character is lost.
* `ReadIn.cut`: what follows may be replaced by nothing or a blank.
* `ofText_unwords`: texts with spaces between them have the tokens of each, one after the other.
-/

namespace BusinessClass

/-! ### Parting a text behind a run of characters -/

section Run

variable {α : Type} {p : α → Bool}

/-- A run in front of a text ends where the text does not continue it. -/
theorem takeWhile_append_of_all {w r : List α} (all : ∀ a ∈ w, p a = true)
    (stop : ∀ a ∈ r.head?, p a = false) :
    (w ++ r).takeWhile p = w ∧ (w ++ r).dropWhile p = r := by
  rw [Forest.takeWhile_append_of_head w r stop, Forest.dropWhile_append_of_head w r stop,
    List.takeWhile_eq_self_iff.2 all, List.dropWhile_eq_nil_iff.2 all]
  exact ⟨rfl, rfl⟩

theorem head?_dropWhile {l : List α} : ∀ a ∈ (l.dropWhile p).head?, p a = false := by
  intro a ha
  have := List.head?_dropWhile_not p l
  rw [Option.mem_def.1 ha] at this
  simpa using this

end Run

/-- What may stand behind a token in place of something else: nothing, or a text that starts with a
blank. -/
def Text.Breaks (t : Text) : Prop := ∀ c ∈ t.head?, isBlank c = true

theorem Text.breaks_nil : Breaks [] := by simp [Breaks]

/-- Where a class without blanks stops, it still stops if what is behind a piece is replaced. -/
theorem Text.Breaks.stop {p : Char → Bool} (blank : ∀ {c}, isBlank c = true → p c = false) {t : Text}
    (h : t.Breaks) {u v : Text} (stop : ∀ c ∈ (u ++ v).head?, p c = false) :
    ∀ c ∈ (u ++ t).head?, p c = false := by
  cases u with
  | nil => exact fun c hc => blank (h c hc)
  | cons d u => simpa using stop

namespace Token

/-! ### Tokens -/

/-- The token is read off in front of `rest`. -/
def Reads (tok : Token) (rest : Text) : Prop :=
  ∃ c w, tok.text = c :: w ∧ isBlank c = false ∧ first c (w ++ rest) = (tok, rest)

theorem Reads.text_eq_cons {tok : Token} {rest : Text} (reads : tok.Reads rest) :
    ∃ c w, tok.text = c :: w ∧ isBlank c = false := by
  obtain ⟨c, w, ht, hc, -⟩ := reads
  exact ⟨c, w, ht, hc⟩

/-- Reading the digits after the first one loses no character. -/
theorem append_moreDigits (c : Char) (cs : Text) :
    (moreDigits c cs).1 ++ (moreDigits c cs).2 = cs := by
  unfold moreDigits
  split
  · rfl
  · exact List.takeWhile_append_dropWhile

theorem append_fraction (cs : Text) : (fraction cs).1 ++ (fraction cs).2 = cs := by
  unfold fraction
  split
  · split
    · simp
    · rfl
  · rfl

/-- Reading a token loses no character. -/
theorem text_first_append (c : Char) (cs : Text) :
    (first c cs).1.text ++ (first c cs).2 = c :: cs := by
  unfold first
  split
  · rename_i hc
    subst hc
    split
    · rename_i d rest h
      have hd : (d == '"') = true := by
        have := head?_dropWhile (p := (· != '"')) (l := cs) d (by rw [h]; rfl)
        simpa using this
      have := List.takeWhile_append_dropWhile (p := (· != '"')) (l := cs)
      rw [h] at this
      simp only [text, beq_iff_eq] at hd ⊢
      subst hd
      rw [List.cons_append, List.cons_append, List.append_assoc, List.singleton_append, this]
    · rfl
  · split
    · rw [text, List.append_assoc, append_fraction, List.cons_append, append_moreDigits]
    · split
      · rw [text, List.cons_append, List.takeWhile_append_dropWhile]
      · rfl

theorem reads_first {c : Char} (hc : isBlank c = false) (cs : Text) :
    (first c cs).1.Reads (first c cs).2 := by
  have whole := text_first_append c cs
  cases ht : (first c cs).1.text with
  | nil =>
    -- the rest is no longer than `cs`, so a token cannot be empty
    rw [ht, List.nil_append] at whole
    have := length_first_le c cs
    rw [whole, List.length_cons] at this
    omega
  | cons d w =>
    rw [ht, List.cons_append] at whole
    obtain ⟨rfl, hw⟩ := List.cons.inj whole
    exact ⟨d, w, ht, hc, by rw [hw]⟩

/-- What a token of each kind consists of, and that it ends in front of `rest`. -/
def Formed : Token → Text → Prop
  | .word w, rest => w.isName = true ∧ ∀ c ∈ rest.head?, isNameChar c = false
  | .number n, rest => ∃ c w f, n = c :: (w ++ f) ∧ c.isDigit = true ∧
      moreDigits c (w ++ (f ++ rest)) = (w, f ++ rest) ∧ fraction (f ++ rest) = (f, rest)
  | .quoted q, _ => '"' ∉ q
  | .mark c, rest => c = '"' ∧ '"' ∉ rest ∨
      c ≠ '"' ∧ isBlank c = false ∧ c.isDigit = false ∧ isNameStart c = false

theorem Reads.formed {tok : Token} {rest : Text} (reads : tok.Reads rest) : tok.Formed rest := by
  obtain ⟨c, w, ht, hc, hf⟩ := reads
  unfold first at hf
  split at hf
  · split at hf
    · obtain ⟨rfl, -⟩ := Prod.mk.inj hf
      intro mem
      simpa using List.mem_takeWhile_imp mem
    · rename_i alone
      obtain ⟨rfl, -⟩ := Prod.mk.inj hf
      refine .inl ⟨rfl, fun mem => ?_⟩
      simpa using List.dropWhile_eq_nil_iff.1 alone _ (List.mem_append_right w mem)
  · rename_i no_quote
    split at hf
    · rename_i digit
      obtain ⟨rfl, rest_eq⟩ := Prod.mk.inj hf
      have places := append_fraction (moreDigits c (w ++ rest)).2
      rw [rest_eq] at places
      refine ⟨c, _, _, rfl, digit, ?_, ?_⟩
      · rw [places, append_moreDigits]
      · rw [places]
        exact Prod.ext rfl rest_eq
    · rename_i no_digit
      split at hf
      · rename_i start
        obtain ⟨rfl, rest_eq⟩ := Prod.mk.inj hf
        exact ⟨Text.isName_cons_iff.2 ⟨start, fun d hd => List.mem_takeWhile_imp hd⟩,
          fun d hd => head?_dropWhile d (by rw [rest_eq]; exact hd)⟩
      · rename_i no_start
        obtain ⟨rfl, -⟩ := Prod.mk.inj hf
        exact .inr ⟨no_quote, hc, by simpa using no_digit, by simpa using no_start⟩

theorem Formed.reads {tok : Token} {rest : Text} (formed : tok.Formed rest) : tok.Reads rest := by
  cases tok with
  | word w =>
    obtain ⟨name, stop⟩ := formed
    cases w with
    | nil => cases name
    | cons c cs =>
      obtain ⟨start, more⟩ := Text.isName_cons_iff.1 name
      have no_quote : c ≠ '"' := by
        rintro rfl
        exact absurd start (by decide)
      have no_digit := isDigit_of_isNameStart start
      have taken := takeWhile_append_of_all more stop
      refine ⟨c, cs, rfl, isBlank_of_isNameChar (isNameChar_of_isNameStart start), ?_⟩
      rw [first, if_neg no_quote, no_digit, if_neg Bool.false_ne_true, if_pos start, taken.1, taken.2]
  | number n =>
    obtain ⟨c, w, f, rfl, digit, more, places⟩ := formed
    have no_quote : c ≠ '"' := by
      rintro rfl
      exact absurd digit (by decide)
    refine ⟨c, w ++ f, rfl, isBlank_of_isDigit digit, ?_⟩
    rw [first, if_neg no_quote, if_pos digit, List.append_assoc, more]
    simp only [places]
    rfl
  | quoted q =>
    have inside : ∀ d ∈ q, (d != '"') = true := fun d hd => by
      simpa using ne_of_mem_of_not_mem hd formed
    have taken := takeWhile_append_of_all (r := '"' :: rest) inside (by simp)
    refine ⟨'"', q ++ ['"'], rfl, by decide, ?_⟩
    rw [first, if_pos rfl, List.append_assoc, List.singleton_append, taken.1, taken.2]
  | mark c =>
    rcases formed with ⟨rfl, alone⟩ | ⟨no_quote, blank, no_digit, no_start⟩
    · refine ⟨'"', [], rfl, by decide, ?_⟩
      rw [List.nil_append, first, if_pos rfl, dropWhile_ne_of_not_mem alone]
    · refine ⟨c, [], rfl, blank, ?_⟩
      rw [List.nil_append, first, if_neg no_quote, no_digit, no_start, if_neg Bool.false_ne_true,
        if_neg Bool.false_ne_true]

/-- Tokens that are read off are those that are formed in this way. -/
theorem reads_iff {tok : Token} {rest : Text} : tok.Reads rest ↔ tok.Formed rest := ⟨Reads.formed, Formed.reads⟩

/-- A word is read off if it is a name that the text behind it does not continue. -/
theorem reads_word_iff {w rest : Text} :
    (word w).Reads rest ↔ w.isName = true ∧ ∀ c ∈ rest.head?, isNameChar c = false := reads_iff

/-- A number is a digit, further digits and places, as many as there are. -/
theorem reads_number_iff {n rest : Text} :
    (number n).Reads rest ↔ ∃ c w f, n = c :: (w ++ f) ∧ c.isDigit = true ∧
      moreDigits c (w ++ (f ++ rest)) = (w, f ++ rest) ∧ fraction (f ++ rest) = (f, rest) := reads_iff

/-- What stands between two quotes contains none. -/
theorem reads_quoted_iff {q rest : Text} : (quoted q).Reads rest ↔ '"' ∉ q := reads_iff

/-- A mark is a quote that is never closed, or a character that starts no other token. -/
theorem reads_mark_iff {c : Char} {rest : Text} :
    (mark c).Reads rest ↔ c = '"' ∧ '"' ∉ rest ∨
      c ≠ '"' ∧ isBlank c = false ∧ c.isDigit = false ∧ isNameStart c = false := reads_iff

/-- A quote is a mark of its own if none follows it. -/
theorem reads_quote_iff {rest : Text} : (mark '"').Reads rest ↔ '"' ∉ rest := by
  rw [reads_mark_iff]
  simp

/-- A fraction is a point and digits, as many as there are. -/
theorem fraction_eq_nil_iff {cs : Text} :
    fraction cs = ([], cs) ↔ ∀ d ds, cs = '.' :: d :: ds → d.isDigit = false := by
  unfold fraction
  split
  · rename_i d ds
    cases hd : d.isDigit <;> simp [hd]
  · rename_i h
    simpa using fun d ds hcs => absurd hcs (h d ds)

theorem fraction_eq_cons {cs w r : Text} {x : Char} (h : fraction cs = (x :: w, r)) :
    ∃ d ds, cs = '.' :: d :: ds ∧ d.isDigit = true ∧ x :: w = '.' :: d :: ds.takeWhile Char.isDigit ∧
      r = ds.dropWhile Char.isDigit := by
  unfold fraction at h
  split at h
  · rename_i d ds
    split at h
    · rename_i hd
      obtain ⟨hw, hr⟩ := Prod.mk.inj h
      exact ⟨d, ds, rfl, hd, hw.symm, hr.symm⟩
    · cases h
  · cases h

section Cut

variable {t : Text} (h : t.Breaks) {u v w : Text}

include h

/-- The digits of a number end at the same place when what is behind them is replaced. -/
theorem moreDigits_cut {c : Char} (more : moreDigits c (w ++ (u ++ v)) = (w, u ++ v)) :
    moreDigits c (w ++ (u ++ t)) = (w, u ++ t) := by
  unfold moreDigits at more ⊢
  split
  · rename_i hc
    rw [if_pos hc] at more
    obtain ⟨rfl, -⟩ := Prod.mk.inj more
    rfl
  · rename_i hc
    rw [if_neg hc] at more
    obtain ⟨hw, hr⟩ := Prod.mk.inj more
    have all : ∀ d ∈ w, d.isDigit = true := fun d hd => by
      rw [← hw] at hd
      exact List.mem_takeWhile_imp hd
    have stop : ∀ d ∈ (u ++ v).head?, d.isDigit = false := fun d hd =>
      head?_dropWhile d (by rw [hr]; exact hd)
    have := takeWhile_append_of_all all
      (h.stop (fun hb => (not_isNameChar_of_isBlank hb).2) stop)
    rw [this.1, this.2]

theorem fraction_cut (frac : fraction (w ++ (u ++ v)) = (w, u ++ v)) :
    fraction (w ++ (u ++ t)) = (w, u ++ t) := by
  have digit : ∀ {c : Char}, isBlank c = true → c.isDigit = false :=
    fun hb => (not_isNameChar_of_isBlank hb).2
  cases w with
  | nil =>
    -- no fraction stands there, and a blank makes none
    rw [List.nil_append, fraction_eq_nil_iff] at frac ⊢
    intro d ds hd
    match u with
    | [] =>
      have := h '.' (by rw [← List.nil_append t, hd]; rfl)
      exact absurd this (by decide)
    | [x] =>
      obtain ⟨-, rfl⟩ := List.cons.inj hd
      exact digit (h d rfl)
    | x :: y :: u =>
      simp only [List.cons_append, List.cons.injEq] at hd
      obtain ⟨rfl, rfl, -⟩ := hd
      exact frac y (u ++ v) rfl
  | cons x w =>
    obtain ⟨d, ds, hcs, hd, hw, hr⟩ := fraction_eq_cons frac
    obtain ⟨rfl, rfl⟩ := List.cons.inj hw
    have all : ∀ e ∈ ds.takeWhile Char.isDigit, e.isDigit = true := fun e he =>
      List.mem_takeWhile_imp he
    have stop : ∀ e ∈ (u ++ v).head?, e.isDigit = false := fun e he =>
      head?_dropWhile e (by rw [← hr]; exact he)
    have := takeWhile_append_of_all all (h.stop digit stop)
    simp [fraction, hd, this.1, this.2]

/-- A token is read off in the same way when what follows is cut off behind some piece and replaced
by a blank, unless it is a quote that is never closed. -/
theorem Reads.cut {tok : Token} (reads : tok.Reads (u ++ v)) (closed : tok ≠ .mark '"') :
    tok.Reads (u ++ t) := by
  cases tok with
  | word w =>
    obtain ⟨name, stop⟩ := reads_word_iff.1 reads
    exact reads_word_iff.2 ⟨name, h.stop (fun hb => (not_isNameChar_of_isBlank hb).1) stop⟩
  | number n =>
    obtain ⟨c, w, f, hn, digit, more, frac⟩ := reads_number_iff.1 reads
    rw [← List.append_assoc f] at more
    have digits := moreDigits_cut h more
    rw [List.append_assoc f] at digits
    exact reads_number_iff.2 ⟨c, w, f, hn, digit, digits, fraction_cut h frac⟩
  | quoted q => exact reads_quoted_iff.2 (reads_quoted_iff.1 reads)
  | mark c =>
    have other := (reads_mark_iff.1 reads).resolve_left fun quote => closed (congrArg mark quote.1)
    exact reads_mark_iff.2 (.inr other)

end Cut

/-- A word starts like a name. -/
theorem Reads.isNameStart {w rest : Text} (reads : (word w).Reads rest) :
    ∃ c cs, w = c :: cs ∧ isNameStart c = true := by
  obtain ⟨name, -⟩ := reads_word_iff.1 reads
  cases w with
  | nil => cases name
  | cons c cs => exact ⟨c, cs, rfl, (Text.isName_cons_iff.1 name).1⟩

/-- A word ends where a name cannot go on. -/
theorem Reads.isNameChar_head {w rest : Text} (reads : (word w).Reads rest) :
    ∀ c ∈ rest.head?, isNameChar c = false :=
  (reads_word_iff.1 reads).2

theorem isDigit_of_mem_moreDigits {c : Char} {cs : Text} :
    ∀ d ∈ (moreDigits c cs).1, d.isDigit = true := by
  intro d hd
  unfold moreDigits at hd
  split at hd
  · cases hd
  · exact List.mem_takeWhile_imp hd

theorem isBlank_of_mem_fraction {cs : Text} : ∀ d ∈ (fraction cs).1, isBlank d = false := by
  intro d hd
  cases h : (fraction cs).1 with
  | nil =>
    rw [h] at hd
    cases hd
  | cons x w =>
    obtain ⟨e, es, -, he, hw, -⟩ := fraction_eq_cons (r := (fraction cs).2) (by rw [← h])
    rw [h, hw] at hd
    simp only [List.mem_cons] at hd
    rcases hd with rfl | rfl | hd
    · decide
    · exact isBlank_of_isDigit he
    · exact isBlank_of_isDigit (List.mem_takeWhile_imp hd)

/-- No token ends with a blank. -/
theorem Reads.isBlank_getLast {tok : Token} {rest : Text} (reads : tok.Reads rest) :
    ∀ d ∈ tok.text.getLast?, isBlank d = false := by
  intro d hd
  cases tok with
  | word w =>
    have name := (reads_word_iff.1 reads).1
    exact isBlank_of_isNameChar (Text.isNameChar_of_isName name d (List.mem_of_mem_getLast? hd))
  | number n =>
    obtain ⟨c, w, f, rfl, digit, more, places⟩ := reads_number_iff.1 reads
    rcases List.mem_cons.1 (List.mem_of_mem_getLast? hd) with rfl | hd
    · exact isBlank_of_isDigit digit
    rcases List.mem_append.1 hd with hd | hd
    · exact isBlank_of_isDigit (isDigit_of_mem_moreDigits d (by rw [more]; exact hd))
    · exact isBlank_of_mem_fraction d (by rw [places]; exact hd)
  | quoted q =>
    rw [text, List.getLast?_concat, Option.mem_some_iff] at hd
    subst hd
    decide
  | mark c =>
    obtain rfl : c = d := by simpa [text] using hd
    rcases reads_mark_iff.1 reads with ⟨rfl, -⟩ | ⟨-, blank, -⟩
    · decide
    · exact blank

end Token

namespace Lexeme

@[simp] theorem source_nil : source [] = [] := rfl

@[simp] theorem source_cons (l : Lexeme) (ls : List Lexeme) :
    source (l :: ls) = l.gap ++ (l.token.text ++ source ls) := by
  simp [source]

@[simp] theorem source_append (ls ms : List Lexeme) : source (ls ++ ms) = source ls ++ source ms := by
  simp [source]

/-- The lexemes are read off one after the other in front of `rest`. -/
def ReadIn : List Lexeme → Text → Prop
  | [], _ => True
  | l :: ls, rest =>
    (∀ c ∈ l.gap, isBlank c = true) ∧ l.token.Reads (source ls ++ rest) ∧ ReadIn ls rest

@[simp] theorem readIn_nil (rest : Text) : ReadIn [] rest := trivial

theorem readIn_cons {l : Lexeme} {ls : List Lexeme} {rest : Text} :
    ReadIn (l :: ls) rest ↔
      (∀ c ∈ l.gap, isBlank c = true) ∧ l.token.Reads (source ls ++ rest) ∧ ReadIn ls rest :=
  Iff.rfl

theorem readIn_append {ls ms : List Lexeme} {rest : Text} :
    ReadIn (ls ++ ms) rest ↔ ReadIn ls (source ms ++ rest) ∧ ReadIn ms rest := by
  induction ls with
  | nil => simp
  | cons l ls ih => simp [readIn_cons, ih, and_assoc]

/-- Lexemes that can be read off a text are its lexemes. -/
theorem ofText_source_append {ls : List Lexeme} {rest : Text} (h : ReadIn ls rest) :
    ofText (source ls ++ rest) = ls ++ ofText rest := by
  induction ls with
  | nil => rfl
  | cons l ls ih =>
    obtain ⟨gap, ⟨c, w, ht, hc, hf⟩, more⟩ := readIn_cons.1 h
    have behind := takeWhile_append_of_all (p := isBlank) (r := l.token.text ++ (source ls ++ rest)) gap
      (by rw [ht]; simpa using hc)
    rw [source_cons, List.append_assoc, List.append_assoc,
      ofText_eq_cons (behind.2.trans (by rw [ht, List.cons_append])), behind.1, hf, ih more]
    rfl

/-- The lexemes of a text are read off it, and no character is lost. -/
theorem readIn_ofText (t : Text) :
    ∃ trail : Text, (∀ c ∈ trail, isBlank c = true) ∧ source (ofText t) ++ trail = t ∧
      ReadIn (ofText t) trail := by
  cases h : t.dropWhile isBlank with
  | nil =>
    rw [ofText_eq_nil h]
    exact ⟨t, List.dropWhile_eq_nil_iff.1 h, rfl, trivial⟩
  | cons c cs =>
    have shorter : (Token.first c cs).2.length < t.length := by
      have h₁ := Text.length_dropWhile_le isBlank t
      have h₂ := Token.length_first_le c cs
      rw [h, List.length_cons] at h₁
      omega
    obtain ⟨trail, blank, whole, reads⟩ := readIn_ofText (Token.first c cs).2
    have gap : t.takeWhile isBlank ++ (c :: cs) = t := by
      rw [← h, List.takeWhile_append_dropWhile]
    have hc : isBlank c = false := head?_dropWhile (l := t) c (by rw [h]; rfl)
    rw [ofText_eq_cons h]
    refine ⟨trail, blank, ?_, fun d hd => List.mem_takeWhile_imp hd, ?_, reads⟩
    · rw [source_cons, List.append_assoc, List.append_assoc, whole, Token.text_first_append, gap]
    · rw [whole]
      exact Token.reads_first hc cs
termination_by t.length

/-- What stands behind lexemes may be cut off behind some piece and replaced by a blank. -/
theorem ReadIn.cut {ls : List Lexeme} {u v t : Text} (h : ReadIn ls (u ++ v)) (breaks : t.Breaks)
    (closed : Token.mark '"' ∉ tokens ls) : ReadIn ls (u ++ t) := by
  induction ls with
  | nil => trivial
  | cons l ls ih =>
    obtain ⟨gap, reads, more⟩ := readIn_cons.1 h
    simp only [tokens, List.map_cons, List.mem_cons, not_or] at closed ih
    refine ⟨gap, ?_, ih more closed.2⟩
    rw [← List.append_assoc] at reads ⊢
    exact reads.cut breaks (Ne.symm closed.1)

/-! ### Texts of lexemes -/

/-- Lexemes that can be read by themselves, with no quote left open. -/
structure Complete (ls : List Lexeme) : Prop where
  ne_nil : ls ≠ []
  readIn : ReadIn ls []
  closed : Token.mark '"' ∉ tokens ls

/-- Lexemes of one line that can be read by themselves, with no quote left open. -/
structure Whole (ls : List Lexeme) : Prop extends Complete ls where
  oneLine : ∀ c ∈ source ls, c ≠ '\n' ∧ c ≠ '\r'

/-- The lexemes with other blanks in front of the first. -/
def withGap (gap : Text) : List Lexeme → List Lexeme
  | [] => []
  | l :: ls => ⟨gap, l.token⟩ :: ls

@[simp] theorem tokens_nil : tokens [] = [] := rfl

@[simp] theorem tokens_cons (l : Lexeme) (ls : List Lexeme) : tokens (l :: ls) = l.token :: tokens ls :=
  rfl

@[simp] theorem tokens_append (ls ms : List Lexeme) : tokens (ls ++ ms) = tokens ls ++ tokens ms :=
  List.map_append

theorem tokens_flatMap {α : Type} (f : α → List Lexeme) (as : List α) :
    tokens (as.flatMap f) = as.flatMap fun a => tokens (f a) := by
  induction as with
  | nil => rfl
  | cons a as ih => rw [List.flatMap_cons, tokens_append, ih, List.flatMap_cons]

@[simp] theorem tokens_withGap (gap : Text) (ls : List Lexeme) :
    tokens (withGap gap ls) = tokens ls := by
  cases ls <;> rfl

@[simp] theorem verbatim_withGap (gap : Text) (ls : List Lexeme) :
    verbatim (withGap gap ls) = verbatim ls := by
  cases ls <;> rfl

theorem source_withGap (gap : Text) {ls : List Lexeme} (ne : ls ≠ []) :
    source (withGap gap ls) = gap ++ verbatim ls := by
  cases ls with
  | nil => exact absurd rfl ne
  | cons l ls => simp [withGap, verbatim]

theorem mem_source_of_mem_verbatim {ls : List Lexeme} {c : Char} (h : c ∈ verbatim ls) :
    c ∈ source ls := by
  cases ls with
  | nil => exact h
  | cons l ls => simp only [verbatim, source_cons, List.mem_append] at h ⊢; exact Or.inr h

theorem ReadIn.withGap {ls : List Lexeme} {rest gap : Text} (h : ReadIn ls rest)
    (blank : ∀ c ∈ gap, isBlank c = true) : ReadIn (withGap gap ls) rest := by
  cases ls with
  | nil => trivial
  | cons l ls => exact ⟨blank, h.2⟩

/-- A token that is read by itself. -/
theorem complete_singleton {tok : Token} {r : Text} (reads : tok.Reads r) (closed : tok ≠ .mark '"') :
    Complete [⟨[], tok⟩] where
  ne_nil := by simp
  readIn := ⟨by simp, Token.Reads.cut Text.breaks_nil (u := []) reads closed, trivial⟩
  closed := by simpa using Ne.symm closed

theorem whole_singleton {tok : Token} {r : Text} (reads : tok.Reads r) (closed : tok ≠ .mark '"')
    (oneLine : ∀ c ∈ tok.text, c ≠ '\n' ∧ c ≠ '\r') : Whole [⟨[], tok⟩] :=
  ⟨complete_singleton reads closed, by simpa using oneLine⟩

/-- The tokens of a text are read by themselves, and so are any that stand side by side. -/
theorem complete_of_ofText {t : Text} {ls : List Lexeme} (h : ls <:+: ofText t) (ne : ls ≠ [])
    (closed : Token.mark '"' ∉ tokens ls) : Complete ls where
  ne_nil := ne
  readIn := by
    obtain ⟨front, back, h⟩ := h
    obtain ⟨trail, -, -, reads⟩ := readIn_ofText t
    rw [← h, readIn_append, readIn_append] at reads
    exact ReadIn.cut (u := []) reads.1.2 Text.breaks_nil closed
  closed := closed

theorem whole_of_ofText {t : Text} {ls : List Lexeme} (h : ls <:+: ofText t) (ne : ls ≠ [])
    (closed : Token.mark '"' ∉ tokens ls) (feed : '\n' ∉ t) (ret : '\r' ∉ t) : Whole ls := by
  refine ⟨complete_of_ofText h ne closed, fun c hc => ?_⟩
  obtain ⟨front, back, h⟩ := h
  obtain ⟨trail, -, whole, -⟩ := readIn_ofText t
  have mem : c ∈ t := by
    rw [← whole, ← h, source_append, source_append]
    simp [hc]
  exact ⟨fun h => feed (h ▸ mem), fun h => ret (h ▸ mem)⟩

/-- Each of the tokens is read by itself. -/
theorem Complete.token {ls : List Lexeme} (h : Complete ls) : ∀ t ∈ tokens ls, Complete [⟨[], t⟩] := by
  intro t ht
  obtain ⟨l, hl, rfl⟩ := List.mem_map.1 ht
  obtain ⟨front, back, rfl⟩ := List.append_of_mem hl
  have reads := h.readIn
  rw [readIn_append, readIn_cons] at reads
  exact complete_singleton reads.2.2.1 fun hm => h.closed (hm ▸ ht)

theorem Whole.token {ls : List Lexeme} (h : Whole ls) : ∀ t ∈ tokens ls, Whole [⟨[], t⟩] := by
  intro t ht
  refine ⟨h.toComplete.token t ht, fun c hc => h.oneLine c ?_⟩
  obtain ⟨l, hl, rfl⟩ := List.mem_map.1 ht
  obtain ⟨front, back, rfl⟩ := List.append_of_mem hl
  simp only [source_cons, source_nil, List.append_nil, List.nil_append] at hc
  simp [hc]

/-- The lexemes of a text that some of them make up. -/
theorem Complete.ofText_verbatim {ls : List Lexeme} (h : Complete ls) :
    ofText (verbatim ls) = withGap [] ls := by
  have no_gap : ∀ c ∈ ([] : Text), isBlank c = true := by simp
  have := ofText_source_append (h.readIn.withGap no_gap)
  rwa [List.append_nil, source_withGap _ h.ne_nil, List.nil_append, ofText_eq_nil (t := []) rfl,
    List.append_nil] at this

/-- No text of lexemes ends with a blank. -/
theorem ReadIn.isBlank_getLast {ls : List Lexeme} {rest : Text} (h : ReadIn ls rest) :
    ∀ c ∈ (source ls).getLast?, isBlank c = false := by
  induction ls with
  | nil => simp
  | cons l ls ih =>
    obtain ⟨-, reads, more⟩ := readIn_cons.1 h
    obtain ⟨d, w, ht, -⟩ := reads.text_eq_cons
    intro c hc
    rw [source_cons, List.getLast?_append, List.getLast?_append] at hc
    cases hs : (source ls).getLast? with
    | some e =>
      rw [hs] at hc
      exact ih more c (by rw [hs]; exact hc)
    | none =>
      have ne : l.token.text.getLast? ≠ none := by simp [ht]
      obtain ⟨e, he⟩ := Option.ne_none_iff_exists'.1 ne
      rw [hs, he] at hc
      exact reads.isBlank_getLast c (by rw [he]; exact hc)

/-- The text of the lexemes of a line is content, unless it is a comment. -/
theorem Whole.isContent {ls : List Lexeme} (h : Whole ls)
    (no_comment : "//".toList.isPrefixOf (verbatim ls) = false) : Text.IsContent (verbatim ls) := by
  have text_eq : source (withGap [] ls) = verbatim ls := source_withGap [] h.ne_nil
  have first : ∃ c w, verbatim ls = c :: w ∧ isBlank c = false := by
    obtain ⟨l, ls, rfl⟩ := List.exists_cons_of_ne_nil h.ne_nil
    obtain ⟨c, w, ht, hc⟩ := h.readIn.2.1.text_eq_cons
    exact ⟨c, w ++ source ls, by rw [verbatim, ht, List.cons_append], hc⟩
  obtain ⟨c, w, hv, hc⟩ := first
  refine ⟨by simp [hv], by simpa [hv] using hc, ?_, ?_, ?_, no_comment⟩
  · rw [← text_eq]
    exact (h.readIn.withGap (by simp)).isBlank_getLast
  · exact fun mem => (h.oneLine _ (mem_source_of_mem_verbatim mem)).1 rfl
  · exact fun mem => (h.oneLine _ (mem_source_of_mem_verbatim mem)).2 rfl

/-! ### Lists of lexemes one after the other -/

/-- Lexemes one list after the other, a space in front of each list but the first. -/
def spaced : List (List Lexeme) → List Lexeme
  | [] => []
  | ls :: lss => withGap [] ls ++ lss.flatMap (withGap [' '])

theorem tokens_spaced (lss : List (List Lexeme)) : tokens (spaced lss) = lss.flatMap tokens := by
  cases lss with
  | nil => rfl
  | cons ls lss => simp [spaced, tokens_flatMap]

section Spaced

variable {lss : List (List Lexeme)} (complete : ∀ ls ∈ lss, Complete ls)

include complete

theorem source_flatMap_withGap :
    source (lss.flatMap (withGap [' '])) = (lss.map verbatim).flatMap (' ' :: ·) := by
  induction lss with
  | nil => rfl
  | cons ls lss ih =>
    rw [List.flatMap_cons, source_append, source_withGap _ (complete ls List.mem_cons_self).ne_nil,
      ih fun ms hm => complete ms (List.mem_cons_of_mem ls hm)]
    rfl

theorem source_spaced : source (spaced lss) = Text.unwords (lss.map verbatim) := by
  cases lss with
  | nil => rfl
  | cons ls lss =>
    rw [spaced, source_append, source_withGap _ (complete ls List.mem_cons_self).ne_nil,
      source_flatMap_withGap fun ms hm => complete ms (List.mem_cons_of_mem ls hm), List.map_cons,
      Text.unwords_cons, List.nil_append]

theorem verbatim_spaced : verbatim (spaced lss) = Text.unwords (lss.map verbatim) := by
  cases lss with
  | nil => rfl
  | cons ls lss =>
    rw [← source_spaced complete]
    obtain ⟨l, ls, rfl⟩ := List.exists_cons_of_ne_nil (complete ls List.mem_cons_self).ne_nil
    simp [spaced, withGap, verbatim]

theorem breaks_source_flatMap_withGap : (source (lss.flatMap (withGap [' ']))).Breaks := by
  rw [source_flatMap_withGap complete]
  cases lss with
  | nil => exact Text.breaks_nil
  | cons ls lss =>
    simp only [Text.Breaks, List.map_cons, List.flatMap_cons, List.cons_append, List.head?_cons,
      Option.mem_some_iff, forall_eq']
    decide

theorem readIn_flatMap_withGap : ReadIn (lss.flatMap (withGap [' '])) [] := by
  induction lss with
  | nil => trivial
  | cons ls lss ih =>
    have hls := complete ls List.mem_cons_self
    have rest := fun ms hm => complete ms (List.mem_cons_of_mem ls hm)
    rw [List.flatMap_cons, readIn_append]
    have space : ∀ c ∈ [' '], isBlank c = true := fun c hc => by rw [List.mem_singleton.1 hc]; decide
    refine ⟨ReadIn.withGap ?_ space, ih rest⟩
    simpa using ReadIn.cut (u := []) hls.readIn (breaks_source_flatMap_withGap rest) hls.closed

/-- Lists of lexemes that are read by themselves can be read one after the other. -/
theorem complete_spaced (ne : lss ≠ []) : Complete (spaced lss) := by
  obtain ⟨ls, lss, rfl⟩ := List.exists_cons_of_ne_nil ne
  have hls := complete ls List.mem_cons_self
  have rest := fun ms hm => complete ms (List.mem_cons_of_mem ls hm)
  refine ⟨?_, ?_, ?_⟩
  · obtain ⟨l, ls, rfl⟩ := List.exists_cons_of_ne_nil hls.ne_nil
    simp [spaced, withGap]
  · rw [spaced, readIn_append]
    refine ⟨ReadIn.withGap ?_ (by simp), readIn_flatMap_withGap rest⟩
    simpa using ReadIn.cut (u := []) hls.readIn (breaks_source_flatMap_withGap rest) hls.closed
  · rw [tokens_spaced, List.mem_flatMap]
    rintro ⟨ms, hm, closed⟩
    exact (complete ms hm).closed closed

/-- Texts with spaces between them have the lexemes of each, one after the other. -/
theorem ofText_unwords (ne : lss ≠ []) : ofText (Text.unwords (lss.map verbatim)) = spaced lss := by
  have := (complete_spaced complete ne).ofText_verbatim
  rw [verbatim_spaced complete] at this
  rw [this]
  obtain ⟨ls, lss, rfl⟩ := List.exists_cons_of_ne_nil ne
  obtain ⟨l, ls, rfl⟩ := List.exists_cons_of_ne_nil (complete ls List.mem_cons_self).ne_nil
  rfl

end Spaced

theorem whole_spaced {lss : List (List Lexeme)} (whole : ∀ ls ∈ lss, Whole ls) (ne : lss ≠ []) :
    Whole (spaced lss) := by
  have complete : ∀ ls ∈ lss, Complete ls := fun ls hls => (whole ls hls).toComplete
  refine ⟨complete_spaced complete ne, fun c hc => ?_⟩
  rw [source_spaced complete] at hc
  rcases Text.mem_unwords hc with rfl | ⟨w, hw, hc⟩
  · decide
  · obtain ⟨ms, hm, rfl⟩ := List.mem_map.1 hw
    exact (whole ms hm).oneLine c (mem_source_of_mem_verbatim hc)

/-! ### Tokens with single spaces -/

/-- Tokens one after the other, a space in front of each but the first. -/
def ofTokens (ts : List Token) : List Lexeme := spaced (ts.map fun t => [⟨[], t⟩])

@[simp] theorem tokens_ofTokens (ts : List Token) : tokens (ofTokens ts) = ts := by
  rw [ofTokens, tokens_spaced, List.flatMap_map]
  exact List.flatMap_singleton' ts

section OfTokens

variable {ts : List Token} (complete : ∀ t ∈ ts, Complete [⟨[], t⟩])

include complete

theorem verbatim_ofTokens : verbatim (ofTokens ts) = Text.unwords (ts.map Token.text) := by
  rw [ofTokens, verbatim_spaced (List.forall_mem_map.2 complete), List.map_map]
  exact congrArg Text.unwords (List.map_congr_left fun t _ => by simp [verbatim])

theorem complete_ofTokens (ne : ts ≠ []) : Complete (ofTokens ts) :=
  complete_spaced (List.forall_mem_map.2 complete) (by simpa using ne)

end OfTokens

theorem whole_ofTokens {ts : List Token} (whole : ∀ t ∈ ts, Whole [⟨[], t⟩]) (ne : ts ≠ []) :
    Whole (ofTokens ts) :=
  whole_spaced (List.forall_mem_map.2 whole) (by simpa using ne)

end Lexeme

end BusinessClass
