import BusinessClass.Text.Name
import BusinessClass.Text.Span

/-!
# Tokens of a header line

A header line is read as a sequence of words, numbers, quoted strings and single characters, with
blanks between them where they are wanted. `Lexeme.ofText` keeps the blanks in front of each token,
so the line can be put together again and every token has a place in it.

* `Token.first` reads the token at the front of a text that starts with no blank.
* `Lexeme.ofText` reads all tokens of a text.
* `Lexeme.verbatim` is the text from the first of some lexemes to the last.
* `Lexeme.spans` are the places of the tokens in bytes.
-/

namespace BusinessClass

/-- A token of a header line. -/
inductive Token
  /-- A name, hyphens allowed. -/
  | word (text : Text)
  /-- An integer or decimal number as written. -/
  | number (text : Text)
  /-- The text between two double quotes. -/
  | quoted (text : Text)
  /-- Any other character that is not blank. -/
  | mark (c : Char)
deriving DecidableEq, Repr

namespace Token

/-- The token as written. -/
def text : Token → Text
  | .word t => t
  | .number t => t
  | .quoted t => '"' :: t ++ ['"']
  | .mark c => [c]

/-- The point and digits that may follow an integer, and the rest. -/
def fraction : Text → Text × Text
  | '.' :: d :: cs =>
    if d.isDigit then ('.' :: d :: cs.takeWhile Char.isDigit, cs.dropWhile Char.isDigit)
    else ([], '.' :: d :: cs)
  | cs => ([], cs)

/-- The digits that may follow the first digit of an integer, and the rest: none after a zero. -/
def moreDigits (c : Char) (cs : Text) : Text × Text :=
  if c = '0' then ([], cs) else (cs.takeWhile Char.isDigit, cs.dropWhile Char.isDigit)

/-- The token at the front of the text `c :: cs`, whose first character is not blank, and the
rest. A quote that is never closed is a mark. -/
def first (c : Char) (cs : Text) : Token × Text :=
  if c = '"' then
    match cs.dropWhile (· != '"') with
    | _ :: rest => (.quoted (cs.takeWhile (· != '"')), rest)
    | [] => (.mark '"', cs)
  else if c.isDigit then
    let digits := moreDigits c cs
    let places := fraction digits.2
    (.number (c :: digits.1 ++ places.1), places.2)
  else if isNameStart c then
    (.word (c :: cs.takeWhile isNameChar), cs.dropWhile isNameChar)
  else (.mark c, cs)

theorem length_fraction_le (cs : Text) : (fraction cs).2.length ≤ cs.length := by
  unfold fraction
  split
  · split
    · have := Text.length_dropWhile_le Char.isDigit; grind
    · simp
  · simp

theorem length_moreDigits_le (c : Char) (cs : Text) : (moreDigits c cs).2.length ≤ cs.length := by
  unfold moreDigits
  split
  · simp
  · exact Text.length_dropWhile_le _ _

/-- Reading a token takes at least its first character. -/
theorem length_first_le (c : Char) (cs : Text) : (first c cs).2.length ≤ cs.length := by
  unfold first
  split
  · split
    · rename_i rest h
      have := Text.length_dropWhile_le (· != '"') cs
      rw [h, List.length_cons] at this
      exact Nat.le_of_succ_le this
    · simp
  · split
    · exact Nat.le_trans (length_fraction_le _) (length_moreDigits_le _ _)
    · split
      · exact Text.length_dropWhile_le _ _
      · simp

end Token

/-- A token with the blanks in front of it. -/
structure Lexeme where
  /-- The blanks between the token before and this one. -/
  gap : Text
  /-- The token. -/
  token : Token
deriving DecidableEq, Repr

namespace Lexeme

/-- The tokens of a text in order; blanks at its end belong to none of them. -/
def ofText (t : Text) : List Lexeme :=
  match _h : t.dropWhile isBlank with
  | [] => []
  | c :: cs => ⟨t.takeWhile isBlank, (Token.first c cs).1⟩ :: ofText (Token.first c cs).2
termination_by t.length
decreasing_by
  have h₁ := Text.length_dropWhile_le isBlank t
  have h₂ := Token.length_first_le c cs
  rw [_h] at h₁
  simp only [List.length_cons] at h₁
  omega

/-- Blanks alone hold no token. -/
theorem ofText_eq_nil {t : Text} (h : t.dropWhile isBlank = []) : ofText t = [] := by
  rw [ofText]
  split
  · rfl
  · simp_all

/-- The first token of a text comes behind the blanks in front. -/
theorem ofText_eq_cons {t cs : Text} {c : Char} (h : t.dropWhile isBlank = c :: cs) :
    ofText t = ⟨t.takeWhile isBlank, (Token.first c cs).1⟩ :: ofText (Token.first c cs).2 := by
  rw [ofText]
  split
  · simp_all
  · rename_i h'
    rw [h] at h'
    cases h'
    rfl

/-- The tokens of a text, unless it is made of blanks alone. -/
def ofText? (t : Text) : Option (List Lexeme) :=
  if !t.isEmpty && t.all isBlank then none else some (ofText t)

/-- The tokens without the blanks between them. -/
def tokens (ls : List Lexeme) : List Token := ls.map Lexeme.token

/-- The text that some lexemes were read from, blanks included. -/
def source (ls : List Lexeme) : Text := ls.flatMap fun l => l.gap ++ l.token.text

/-- The text from the first token to the last. -/
def verbatim : List Lexeme → Text
  | [] => []
  | l :: ls => l.token.text ++ source ls

/-- The places of the tokens of a text that starts at the given offset. -/
def spans (offset : Nat) : List Lexeme → List Span
  | [] => []
  | l :: ls =>
    let start := offset + l.gap.byteSize
    let stop := start + l.token.text.byteSize
    ⟨start, stop⟩ :: spans stop ls

end Lexeme

end BusinessClass
