import BusinessClass.Text.Blank

/-!
# Text

A text is the list of its characters, so that every function on it recurses on the data.

* `Text.split` cuts a text at separators; `Text.words` are the runs between blanks.
* `Text.trim` drops blanks from both ends.
* `Text.sameLetters` and `Text.sameWords` compare up to ASCII letter case, the second also up to
  spacing: this is how every fixed header of the format is recognized.
* `Text.byteSize` is the length in UTF-8, the unit of all spans.
-/

namespace BusinessClass

/-- A text: its characters in order. -/
abbrev Text := List Char

namespace Text

/-! ### Size -/

/-- The number of bytes of a text in UTF-8. -/
def byteSize : Text → Nat
  | [] => 0
  | c :: cs => c.utf8Size + byteSize cs

@[simp] theorem byteSize_nil : byteSize [] = 0 := rfl

@[simp] theorem byteSize_cons (c : Char) (cs : Text) :
    byteSize (c :: cs) = c.utf8Size + byteSize cs := rfl

@[simp] theorem byteSize_append (s t : Text) : byteSize (s ++ t) = byteSize s + byteSize t := by
  induction s with
  | nil => simp
  | cons c s ih => simp [ih, Nat.add_assoc]

theorem byteSize_eq_zero_iff {t : Text} : byteSize t = 0 ↔ t = [] := by
  cases t with
  | nil => simp
  | cons c t =>
    have := c.utf8Size_pos
    simp only [byteSize_cons, List.cons_ne_nil, iff_false]
    omega

/-! ### Cutting and joining -/

/-- Puts a character in front of the first piece, which is made if there is none. -/
def consHead (c : Char) : List Text → List Text
  | [] => [[c]]
  | piece :: rest => (c :: piece) :: rest

@[simp] theorem consHead_nil (c : Char) : consHead c [] = [[c]] := rfl

@[simp] theorem consHead_cons (c : Char) (piece : Text) (rest : List Text) :
    consHead c (piece :: rest) = (c :: piece) :: rest := rfl

theorem consHead_ne_nil (c : Char) (pieces : List Text) : consHead c pieces ≠ [] := by
  cases pieces <;> simp

/-- The pieces between the separators; one more piece than there are separators. -/
def split (sep : Char → Bool) : Text → List Text
  | [] => [[]]
  | c :: cs => if sep c then [] :: split sep cs else consHead c (split sep cs)

@[simp] theorem split_nil (sep : Char → Bool) : split sep [] = [[]] := rfl

theorem split_ne_nil (sep : Char → Bool) (t : Text) : split sep t ≠ [] := by
  cases t with
  | nil => simp
  | cons c cs =>
    simp only [split]
    split
    · simp
    · exact consHead_ne_nil _ _

/-- The maximal runs of characters that are not blank. -/
def words (t : Text) : List Text := (split isBlank t).filter (fun w => !w.isEmpty)

/-- The words of a text with one space between neighbours. -/
def unwords (ws : List Text) : Text := [' '].intercalate ws

/-- The lines of a text, each closed by a line feed or by a carriage return and a line feed; what
follows the last line feed is a line only if it is not empty. -/
def lines : Text → List Text
  | [] => []
  | '\n' :: cs => [] :: lines cs
  | '\r' :: '\n' :: cs => [] :: lines cs
  | c :: cs => consHead c (lines cs)

/-- Texts one below the other. -/
def stack (ts : List Text) : Text := ['\n'].intercalate ts

/-! ### Trimming -/

theorem length_dropWhile_le (p : Char → Bool) (t : Text) : (t.dropWhile p).length ≤ t.length :=
  (List.dropWhile_sublist p).length_le

/-- A text without the blanks in front. -/
def trimStart (t : Text) : Text := t.dropWhile isBlank

/-- A text without the blanks at its end. -/
def trimEnd : Text → Text
  | [] => []
  | c :: cs =>
    match trimEnd cs with
    | [] => if isBlank c then [] else [c]
    | rest => c :: rest

/-- A text without the blanks at either end. -/
def trim (t : Text) : Text := trimStart (trimEnd t)

/-- The blanks in front of a text. -/
def indent (t : Text) : Text := t.takeWhile isBlank

@[simp] theorem indent_append_trimStart (t : Text) : indent t ++ trimStart t = t :=
  List.takeWhile_append_dropWhile

/-! ### Comparison up to letter case -/

/-- The text with ASCII capitals made small. -/
def lower (t : Text) : Text := t.map Char.toLower

/-- Equal up to the case of ASCII letters. -/
def sameLetters (s t : Text) : Bool := lower s == lower t

/-- Equal up to the case of ASCII letters and the blanks around words. -/
def sameWords (s t : Text) : Bool := (words s).map lower == (words t).map lower

/-- Whether the text begins with the given words, up to the case of ASCII letters. -/
def startsWithWords (lead t : Text) : Bool :=
  ((words lead).map lower).isPrefixOf ((words t).map lower)

/-- The letters of a text in small case with all blanks left out. -/
def squeeze (t : Text) : Text := lower (words t).flatten

@[simp] theorem sameWords_refl (t : Text) : sameWords t t = true := by simp [sameWords]

theorem sameWords_comm (s t : Text) : sameWords s t = sameWords t s := by
  simp only [sameWords]; exact Bool.beq_comm

/-- A text comparison up to case and spacing is carried along. -/
theorem sameWords_trans {s t u : Text} (h : sameWords s t = true) (k : sameWords t u = true) :
    sameWords s u = true := by
  simp only [sameWords, beq_iff_eq] at *
  rw [h, k]

/-! ### Numbers -/

/-- The decimal digits of a number. -/
def ofNat (n : Nat) : Text := Nat.toDigits 10 n

/-- The number that decimal digits spell. -/
def digitsValue (digits : Text) : Nat :=
  digits.foldl (fun n d => n * 10 + (d.toNat - '0'.toNat)) 0

/-- A text with spaces in front, up to the given width. -/
def padLeft (width : Nat) (t : Text) : Text := List.replicate (width - t.length) ' ' ++ t

end Text

end BusinessClass
