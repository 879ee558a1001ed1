import BusinessClass.Text.Alphanumeric
import BusinessClass.Text.Basic

/-!
# Names

A name starts with a letter or an underscore and goes on with letters, numbers, underscores and
hyphens. A dotted name is a chain of names with dots between them.
-/

namespace BusinessClass

/-- Whether the character may start a name. -/
def isNameStart (c : Char) : Bool := isLetter c || c == '_'

/-- Whether the character may continue a name. -/
def isNameChar (c : Char) : Bool := isAlphanumeric c || c == '_' || c == '-'

/-- Whether the character may continue a name without hyphens. -/
def isPlainNameChar (c : Char) : Bool := isAlphanumeric c || c == '_'

theorem isNameChar_of_isNameStart {c : Char} (h : isNameStart c = true) :
    isNameChar c = true := by
  simp only [isNameStart, isNameChar, isAlphanumeric, Bool.or_eq_true] at *
  rcases h with h | h <;> simp [h]

theorem isNameChar_of_isPlainNameChar {c : Char} (h : isPlainNameChar c = true) :
    isNameChar c = true := by
  simp only [isPlainNameChar, isNameChar, Bool.or_eq_true] at *
  exact Or.inl h

namespace Text

/-- Whether the text is a name. -/
def isName : Text → Bool
  | [] => false
  | c :: cs => isNameStart c && cs.all isNameChar

/-- Whether the text is a name without hyphens. -/
def isPlainName : Text → Bool
  | [] => false
  | c :: cs => isNameStart c && cs.all isPlainNameChar

/-- The pieces of a text between its dots. -/
def segments (t : Text) : List Text := split (· == '.') t

/-- Whether the text is a chain of names with dots between them. -/
def isDottedName (t : Text) : Bool := (segments t).all isName

end Text

end BusinessClass
