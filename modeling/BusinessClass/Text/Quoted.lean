import BusinessClass.Text.Basic
import BusinessClass.Text.Shapeless

/-!
# One character shown in quotes

A message that names a character writes it between single quotes. A character without a shape is
spelled `\u{…}` with its code point in hexadecimal, and the usual short escapes come first.
-/

namespace BusinessClass

namespace Text

/-- The code point of a character in an escape with braces. -/
def codePointEscape (c : Char) : Text :=
  "\\u\x7b".toList ++ Nat.toDigits 16 c.toNat ++ "\x7d".toList

/-- A character as it stands between single quotes. -/
def escapeChar (c : Char) : Text :=
  if c = '\x00' then "\\0".toList
  else if c = '\t' then "\\t".toList
  else if c = '\r' then "\\r".toList
  else if c = '\n' then "\\n".toList
  else if c = '\'' then "\\'".toList
  else if c = '\\' then "\\\\".toList
  else if isShapeless c then codePointEscape c
  else [c]

/-- A character in single quotes. -/
def quoteChar (c : Char) : Text := '\'' :: escapeChar c ++ ['\'']

end Text

end BusinessClass
