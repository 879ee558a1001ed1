import BusinessClass.Json.Basic

/-!
# Writing JSON

Two layouts: `Json.compact` without any blanks, and `Json.pretty` with one element to a line, two
spaces per level and `[]`, `{}` for empty containers. Strings escape quotes, backslashes and control
characters, and nothing else.
-/

namespace BusinessClass

namespace Json

/-! ### Strings -/

/-- The digit of a value below sixteen. -/
def hexDigit (n : Nat) : Char := Nat.digitChar n

/-- A character inside a string literal. -/
def escapeChar (c : Char) : Text :=
  if c = '"' then "\\\"".toList
  else if c = '\\' then "\\\\".toList
  else if c = '\x08' then "\\b".toList
  else if c = '\x0c' then "\\f".toList
  else if c = '\n' then "\\n".toList
  else if c = '\r' then "\\r".toList
  else if c = '\t' then "\\t".toList
  else if c.toNat < 0x20 then
    "\\u00".toList ++ [hexDigit (c.toNat / 16), hexDigit (c.toNat % 16)]
  else [c]

/-- A string literal. -/
def quote (t : Text) : Text := '"' :: t.flatMap escapeChar ++ ['"']

/-! ### Values -/

/-- A value that holds no other. -/
def scalar : Json → Text
  | .null => "null".toList
  | .bool true => "true".toList
  | .bool false => "false".toList
  | .natural n => Text.ofNat n
  | .number literal => literal
  | .string t => quote t
  | .unusable literal => literal
  | .array _ => "[]".toList
  | .object _ => "\x7b\x7d".toList

mutual

/-- A value without blanks. -/
def compact : Json → Text
  | .array elements => '[' :: compactElements elements ++ [']']
  | .object members => '{' :: compactMembers members ++ ['}']
  | j => scalar j

/-- Elements with commas between them. -/
def compactElements : List Json → Text
  | [] => []
  | [j] => compact j
  | j :: js => compact j ++ ',' :: compactElements js

/-- Members with commas between them. -/
def compactMembers : List (Text × Json) → Text
  | [] => []
  | [(name, j)] => quote name ++ ':' :: compact j
  | (name, j) :: ms => quote name ++ ':' :: compact j ++ ',' :: compactMembers ms

end

/-- A new line at a level, two spaces for each. -/
def newLine (level : Nat) : Text := '\n' :: List.replicate (2 * level) ' '

mutual

/-- A value over several lines; `level` is the level of the line that it starts on. -/
def prettyAt (level : Nat) : Json → Text
  | .array (j :: js) =>
    '[' :: newLine (level + 1) ++ prettyElements (level + 1) (j :: js) ++ newLine level ++ [']']
  | .object (m :: ms) =>
    '{' :: newLine (level + 1) ++ prettyMembers (level + 1) (m :: ms) ++ newLine level ++ ['}']
  | j => scalar j

/-- Elements one to a line. -/
def prettyElements (level : Nat) : List Json → Text
  | [] => []
  | [j] => prettyAt level j
  | j :: js => prettyAt level j ++ ',' :: newLine level ++ prettyElements level js

/-- Members one to a line. -/
def prettyMembers (level : Nat) : List (Text × Json) → Text
  | [] => []
  | [(name, j)] => quote name ++ ": ".toList ++ prettyAt level j
  | (name, j) :: ms =>
    quote name ++ ": ".toList ++ prettyAt level j ++ ',' :: newLine level
      ++ prettyMembers level ms

end

/-- A value over several lines. -/
def pretty (j : Json) : Text := prettyAt 0 j

end Json

end BusinessClass
