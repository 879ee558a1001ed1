import BusinessClass.Json.Numeral

/-!
# Reading JSON

`Json.read?` reads a text that holds one value and blanks around it. It refuses everything that is
no JSON: trailing text, a byte order mark, comments, leading zeros, control characters inside
strings. A literal that is well-formed but denotes nothing that could be kept is read as unusable.

* `Json.string?` reads a string literal.
* `Json.value?` reads a value and gives the rest of the text. Its fuel bounds the number of nested
  calls; twice the length of the text is always enough.
-/

namespace BusinessClass

namespace Json

/-! ### Blanks -/

/-- Whether the character may stand between the tokens of a JSON text. -/
def isGap (c : Char) : Bool := c == ' ' || c == '\n' || c == '\t' || c == '\r'

/-- The text behind the blanks in front. -/
def skipGap (t : Text) : Text := t.dropWhile isGap

/-! ### Strings -/

/-- The value of a hexadecimal digit. -/
def hexValue? (c : Char) : Option Nat :=
  if '0' ≤ c ∧ c ≤ '9' then some (c.toNat - '0'.toNat)
  else if 'a' ≤ c ∧ c ≤ 'f' then some (c.toNat - 'a'.toNat + 10)
  else if 'A' ≤ c ∧ c ≤ 'F' then some (c.toNat - 'A'.toNat + 10)
  else none

/-- The value of four hexadecimal digits. -/
def hexUnit? (a b c d : Char) : Option Nat := do
  let a ← hexValue? a
  let b ← hexValue? b
  let c ← hexValue? c
  let d ← hexValue? d
  return ((a * 16 + b) * 16 + c) * 16 + d

/-- The character that a short escape stands for. -/
def shortEscape? (c : Char) : Option Char :=
  if c = '"' then some '"'
  else if c = '\\' then some '\\'
  else if c = '/' then some '/'
  else if c = 'b' then some '\x08'
  else if c = 'f' then some '\x0c'
  else if c = 'n' then some '\n'
  else if c = 'r' then some '\r'
  else if c = 't' then some '\t'
  else none

/-- Puts a code point in front of what was read. -/
def consUnit (n : Nat) (r : List Nat × Text) : List Nat × Text := (n :: r.1, r.2)

/-- The code points of a string literal behind its opening quote, and the rest. An escape may give
half a surrogate pair. -/
def units? : Text → Option (List Nat × Text)
  | [] => none
  | '"' :: cs => some ([], cs)
  | '\\' :: 'u' :: a :: b :: c :: d :: cs =>
    match hexUnit? a b c d with
    | some n => (units? cs).map (consUnit n)
    | none => none
  | '\\' :: e :: cs =>
    match shortEscape? e with
    | some c => (units? cs).map (consUnit c.toNat)
    | none => none
  | c :: cs =>
    if c.toNat < 0x20 ∨ c = '\\' then none else (units? cs).map (consUnit c.toNat)

/-- Whether the code point is the first half of a surrogate pair. -/
def isHighHalf (n : Nat) : Bool := 0xD800 ≤ n && n < 0xDC00

/-- Whether the code point is the second half of a surrogate pair. -/
def isLowHalf (n : Nat) : Bool := 0xDC00 ≤ n && n < 0xE000

/-- The text of some code points, if each half of a surrogate pair has its other half. -/
def ofUnits? : List Nat → Option Text
  | [] => some []
  | [n] => if isHighHalf n || isLowHalf n then none else some [Char.ofNat n]
  | n :: m :: rest =>
    if isHighHalf n then
      if isLowHalf m then
        (ofUnits? rest).map (Char.ofNat (0x10000 + (n - 0xD800) * 0x400 + (m - 0xDC00)) :: ·)
      else none
    else if isLowHalf n then none
    else (ofUnits? (m :: rest)).map (Char.ofNat n :: ·)

/-- The part of a text in front of its end. -/
def literal (t rest : Text) : Text := t.take (t.length - rest.length)

/-- A string literal behind its opening quote: its text, if it denotes one, and the rest. -/
def string? (t : Text) : Option (Option Text × Text) :=
  (units? t).map fun r => (ofUnits? r.1, r.2)

/-! ### Values -/

/-- The names of members, if all of them denote a text. -/
def named? : List (Option Text × Json) → Option (List (Text × Json))
  | [] => some []
  | (none, _) :: _ => none
  | (some name, j) :: ms => (named? ms).map ((name, j) :: ·)

mutual

/-- Reads a value and gives the rest of the text. -/
def value? : Nat → Text → Option (Json × Text)
  | 0, _ => none
  | fuel + 1, t =>
    match skipGap t with
    | 'n' :: 'u' :: 'l' :: 'l' :: cs => some (.null, cs)
    | 't' :: 'r' :: 'u' :: 'e' :: cs => some (.bool true, cs)
    | 'f' :: 'a' :: 'l' :: 's' :: 'e' :: cs => some (.bool false, cs)
    | '"' :: cs =>
      match string? cs with
      | some (some s, rest) => some (.string s, rest)
      | some (none, rest) => some (.unusable ('"' :: literal cs rest), rest)
      | none => none
    | '[' :: cs =>
      match skipGap cs with
      | ']' :: rest => some (.array [], rest)
      | _ => (elements? fuel cs).map fun r => (.array r.1, r.2)
    | '{' :: cs =>
      match skipGap cs with
      | '}' :: rest => some (.object [], rest)
      | _ =>
        match members? fuel cs with
        | some (ms, rest) =>
          match named? ms with
          | some named => some (.object named, rest)
          | none => some (.unusable ('{' :: literal cs rest), rest)
        | none => none
    | cs => (Numeral.read? cs).map fun r => (r.1.toJson (literal cs r.2), r.2)

/-- Reads elements up to the bracket that closes their array. -/
def elements? : Nat → Text → Option (List Json × Text)
  | 0, _ => none
  | fuel + 1, t =>
    match value? fuel t with
    | some (j, rest) =>
      match skipGap rest with
      | ',' :: rest => (elements? fuel rest).map fun r => (j :: r.1, r.2)
      | ']' :: rest => some ([j], rest)
      | _ => none
    | none => none

/-- Reads members up to the brace that closes their object. -/
def members? : Nat → Text → Option (List (Option Text × Json) × Text)
  | 0, _ => none
  | fuel + 1, t =>
    match skipGap t with
    | '"' :: cs =>
      match string? cs with
      | some (name, rest) =>
        match skipGap rest with
        | ':' :: rest =>
          match value? fuel rest with
          | some (j, rest) =>
            match skipGap rest with
            | ',' :: rest => (members? fuel rest).map fun r => ((name, j) :: r.1, r.2)
            | '}' :: rest => some ([(name, j)], rest)
            | _ => none
          | none => none
        | _ => none
      | none => none
    | _ => none

end

/-- Reads a text that holds one value. -/
def read? (t : Text) : Option Json :=
  match value? (2 * t.length + 1) t with
  | some (j, rest) => if (skipGap rest).isEmpty then some j else none
  | none => none

end Json

end BusinessClass
