import BusinessClass.Json.Basic

/-!
# Number literals

A number literal has a whole part, decimal places and an exponent. A literal that spells a natural
number below `2^64` is kept as that number. Any other one stands for a number of double precision,
and it is unusable if its magnitude has none.

* `Numeral.read?` reads a literal and gives the rest of the text.
* `Numeral.isFinite` says whether the literal has a magnitude. The magnitude is found in two
  roundings: the leading digits and the power of ten are each rounded to double precision, and so is
  their product. Digits beyond the ones that fit into 64 bits are not looked at.
-/

namespace BusinessClass

namespace Json

/-- A number literal, taken apart. -/
structure Numeral where
  /-- Whether a sign stands in front. -/
  isNegative : Bool
  /-- The digits before the point. -/
  whole : Text
  /-- The digits after the point, if there is one. -/
  places : Option Text
  /-- The exponent, if there is one. -/
  exponent : Option Int
deriving Repr

namespace Numeral

/-! ### Reading -/

/-- At least one digit, and the rest. -/
def digits? (t : Text) : Option (Text × Text) :=
  match t.takeWhile Char.isDigit with
  | [] => none
  | ds => some (ds, t.dropWhile Char.isDigit)

/-- The digits before the point: a zero, or digits that do not start with one. -/
def whole? : Text → Option (Text × Text)
  | '0' :: cs => some (['0'], cs)
  | cs => digits? cs

/-- The digits after a point, if a point stands in front. -/
def places? : Text → Option (Option Text × Text)
  | '.' :: cs => (digits? cs).map fun r => (some r.1, r.2)
  | cs => some (none, cs)

/-- The value of an exponent behind its mark. -/
def signedDigits? : Text → Option (Int × Text)
  | '-' :: cs => (digits? cs).map fun r => (-(Text.digitsValue r.1 : Int), r.2)
  | '+' :: cs => (digits? cs).map fun r => ((Text.digitsValue r.1 : Int), r.2)
  | cs => (digits? cs).map fun r => ((Text.digitsValue r.1 : Int), r.2)

/-- The exponent, if its mark stands in front. -/
def exponent? : Text → Option (Option Int × Text)
  | 'e' :: cs => (signedDigits? cs).map fun r => (some r.1, r.2)
  | 'E' :: cs => (signedDigits? cs).map fun r => (some r.1, r.2)
  | cs => some (none, cs)

/-- The sign in front of a number. -/
def sign : Text → Bool × Text
  | '-' :: cs => (true, cs)
  | cs => (false, cs)

/-- A number literal and the rest. -/
def read? (t : Text) : Option (Numeral × Text) := do
  let (isNegative, t) := sign t
  let (whole, t) ← whole? t
  let (places, t) ← places? t
  let (exponent, t) ← exponent? t
  return (⟨isNegative, whole, places, exponent⟩, t)

/-! ### Double precision -/

/-- A natural number rounded to 53 binary digits; a tie goes to the even neighbour. -/
def nearest (n : Nat) : Nat :=
  let unit := Nat.pow 2 (n.log2 - 52)
  let below := n / unit
  let rest := n % unit
  if unit < 2 * rest ∨ (unit = 2 * rest ∧ below % 2 = 1) then (below + 1) * unit else below * unit

/-- The least magnitude that rounds beyond all numbers of double precision. -/
def overflow : Nat := Nat.pow 2 1024 - Nat.pow 2 970

/-- The greatest power of ten of double precision. -/
def powerLimit : Int := 308

/-- Reads digits behind those that gave the number `n`, as long as the number fits into 64 bits;
also counts the digits that are left. -/
def lead (n : Nat) : Text → Nat × Nat
  | [] => (n, 0)
  | d :: ds =>
    let m := n * 10 + Text.digitsValue [d]
    if m < naturalBound then lead m ds else (n, ds.length + 1)

/-- The leading digits of a literal as one number, and the power of ten that belongs to it. -/
def scaled (n : Numeral) : Nat × Int :=
  let places := n.places.getD []
  let whole := lead 0 n.whole
  let all := lead whole.1 places
  (all.1, whole.2 - (places.length - all.2 : Nat) + n.exponent.getD 0)

/-- Whether the literal has a magnitude of double precision. -/
def isFinite (n : Numeral) : Bool :=
  let (digits, power) := n.scaled
  if digits = 0 ∨ power ≤ 0 then true
  else if powerLimit < power then false
  else nearest digits * nearest (Nat.pow 10 power.toNat) < overflow

/-! ### Values -/

/-- The natural number that a numeral without sign, point and exponent spells. -/
def natural? (n : Numeral) : Option Nat :=
  if n.isNegative || n.places.isSome || n.exponent.isSome then none
  else some (Text.digitsValue n.whole)

/-- The value of a numeral that was written as the given literal. -/
def toJson (n : Numeral) (literal : Text) : Json :=
  match n.natural? with
  | some k => if k < naturalBound then .natural k else other
  | none => other
where
  /-- A number that is not kept as a natural. -/
  other : Json := if n.isFinite then .number literal else .unusable literal

end Numeral

end Json

end BusinessClass
