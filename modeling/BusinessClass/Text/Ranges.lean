/-!
# Character classes given by ranges of code points

A class of characters is an ascending list of closed ranges of code points. `Ranges.contains`
walks the list and stops at the first range that starts above the code point, so a character near
the front of a table is decided without reading the rest of it.
-/

namespace BusinessClass

/-- A set of code points: closed ranges `(first, last)` in ascending order. -/
abbrev Ranges := List (Nat × Nat)

namespace Ranges

/-- Whether the code point lies in one of the ranges. -/
def contains : Ranges → Nat → Bool
  | [], _ => false
  | (lo, hi) :: rest, n => if n < lo then false else if n ≤ hi then true else contains rest n

@[simp] theorem contains_nil (n : Nat) : contains [] n = false := rfl

theorem contains_cons (lo hi n : Nat) (rest : Ranges) :
    contains ((lo, hi) :: rest) n =
      if n < lo then false else if n ≤ hi then true else contains rest n := rfl

end Ranges

end BusinessClass
