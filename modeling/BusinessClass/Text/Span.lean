import BusinessClass.Text.Basic

/-!
# Spans

A span is a range of UTF-8 byte offsets into a text. `Text.slice?` reads the characters that a span
covers and refuses one that leaves the text or cuts a character in two.
-/

namespace BusinessClass

/-- The byte offsets from `start` up to and excluding `stop`. -/
structure Span where
  /-- Offset of the first byte. -/
  start : Nat
  /-- Offset behind the last byte. -/
  stop : Nat
deriving DecidableEq, Repr, Inhabited

namespace Text

/-- The text behind the first `n` bytes, if a character ends there. -/
def dropBytes? : Nat → Text → Option Text
  | 0, t => some t
  | _ + 1, [] => none
  | n + 1, c :: cs => if c.utf8Size ≤ n + 1 then dropBytes? (n + 1 - c.utf8Size) cs else none

/-- The first `n` bytes of a text, if a character ends there. -/
def takeBytes? : Nat → Text → Option Text
  | 0, _ => some []
  | _ + 1, [] => none
  | n + 1, c :: cs =>
    if c.utf8Size ≤ n + 1 then (takeBytes? (n + 1 - c.utf8Size) cs).map (c :: ·) else none

/-- The characters that a span covers. -/
def slice? (t : Text) (s : Span) : Option Text :=
  if s.start ≤ s.stop then (dropBytes? s.start t).bind (takeBytes? (s.stop - s.start)) else none

end Text

end BusinessClass
