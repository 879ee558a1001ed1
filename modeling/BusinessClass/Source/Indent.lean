import BusinessClass.Text.Quoted

/-!
# Indentation

The blanks in front of a line stand for a depth. They are tabs followed by spaces: without tabs the
spaces are rounded up to whole levels, after tabs they must be whole levels. `Indent.measure` gives
the depth or the first reason why there is none.
-/

namespace BusinessClass

/-- Why leading blanks stand for no depth. -/
inductive IndentError
  /-- A tab follows a space. -/
  | spaceBeforeTab
  /-- The spaces after the tabs end inside a level. -/
  | partialLevel (spaces : Nat)
  /-- A blank that is neither tab nor space. -/
  | foreignBlank (c : Char)
deriving DecidableEq, Repr

namespace IndentError

/-- The reason in words. -/
def message : IndentError → Text
  | .spaceBeforeTab => "space before tab in leading whitespace".toList
  | .partialLevel spaces =>
    Text.ofNat spaces ++ " space(s) after tabs is not a whole indentation level".toList
  | .foreignBlank c =>
    "unexpected whitespace character ".toList ++ Text.quoteChar c ++ " in indentation".toList

end IndentError

namespace Indent

/-- Counts tabs and the spaces after them, and stops at the first character out of place. -/
def count (tabs spaces : Nat) : Text → Except IndentError (Nat × Nat)
  | [] => .ok (tabs, spaces)
  | c :: cs =>
    if c = '\t' then
      if spaces = 0 then count (tabs + 1) spaces cs else .error .spaceBeforeTab
    else if c = ' ' then count tabs (spaces + 1) cs
    else .error (.foreignBlank c)

/-- The depth of so many tabs followed by so many spaces, `width` spaces making a level. -/
def depth (width tabs spaces : Nat) : Except IndentError Nat :=
  if tabs = 0 then .ok ((spaces + width - 1) / width)
  else if spaces % width = 0 then .ok (tabs + spaces / width)
  else .error (.partialLevel spaces)

/-- The depth that leading blanks stand for; a width of zero counts as one. -/
def measure (leading : Text) (width : Nat) : Except IndentError Nat :=
  match count 0 0 leading with
  | .ok (tabs, spaces) => depth (max width 1) tabs spaces
  | .error e => .error e

end Indent

end BusinessClass
