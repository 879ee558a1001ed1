import BusinessClass.Text.Alphanumeric
import BusinessClass.Text.Basic

/-!
# Filters of `where` clauses

The filter of a clause `where (…)` is the text between the first parenthesis after the keyword and
the one that closes it. The keyword may not touch a letter or number.
-/

namespace BusinessClass

namespace WhereClause

/-- The keyword that introduces a filter. -/
def keyword : Text := "where".toList

/-- Whether an optional neighbour is a letter or number. -/
def touches (neighbour : Option Char) : Bool := neighbour.any isAlphanumeric

/-- The text behind the first keyword that stands alone; `before` is the character in front. -/
def afterKeyword (before : Option Char) : Text → Option Text
  | [] => none
  | c :: cs =>
    let rest := (c :: cs).drop keyword.length
    if keyword.isPrefixOf (c :: cs) && !touches before && !touches rest.head? then some rest
    else afterKeyword (some c) cs

/-- The text up to the parenthesis that closes the innermost of `depth + 1` open ones, the outermost
included. -/
def untilClosed (depth : Nat) : Text → Option Text
  | [] => none
  | c :: cs =>
    if c = '(' then (untilClosed (depth + 1) cs).map (c :: ·)
    else if c = ')' then
      match depth with
      | 0 => some []
      | depth + 1 => (untilClosed depth cs).map (c :: ·)
    else (untilClosed depth cs).map (c :: ·)

/-- The text between the first parenthesis and the one that closes it. -/
def parenthesized (t : Text) : Option Text :=
  match t.dropWhile (· != '(') with
  | [] => none
  | _ :: inside => untilClosed 0 inside

/-- The filter of the clause that a text holds, single spaces between its words. -/
def filter? (t : Text) : Option Text :=
  ((afterKeyword none (Text.unwords t.words)).bind parenthesized).map Text.trim

end WhereClause

end BusinessClass
