import BusinessClass.Text.Basic

/-!
# JSON values

The values of JSON texts. Numbers are naturals below `2^64`, which are the only ones that the model
knows, or other literals kept as written. Some literals are well-formed and still denote nothing
that could be kept: a string with half a surrogate pair, an object with such a member name, a
number beyond the range of double precision. They may stand where a value is ignored.

`Json.isUsable` says that a value holds no such literal and is not nested deeper than a budget.
-/

namespace BusinessClass

/-- A JSON value. -/
inductive Json
  | null
  | bool (b : Bool)
  /-- A natural number below `Json.naturalBound`. -/
  | natural (n : Nat)
  /-- Any other number, as written. -/
  | number (literal : Text)
  | string (text : Text)
  | array (elements : List Json)
  /-- Members in the order written, repeated names included. -/
  | object (members : List (Text × Json))
  /-- A literal that denotes nothing that could be kept. -/
  | unusable (literal : Text)
deriving Repr

namespace Json

/-- Naturals below this bound are kept as numbers. -/
def naturalBound : Nat := 0x10000000000000000

/-- How many containers may be nested in each other. -/
def nestingLimit : Nat := 127

mutual

/-- Whether the value can be kept as a whole: no literal in it is unusable, and no more than
`budget` containers are nested in each other. -/
def isUsable : Nat → Json → Bool
  | _, .null | _, .bool _ | _, .natural _ | _, .number _ | _, .string _ => true
  | _, .unusable _ => false
  | 0, .array _ | 0, .object _ => false
  | budget + 1, .array elements => areUsable budget elements
  | budget + 1, .object members => membersUsable budget members

/-- Whether all elements can be kept. -/
def areUsable : Nat → List Json → Bool
  | _, [] => true
  | budget, j :: js => isUsable budget j && areUsable budget js

/-- Whether all members can be kept. -/
def membersUsable : Nat → List (Text × Json) → Bool
  | _, [] => true
  | budget, (_, j) :: ms => isUsable budget j && membersUsable budget ms

end

mutual

/-- How many containers are nested in each other. -/
def nesting : Json → Nat
  | .array elements => 1 + nestings elements
  | .object members => 1 + memberNestings members
  | _ => 0

/-- The deepest nesting among some elements. -/
def nestings : List Json → Nat
  | [] => 0
  | j :: js => max (nesting j) (nestings js)

/-- The deepest nesting among some members. -/
def memberNestings : List (Text × Json) → Nat
  | [] => 0
  | (_, j) :: ms => max (nesting j) (memberNestings ms)

end

/-- The object with the given members; names are written as string literals. -/
def ofMembers (members : List (String × Json)) : Json :=
  .object (members.map fun m => (m.1.toList, m.2))

/-- A string or null. -/
def ofText? : Option Text → Json
  | none => .null
  | some t => .string t

/-- An array of strings. -/
def ofTexts (ts : List Text) : Json := .array (ts.map .string)

end Json

end BusinessClass
