import BusinessClass.Json.Reader

/-!
# Decoding JSON values

A decoder gets the number of containers that may still be nested in each other and a value, and
gives what the value stands for. A record is an object whose members are the fields, or an array of
all fields in order; members with other names are ignored. A choice is a string, or an object whose
one member has the name of the choice.

A tagged value is held back until its tag is known. What is held back has to be usable as a whole,
and its parts are read a little more freely: `Reach` tells the two ways apart.
-/

namespace BusinessClass

/-- How a value comes to its decoder. -/
inductive Reach
  /-- Straight from the text. -/
  | direct
  /-- Inside a value that was held back until its tag was known. -/
  | held
deriving DecidableEq, Repr

namespace Json

variable {α : Type}

/-! ### Simple values -/

/-- A string. -/
def text? : Json → Option Text
  | .string t => some t
  | _ => none

/-- A natural number. -/
def natural? : Json → Option Nat
  | .natural n => some n
  | _ => none

/-- A truth value. -/
def bool? : Json → Option Bool
  | .bool b => some b
  | _ => none

/-- Null, or a value that the decoder accepts. -/
def orNull? (decode : Json → Option α) : Json → Option (Option α)
  | .null => some none
  | j => (decode j).map some

/-! ### Containers -/

/-- The elements of an array, if one may be entered. -/
def elements (budget : Nat) : Json → Option (List Json)
  | .array js => if budget = 0 then none else some js
  | _ => none

/-- The members of an object, if one may be entered. -/
def members (budget : Nat) : Json → Option (List (Text × Json))
  | .object ms => if budget = 0 then none else some ms
  | _ => none

/-- An array of values that the decoder accepts. -/
def list? (budget : Nat) (decode : Json → Option α) (j : Json) : Option (List α) :=
  (j.elements budget).bind (·.mapM decode)

/-- An array of strings. -/
def texts? (budget : Nat) (j : Json) : Option (List Text) := list? budget text? j

/-! ### Records -/

/-- The value of a field among some members: at most one member may have its name. -/
def field? (ms : List (Text × Json)) (name : String) : Option (Option Json) :=
  match ms.filter fun m => m.1 == name.toList with
  | [] => some none
  | [(_, j)] => some (some j)
  | _ => none

/-- The values of the fields of a record, in the order of their names; a field that is not there has
none. -/
def fields? (budget : Nat) (names : List String) : Json → Option (List (Option Json))
  | .object ms => if budget = 0 then none else names.mapM (field? ms)
  | .array js => if budget = 0 ∨ js.length ≠ names.length then none else some (js.map some)
  | _ => none

/-- The values of the fields of a record in which every field may be left out; an array may stop
early. -/
def openFields? (budget : Nat) (names : List String) : Json → Option (List (Option Json))
  | .array js =>
    if budget = 0 ∨ names.length < js.length then none
    else some (js.map some ++ List.replicate (names.length - js.length) none)
  | j => fields? budget names j

/-- A field that has to be there. -/
def required? (decode : Json → Option α) : Option Json → Option α
  | none => none
  | some j => decode j

/-- A field that may be null or left out. -/
def optional? (decode : Json → Option α) : Option Json → Option (Option α)
  | none => some none
  | some j => orNull? decode j

/-- A field that has a default. -/
def default? (default : α) (decode : Json → Option α) : Option Json → Option α
  | none => some default
  | some j => decode j

/-! ### Choices -/

/-- Whether the value says nothing more about a choice. -/
def isUnit : Reach → Json → Bool
  | _, .null => true
  | .held, .object [] => true
  | _, _ => false

/-- The name of a choice that has no content. -/
def choice? (reach : Reach) (budget : Nat) : Json → Option Text
  | .string name => some name
  | .object [(name, j)] => if budget ≠ 0 ∧ isUnit reach j then some name else none
  | _ => none

/-- The tag of a value that carries it as a member or as its first element, and the value without
it. -/
def tagged? (tag : String) : Json → Option (Json × Json)
  | .object ms =>
    match field? ms tag with
    | some (some j) => some (j, .object (ms.filter fun m => m.1 != tag.toList))
    | _ => none
  | .array (j :: js) => some (j, .array js)
  | _ => none

/-- The name that a tag spells; a tag that was held back may give its position instead. -/
def tagName? (reach : Reach) (names : List String) : Json → Option Text
  | .string name => some name
  | .natural n => if reach = .held then (names[n]?).map String.toList else none
  | _ => none

end Json

end BusinessClass
