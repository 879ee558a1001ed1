import BusinessClass.Document.Declaration
import BusinessClass.Document.WhereClause

/-!
# What the body of a relation says

The lines of a relation are read in order, and each line serves at most one purpose: it names the
related class, gives the field mapping, maps a related field, or filters instances.
-/

namespace BusinessClass

namespace RelationView

/-- The words before and after the first `relation to` of a line. -/
def aroundRelationTo (before : Option Text) : List Text → Option (Option Text × Option Text)
  | a :: b :: rest =>
    if a = "relation".toList ∧ b = "to".toList then some (before, rest.head?)
    else aroundRelationTo (some a) (b :: rest)
  | _ => none

/-- What a `Field Mapping` line uses: the words after its first `uses`, or `default`. -/
def mappingUsed (words : List Text) : Text :=
  match (words.dropWhile (· != "uses".toList)).tail with
  | [] => "default".toList
  | used => Text.unwords used

/-- The lines of a node and of everything under it, joined by spaces. -/
def clause (n : Node) : Text := Text.unwords (n.preorder.map Node.text)

/-- Whether the line maps a related field. -/
def isMapping (n : Node) : Bool := "related.".toList.isPrefixOf n.text

/-- Reads a line that is not taken as a relation line. -/
def addLine (v : RelationView) (n : Node) : RelationView :=
  if v.fieldMapping.isNone && Text.startsWithWords "Field Mapping".toList n.text then
    { v with fieldMapping := some (mappingUsed n.text.words) }
  else if isMapping n then { v with mappings := v.mappings ++ [n.text] }
  else if v.instanceSelection.isNone && n.text.words.head? == some WhereClause.keyword then
    { v with instanceSelection := WhereClause.filter? (clause n) }
  else v

/-- Reads one line of a relation. Until a related class is known, a line with `relation to` is taken
for it. -/
def add (v : RelationView) (n : Node) : RelationView :=
  match v.target, aroundRelationTo none n.text.words with
  | none, some (before, after) => { v with cardinality := before, target := after }
  | _, _ => v.addLine n

/-- What the body of a relation says. -/
def ofBody (body : List Node) : RelationView := (Forest.nodes body).foldl add {}

end RelationView

end BusinessClass
