import BusinessClass.Text.Basic

/-!
# The fixed headers of a class source

A class is written in sections, class-level rule blocks and, inside an action, sub-sections. Each
has a fixed header, which is recognized up to letter case and spacing. The kind of an action is
read off its type.

* `Vocabulary` is a table of fixed headers, `Vocabulary.ofHeader?` and `Vocabulary.ofName?` look a
  text up in it.
* `SectionKind.vocabulary`, `ClassBlockKind.vocabulary` and `ActionSectionKind.vocabulary` are the
  three tables.
-/

namespace BusinessClass

/-- A table of fixed headers. Every kind has an entry, and no two headers are the same up to letter
case and spacing. -/
structure Vocabulary (κ : Type) where
  /-- All kinds in their conventional order. -/
  all : List κ
  /-- The header of a kind. -/
  name : κ → Text
  mem_all : ∀ k, k ∈ all
  apart : all.Pairwise fun k k' => Text.sameWords (name k) (name k') = false

namespace Vocabulary

variable {κ : Type} (v : Vocabulary κ)

/-- The kind that a line opens. -/
def ofHeader? (text : Text) : Option κ := v.all.find? fun k => Text.sameWords text (v.name k)

/-- The kind with exactly this name. -/
def ofName? (name : Text) : Option κ := v.all.find? fun k => v.name k == name

end Vocabulary

/-- The sections of a class. -/
inductive SectionKind
  | persistentFields
  | contextFields
  | transientFields
  | localFields
  | derivedFields
  | conditions
  | relations
  | sets
  | fieldRules
  | ruleBlocks
  | actions
deriving DecidableEq, Repr

namespace SectionKind

/-- All sections in their conventional order. -/
def all : List SectionKind :=
  [.persistentFields, .contextFields, .transientFields, .localFields, .derivedFields, .conditions,
   .relations, .sets, .fieldRules, .ruleBlocks, .actions]

/-- The header of the section. -/
def name : SectionKind → Text
  | .persistentFields => "Persistent Fields".toList
  | .contextFields => "Context Fields".toList
  | .transientFields => "Transient Fields".toList
  | .localFields => "Local Fields".toList
  | .derivedFields => "Derived Fields".toList
  | .conditions => "Conditions".toList
  | .relations => "Relations".toList
  | .sets => "Sets".toList
  | .fieldRules => "Field Rules".toList
  | .ruleBlocks => "Rule Blocks".toList
  | .actions => "Actions".toList

/-- Whether the declarations of the section are fields. -/
def holdsFields : SectionKind → Bool
  | .persistentFields | .contextFields | .transientFields | .localFields | .derivedFields => true
  | _ => false

theorem mem_all (k : SectionKind) : k ∈ all := by cases k <;> decide

/-- The headers of sections. -/
def vocabulary : Vocabulary SectionKind := ⟨all, name, mem_all, by decide +kernel⟩

/-- The section that a line opens. -/
def ofHeader? (text : Text) : Option SectionKind := vocabulary.ofHeader? text

/-- The section with exactly this name. -/
def ofName? (name : Text) : Option SectionKind := vocabulary.ofName? name

end SectionKind

/-- The rule blocks of a class that stand beside its sections. -/
inductive ClassBlockKind
  | createRules
  | createExitRules
  | actionExitRules
  | fieldGroups
deriving DecidableEq, Repr

namespace ClassBlockKind

/-- All class-level blocks. -/
def all : List ClassBlockKind := [.createRules, .createExitRules, .actionExitRules, .fieldGroups]

/-- The header of the block. -/
def name : ClassBlockKind → Text
  | .createRules => "Create Rules".toList
  | .createExitRules => "Create Exit Rules".toList
  | .actionExitRules => "Action Exit Rules".toList
  | .fieldGroups => "Field Groups".toList

theorem mem_all (k : ClassBlockKind) : k ∈ all := by cases k <;> decide

/-- The headers of class-level blocks. -/
def vocabulary : Vocabulary ClassBlockKind := ⟨all, name, mem_all, by decide +kernel⟩

/-- The block that a line opens. -/
def ofHeader? (text : Text) : Option ClassBlockKind := vocabulary.ofHeader? text

/-- The block with exactly this name. -/
def ofName? (name : Text) : Option ClassBlockKind := vocabulary.ofName? name

end ClassBlockKind

/-- The sub-sections of an action. -/
inductive ActionSectionKind
  | parameters
  | queueMappingFields
  | parameterRules
  | localFields
  | instanceSelection
  | sortOrder
  | accumulators
  | actionRules
deriving DecidableEq, Repr

namespace ActionSectionKind

/-- All sub-sections in their conventional order. -/
def all : List ActionSectionKind :=
  [.parameters, .queueMappingFields, .parameterRules, .localFields, .instanceSelection,
   .sortOrder, .accumulators, .actionRules]

/-- The header of the sub-section. -/
def name : ActionSectionKind → Text
  | .parameters => "Parameters".toList
  | .queueMappingFields => "Queue Mapping Fields".toList
  | .parameterRules => "Parameter Rules".toList
  | .localFields => "Local Fields".toList
  | .instanceSelection => "Instance Selection".toList
  | .sortOrder => "Sort Order".toList
  | .accumulators => "Accumulators".toList
  | .actionRules => "Action Rules".toList

theorem mem_all (k : ActionSectionKind) : k ∈ all := by cases k <;> decide

/-- The headers of sub-sections. -/
def vocabulary : Vocabulary ActionSectionKind := ⟨all, name, mem_all, by decide +kernel⟩

/-- The sub-section that a line opens. -/
def ofHeader? (text : Text) : Option ActionSectionKind := vocabulary.ofHeader? text

/-- The sub-section with exactly this name. -/
def ofName? (name : Text) : Option ActionSectionKind := vocabulary.ofName? name

end ActionSectionKind

/-- The kind of an action. -/
inductive ActionKind
  | createAction
  | updateAction
  | deleteAction
  | instanceAction
  | setAction
  | purgeAction
  | importAction
  /-- An action of another type, as written. -/
  | other (typeName : Text)
deriving DecidableEq, Repr

namespace ActionKind

/-- The kinds with a name of their own. -/
def named : List (Text × ActionKind) :=
  [("CreateAction".toList, .createAction), ("UpdateAction".toList, .updateAction),
   ("DeleteAction".toList, .deleteAction), ("InstanceAction".toList, .instanceAction),
   ("SetAction".toList, .setAction), ("PurgeAction".toList, .purgeAction),
   ("ImportAction".toList, .importAction)]

/-- The kind that a type names, letter case and blanks aside. -/
def ofType (typeName : Text) : ActionKind :=
  match named.find? fun k => Text.squeeze typeName == Text.lower k.1 with
  | some (_, kind) => kind
  | none => .other typeName

end ActionKind

/-- Whether a type makes a header the header of a class. -/
def isClassType (typeName : Text) : Bool :=
  Text.squeeze typeName == "businessclass".toList || Text.squeeze typeName == "busclass".toList

end BusinessClass
