import BusinessClass.Diagnostic.Noted
import BusinessClass.Options.Basic
import BusinessClass.SetRules.Group

/-!
# Reading Set Rules groups

The lines under `Action Rules` are text and groups. Under the header of a group stand entrance and
exit rules, nested groups and rules of the group itself. A group that is nested deeper than the
options allow is kept as text where it stands.

* `GroupPart` says what a line directly under a group is.
* `SetRuleGroup.ofParts` puts the parts of a group together.
* `SetRuleGroup.read` reads a group, `ActionRules.read` all rules of an action.
-/

namespace BusinessClass

/-- What stands directly under the header of a group. -/
inductive GroupPart
  /-- The lines under an `Entrance Rules` header. -/
  | entrance (text : Text)
  /-- The lines under an `Exit Rules` header. -/
  | exit (text : Text)
  /-- A nested group. -/
  | nested (g : SetRuleGroup)
  /-- A rule of the group itself. -/
  | rule (n : Node)

namespace GroupPart

/-- The lines of an entrance part. -/
def entrance? : GroupPart → Option Text
  | .entrance t => some t
  | _ => none

/-- The lines of an exit part. -/
def exit? : GroupPart → Option Text
  | .exit t => some t
  | _ => none

/-- The group of a nested part. -/
def nested? : GroupPart → Option SetRuleGroup
  | .nested g => some g
  | _ => none

/-- The node of a rule part. -/
def rule? : GroupPart → Option Node
  | .rule n => some n
  | _ => none

end GroupPart

namespace Text

/-- Blocks of lines one below the other, empty blocks left out. -/
def merge (blocks : List Text) : Text := stack (blocks.filter fun b => !b.isEmpty)

/-- Blocks of lines one below the other, if there are any blocks. -/
def merge? : List Text → Option Text
  | [] => none
  | blocks => some (merge blocks)

end Text

namespace Forest

/-- The lines of a forest relative to a depth, if it has any. -/
def text? (forest : List Node) (base : Nat) : Option Text :=
  if forest.isEmpty then none else some (text forest base)

end Forest

namespace SetRuleGroup

/-- The header of entrance rules. -/
def entranceHeader : Text := "Entrance Rules".toList

/-- The header of exit rules. -/
def exitHeader : Text := "Exit Rules".toList

/-- Puts the parts of a group together; `depth` is the depth of its header line. Repeated entrance
rules are joined, and so are repeated exit rules. -/
def ofParts (key : GroupKey) (line depth : Nat) (parts : List GroupPart) : SetRuleGroup where
  key := key
  line := line
  entrance := Text.merge? (parts.filterMap GroupPart.entrance?)
  exit := Text.merge? (parts.filterMap GroupPart.exit?)
  rules := Forest.text? (parts.filterMap GroupPart.rule?) (depth + 1)
  children := parts.filterMap GroupPart.nested?

/-- The problem of a group that is nested too deep. -/
def tooDeep (o : Options) (key : GroupKey) (n : Node) : Diagnostic :=
  n.note (.depthLimitExceeded key.name (o.maxDepth.getD 0))

/-- The problem of a group with nothing under its header. -/
def unterminated (key : GroupKey) (n : Node) : List Diagnostic :=
  if n.isLeaf then [n.note (.unterminatedSetRuleGroup key.name)] else []

mutual

/-- Reads a group at the given level of nesting. -/
def read (o : Options) (level : Nat) (key : GroupKey) : Node → Noted SetRuleGroup
  | ⟨text, depth, line, span, children⟩ =>
    let parts := readParts o level children
    ⟨ofParts key line depth parts.value,
      unterminated key ⟨text, depth, line, span, children⟩ ++ parts.notes⟩

/-- Reads what stands directly under the header of a group at the given level of nesting. -/
def readParts (o : Options) (level : Nat) : List Node → Noted (List GroupPart)
  | [] => ⟨[], []⟩
  | n :: ns =>
    let rest := readParts o level ns
    if n.headerIs entranceHeader then ⟨.entrance n.bodyText :: rest.value, rest.notes⟩
    else if n.headerIs exitHeader then ⟨.exit n.bodyText :: rest.value, rest.notes⟩
    else match GroupKey.ofHeader? n.text with
      | none => ⟨.rule n :: rest.value, rest.notes⟩
      | some key =>
        if o.admitsLevel (level + 1) then
          let g := read o (level + 1) key n
          ⟨.nested g.value :: rest.value, g.notes ++ rest.notes⟩
        else ⟨.rule n :: rest.value, tooDeep o key n :: rest.notes⟩

end

end SetRuleGroup

namespace ActionRules

/-- Puts a plain line in front of rules: runs of plain lines are kept together until they are
written as text. -/
def consLine (n : Node) : List (List Node ⊕ SetRuleGroup) → List (List Node ⊕ SetRuleGroup)
  | .inl run :: rest => .inl (n :: run) :: rest
  | rest => .inl [n] :: rest

/-- Parts the lines under `Action Rules` into runs of plain lines and groups. -/
def readRuns (o : Options) : List Node → Noted (List (List Node ⊕ SetRuleGroup))
  | [] => ⟨[], []⟩
  | n :: ns =>
    let rest := readRuns o ns
    match GroupKey.ofHeader? n.text with
    | none => ⟨consLine n rest.value, rest.notes⟩
    | some key =>
      if o.admitsLevel 1 then
        let g := SetRuleGroup.read o 1 key n
        ⟨.inr g.value :: rest.value, g.notes ++ rest.notes⟩
      -- as a plain line it joins the text around it
      else ⟨consLine n rest.value, SetRuleGroup.tooDeep o key n :: rest.notes⟩

/-- A run of plain lines as text, a group as it is. -/
def item (base : Nat) : List Node ⊕ SetRuleGroup → RuleItem
  | .inl run => .text (Forest.text run base)
  | .inr g => .group g

/-- Reads the lines under `Action Rules`; text is written relative to the depth `base`. -/
def read (o : Options) (base : Nat) (forest : List Node) : Noted ActionRules :=
  let runs := readRuns o forest
  ⟨⟨runs.value.map (item base)⟩, runs.notes⟩

end ActionRules

end BusinessClass
