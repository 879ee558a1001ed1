import BusinessClass.Text.Name

/-!
# Set Rules groups

The rules of an action are plain text and groups. A group has a key, the rules to run when a new
value of the key is entered and left, rules of its own, and nested groups.

* `GroupKey.ofHeader?` reads a header such as `Company.Ledger Set Rules`; `GroupKey.header` writes
  it.
* `SetRuleGroup.depth` counts levels of nesting, `SetRuleGroup.find?` looks a group up by name.
-/

namespace BusinessClass

/-- What a group is grouped by. -/
inductive GroupKey
  /-- The group that runs when nothing is selected. -/
  | empty
  /-- The group without a key. -/
  | general
  /-- The path of a grouping field. -/
  | path (segments : List Text)
deriving DecidableEq, Repr

namespace GroupKey

/-- A path with its dots. -/
def dotted (segments : List Text) : Text := ['.'].intercalate segments

/-- The name of the key. -/
def name : GroupKey → Text
  | .empty => "Empty".toList
  | .general => "General".toList
  | .path segments => dotted segments

/-- The header line of a group with this key. -/
def header : GroupKey → Text
  | .empty => "Empty Set Rules".toList
  | .general => "Set Rules".toList
  | .path segments => dotted segments ++ " Set Rules".toList

/-- The key that stands in front of `Set Rules`. -/
def ofWords? : List Text → Option GroupKey
  | [] => some .general
  | [word] =>
    if Text.sameLetters word "empty".toList then some .empty
    else if word.segments.all Text.isPlainName then some (.path word.segments)
    else none
  | _ => none

/-- The key of the group that a line opens. -/
def ofHeader? (text : Text) : Option GroupKey :=
  match text.words.reverse with
  | rules :: set :: front =>
    if Text.sameLetters set "set".toList && Text.sameLetters rules "rules".toList then
      ofWords? front.reverse
    else none
  | _ => none

end GroupKey

/-- A group of rules that run together for each value of a key. -/
structure SetRuleGroup where
  /-- What the group is grouped by. -/
  key : GroupKey
  /-- Number of the header line. -/
  line : Nat
  /-- The rules under `Entrance Rules`, if there is such a header. -/
  entrance : Option Text
  /-- The rules under `Exit Rules`, if there is such a header. -/
  exit : Option Text
  /-- The other rules of the group, if there are any. -/
  rules : Option Text
  /-- The nested groups. -/
  children : List SetRuleGroup
deriving Repr

namespace SetRuleGroup

/-- The name of the group's key. -/
def name (g : SetRuleGroup) : Text := g.key.name

mutual

/-- Levels of nesting, the group itself included. -/
def depth : SetRuleGroup → Nat
  | ⟨_, _, _, _, _, children⟩ => 1 + depths children

/-- The deepest nesting among some groups, zero if there are none. -/
def depths : List SetRuleGroup → Nat
  | [] => 0
  | g :: gs => max g.depth (depths gs)

end

mutual

/-- The first group of that name: the group itself, then the nested ones from the first on. -/
def find? (wanted : Text) : SetRuleGroup → Option SetRuleGroup
  | ⟨key, line, entrance, exit, rules, children⟩ =>
    if key.name = wanted then some ⟨key, line, entrance, exit, rules, children⟩
    else findAmong? wanted children

/-- The first group of that name among some groups and those nested in them. -/
def findAmong? (wanted : Text) : List SetRuleGroup → Option SetRuleGroup
  | [] => none
  | g :: gs =>
    match g.find? wanted with
    | some found => some found
    | none => findAmong? wanted gs

end

end SetRuleGroup

/-- An item of the rules of an action. -/
inductive RuleItem
  /-- A run of plain rule lines. -/
  | text (lines : Text)
  /-- A group. -/
  | group (g : SetRuleGroup)
deriving Repr

/-- The rules of an action in source order. -/
structure ActionRules where
  /-- Text runs and groups. -/
  items : List RuleItem
deriving Repr

namespace ActionRules

/-- The groups that are nested in no other group. -/
def groups (rules : ActionRules) : List SetRuleGroup :=
  rules.items.filterMap fun
    | .group g => some g
    | .text _ => none

/-- The plain rule lines outside all groups. -/
def text (rules : ActionRules) : Text :=
  Text.stack (rules.items.filterMap fun
    | .text lines => some lines
    | .group _ => none)

end ActionRules

end BusinessClass
