import BusinessClass.Proofs.Outline.Relocation
import BusinessClass.SetRules.Reading

/-!
# Moving rules

Rules of an action depend on the numbers of their lines alone, and reading them commutes with moving
the outline that they are read from.

* `SetRuleGroup.relocate`, `RuleItem.relocate`, `ActionRules.relocate` move what was read.
* `SetRuleGroup.value_read_relocate` and `ActionRules.value_read_relocate`: reading what was moved is
  moving what was read, if all depths grow by the same number of levels.
-/

namespace BusinessClass

namespace SetRuleGroup

/-- The part of a group that a line directly under its header is. -/
def part (o : Options) (level : Nat) (n : Node) : GroupPart :=
  if n.headerIs entranceHeader then .entrance n.bodyText
  else if n.headerIs exitHeader then .exit n.bodyText
  else match GroupKey.ofHeader? n.text with
    | none => .rule n
    | some key =>
      if o.admitsLevel (level + 1) then .nested (read o (level + 1) key n).value else .rule n

/-- Each line directly under the header of a group is one part of it. -/
theorem value_readParts (o : Options) (level : Nat) (f : List Node) :
    (readParts o level f).value = f.map (part o level) := by
  induction f with
  | nil => rfl
  | cons n ns ih =>
    rw [readParts, List.map_cons, ← ih, part]
    split
    · rfl
    · split
      · rfl
      · cases GroupKey.ofHeader? n.text with
        | none => rfl
        | some key =>
          simp only
          split <;> rfl

/-- A group is made of the lines directly under its header. -/
theorem value_read (o : Options) (level : Nat) (key : GroupKey) (n : Node) :
    (read o level key n).value = ofParts key n.line n.depth (n.children.map (part o level)) := by
  obtain ⟨text, depth, line, span, children⟩ := n
  rw [read, value_readParts]

end SetRuleGroup

namespace ActionRules

/-- Puts one line under `Action Rules`, a group header or not, in front of what is read already. -/
def addRun (o : Options) (n : Node) (rest : List (List Node ⊕ SetRuleGroup)) :
    List (List Node ⊕ SetRuleGroup) :=
  match GroupKey.ofHeader? n.text with
  | none => consLine n rest
  | some key =>
    if o.admitsLevel 1 then .inr (SetRuleGroup.read o 1 key n).value :: rest else consLine n rest

theorem value_readRuns (o : Options) (f : List Node) :
    (readRuns o f).value = f.foldr (addRun o) [] := by
  induction f with
  | nil => rfl
  | cons n ns ih =>
    rw [readRuns, List.foldr_cons, ← ih, addRun]
    cases GroupKey.ofHeader? n.text with
    | none => rfl
    | some key =>
      simp only
      split <;> rfl

/-- The rules of an action are made of the runs of its lines. -/
theorem items_read (o : Options) (base : Nat) (f : List Node) :
    (read o base f).value.items = (f.foldr (addRun o) []).map (item base) := by
  rw [read, value_readRuns]

end ActionRules

variable (ρ : Relocation)

namespace SetRuleGroup

mutual

/-- The group at another place, and the groups nested in it. -/
def relocate : SetRuleGroup → SetRuleGroup
  | ⟨key, line, entrance, exit, rules, children⟩ =>
    ⟨key, ρ.line line, entrance, exit, rules, relocateAll children⟩

/-- Groups at another place. -/
def relocateAll : List SetRuleGroup → List SetRuleGroup
  | [] => []
  | g :: gs => relocate g :: relocateAll gs

end

theorem relocateAll_eq_map (gs : List SetRuleGroup) : relocateAll ρ gs = gs.map (relocate ρ) := by
  induction gs with
  | nil => rfl
  | cons g gs ih => rw [relocateAll, ih, List.map_cons]

theorem relocate_mk (key : GroupKey) (line : Nat) (entrance exit rules : Option Text)
    (children : List SetRuleGroup) :
    (mk key line entrance exit rules children).relocate ρ
      = ⟨key, ρ.line line, entrance, exit, rules, children.map (relocate ρ)⟩ := by
  rw [relocate, relocateAll_eq_map]

/-- Induction on some groups: those nested in the first one, and the other ones. -/
theorem induction {P : List SetRuleGroup → Prop} (nil : P [])
    (cons : ∀ g gs, P g.children → P gs → P (g :: gs)) : ∀ gs, P gs
  | [] => nil
  | ⟨key, line, entrance, exit, rules, children⟩ :: gs =>
    cons ⟨key, line, entrance, exit, rules, children⟩ gs (induction nil cons children)
      (induction nil cons gs)

/-- Two relocations of groups one after the other are one. -/
theorem relocate_relocate (σ : Relocation) (gs : List SetRuleGroup) :
    (gs.map (relocate ρ)).map (relocate σ) = gs.map (relocate (ρ.andThen σ)) := by
  induction gs using induction with
  | nil => rfl
  | cons g gs ihc ih =>
    obtain ⟨key, n, entrance, exit, rules, children⟩ := g
    rw [List.map_cons, List.map_cons, ih, List.map_cons, relocate_mk, relocate_mk, ihc, relocate_mk]
    rfl

/-- Nothing but the number of a line matters to a group. -/
theorem relocate_eq_self (line : ∀ n, ρ.line n = n) (gs : List SetRuleGroup) :
    gs.map (relocate ρ) = gs := by
  induction gs using induction with
  | nil => rfl
  | cons g gs ihc ih =>
    obtain ⟨key, n, entrance, exit, rules, children⟩ := g
    rw [List.map_cons, relocate_mk, ihc, ih, line]

end SetRuleGroup

namespace GroupPart

/-- The part at another place. -/
def relocate : GroupPart → GroupPart
  | .entrance t => .entrance t
  | .exit t => .exit t
  | .nested g => .nested (g.relocate ρ)
  | .rule n => .rule (n.relocate ρ)

theorem filterMap_entrance?_relocate (parts : List GroupPart) :
    (parts.map (relocate ρ)).filterMap entrance? = parts.filterMap entrance? := by
  rw [List.filterMap_map]
  exact congrArg (List.filterMap · parts) (funext fun p => by cases p <;> rfl)

theorem filterMap_exit?_relocate (parts : List GroupPart) :
    (parts.map (relocate ρ)).filterMap exit? = parts.filterMap exit? := by
  rw [List.filterMap_map]
  exact congrArg (List.filterMap · parts) (funext fun p => by cases p <;> rfl)

theorem filterMap_nested?_relocate (parts : List GroupPart) :
    (parts.map (relocate ρ)).filterMap nested?
      = (parts.filterMap nested?).map (SetRuleGroup.relocate ρ) := by
  rw [List.filterMap_map, List.map_filterMap]
  exact congrArg (List.filterMap · parts) (funext fun p => by cases p <;> rfl)

theorem filterMap_rule?_relocate (parts : List GroupPart) :
    (parts.map (relocate ρ)).filterMap rule? = (parts.filterMap rule?).map (Node.relocate ρ) := by
  rw [List.filterMap_map, List.map_filterMap]
  exact congrArg (List.filterMap · parts) (funext fun p => by cases p <;> rfl)

end GroupPart

/-- The item at another place. -/
def RuleItem.relocate : RuleItem → RuleItem
  | .text lines => .text lines
  | .group g => .group (g.relocate ρ)

/-- The rules at another place. -/
def ActionRules.relocate (rules : ActionRules) : ActionRules :=
  ⟨rules.items.map (RuleItem.relocate ρ)⟩

theorem ActionRules.relocate_relocate (σ : Relocation) (rules : ActionRules) :
    (rules.relocate ρ).relocate σ = rules.relocate (ρ.andThen σ) := by
  rw [relocate, relocate, relocate, List.map_map]
  refine congrArg ActionRules.mk (List.map_congr_left fun i _ => ?_)
  cases i with
  | text t => rfl
  | group g =>
    have := SetRuleGroup.relocate_relocate ρ σ [g]
    exact congrArg RuleItem.group (List.cons.inj this).1

/-- Nothing but the numbers of lines matters to rules. -/
theorem ActionRules.relocate_eq_self (line : ∀ n, ρ.line n = n) (rules : ActionRules) :
    rules.relocate ρ = rules := by
  have item (i : RuleItem) : i.relocate ρ = i := by
    cases i with
    | text t => rfl
    | group g =>
      have := SetRuleGroup.relocate_eq_self ρ line [g]
      exact congrArg RuleItem.group (List.cons.inj this).1
  rw [relocate, funext item, List.map_id']

section Shifts

variable {ρ} {k : Nat} (h : ρ.Shifts k)

include h

theorem Forest.text?_relocate (f : List Node) (b : Nat) :
    text? (f.map (Node.relocate ρ)) (b + k) = text? f b := by
  simp [text?, text_relocate_shift ρ h]

theorem Node.bodyText_relocate (n : Node) : (n.relocate ρ).bodyText = n.bodyText := by
  rw [bodyText, bodyText, children_relocate, depth_relocate, h, Nat.add_right_comm,
    Forest.text_relocate_shift ρ h]

namespace SetRuleGroup

theorem ofParts_relocate (key : GroupKey) (line depth : Nat) (parts : List GroupPart) :
    ofParts key (ρ.line line) (ρ.depth depth) (parts.map (GroupPart.relocate ρ))
      = (ofParts key line depth parts).relocate ρ := by
  rw [ofParts, ofParts, relocate_mk, GroupPart.filterMap_entrance?_relocate,
    GroupPart.filterMap_exit?_relocate, GroupPart.filterMap_nested?_relocate,
    GroupPart.filterMap_rule?_relocate, h, Nat.add_right_comm, Forest.text?_relocate h]

theorem part_relocate (o : Options) (f : List Node) : ∀ (level : Nat), ∀ n ∈ f,
    part o level (n.relocate ρ) = (part o level n).relocate ρ := by
  induction f using Forest.induction with
  | nil => simp
  | cons n ns ihc ih =>
    intro level m hm
    rcases List.mem_cons.1 hm with rfl | hm
    · have children : m.children.map (part o (level + 1) ∘ Node.relocate ρ)
          = m.children.map (GroupPart.relocate ρ ∘ part o (level + 1)) :=
        List.map_congr_left fun c hc => ihc (level + 1) c hc
      rw [part, part, Node.headerIs_relocate, Node.headerIs_relocate, Node.text_relocate,
        Node.bodyText_relocate h]
      split
      · rfl
      · split
        · rfl
        · cases GroupKey.ofHeader? m.text with
          | none => rfl
          | some key =>
            simp only
            split
            · rw [value_read, value_read, Node.children_relocate, Node.line_relocate,
                Node.depth_relocate, List.map_map, children, ← List.map_map, ofParts_relocate h]
              rfl
            · rfl
    · exact ih level m hm

/-- Reading a group that was moved is moving the group that was read. -/
theorem value_read_relocate (o : Options) (level : Nat) (key : GroupKey) (n : Node) :
    (read o level key (n.relocate ρ)).value = (read o level key n).value.relocate ρ := by
  have children : n.children.map (part o level ∘ Node.relocate ρ)
      = n.children.map (GroupPart.relocate ρ ∘ part o level) :=
    List.map_congr_left fun c hc => part_relocate h o n.children level c hc
  rw [value_read, value_read, Node.children_relocate, Node.line_relocate, Node.depth_relocate,
    List.map_map, children, ← List.map_map, ofParts_relocate h]

end SetRuleGroup

namespace ActionRules

theorem addRun_relocate (o : Options) (n : Node) (rest : List (List Node ⊕ SetRuleGroup)) :
    addRun o (n.relocate ρ) (rest.map (Sum.map (List.map (Node.relocate ρ)) (SetRuleGroup.relocate ρ)))
      = (addRun o n rest).map (Sum.map (List.map (Node.relocate ρ)) (SetRuleGroup.relocate ρ)) := by
  have line : consLine (n.relocate ρ)
        (rest.map (Sum.map (List.map (Node.relocate ρ)) (SetRuleGroup.relocate ρ)))
      = (consLine n rest).map (Sum.map (List.map (Node.relocate ρ)) (SetRuleGroup.relocate ρ)) := by
    match rest with
    | [] => rfl
    | .inl run :: rest => rfl
    | .inr g :: rest => rfl
  rw [addRun, addRun, Node.text_relocate, line]
  cases GroupKey.ofHeader? n.text with
  | none => rfl
  | some key =>
    simp only [SetRuleGroup.value_read_relocate h]
    split <;> rfl

/-- Reading rules that were moved is moving the rules that were read. -/
theorem value_read_relocate (o : Options) (base : Nat) (f : List Node) :
    (read o (base + k) (f.map (Node.relocate ρ))).value = (read o base f).value.relocate ρ := by
  have runs : (f.map (Node.relocate ρ)).foldr (addRun o) []
      = (f.foldr (addRun o) []).map
          (Sum.map (List.map (Node.relocate ρ)) (SetRuleGroup.relocate ρ)) := by
    induction f with
    | nil => rfl
    | cons n ns ih => rw [List.map_cons, List.foldr_cons, ih, addRun_relocate h, List.foldr_cons]
  have item_eq : ∀ run : List Node ⊕ SetRuleGroup,
      item (base + k) (run.map (List.map (Node.relocate ρ)) (SetRuleGroup.relocate ρ))
        = (item base run).relocate ρ := by
    rintro (run | g)
    · exact congrArg RuleItem.text (Forest.text_relocate_shift ρ h run base)
    · rfl
  rw [read, read, value_readRuns, value_readRuns, runs, relocate, List.map_map, List.map_map]
  exact congrArg ActionRules.mk (List.map_congr_left fun run _ => item_eq run)

end ActionRules

end Shifts

end BusinessClass
