import BusinessClass.Proofs.SetRules.Keeping

/-!
# A bound on the nesting of groups

With a bound on the nesting of groups, a group that is nested too deep stays where it stands as text. What
is read under the bound is what is read without it, cut below the deepest admitted level.

* `ActionRules.read_congr`: of the options, nothing but the bound matters.
* `SetRuleGroup.cutBelow` cuts a group; `SetRuleGroup.value_read_withMaxDepth` says that the bound does so.
* `SetRuleGroup.leveled` lists a group and the groups nested in it with their levels.
* `Trims` compares the problems that are noted without and with the bound; `SetRuleGroup.trims_opening` and
  `ActionRules.trims_read` say that reading gives problems of this kind.
-/

namespace BusinessClass

/-- The options without a bound on the nesting of groups. -/
def Options.unbounded (o : Options) : Options := { o with maxDepth := none }

/-! ### Options with the same bound -/

section Congruence

variable {o o' : Options}

theorem Options.admitsLevel_congr (bound : o.maxDepth = o'.maxDepth) (level : Nat) :
    o.admitsLevel level = o'.admitsLevel level := by
  rw [admitsLevel, admitsLevel, bound]

namespace SetRuleGroup

mutual

/-- Of the options nothing but the bound on their nesting matters for groups. -/
theorem read_congr (bound : o.maxDepth = o'.maxDepth) (level : Nat) (key : GroupKey) :
    ∀ n : Node, read o level key n = read o' level key n
  | ⟨text, depth, line, span, children⟩ => by rw [read, read, readParts_congr bound level children]

theorem readParts_congr (bound : o.maxDepth = o'.maxDepth) (level : Nat) :
    ∀ ns : List Node, readParts o level ns = readParts o' level ns
  | [] => by rw [readParts, readParts]
  | n :: ns => by
    simp only [readParts, readParts_congr bound level ns, o.admitsLevel_congr bound, tooDeep, bound]
    cases GroupKey.ofHeader? n.text with
    | none => rfl
    | some key => simp only [read_congr bound (level + 1) key n]

end

end SetRuleGroup

namespace ActionRules

theorem readRuns_congr (bound : o.maxDepth = o'.maxDepth) (ns : List Node) : readRuns o ns = readRuns o' ns := by
  induction ns with
  | nil => rfl
  | cons n ns ih =>
    simp only [readRuns, ih, o.admitsLevel_congr bound, SetRuleGroup.tooDeep, bound, SetRuleGroup.read_congr bound]

/-- Nor does anything else matter for the rules of an action. -/
theorem read_congr (bound : o.maxDepth = o'.maxDepth) (base : Nat) (ns : List Node) :
    read o base ns = read o' base ns := by
  rw [read, read, readRuns_congr bound]

end ActionRules

end Congruence

/-! ### The lines of a group -/

namespace Node

/-- The lines directly under the header of a group other than entrance and exit rules. -/
def ownLines (n : Node) : List Node :=
  n.children.filter fun c =>
    !(c.headerIs SetRuleGroup.entranceHeader || c.headerIs SetRuleGroup.exitHeader)

/-- These lines with everything under them, relative to the group. -/
def ownText (n : Node) : Option Text := Forest.text? n.ownLines (n.depth + 1)

end Node

namespace SetRuleGroup

variable (o : Options) (n : Nat)

/-! ### Cutting groups -/

/-- The group without the groups nested more than `k` levels below it: their place is taken by the text of
the group that they stand in, which `texts` gives for the line of its header. -/
def cutBelow (texts : Nat → Option Text) : Nat → SetRuleGroup → SetRuleGroup
  | 0, g => { g with rules := texts g.line, children := [] }
  | k + 1, g => { g with children := g.children.map (cutBelow texts k) }

theorem depth_eq (g : SetRuleGroup) : g.depth = 1 + depths g.children := by
  cases g
  rw [depth]

theorem depths_le_iff {gs : List SetRuleGroup} {k : Nat} : depths gs ≤ k ↔ ∀ g ∈ gs, g.depth ≤ k := by
  induction gs with
  | nil => simp [depths]
  | cons g gs ih => rw [depths, Nat.max_le, ih, List.forall_mem_cons]

/-- Entrance and exit rules do not depend on the options. -/
theorem entrance?_part (o o' : Options) (level : Nat) (c : Node) :
    (part o level c).entrance? = (part o' level c).entrance? := by
  rcases part_kinds c with ⟨-, part⟩ | ⟨-, -, part⟩ | ⟨-, part⟩ | ⟨key, -, part⟩ <;> rw [part, part]
  split <;> split <;> rfl

theorem exit?_part (o o' : Options) (level : Nat) (c : Node) :
    (part o level c).exit? = (part o' level c).exit? := by
  rcases part_kinds c with ⟨-, part⟩ | ⟨-, -, part⟩ | ⟨-, part⟩ | ⟨key, -, part⟩ <;> rw [part, part]
  split <;> split <;> rfl

/-- Groups of one line that are read with different options differ in rules and nested groups alone. -/
theorem value_read_eq_with (o o' : Options) (level : Nat) (key : GroupKey) (m : Node) :
    (read o level key m).value =
      { (read o' level key m).value with
        rules := Forest.text? (m.children.filterMap fun c => (part o level c).rule?) (m.depth + 1)
        children := m.children.filterMap fun c => (part o level c).nested? } := by
  have entrance := funext (entrance?_part o o' level)
  have exit := funext (exit?_part o o' level)
  simp only [value_read, ofParts, List.filterMap_map, Function.comp_def, entrance, exit]

/-- The lines of a group of the deepest level are its rules. -/
theorem rule?_part_of_not_admits {o : Options} {level : Nat} (h : o.admitsLevel (level + 1) = false)
    (c : Node) : (part o level c).rule?
      = Option.guard (fun c => !(c.headerIs entranceHeader || c.headerIs exitHeader)) c := by
  rw [Option.guard]
  rcases part_kinds c with ⟨is, part⟩ | ⟨isNot, is, part⟩ | ⟨rule, part⟩ | ⟨key, ⟨isNot, isNot', -⟩, part⟩
  · rw [part, is]
    rfl
  · rw [part, isNot, is]
    rfl
  · rw [part, rule.entrance, rule.exit]
    rfl
  · rw [part, h, isNot, isNot']
    rfl

theorem nested?_part_of_not_admits {o : Options} {level : Nat} (h : o.admitsLevel (level + 1) = false)
    (c : Node) : (part o level c).nested? = none := by
  rcases part_kinds c with ⟨-, part⟩ | ⟨-, -, part⟩ | ⟨-, part⟩ | ⟨key, -, part⟩ <;> rw [part]
  · rfl
  · rfl
  · rfl
  · rw [h]
    rfl

theorem value_read_of_not_admits {o : Options} {level : Nat} (h : o.admitsLevel (level + 1) = false)
    (o' : Options) (key : GroupKey) (m : Node) :
    (read o level key m).value = { (read o' level key m).value with rules := m.ownText, children := [] } := by
  rw [value_read_eq_with o o', funext (rule?_part_of_not_admits h), funext (nested?_part_of_not_admits h),
    Node.ownText, Node.ownLines]
  rw [List.filterMap_eq_filter, List.filterMap_none]

/-- Where nested groups are admitted, the rules of a group are those that it has without a bound. -/
theorem rule?_part_of_admits {o : Options} {level : Nat} (h : o.admitsLevel (level + 1) = true) (c : Node) :
    (part o level c).rule? = (part o.unbounded level c).rule? := by
  rcases part_kinds c with ⟨-, part⟩ | ⟨-, -, part⟩ | ⟨-, part⟩ | ⟨key, -, part⟩ <;> rw [part, part]
  rw [h]
  rfl

variable {o n}

/-- A bound on the nesting cuts a group below the deepest level that it admits. -/
theorem value_read_withMaxDepth {texts : Nat → Option Text} {k : Nat} : ∀ {level : Nat} {key : GroupKey}
    {m : Node}, level + k = n → (∀ c ∈ Forest.nodes [m], texts c.line = c.ownText) →
      (read (o.withMaxDepth n) level key m).value
        = cutBelow texts k (read o.unbounded level key m).value := by
  induction k with
  | zero =>
    intro level key m sum known
    have refused : (o.withMaxDepth n).admitsLevel (level + 1) = false := by
      simp [Options.admitsLevel, Options.withMaxDepth]
      omega
    rw [value_read_of_not_admits refused o.unbounded, ← known m (by simp), cutBelow]
    rw [value_read]
    rfl
  | succ k ih =>
    intro level key m sum known
    have admitted : (o.withMaxDepth n).admitsLevel (level + 1) = true := by
      simp [Options.admitsLevel, Options.withMaxDepth]
      omega
    have nested : ∀ c ∈ m.children, (part (o.withMaxDepth n) level c).nested?
        = (part o.unbounded level c).nested?.map (cutBelow texts k) := by
      intro c hc
      rcases part_kinds c with ⟨-, part⟩ | ⟨-, -, part⟩ | ⟨-, part⟩ | ⟨key, -, part⟩ <;> rw [part, part]
      · rfl
      · rfl
      · rfl
      · rw [admitted]
        refine congrArg some (ih (by omega) fun b hb => known b ?_)
        rw [Forest.nodes_cons, Forest.nodes_nil, List.append_nil]
        exact List.mem_cons_of_mem _ (Forest.mem_nodes_iff.2 ⟨c, hc, hb⟩)
    rw [cutBelow, value_read_eq_with _ o.unbounded, List.filterMap_congr nested]
    rw [funext (rule?_part_of_admits admitted)]
    rw [value_read]
    simp only [ofParts, List.filterMap_map, List.map_filterMap]
    rfl

theorem depth_pos (g : SetRuleGroup) : 0 < g.depth := by
  rw [depth_eq]
  omega

theorem children_read (o : Options) (level : Nat) (key : GroupKey) (m : Node) :
    (read o level key m).value.children = m.children.filterMap fun c => (part o level c).nested? := by
  rw [value_read_eq_with o o]

theorem depth_lt_of_mem_children {g c : SetRuleGroup} (h : c ∈ g.children) : c.depth < g.depth := by
  have := depths_le_iff.1 (Nat.le_refl _) c h
  rw [depth_eq g]
  omega

/-- No group that is read under a bound nests deeper than the bound admits. -/
theorem depth_read_le (f : List Node) : ∀ (level : Nat) (key : GroupKey), ∀ m ∈ f, level ≤ n →
    level + (read (o.withMaxDepth n) level key m).value.depth ≤ n + 1 := by
  induction f using Forest.induction with
  | nil => simp
  | cons m ms ihc ih =>
    intro level key b hb le
    rcases List.mem_cons.1 hb with rfl | hb
    · rw [depth_eq, children_read]
      -- Only nested groups count, and each of them was admitted one level further down.
      suffices depths (b.children.filterMap fun c => (part (o.withMaxDepth n) level c).nested?) ≤ n - level by
        omega
      refine depths_le_iff.2 fun g hg => ?_
      obtain ⟨c, hc, nested⟩ := List.mem_filterMap.1 hg
      rcases part_kinds c with ⟨-, part⟩ | ⟨-, -, part⟩ | ⟨-, part⟩ | ⟨key', -, part⟩ <;> rw [part] at nested
      · cases nested
      · cases nested
      · cases nested
      · split at nested
        · rename_i admitted
          cases nested
          have := ihc (level + 1) key' c hc (of_decide_eq_true admitted)
          omega
        · cases nested
    · exact ih level key b hb le

/-- The bound changes no group that nests no deeper. -/
theorem value_read_of_depth_le (f : List Node) : ∀ (level : Nat) (key : GroupKey), ∀ m ∈ f,
    level + (read o.unbounded level key m).value.depth ≤ n + 1 →
      (read (o.withMaxDepth n) level key m).value = (read o.unbounded level key m).value := by
  induction f using Forest.induction with
  | nil => simp
  | cons m ms ihc ih =>
    intro level key b hb shallow
    rcases List.mem_cons.1 hb with rfl | hb
    · have parts : ∀ c ∈ b.children, part (o.withMaxDepth n) level c = part o.unbounded level c := by
        intro c hc
        rcases part_kinds c with ⟨-, part⟩ | ⟨-, -, part⟩ | ⟨-, part⟩ | ⟨key', -, part⟩ <;> rw [part, part]
        -- A nested group is shallower than the group around it, so the bound admits its level.
        have mem : (read o.unbounded (level + 1) key' c).value ∈ (read o.unbounded level key b).value.children := by
          rw [children_read]
          exact List.mem_filterMap.2 ⟨c, hc, congrArg GroupPart.nested? (part o.unbounded level)⟩
        have lt := depth_lt_of_mem_children mem
        have admitted : level + 1 ≤ n := by
          have := depth_pos (read o.unbounded (level + 1) key' c).value
          omega
        rw [ihc (level + 1) key' c hc (by omega)]
        exact if_pos (decide_eq_true admitted)
      rw [value_read, value_read, List.map_congr_left parts]
    · exact ih level key b hb shallow

/-! ### Groups with their levels -/

mutual

/-- A group and the groups nested in it in source order, each with its level. -/
def leveled (level : Nat) : SetRuleGroup → List (Nat × SetRuleGroup)
  | ⟨key, line, entrance, exit, rules, children⟩ =>
    (level, ⟨key, line, entrance, exit, rules, children⟩) :: leveledAll (level + 1) children

/-- Some groups and the groups nested in them in source order, each with its level. -/
def leveledAll (level : Nat) : List SetRuleGroup → List (Nat × SetRuleGroup)
  | [] => []
  | g :: gs => leveled level g ++ leveledAll level gs

end

theorem leveledAll_eq_flatMap (level : Nat) (gs : List SetRuleGroup) :
    leveledAll level gs = gs.flatMap (leveled level) := by
  induction gs with
  | nil => rfl
  | cons g gs ih => rw [leveledAll, ih, List.flatMap_cons]

theorem leveled_eq (level : Nat) (g : SetRuleGroup) :
    g.leveled level = (level, g) :: g.children.flatMap (leveled (level + 1)) := by
  cases g
  rw [leveled, leveledAll_eq_flatMap]

/-- The groups of the part that a line directly under a group of the given level is. -/
def innerGroups (o : Options) (level : Nat) (c : Node) : List (Nat × SetRuleGroup) :=
  (part o level c).nested?.toList.flatMap (leveled (level + 1))

theorem leveled_read (o : Options) (level : Nat) (key : GroupKey) (m : Node) :
    (read o level key m).value.leveled level
      = (level, (read o level key m).value) :: m.children.flatMap (innerGroups o level) := by
  rw [leveled_eq, children_read, List.filterMap_eq_flatMap_toList, List.flatMap_assoc]
  rfl

/-- The problems with a line that opens a group inside a group of the given level. -/
def openingNotes (o : Options) (level : Nat) (key : GroupKey) (c : Node) : List Diagnostic :=
  if o.admitsLevel (level + 1) then (read o (level + 1) key c).notes else [tooDeep o key c]

/-- The groups that a line opens inside a group of the given level. -/
def openingGroups (o : Options) (level : Nat) (key : GroupKey) (c : Node) : List (Nat × SetRuleGroup) :=
  if o.admitsLevel (level + 1) then (read o (level + 1) key c).value.leveled (level + 1) else []

/-- The problems with a line directly under a group of the given level. -/
def innerNotes (o : Options) (level : Nat) (c : Node) : List Diagnostic :=
  if c.headerIs entranceHeader || c.headerIs exitHeader then []
  else (GroupKey.ofHeader? c.text).elim [] fun key => openingNotes o level key c

/-- A line directly under a group opens a group, or there are no groups and problems. -/
theorem inner_cases (c : Node) :
    (∀ o level, innerGroups o level c = [] ∧ innerNotes o level c = []) ∨
      ∃ key, ∀ o level, innerGroups o level c = openingGroups o level key c ∧
        innerNotes o level c = openingNotes o level key c := by
  rcases part_kinds c with ⟨is, part⟩ | ⟨isNot, is, part⟩ | ⟨rule, part⟩ | ⟨key, ⟨isNot, isNot', group⟩, part⟩
  · exact Or.inl fun o level => ⟨by rw [innerGroups, part]; rfl, by rw [innerNotes, is]; rfl⟩
  · exact Or.inl fun o level => ⟨by rw [innerGroups, part]; rfl, by rw [innerNotes, isNot, is]; rfl⟩
  · refine Or.inl fun o level => ⟨by rw [innerGroups, part]; rfl, ?_⟩
    rw [innerNotes, rule.entrance, rule.exit, rule.group]
    rfl
  · refine Or.inr ⟨key, fun o level => ⟨?_, ?_⟩⟩
    · rw [innerGroups, part, openingGroups]
      split
      · exact List.flatMap_singleton _ _
      · rfl
    · rw [innerNotes, isNot, isNot', group]
      rfl

theorem lines_openingGroups_sublist {level : Nat} {key : GroupKey} {m : Node}
    (inner : ((m.children.flatMap (innerGroups o (level + 1))).map fun e => e.2.line).Sublist
      ((Forest.nodes m.children).map Node.line)) :
    ((openingGroups o level key m).map fun e => e.2.line).Sublist
      ((m :: Forest.nodes m.children).map Node.line) := by
  rw [openingGroups]
  split
  · rw [leveled_read, List.map_cons, line_read, List.map_cons]
    exact inner.cons_cons _
  · exact List.nil_sublist _

/-- Every group has the line of its header, each header another one. -/
theorem lines_innerGroups_sublist (f : List Node) : ∀ level : Nat,
    ((f.flatMap (innerGroups o level)).map fun e => e.2.line).Sublist ((Forest.nodes f).map Node.line) := by
  induction f using Forest.induction with
  | nil =>
    intro level
    exact .slnil
  | cons m ms ihc ih =>
    intro level
    have first : ((innerGroups o level m).map fun e => e.2.line).Sublist
        ((m :: Forest.nodes m.children).map Node.line) := by
      rcases inner_cases m with none | ⟨key, opens⟩
      · rw [(none o level).1]
        exact List.nil_sublist _
      · rw [(opens o level).1]
        exact lines_openingGroups_sublist (ihc (level + 1))
    rw [List.flatMap_cons, List.map_append, Forest.nodes_cons, List.map_append]
    exact first.append (ih level)

end SetRuleGroup

/-! ### Problems -/

namespace Diagnostic

/-- Whether the problem is a group that is nested too deep. -/
def isDepthLimit (d : Diagnostic) : Bool :=
  match d.kind with
  | .depthLimitExceeded _ _ => true
  | _ => false

/-- Whether the problem is a group with nothing under its header. -/
def isUnterminated (d : Diagnostic) : Bool :=
  match d.kind with
  | .unterminatedSetRuleGroup _ => true
  | _ => false

end Diagnostic

/-- How the problems `qs` that are noted under the bound `n` come from the problems `ps` that are noted
without it, for the given groups with their levels: of the groups on a line that is too deep, nothing is
noted but that the outermost ones are nested too deep. -/
structure Trims (n : Nat) (isDeep : Nat → Bool) (groups : List (Nat × SetRuleGroup))
    (ps qs : List Diagnostic) : Prop where
  kept : qs.filter (fun d => !d.isDepthLimit) = ps.filter fun d => !(d.isUnterminated && isDeep d.line)
  added : (qs.filter Diagnostic.isDepthLimit).map (fun d => (d.kind, d.line))
    = (groups.filter fun e => e.1 == n + 1).map fun e => (.depthLimitExceeded e.2.name n, e.2.line)

namespace Trims

variable {n : Nat} {isDeep : Nat → Bool}

theorem nil : Trims n isDeep [] [] [] := ⟨rfl, rfl⟩

theorem append {groups groups' : List (Nat × SetRuleGroup)} {ps ps' qs qs' : List Diagnostic}
    (h : Trims n isDeep groups ps qs) (h' : Trims n isDeep groups' ps' qs') :
    Trims n isDeep (groups ++ groups') (ps ++ ps') (qs ++ qs') where
  kept := by rw [List.filter_append, List.filter_append, h.kept, h'.kept]
  added := by
    rw [List.filter_append, List.map_append, List.filter_append, List.map_append, h.added, h'.added]

theorem flatMap {α : Type} {groups : α → List (Nat × SetRuleGroup)} {ps qs : α → List Diagnostic}
    {as : List α} (h : ∀ a ∈ as, Trims n isDeep (groups a) (ps a) (qs a)) :
    Trims n isDeep (as.flatMap groups) (as.flatMap ps) (as.flatMap qs) := by
  induction as with
  | nil => exact nil
  | cons a as ih =>
    rw [List.flatMap_cons, List.flatMap_cons, List.flatMap_cons]
    exact (h a List.mem_cons_self).append (ih fun b hb => h b (List.mem_cons_of_mem a hb))

/-- Problems other than those of groups stay. -/
theorem of_other {ps : List Diagnostic} (other : ∀ d ∈ ps, d.isDepthLimit = false ∧ d.isUnterminated = false) :
    Trims n isDeep [] ps ps where
  kept := by
    rw [List.filter_eq_self.2 fun d hd => by rw [(other d hd).1]; rfl,
      List.filter_eq_self.2 fun d hd => by rw [(other d hd).2]; rfl]
  added := by
    rw [List.filter_eq_nil_iff.2 fun d hd => by rw [(other d hd).1]; exact Bool.false_ne_true]
    rfl

/-- Problems may be filed under a name. -/
theorem withSourceName {groups : List (Nat × SetRuleGroup)} {ps qs : List Diagnostic}
    (h : Trims n isDeep groups ps qs) (name : Option Text) :
    Trims n isDeep groups (ps.map (·.withSourceName name)) (qs.map (·.withSourceName name)) where
  kept := by
    rw [List.filter_map, List.filter_map]
    exact congrArg (List.map _) h.kept
  added := by
    rw [List.filter_map, List.map_map]
    exact h.added

/-- Where no group is nested too deep, the problems are the same. -/
theorem eq_of_le {groups : List (Nat × SetRuleGroup)} {ps qs : List Diagnostic} (h : Trims n isDeep groups ps qs)
    (shallow : ∀ e ∈ groups, e.1 ≤ n) (deep : ∀ line, isDeep line = false) : qs = ps := by
  have none : groups.filter (fun e => e.1 == n + 1) = [] := by
    refine List.filter_eq_nil_iff.2 fun e he => ?_
    have := shallow e he
    simp
    omega
  have added := h.added
  rw [none, List.map_nil, List.map_eq_nil_iff, List.filter_eq_nil_iff] at added
  have kept := h.kept
  rwa [List.filter_eq_self.2 fun d hd => by simpa using added d hd,
    List.filter_eq_self.2 fun d _ => by simp [deep]] at kept

end Trims

namespace SetRuleGroup

variable {o : Options} {n : Nat}

theorem notes_readParts (o : Options) (level : Nat) (f : List Node) :
    (readParts o level f).notes = f.flatMap (innerNotes o level) := by
  induction f with
  | nil => rfl
  | cons c cs ih =>
    rw [readParts, List.flatMap_cons, ← ih, innerNotes]
    cases c.headerIs entranceHeader with
    | true => rfl
    | false =>
      cases c.headerIs exitHeader with
      | true => rfl
      | false =>
        cases GroupKey.ofHeader? c.text with
        | none => rfl
        | some key =>
          simp only [openingNotes, Bool.or_self, Bool.false_eq_true, if_false, Option.elim_some]
          split <;> rfl

theorem notes_read (o : Options) (level : Nat) (key : GroupKey) (m : Node) :
    (read o level key m).notes = unterminated key m ++ m.children.flatMap (innerNotes o level) := by
  obtain ⟨text, depth, line, span, children⟩ := m
  rw [read, notes_readParts]

/-- Without a bound, all that is noted in a group is that a group in it has nothing under its header. -/
theorem notes_read_unbounded (f : List Node) : ∀ (level : Nat) (key : GroupKey), ∀ m ∈ f,
    ∀ d ∈ (read o.unbounded level key m).notes, d.isUnterminated = true ∧
      ∃ e ∈ (read o.unbounded level key m).value.leveled level, level ≤ e.1 ∧ e.2.line = d.line := by
  induction f using Forest.induction with
  | nil => simp
  | cons m ms ihc ih =>
    intro level key b hb d hd
    rcases List.mem_cons.1 hb with rfl | hb
    · rw [notes_read] at hd
      rw [leveled_read]
      rcases List.mem_append.1 hd with hd | hd
      · rw [unterminated] at hd
        split at hd
        · rw [List.mem_singleton.1 hd]
          exact ⟨rfl, _, List.mem_cons_self, Nat.le_refl level, line_read _ _ _ _⟩
        · cases hd
      · obtain ⟨c, hc, hd⟩ := List.mem_flatMap.1 hd
        rcases inner_cases c with none | ⟨key', opens⟩
        · rw [(none _ _).2] at hd
          cases hd
        · rw [(opens _ _).2] at hd
          obtain ⟨is, e, he, le, line⟩ := ihc (level + 1) key' c hc d hd
          refine ⟨is, e, List.mem_cons_of_mem _ (List.mem_flatMap.2 ⟨c, hc, ?_⟩), by omega, line⟩
          rw [(opens _ _).1]
          exact he
    · exact ih level key b hb d hd

/-- The levels of the groups in a group start at its own and grow no further than the nesting. -/
theorem level_of_mem_leveled (gs : List SetRuleGroup) : ∀ (level : Nat), ∀ g ∈ gs, ∀ e ∈ leveled level g,
    level ≤ e.1 ∧ e.1 < level + g.depth := by
  induction gs using induction with
  | nil => simp
  | cons g gs ihc ih =>
    intro level b hb e he
    rcases List.mem_cons.1 hb with rfl | hb
    · rw [leveled_eq] at he
      rcases List.mem_cons.1 he with rfl | he
      · exact ⟨Nat.le_refl level, Nat.lt_add_of_pos_right (depth_pos b)⟩
      · obtain ⟨c, hc, he⟩ := List.mem_flatMap.1 he
        have inner := ihc (level + 1) c hc e he
        have := depth_lt_of_mem_children hc
        omega
    · exact ih level b hb e he

/-- The only group of its level is the group itself. -/
theorem filter_leveled (level : Nat) (g : SetRuleGroup) :
    (g.leveled level).filter (fun e => e.1 == level) = [(level, g)] := by
  have inner : (g.children.flatMap (leveled (level + 1))).filter (fun e => e.1 == level) = [] := by
    refine List.filter_eq_nil_iff.2 fun e he => ?_
    obtain ⟨c, hc, he⟩ := List.mem_flatMap.1 he
    have := level_of_mem_leveled g.children (level + 1) c hc e he
    simp
    omega
  rw [leveled_eq, List.filter_cons, if_pos (beq_self_eq_true level), inner]

variable {isDeep : Nat → Bool}

/-- The problem of a group that stays is that nothing stands under its header. -/
theorem trims_unterminated (key : GroupKey) (m : Node) {level : Nat} (g : SetRuleGroup) (ne : level ≠ n + 1)
    (stays : isDeep m.line = false) :
    Trims n isDeep [(level, g)] (unterminated key m) (unterminated key m) where
  kept := by
    rw [unterminated]
    split
    · simp [Node.note, Diagnostic.make, Diagnostic.isDepthLimit, stays]
    · rfl
  added := by
    have none : [(level, g)].filter (fun e => e.1 == n + 1) = [] := by simpa using ne
    rw [none, unterminated]
    split <;> rfl

/-- Of a group that is nested too deep, nothing else is noted. -/
theorem trims_tooDeep (key : GroupKey) (m : Node)
    (deep : ∀ e ∈ openingGroups o.unbounded n key m, isDeep e.2.line = decide (n < e.1)) :
    Trims n isDeep (openingGroups o.unbounded n key m) (openingNotes o.unbounded n key m)
      [tooDeep (o.withMaxDepth n) key m] where
  kept := by
    symm
    refine List.filter_eq_nil_iff.2 fun d hd => ?_
    obtain ⟨is, e, he, le, line⟩ := notes_read_unbounded [m] (n + 1) key m (List.mem_singleton_self m) d hd
    rw [is, ← line, deep e he, decide_eq_true (show n < e.1 by omega)]
    exact Bool.false_ne_true
  added := by
    have first := filter_leveled (n + 1) (read o.unbounded (n + 1) key m).value
    have name : (read o.unbounded (n + 1) key m).value.name = key.name := by
      rw [value_read]
      rfl
    have groups : openingGroups o.unbounded n key m
        = (read o.unbounded (n + 1) key m).value.leveled (n + 1) := rfl
    rw [groups, first, List.map_singleton, line_read, name]
    rfl

/-- What is noted about a group under a bound. -/
theorem trims_opening (f : List Node) : ∀ (level : Nat) (key : GroupKey), ∀ m ∈ f, level ≤ n →
    (∀ e ∈ openingGroups o.unbounded level key m, isDeep e.2.line = decide (n < e.1)) →
      Trims n isDeep (openingGroups o.unbounded level key m) (openingNotes o.unbounded level key m)
        (openingNotes (o.withMaxDepth n) level key m) := by
  induction f using Forest.induction with
  | nil => simp
  | cons m ms ihc ih =>
    intro level key b hb le deep
    rcases List.mem_cons.1 hb with rfl | hb
    -- At the deepest level the group is refused as a whole; above it, it is read and its parts are.
    · rcases Nat.eq_or_lt_of_le le with rfl | lt
      · have refused : (o.withMaxDepth level).admitsLevel (level + 1) = false :=
          decide_eq_false (by omega)
        have notes : openingNotes (o.withMaxDepth level) level key b = [tooDeep (o.withMaxDepth level) key b] := by
          rw [openingNotes, refused]
          rfl
        rw [notes]
        exact trims_tooDeep key b deep
      · have admitted : (o.withMaxDepth n).admitsLevel (level + 1) = true := decide_eq_true lt
        have groups : openingGroups o.unbounded level key b
            = [(level + 1, (read o.unbounded (level + 1) key b).value)]
              ++ b.children.flatMap (innerGroups o.unbounded (level + 1)) := leveled_read _ _ _ _
        have notes : openingNotes o.unbounded level key b
            = unterminated key b ++ b.children.flatMap (innerNotes o.unbounded (level + 1)) := notes_read _ _ _ _
        rw [groups] at deep
        rw [groups, notes, openingNotes, if_pos admitted, notes_read]
        refine (trims_unterminated key b _ (by omega) ?_).append (Trims.flatMap fun c hc => ?_)
        · have := deep _ (List.mem_append_left _ (List.mem_singleton_self _))
          rw [line_read] at this
          rw [this, decide_eq_false (by simp only; omega)]
        · rcases inner_cases c with none | ⟨key', opens⟩
          · rw [(none _ _).1, (none _ _).2, (none _ _).2]
            exact Trims.nil
          · rw [(opens _ _).1, (opens _ _).2, (opens _ _).2]
            refine ihc (level + 1) key' c hc lt fun e he => deep e (List.mem_append_right _ ?_)
            exact List.mem_flatMap.2 ⟨c, hc, by rw [(opens _ _).1]; exact he⟩
    · exact ih level key b hb le deep

end SetRuleGroup

namespace ActionRules

variable {o : Options} {n : Nat} {isDeep : Nat → Bool}

/-- The groups of some rules and the groups nested in them in source order, each with its level. -/
def leveledGroups (rules : ActionRules) : List (Nat × SetRuleGroup) :=
  rules.groups.flatMap (SetRuleGroup.leveled 1)

/-- The rules with another group in place of each group that is nested in no other. -/
def mapGroups (F : SetRuleGroup → SetRuleGroup) (rules : ActionRules) : ActionRules :=
  ⟨rules.items.map fun
    | .text lines => .text lines
    | .group g => .group (F g)⟩

/-- The problems with a line under `Action Rules`. -/
def runNotes (o : Options) (m : Node) : List Diagnostic :=
  (GroupKey.ofHeader? m.text).elim [] fun key => SetRuleGroup.openingNotes o 0 key m

/-- The group that a line under `Action Rules` opens. -/
def runGroup? (o : Options) (m : Node) : Option SetRuleGroup :=
  (GroupKey.ofHeader? m.text).bind fun key =>
    if o.admitsLevel 1 then some (SetRuleGroup.read o 1 key m).value else none

theorem notes_read (o : Options) (base : Nat) (f : List Node) :
    (read o base f).notes = f.flatMap (runNotes o) := by
  show (readRuns o f).notes = _
  induction f with
  | nil => rfl
  | cons m ms ih =>
    rw [readRuns, List.flatMap_cons, ← ih, runNotes]
    cases GroupKey.ofHeader? m.text with
    | none => rfl
    | some key =>
      simp only [Option.elim_some, SetRuleGroup.openingNotes]
      split <;> rfl

theorem groups_runs (base : Nat) (runs : List (List Node ⊕ SetRuleGroup)) :
    groups ⟨runs.map (item base)⟩ = (runs.flatMap joined).filterMap Sum.getRight? := by
  induction runs with
  | nil => rfl
  | cons r runs ih =>
    rw [List.flatMap_cons, List.filterMap_append, ← ih]
    cases r with
    | inl run =>
      have none : (joined (.inl run)).filterMap Sum.getRight? = [] := by simp [joined]
      rw [none]
      rfl
    | inr g => rfl

/-- The groups of some rules are those that the lines open. -/
theorem groups_read (o : Options) (base : Nat) (f : List Node) :
    (read o base f).value.groups = f.filterMap (runGroup? o) := by
  have read_eq : (read o base f).value = ⟨(f.foldr (addRun o) []).map (item base)⟩ := by
    rw [← items_read]
  rw [read_eq, groups_runs, flatMap_joined_runs, List.filterMap_map]
  refine List.filterMap_congr fun n _ => ?_
  rw [Function.comp, alone, runGroup?]
  cases GroupKey.ofHeader? n.text with
  | none => rfl
  | some key =>
    simp only [Option.bind_some]
    split <;> rfl

/-- No group nests deeper than the bound. -/
theorem depth_le_of_mem_groups {base : Nat} {f : List Node} {g : SetRuleGroup}
    (h : g ∈ (read (o.withMaxDepth n) base f).value.groups) : g.depth ≤ n := by
  rw [groups_read] at h
  obtain ⟨m, hm, opens⟩ := List.mem_filterMap.1 h
  obtain ⟨key, -, opens⟩ := Option.bind_eq_some_iff.1 opens
  split at opens
  · rename_i admitted
    cases opens
    have := SetRuleGroup.depth_read_le (o := o) f 1 key m hm (of_decide_eq_true admitted)
    omega
  · cases opens

/-- A bound that admits groups cuts them below the deepest level that it admits. -/
theorem value_read_withMaxDepth {texts : Nat → Option Text} (pos : 1 ≤ n) (base : Nat) {f : List Node}
    (known : ∀ c ∈ Forest.nodes f, texts c.line = c.ownText) :
    (read (o.withMaxDepth n) base f).value
      = (read o.unbounded base f).value.mapGroups (SetRuleGroup.cutBelow texts (n - 1)) := by
  have admitted : (o.withMaxDepth n).admitsLevel 1 = true := decide_eq_true pos
  have runs : f.foldr (addRun (o.withMaxDepth n)) []
      = (f.foldr (addRun o.unbounded) []).map (Sum.map id (SetRuleGroup.cutBelow texts (n - 1))) := by
    induction f with
    | nil => rfl
    | cons m ms ih =>
      have rest := ih fun c hc => known c (by simp [hc])
      rw [List.foldr_cons, List.foldr_cons, rest, addRun, addRun]
      cases GroupKey.ofHeader? m.text with
      | none =>
        rcases ms.foldr (addRun o.unbounded) [] with - | ⟨run | g, rest⟩ <;> rfl
      | some key =>
        have cut : (SetRuleGroup.read (o.withMaxDepth n) 1 key m).value
            = SetRuleGroup.cutBelow texts (n - 1) (SetRuleGroup.read o.unbounded 1 key m).value :=
          SetRuleGroup.value_read_withMaxDepth (by omega) fun c hc =>
            known c (Forest.mem_nodes_iff.2 ⟨m, List.mem_cons_self, hc⟩)
        simp only [if_pos admitted, cut]
        rfl
  rw [read, read, value_readRuns, value_readRuns, runs, mapGroups, List.map_map, List.map_map]
  refine congrArg ActionRules.mk (List.map_congr_left ?_)
  rintro (run | g) -
  · rfl
  · rfl

/-- The bound changes no rules with groups that nest no deeper. -/
theorem value_read_of_depth_le {base : Nat} {f : List Node}
    (shallow : ∀ g ∈ (read o.unbounded base f).value.groups, g.depth ≤ n) :
    (read (o.withMaxDepth n) base f).value = (read o.unbounded base f).value := by
  rw [groups_read] at shallow
  have same : ∀ m ∈ f, ∀ rest, addRun (o.withMaxDepth n) m rest = addRun o.unbounded m rest := by
    intro m hm rest
    rw [addRun, addRun]
    cases header : GroupKey.ofHeader? m.text with
    | none => rfl
    | some key =>
      have mem : (SetRuleGroup.read o.unbounded 1 key m).value ∈ f.filterMap (runGroup? o.unbounded) :=
        List.mem_filterMap.2 ⟨m, hm, by rw [runGroup?, header]; rfl⟩
      have le := shallow _ mem
      have pos := SetRuleGroup.depth_pos (SetRuleGroup.read o.unbounded 1 key m).value
      have admitted : (o.withMaxDepth n).admitsLevel 1 = true := decide_eq_true (by omega)
      have value := SetRuleGroup.value_read_of_depth_le (o := o) (n := n) f 1 key m hm (by omega)
      simp only [if_pos admitted, value]
      rfl
  have runs : f.foldr (addRun (o.withMaxDepth n)) [] = f.foldr (addRun o.unbounded) [] :=
    List.foldr_ext _ _ _ same
  rw [read, read, value_readRuns, value_readRuns, runs]

theorem leveledGroups_read (o : Options) (base : Nat) (f : List Node) :
    (read o base f).value.leveledGroups
      = f.flatMap fun m => (runGroup? o m).toList.flatMap (SetRuleGroup.leveled 1) := by
  rw [leveledGroups, groups_read, List.filterMap_eq_flatMap_toList, List.flatMap_assoc]

/-- A line under `Action Rules` opens a group, or there are no groups and problems. -/
theorem run_cases (m : Node) :
    (∀ o, (runGroup? o m).toList.flatMap (SetRuleGroup.leveled 1) = [] ∧ runNotes o m = []) ∨
      ∃ key, ∀ o, (runGroup? o m).toList.flatMap (SetRuleGroup.leveled 1)
          = SetRuleGroup.openingGroups o 0 key m ∧
        runNotes o m = SetRuleGroup.openingNotes o 0 key m := by
  cases header : GroupKey.ofHeader? m.text with
  | none => exact Or.inl fun o => ⟨by rw [runGroup?, header]; rfl, by rw [runNotes, header]; rfl⟩
  | some key =>
    refine Or.inr ⟨key, fun o => ⟨?_, by rw [runNotes, header]; rfl⟩⟩
    rw [runGroup?, header, SetRuleGroup.openingGroups, Option.bind_some]
    split
    · exact List.flatMap_singleton _ _
    · rfl

/-- What is noted about some rules under a bound. -/
theorem trims_read {base : Nat} {f : List Node}
    (deep : ∀ e ∈ (read o.unbounded base f).value.leveledGroups, isDeep e.2.line = decide (n < e.1)) :
    Trims n isDeep (read o.unbounded base f).value.leveledGroups (read o.unbounded base f).notes
      (read (o.withMaxDepth n) base f).notes := by
  rw [leveledGroups_read] at deep
  rw [leveledGroups_read, notes_read, notes_read]
  refine Trims.flatMap fun m hm => ?_
  rcases run_cases m with none | ⟨key, opens⟩
  · rw [(none _).1, (none _).2, (none _).2]
    exact Trims.nil
  · rw [(opens _).1, (opens _).2, (opens _).2]
    refine SetRuleGroup.trims_opening f 0 key m hm (Nat.zero_le n) fun e he => deep e ?_
    exact List.mem_flatMap.2 ⟨m, hm, by rw [(opens _).1]; exact he⟩

/-- Every group has the line of its header, each header another one. -/
theorem lines_leveledGroups_sublist (o : Options) (base : Nat) (f : List Node) :
    ((read o base f).value.leveledGroups.map fun e => e.2.line).Sublist ((Forest.nodes f).map Node.line) := by
  rw [leveledGroups_read]
  induction f with
  | nil => exact .slnil
  | cons m ms ih =>
    rw [List.flatMap_cons, List.map_append, Forest.nodes_cons, List.map_append]
    refine List.Sublist.append ?_ ih
    rcases run_cases m with none | ⟨key, opens⟩
    · rw [(none o).1]
      exact List.nil_sublist _
    · rw [(opens o).1]
      exact SetRuleGroup.lines_openingGroups_sublist (SetRuleGroup.lines_innerGroups_sublist m.children 1)

end ActionRules

end BusinessClass
