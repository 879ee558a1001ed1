import BusinessClass.Proofs.SetRules.ActionRules

/-!
# Lines that rules keep

Every line under `Action Rules` is kept: in a text, as the header of a group, or in a group.

* `Text.Holds` says that a text has a line, whatever its indentation.
* `SetRuleGroup.Keeps` and `ActionRules.Keeps` say where in a group, and in the rules of an action, a line
  is kept.
* `SetRuleGroup.keeps_read` and `ActionRules.keeps_read`: reading keeps every line.
-/

namespace BusinessClass

open Forest (nodes NestedTree Tidy)

/-! ### Lines of texts -/

/-- The text has the line, whatever its indentation. -/
def Text.Holds (t : Text) (n : Node) : Prop := n.text ∈ t.lines.map (List.dropWhile (· == '\t'))

namespace Forest

theorem mem_nodes_iff {f : List Node} {m : Node} : m ∈ nodes f ↔ ∃ n ∈ f, m ∈ nodes [n] := by
  induction f with
  | nil => simp
  | cons n ns ih => simp [ih, or_assoc]

theorem mem_nodes_singleton {n m : Node} : m ∈ nodes [n] ↔ m = n ∨ m ∈ nodes n.children := by simp

/-- The text of a forest has all its lines. -/
theorem holds_text {f : List Node} (tidy : Tidy f) (base : Nat) {m : Node} (mem : m ∈ nodes f) :
    (text f base).Holds m := by
  have line : m.toLine ∈ lines f := List.mem_map_of_mem mem
  rw [Text.Holds, lines_text tidy, List.map_map]
  refine List.mem_map.2 ⟨m.toLine, line, ?_⟩
  exact (tidy _ line).dropWhile_tabs _

end Forest

namespace Text

/-- Merged blocks have the lines of each block. -/
theorem Holds.merge? {blocks : List Text} (h : ∀ b ∈ blocks, b.IsBlock) {t : Text} (mem : t ∈ blocks)
    {n : Node} (holds : t.Holds n) : ∃ s, Text.merge? blocks = some s ∧ s.Holds n := by
  have lines := lines_merge h
  have some_block : Text.merge? blocks = some (merge blocks) := by
    cases blocks with
    | nil => cases mem
    | cons b bs => rfl
  refine ⟨_, some_block, ?_⟩
  obtain ⟨l, hl, text⟩ := List.mem_map.1 holds
  rw [Holds, lines]
  exact List.mem_map.2 ⟨l, List.mem_flatMap.2 ⟨t, mem, hl⟩, text⟩

theorem isSome_merge? {blocks : List Text} {t : Text} (mem : t ∈ blocks) :
    (Text.merge? blocks).isSome = true := by
  cases blocks with
  | nil => cases mem
  | cons b bs => rfl

end Text

/-! ### Groups -/

/-- The group that is read from the line `n` keeps a line of `n` or under it. -/
inductive SetRuleGroup.Keeps : SetRuleGroup → Node → Node → Prop
  | header {g : SetRuleGroup} {n : Node} (line : g.line = n.line)
      (key : GroupKey.ofHeader? n.text = some g.key) : Keeps g n n
  | entranceHeader {g : SetRuleGroup} {n c : Node} (mem : c ∈ n.children)
      (header : c.headerIs entranceHeader = true) (found : g.entrance.isSome = true) : Keeps g n c
  | entrance {g : SetRuleGroup} {n c m : Node} {t : Text} (mem : c ∈ n.children)
      (header : c.headerIs entranceHeader = true) (under : m ∈ nodes c.children)
      (found : g.entrance = some t) (holds : t.Holds m) : Keeps g n m
  | exitHeader {g : SetRuleGroup} {n c : Node} (mem : c ∈ n.children)
      (header : c.headerIs exitHeader = true) (found : g.exit.isSome = true) : Keeps g n c
  | exit {g : SetRuleGroup} {n c m : Node} {t : Text} (mem : c ∈ n.children)
      (header : c.headerIs exitHeader = true) (under : m ∈ nodes c.children)
      (found : g.exit = some t) (holds : t.Holds m) : Keeps g n m
  | rule {g : SetRuleGroup} {n c m : Node} {t : Text} (mem : c ∈ n.children) (under : m ∈ nodes [c])
      (found : g.rules = some t) (holds : t.Holds m) : Keeps g n m
  | nested {g h : SetRuleGroup} {n c m : Node} (mem : c ∈ n.children) (child : h ∈ g.children)
      (line : h.line = c.line) (keeps : Keeps h c m) : Keeps g n m

namespace SetRuleGroup

theorem line_read (o : Options) (level : Nat) (key : GroupKey) (n : Node) :
    (read o level key n).value.line = n.line := by
  rw [value_read, ofParts]

/-- A group that is read keeps a line under its header with all that stands under it, if the group that the line
may open does so. -/
theorem keeps_inner {level : Nat} {key : GroupKey} {n c m : Node} (trees : ∀ c ∈ n.children, NestedTree c)
    (tidy : Tidy n.children) (hc : c ∈ n.children) (hm : m ∈ nodes [c])
    (nested : ∀ key', GroupKey.ofHeader? c.text = some key' → (read {} (level + 1) key' c).value.Keeps c m) :
    (read {} level key n).value.Keeps n m := by
  have writable : ∀ p ∈ n.children.map (part {} level), PartWritable p := by
    intro p hp
    obtain ⟨c, hc, rfl⟩ := List.mem_map.1 hp
    exact partWritable trees tidy level c hc
  have mem := List.mem_map_of_mem (f := part {} level) hc
  rw [value_read]
  -- By what the line is taken for: the parts of one kind are merged, and nothing in them is lost.
  rcases part_cases level c with ⟨header, part⟩ | ⟨header, part⟩ | ⟨key', group, part⟩ | ⟨-, part⟩
    <;> rw [part] at mem
  · replace mem := List.mem_filterMap.2 ⟨_, mem, (rfl : GroupPart.entrance? _ = _)⟩
    rcases Forest.mem_nodes_singleton.1 hm with rfl | hm
    · exact .entranceHeader hc header (Text.isSome_merge? mem)
    · obtain ⟨t, found, holds⟩ := (Forest.holds_text (tidy.children hc) (c.depth + 1) hm).merge?
        (isBlock_entrance writable) mem
      exact .entrance hc header hm found holds
  · replace mem := List.mem_filterMap.2 ⟨_, mem, (rfl : GroupPart.exit? _ = _)⟩
    rcases Forest.mem_nodes_singleton.1 hm with rfl | hm
    · exact .exitHeader hc header (Text.isSome_merge? mem)
    · obtain ⟨t, found, holds⟩ := (Forest.holds_text (tidy.children hc) (c.depth + 1) hm).merge?
        (isBlock_exit writable) mem
      exact .exit hc header hm found holds
  · exact .nested hc (List.mem_filterMap.2 ⟨_, mem, rfl⟩) (line_read {} _ key' c) (nested key' group)
  · replace mem := List.mem_filterMap.2 ⟨_, mem, (rfl : GroupPart.rule? _ = _)⟩
    have rules_tidy := tidy.sublist (filterMap_rule?_sublist {} level n.children)
    refine .rule hc hm ?_ (Forest.holds_text rules_tidy (n.depth + 1) (Forest.mem_nodes_iff.2 ⟨c, mem, hm⟩))
    exact if_neg (by simpa using List.ne_nil_of_mem mem)

/-- A group that is read keeps every line of its tree. -/
theorem keeps_read {f : List Node} (trees : ∀ n ∈ f, NestedTree n) (tidy : Tidy f) :
    ∀ n ∈ f, ∀ (level : Nat) (key : GroupKey), GroupKey.ofHeader? n.text = some key →
      ∀ m ∈ nodes [n], (read {} level key n).value.Keeps n m := by
  induction f using Forest.induction with
  | nil => simp
  | cons n ns ihc ih =>
    intro k hk level key group m hm
    rcases List.mem_cons.1 hk with rfl | hk
    · have under := tidy.children List.mem_cons_self
      have under_trees : ∀ c ∈ k.children, NestedTree c := fun c hc =>
        (trees k List.mem_cons_self).children.tree hc
      rcases Forest.mem_nodes_singleton.1 hm with rfl | hm
      · refine .header ?_ ?_
        · rw [line_read]
        · rw [value_read]
          exact group
      · obtain ⟨c, hc, hm⟩ := Forest.mem_nodes_iff.1 hm
        exact keeps_inner under_trees under hc hm fun key' group' =>
          ihc under_trees under c hc (level + 1) key' group' m hm
    · exact ih (fun j hj => trees j (List.mem_cons_of_mem n hj)) (Forest.tidy_cons.1 tidy).2.2 k hk level key
        group m hm

end SetRuleGroup

/-! ### Rules of an action -/

/-- The rules keep a line of `n` or under it, where `n` stands directly under `Action Rules`. -/
inductive ActionRules.Keeps (rules : ActionRules) (n : Node) : Node → Prop
  | text {m : Node} {t : Text} (plain : GroupKey.ofHeader? n.text = none) (mem : .text t ∈ rules.items)
      (holds : t.Holds m) : Keeps rules n m
  | group {m : Node} {g : SetRuleGroup} (mem : .group g ∈ rules.items) (line : g.line = n.line)
      (keeps : g.Keeps n m) : Keeps rules n m

namespace ActionRules

/-- Every plain line is in a run. -/
theorem exists_run_of_plain {f : List Node} {n : Node} (mem : n ∈ f)
    (plain : GroupKey.ofHeader? n.text = none) :
    ∃ run, .inl run ∈ f.foldr (addRun {}) [] ∧ n ∈ run := by
  have single : .inl n ∈ (f.foldr (addRun {}) []).flatMap joined := by
    rw [flatMap_joined_runs]
    exact List.mem_map.2 ⟨n, mem, alone_of_plain plain⟩
  obtain ⟨r, hr, hn⟩ := List.mem_flatMap.1 single
  cases r with
  | inl run =>
    obtain ⟨m, hm, same⟩ := List.mem_map.1 hn
    exact ⟨run, hr, Sum.inl.inj same ▸ hm⟩
  | inr g => cases List.mem_singleton.1 hn

/-- Every line that opens a group is read as a group. -/
theorem mem_foldr_addRun_of_group {f : List Node} {n : Node} (mem : n ∈ f) {key : GroupKey}
    (group : GroupKey.ofHeader? n.text = some key) :
    .inr (SetRuleGroup.read {} 1 key n).value ∈ f.foldr (addRun {}) [] := by
  have single : .inr (SetRuleGroup.read {} 1 key n).value ∈ (f.foldr (addRun {}) []).flatMap joined := by
    rw [flatMap_joined_runs]
    exact List.mem_map.2 ⟨n, mem, alone_of_group group⟩
  obtain ⟨r, hr, hg⟩ := List.mem_flatMap.1 single
  cases r with
  | inl run =>
    obtain ⟨m, -, same⟩ := List.mem_map.1 hg
    cases same
  | inr g =>
    have same := Sum.inr.inj (List.mem_singleton.1 hg)
    rwa [same]

/-- Rules that are read keep every line. -/
theorem keeps_read {f : List Node} (trees : ∀ n ∈ f, NestedTree n) (tidy : Tidy f) (base : Nat) {n : Node}
    (mem : n ∈ f) : ∀ m ∈ nodes [n], (read {} base f).value.Keeps n m := by
  intro m hm
  cases group : GroupKey.ofHeader? n.text with
  | some key =>
    have item := List.mem_map_of_mem (f := item base) (mem_foldr_addRun_of_group mem group)
    rw [← items_read] at item
    exact .group item (SetRuleGroup.line_read {} 1 key n)
      (SetRuleGroup.keeps_read trees tidy n mem 1 key group m hm)
  | none =>
    obtain ⟨run, hr, hn⟩ := exists_run_of_plain mem group
    have run_tidy := (runOf_foldr_addRun f _ hr).tidy tidy
    have item := List.mem_map_of_mem (f := item base) hr
    rw [← items_read] at item
    exact .text group item (Forest.holds_text run_tidy base (Forest.mem_nodes_iff.2 ⟨n, hn, hm⟩))

end ActionRules

end BusinessClass
