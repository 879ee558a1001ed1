import BusinessClass.Proofs.SetRules.Budget

/-!
# Rules lose no line

The lines under `Action Rules` come out as lines of texts and as headers of groups, each of them once: reading rules
sorts the lines and repeats none. Headers are taken as they are written, since a group does not keep how its header was
spelled, and a group has one header of entrance rules and one of exit rules, however many there are in the source.

* `Text.bareLines`: the lines of a text without the tabs in front. `SetRuleGroup.bareLines` and `ActionRules.bareLines`
  collect them from what was read, `Node.canonicalLines` and `ActionRules.canonicalLines` from the source.
* `SetRuleGroup.GatheredFrom` and `RuleItem.GatheredFrom` say for each part of what was read which lines of the source
  it has, in the order of the source.
* `ActionRules.read_conserves`: the same lines, as often as in the source, and the items in the order of the source.
-/

namespace BusinessClass

open Forest (nodes)

/-! ### Lines without tabs in front -/

namespace Text

theorem split_append_cons_sep {sep : Char → Bool} {d : Char} (hd : sep d = true) (s t : Text) :
    split sep (s ++ d :: t) = split sep s ++ split sep t := by
  induction s with
  | nil => simp [split, hd]
  | cons c s ih =>
    rw [List.cons_append, split, split, ih]
    split
    · rfl
    · obtain ⟨w, ws, hs⟩ := List.exists_cons_of_ne_nil (split_ne_nil sep s)
      rw [hs]
      rfl

/-- The lines of a text that say something, without the tabs in front of them. -/
def bareLines (t : Text) : List Text :=
  ((split (· == '\n') t).map (List.dropWhile (· == '\t'))).filter fun l => !l.isEmpty

theorem bareLines_append_feed (s t : Text) : bareLines (s ++ '\n' :: t) = bareLines s ++ bareLines t := by
  rw [bareLines, split_append_cons_sep (by decide), List.map_append, List.filter_append]
  rfl

theorem bareLines_tabs (k : Nat) (t : Text) : bareLines (List.replicate k '\t' ++ t) = bareLines t := by
  induction k with
  | zero => rfl
  | succ k ih =>
    rw [List.replicate_succ, List.cons_append, ← ih, bareLines, split, if_neg (by decide), bareLines]
    obtain ⟨w, ws, hs⟩ := List.exists_cons_of_ne_nil (split_ne_nil (· == '\n') (List.replicate k '\t' ++ t))
    rw [hs, consHead_cons, List.map_cons, List.map_cons, List.dropWhile_cons_of_pos (by decide)]

theorem bareLines_stack (ts : List Text) : bareLines (stack ts) = ts.flatMap bareLines := by
  induction ts with
  | nil => rfl
  | cons t ts ih =>
    cases ts with
    | nil => simp
    | cons u us =>
      rw [stack_cons_cons, bareLines_append_feed, ih]
      rfl

theorem bareLines_merge (blocks : List Text) : bareLines (merge blocks) = blocks.flatMap bareLines := by
  rw [merge, bareLines_stack]
  induction blocks with
  | nil => rfl
  | cons b bs ih =>
    rw [List.filter_cons]
    split
    · rw [List.flatMap_cons, List.flatMap_cons, ih]
    · rename_i empty
      obtain rfl : b = [] := by simpa using empty
      exact ih

/-- Content is one line, and nothing stands in front of it. -/
theorem IsContent.bareLines {t : Text} (h : IsContent t) : t.bareLines = [t] := by
  have no_feed : ∀ c ∈ t, (c == '\n') = false := fun c hc =>
    beq_eq_false_iff_ne.2 fun feed => h.no_feed (feed ▸ hc)
  have self : t.dropWhile (· == '\t') = t := h.dropWhile_tabs 0
  have ne_nil : (!t.isEmpty) = true := by simpa using h.ne_nil
  rw [Text.bareLines, split_eq_singleton no_feed, List.map_singleton, self, List.filter_singleton, ne_nil]
  rfl

/-- The lines of a block all say something. -/
theorem IsBlock.bareLines {t : Text} (h : IsBlock t) :
    t.bareLines = t.lines.map (List.dropWhile (· == '\t')) := by
  obtain ⟨ls, lines, rfl⟩ := h
  rw [bareLines_stack, lines_stack lines, List.map_eq_flatMap]
  refine List.flatMap_congr fun l hl => ?_
  have := bareLines_tabs (l.takeWhile (· == '\t')).length (l.dropWhile (· == '\t'))
  rw [IsLine.eq] at this
  rw [this]
  exact IsContent.bareLines (lines l hl)

end Text

namespace Forest

/-- The lines of a forest in source order. -/
def bareLines (f : List Node) : List Text := (nodes f).flatMap fun n => n.text.bareLines

theorem bareLines_cons (n : Node) (ns : List Node) : bareLines (n :: ns) = bareLines [n] ++ bareLines ns := by
  simp [bareLines]

theorem bareLines_eq_flatMap (f : List Node) : bareLines f = f.flatMap fun n => bareLines [n] := by
  induction f with
  | nil => rfl
  | cons n ns ih => rw [bareLines_cons, ih, List.flatMap_cons]

/-- The text of a forest has its lines. -/
theorem bareLines_text (f : List Node) (base : Nat) : (text f base).bareLines = bareLines f := by
  rw [text, Text.bareLines_stack, List.flatMap_map]
  exact List.flatMap_congr fun n _ => Text.bareLines_tabs _ _

theorem bareLines_text? (f : List Node) (base : Nat) :
    (text? f base).elim [] Text.bareLines = bareLines f := by
  cases f with
  | nil => rfl
  | cons n ns => exact bareLines_text (n :: ns) base

/-- The header, if some line is such a header. -/
def once (header : Text) (f : List Node) : List Text := if f.any (·.headerIs header) then [header] else []

end Forest

open Forest (bareLines once)

theorem Node.bareLines_bodyText (n : Node) : n.bodyText.bareLines = bareLines n.children := Forest.bareLines_text _ _

/-! ### Lines of what was read and lines of the source -/

namespace SetRuleGroup

/-- A header and the lines under it, if the header is there. -/
def headed (header : Text) (t : Option Text) : List Text := t.elim [] fun t => header :: t.bareLines

mutual

/-- All lines of a group, those of the groups nested in it included. -/
def bareLines : SetRuleGroup → List Text
  | ⟨key, _, entrance, exit, rules, children⟩ =>
    key.header :: (rules.elim [] Text.bareLines ++ headed entranceHeader entrance ++ headed exitHeader exit ++
      bareLinesAll children)

/-- All lines of some groups. -/
def bareLinesAll : List SetRuleGroup → List Text
  | [] => []
  | g :: gs => g.bareLines ++ bareLinesAll gs

end

mutual

/-- All texts of a group, those of the groups nested in it included. -/
def texts : SetRuleGroup → List Text
  | ⟨_, _, entrance, exit, rules, children⟩ => rules.toList ++ entrance.toList ++ exit.toList ++ textsAll children

/-- All texts of some groups. -/
def textsAll : List SetRuleGroup → List Text
  | [] => []
  | g :: gs => g.texts ++ textsAll gs

end

theorem bareLinesAll_eq_flatMap (gs : List SetRuleGroup) : bareLinesAll gs = gs.flatMap bareLines := by
  induction gs with
  | nil => rfl
  | cons g gs ih => rw [bareLinesAll, ih, List.flatMap_cons]

theorem textsAll_eq_flatMap (gs : List SetRuleGroup) : textsAll gs = gs.flatMap texts := by
  induction gs with
  | nil => rfl
  | cons g gs ih => rw [textsAll, ih, List.flatMap_cons]

theorem bareLines_eq (g : SetRuleGroup) : g.bareLines = g.key.header :: (g.rules.elim [] Text.bareLines ++
    headed entranceHeader g.entrance ++ headed exitHeader g.exit ++ g.children.flatMap bareLines) := by
  cases g
  rw [bareLines, bareLinesAll_eq_flatMap]

theorem texts_eq (g : SetRuleGroup) :
    g.texts = g.rules.toList ++ g.entrance.toList ++ g.exit.toList ++ g.children.flatMap texts := by
  cases g
  rw [texts, textsAll_eq_flatMap]

end SetRuleGroup

namespace RuleItem

/-- The lines of a text, or all lines of a group. -/
def bareLines : RuleItem → List Text
  | .text t => t.bareLines
  | .group g => g.bareLines

/-- A text by itself, or all texts of a group. -/
def texts : RuleItem → List Text
  | .text t => [t]
  | .group g => g.texts

end RuleItem

open SetRuleGroup (entranceHeader exitHeader)

namespace Node

/-- Whether the line opens a group at that level of nesting. -/
def opensGroup (o : Options) (level : Nat) (n : Node) : Bool := (GroupKey.ofHeader? n.text).isSome && o.admitsLevel level

/-- Whether the line stays a rule of the group that it stands in. -/
def staysRule (o : Options) (level : Nat) (n : Node) : Bool :=
  !n.headerIs entranceHeader && !n.headerIs exitHeader && !n.opensGroup o (level + 1)

mutual

/-- The lines of a tree whose root may open a group at that level of nesting: headers of groups, of entrance rules and
of exit rules as they are written, repeated ones of entrance and of exit rules once. -/
def canonicalLines (o : Options) (level : Nat) : Node → List Text
  | ⟨text, depth, line, span, children⟩ =>
    match GroupKey.ofHeader? text with
    | none => bareLines [⟨text, depth, line, span, children⟩]
    | some key =>
      if o.admitsLevel level then
        key.header :: (once entranceHeader children ++ once exitHeader children ++ innerLines o level children)
      else bareLines [⟨text, depth, line, span, children⟩]

/-- The lines under the header of a group, those of entrance and exit rules without their headers. -/
def innerLines (o : Options) (level : Nat) : List Node → List Text
  | [] => []
  | n :: ns =>
    (if n.headerIs entranceHeader || n.headerIs exitHeader then bareLines n.children
      else n.canonicalLines o (level + 1)) ++ innerLines o level ns

end

end Node

/-! ### Where the parts come from -/

/-- The text is there if there is one of these blocks, and it has the lines of the forest in their order. -/
structure SetRuleGroup.Gathers (t : Option Text) (blocks f : List Node) : Prop where
  isSome : t.isSome = !blocks.isEmpty
  lines : t.elim [] Text.bareLines = Forest.bareLines f

mutual

/-- The group is read from that line at that level of nesting: its texts have the lines under the line in source order,
and its nested groups are read, in source order, from those lines directly under it that open groups. -/
inductive SetRuleGroup.GatheredFrom (o : Options) : Nat → Node → SetRuleGroup → Prop
  | mk {level : Nat} {n : Node} {g : SetRuleGroup} (key : GroupKey.ofHeader? n.text = some g.key)
      (admitted : o.admitsLevel level = true) (line : g.line = n.line)
      (entrance : Gathers g.entrance (n.children.filter (·.headerIs entranceHeader))
        ((n.children.filter (·.headerIs entranceHeader)).flatMap Node.children))
      (exit : Gathers g.exit (n.children.filter (·.headerIs exitHeader))
        ((n.children.filter (·.headerIs exitHeader)).flatMap Node.children))
      (rules : Gathers g.rules (n.children.filter (Node.staysRule o level)) (n.children.filter (Node.staysRule o level)))
      (nested : AllGatheredFrom o (level + 1) (n.children.filter (Node.opensGroup o (level + 1))) g.children) :
      GatheredFrom o level n g

/-- The groups are read from these lines in turn. -/
inductive SetRuleGroup.AllGatheredFrom (o : Options) : Nat → List Node → List SetRuleGroup → Prop
  | nil {level : Nat} : AllGatheredFrom o level [] []
  | cons {level : Nat} {n : Node} {ns : List Node} {g : SetRuleGroup} {gs : List SetRuleGroup}
      (first : GatheredFrom o level n g) (others : AllGatheredFrom o level ns gs) :
      AllGatheredFrom o level (n :: ns) (g :: gs)

end

/-- The item is read from these lines under `Action Rules`: a text from lines of which none opens a group, a group from
the line that opens it. -/
inductive RuleItem.GatheredFrom (o : Options) : List Node → RuleItem → Prop
  | text {run : List Node} {t : Text} (ne_nil : run ≠ []) (plain : ∀ n ∈ run, n.opensGroup o 1 = false)
      (lines : t.bareLines = Forest.bareLines run) : GatheredFrom o run (.text t)
  | group {n : Node} {g : SetRuleGroup} (gathered : SetRuleGroup.GatheredFrom o 1 n g) : GatheredFrom o [n] (.group g)

/-! ### Groups -/

namespace Node

theorem canonicalLines_of_opensGroup {o : Options} {level : Nat} {n : Node} {key : GroupKey}
    (group : GroupKey.ofHeader? n.text = some key) (admitted : o.admitsLevel level = true) :
    n.canonicalLines o level = key.header ::
      (once entranceHeader n.children ++ once exitHeader n.children ++ innerLines o level n.children) := by
  obtain ⟨text, depth, line, span, children⟩ := n
  simp only at group
  simp [canonicalLines, group, admitted]

theorem canonicalLines_of_not_opensGroup {o : Options} {level : Nat} {n : Node} (plain : n.opensGroup o level = false) :
    n.canonicalLines o level = bareLines [n] := by
  obtain ⟨text, depth, line, span, children⟩ := n
  rw [opensGroup] at plain
  simp only at plain
  cases group : GroupKey.ofHeader? text with
  | none => simp [canonicalLines, group]
  | some key =>
    have refused : o.admitsLevel level = false := by simpa [group] using plain
    simp [canonicalLines, group, refused]

/-- What a line directly under the header of a group can be, and what it is read as. -/
theorem inGroup_cases (o : Options) (level : Nat) (c : Node) :
    (c.headerIs entranceHeader = true ∧ c.headerIs exitHeader = false ∧ c.opensGroup o (level + 1) = false ∧
        SetRuleGroup.part o level c = .entrance c.bodyText) ∨
      (c.headerIs entranceHeader = false ∧ c.headerIs exitHeader = true ∧ c.opensGroup o (level + 1) = false ∧
        SetRuleGroup.part o level c = .exit c.bodyText) ∨
      (c.headerIs entranceHeader = false ∧ c.headerIs exitHeader = false ∧ c.opensGroup o (level + 1) = false ∧
        SetRuleGroup.part o level c = .rule c) ∨
      ∃ key, (c.headerIs entranceHeader = false ∧ c.headerIs exitHeader = false ∧ c.opensGroup o (level + 1) = true) ∧
        GroupKey.ofHeader? c.text = some key ∧ o.admitsLevel (level + 1) = true ∧
        SetRuleGroup.part o level c = .nested (SetRuleGroup.read o (level + 1) key c).value := by
  have opens (header : c.headerIs entranceHeader = true ∨ c.headerIs exitHeader = true) :
      c.opensGroup o (level + 1) = false := by
    rw [opensGroup]
    cases group : GroupKey.ofHeader? c.text with
    | none => rfl
    | some key =>
      obtain ⟨entrance, exit⟩ := GroupKey.not_part_of_ofHeader? group
      simp [headerIs, entrance, exit] at header
  rcases SetRuleGroup.part_kinds c with ⟨is, part⟩ | ⟨isNot, is, part⟩ | ⟨rule, part⟩ | ⟨key, ⟨isNot, isNot', group⟩, part⟩
  · refine .inl ⟨is, ?_, opens (.inl is), part o level⟩
    by_contra exit
    rw [Bool.not_eq_false, headerIs, Text.sameWords_comm] at exit
    have := Text.sameWords_trans exit is
    rw [SetRuleGroup.not_headerIs_exit] at this
    cases this
  · exact .inr (.inl ⟨isNot, is, opens (.inr is), part o level⟩)
  · exact .inr (.inr (.inl ⟨rule.entrance, rule.exit, by rw [opensGroup, rule.group]; rfl, part o level⟩))
  · rw [opensGroup, group, part o level]
    cases admitted : o.admitsLevel (level + 1) with
    | false => exact .inr (.inr (.inl ⟨isNot, isNot', rfl, rfl⟩))
    | true => exact .inr (.inr (.inr ⟨key, ⟨isNot, isNot', rfl⟩, rfl, rfl, rfl⟩))

/-- The lines under the header of a group are those of its rules, its entrance rules, its exit rules and its nested
groups. -/
theorem innerLines_perm (o : Options) (level : Nat) (cs : List Node) :
    (bareLines (cs.filter (staysRule o level)) ++
        bareLines ((cs.filter (·.headerIs entranceHeader)).flatMap children) ++
        bareLines ((cs.filter (·.headerIs exitHeader)).flatMap children) ++
        (cs.filter (opensGroup o (level + 1))).flatMap (canonicalLines o (level + 1))).Perm (innerLines o level cs) := by
  rw [List.perm_iff_count]
  intro l
  induction cs with
  | nil => rfl
  | cons c cs ih =>
    simp only [List.count_append] at ih ⊢
    rw [innerLines, List.count_append, ← ih]
    have append (f g : List Node) : (bareLines (f ++ g)).count l = (bareLines f).count l + (bareLines g).count l := by
      simp [bareLines]
    -- a line passes exactly one of the four filters, and counts on both sides are sums
    rcases inGroup_cases o level c with ⟨is, isNot, plain, -⟩ | ⟨isNot, is, plain, -⟩ | ⟨isNot, isNot', plain, -⟩ |
      ⟨key, ⟨isNot, isNot', group⟩, -⟩
    · have stays : c.staysRule o level = false := by rw [staysRule, is]; rfl
      simp [stays, is, isNot, plain, append]
      omega
    · have stays : c.staysRule o level = false := by rw [staysRule, is, isNot]; rfl
      simp [stays, is, isNot, plain, append]
      omega
    · have stays : c.staysRule o level = true := by rw [staysRule, isNot, isNot', plain]; rfl
      have own := append [c] (cs.filter (staysRule o level))
      rw [List.singleton_append] at own
      rw [canonicalLines_of_not_opensGroup plain]
      simp [stays, isNot, isNot', plain, own]
      omega
    · have stays : c.staysRule o level = false := by rw [staysRule, isNot, isNot', group]; rfl
      simp [stays, isNot, isNot', group]
      omega

end Node

namespace SetRuleGroup

/-- A header and the lines of the blocks under such headers. -/
theorem headed_of_gathers {header : Text} {t : Option Text} {cs : List Node}
    (gathers : Gathers t (cs.filter (·.headerIs header)) ((cs.filter (·.headerIs header)).flatMap Node.children)) :
    headed header t = once header cs ++ Forest.bareLines ((cs.filter (·.headerIs header)).flatMap Node.children) := by
  obtain ⟨isSome, lines⟩ := gathers
  rw [once, ← lines]
  have any : cs.any (·.headerIs header) = t.isSome := by
    rw [isSome, Bool.eq_iff_iff]
    simp
  rw [any]
  cases t <;> rfl

mutual

/-- A group that is read from a line has the lines of the line and under it. -/
theorem GatheredFrom.perm {o : Options} {level : Nat} {n : Node} {g : SetRuleGroup} :
    GatheredFrom o level n g → g.bareLines.Perm (n.canonicalLines o level)
  | .mk key admitted _ entrance exit rules nested => by
    have inner := Node.innerLines_perm o level n.children
    have groups := nested.perm
    rw [bareLines_eq, Node.canonicalLines_of_opensGroup key admitted, rules.lines, headed_of_gathers entrance,
      headed_of_gathers exit]
    refine List.Perm.cons _ (List.perm_iff_count.2 fun l => ?_)
    have inner_count := inner.count_eq l
    have groups_count := groups.count_eq l
    simp only [List.count_append] at inner_count ⊢
    omega

theorem AllGatheredFrom.perm {o : Options} {level : Nat} {ns : List Node} {gs : List SetRuleGroup} :
    AllGatheredFrom o level ns gs → (gs.flatMap bareLines).Perm (ns.flatMap (Node.canonicalLines o level))
  | .nil => .nil
  | .cons first others => by
    rw [List.flatMap_cons, List.flatMap_cons]
    exact first.perm.append others.perm

end

/-! ### Reading groups -/

theorem gathers_merge? (blocks : List Node) :
    Gathers (Text.merge? (blocks.map Node.bodyText)) blocks (blocks.flatMap Node.children) := by
  have lines : Forest.bareLines (blocks.flatMap Node.children) = (blocks.map Node.bodyText).flatMap Text.bareLines := by
    rw [List.flatMap_map]
    induction blocks with
    | nil => rfl
    | cons b bs ih =>
      rw [List.flatMap_cons, List.flatMap_cons, Node.bareLines_bodyText, ← ih]
      simp [Forest.bareLines]
  cases blocks with
  | nil => exact ⟨rfl, rfl⟩
  | cons b bs =>
    refine ⟨rfl, ?_⟩
    rw [lines, ← Text.bareLines_merge]
    rfl

theorem gathers_text? (f : List Node) (base : Nat) : Gathers (Forest.text? f base) f f := by
  refine ⟨?_, Forest.bareLines_text? f base⟩
  cases f <;> rfl

section Parts

variable (o : Options) (level : Nat) (cs : List Node)

/-- The parts of one kind come from the lines of one kind. -/
theorem filterMap_part {α : Type} {kind : GroupPart → Option α} {p : Node → Bool} {value : Node → α}
    (h : ∀ c, kind (part o level c) = if p c then some (value c) else none) :
    (cs.map (part o level)).filterMap kind = (cs.filter p).map value := by
  induction cs with
  | nil => rfl
  | cons c cs ih =>
    rw [List.map_cons, List.filterMap_cons, h, List.filter_cons, ih]
    cases p c <;> rfl

theorem filterMap_entrance?_part : (cs.map (part o level)).filterMap GroupPart.entrance? =
    (cs.filter (·.headerIs entranceHeader)).map Node.bodyText := by
  refine filterMap_part o level cs fun c => ?_
  rcases Node.inGroup_cases o level c with ⟨is, -, -, part⟩ | ⟨isNot, -, -, part⟩ | ⟨isNot, -, -, part⟩ |
    ⟨key, ⟨isNot, -, -⟩, -, -, part⟩ <;> simp [*] <;> rfl

theorem filterMap_exit?_part : (cs.map (part o level)).filterMap GroupPart.exit? =
    (cs.filter (·.headerIs exitHeader)).map Node.bodyText := by
  refine filterMap_part o level cs fun c => ?_
  rcases Node.inGroup_cases o level c with ⟨-, isNot, -, part⟩ | ⟨-, is, -, part⟩ | ⟨-, isNot, -, part⟩ |
    ⟨key, ⟨-, isNot, -⟩, -, -, part⟩ <;> simp [*] <;> rfl

theorem filterMap_rule?_part : (cs.map (part o level)).filterMap GroupPart.rule? = cs.filter (Node.staysRule o level) := by
  rw [← List.map_id (cs.filter _)]
  refine filterMap_part o level cs fun c => ?_
  rcases Node.inGroup_cases o level c with ⟨is, -, -, part⟩ | ⟨isNot, is, -, part⟩ | ⟨isNot, isNot', plain, part⟩ |
    ⟨key, ⟨isNot, isNot', group⟩, -, -, part⟩ <;> simp [Node.staysRule, *] <;> rfl

/-- The nested groups are read from the lines that open them, if each of these lines is read as a group. -/
theorem allGatheredFrom_part
    (read : ∀ c ∈ cs, ∀ key, GroupKey.ofHeader? c.text = some key → o.admitsLevel (level + 1) = true →
      GatheredFrom o (level + 1) c (read o (level + 1) key c).value) :
    AllGatheredFrom o (level + 1) (cs.filter (Node.opensGroup o (level + 1)))
      ((cs.map (part o level)).filterMap GroupPart.nested?) := by
  induction cs with
  | nil => exact .nil
  | cons c cs ih =>
    have others := ih fun d hd => read d (List.mem_cons_of_mem c hd)
    rcases Node.inGroup_cases o level c with ⟨-, -, plain, part⟩ | ⟨-, -, plain, part⟩ | ⟨-, -, plain, part⟩ |
        ⟨key, ⟨-, -, group⟩, opens, admitted, part⟩
    all_goals rw [List.map_cons, part]
    case inr.inr.inr =>
      rw [List.filter_cons_of_pos group]
      exact .cons (read c List.mem_cons_self key opens admitted) others
    all_goals
      rw [List.filter_cons_of_neg (by simp [plain])]
      exact others

end Parts

/-- A group is read from its header line. -/
theorem gatheredFrom_read (o : Options) (f : List Node) : ∀ (level : Nat) (key : GroupKey), ∀ n ∈ f,
    GroupKey.ofHeader? n.text = some key → o.admitsLevel level = true →
      GatheredFrom o level n (read o level key n).value := by
  induction f using Forest.induction with
  | nil => simp
  | cons n ns under ih =>
    intro level key m hm group admitted
    rcases List.mem_cons.1 hm with rfl | hm
    · -- the nested groups are one level further in, so the hypothesis is for every level
      rw [value_read, ofParts, filterMap_entrance?_part, filterMap_exit?_part, filterMap_rule?_part]
      exact .mk group admitted rfl (gathers_merge? _) (gathers_merge? _) (gathers_text? _ _)
        (allGatheredFrom_part o level _ fun c hc key => under (level + 1) key c hc)
    · exact ih level key m hm group admitted

/-- The texts of a group that is read from tidy lines are blocks. -/
theorem isBlock_of_mem_texts (o : Options) (f : List Node) : ∀ (level : Nat) (key : GroupKey), ∀ n ∈ f,
    Forest.Tidy n.children → ∀ t ∈ (read o level key n).value.texts, t.IsBlock := by
  induction f using Forest.induction with
  | nil => simp
  | cons n ns under ih =>
    intro level key m hm tidy t ht
    rcases List.mem_cons.1 hm with rfl | hm
    · have bodies (header : Text) : ∀ b ∈ (m.children.filter (·.headerIs header)).map Node.bodyText, b.IsBlock := by
        intro b hb
        obtain ⟨c, hc, rfl⟩ := List.mem_map.1 hb
        exact Forest.isBlock_text (tidy.children (List.mem_filter.1 hc).1) _
      rw [texts_eq, value_read, ofParts, filterMap_entrance?_part, filterMap_exit?_part, filterMap_rule?_part] at ht
      simp only [List.mem_append, Option.mem_toList, List.mem_flatMap] at ht
      rcases ht with ((rules | entrance) | exit) | ⟨g, hg, ht⟩
      · rw [Forest.text?, Option.ite_none_left_eq_some] at rules
        obtain rfl := Option.some.inj rules.2
        exact Forest.isBlock_text (tidy.sublist List.filter_sublist) _
      · exact Text.isBlock_merge? (bodies entranceHeader) t entrance
      · exact Text.isBlock_merge? (bodies exitHeader) t exit
      · rw [List.filterMap_map] at hg
        obtain ⟨c, hc, nested⟩ := List.mem_filterMap.1 hg
        rw [Function.comp_apply] at nested
        rcases Node.inGroup_cases o level c with ⟨-, -, -, part⟩ | ⟨-, -, -, part⟩ | ⟨-, -, -, part⟩ |
          ⟨key', -, -, -, part⟩ <;> rw [part] at nested <;> cases nested
        exact under (level + 1) key' c hc (tidy.children hc) t ht
    · exact ih level key m hm tidy t ht

end SetRuleGroup

/-! ### Rules of an action -/

namespace ActionRules

/-- A plain line goes with the lines behind it or stands by itself. -/
theorem gatheredFrom_consLine {o : Options} {base : Nat} {n : Node} (plain : n.opensGroup o 1 = false)
    {pieces : List (List Node)} {runs : List (List Node ⊕ SetRuleGroup)}
    (gathered : List.Forall₂ (RuleItem.GatheredFrom o) pieces (runs.map (item base))) :
    ∃ pieces', pieces'.flatten = n :: pieces.flatten ∧
      List.Forall₂ (RuleItem.GatheredFrom o) pieces' ((consLine n runs).map (item base)) := by
  have alone : RuleItem.GatheredFrom o [n] (.text (Forest.text [n] base)) :=
    .text (by simp) (by simpa using plain) (Forest.bareLines_text [n] base)
  match runs, gathered with
  | [], .nil => exact ⟨[[n]], rfl, .cons alone .nil⟩
  | .inr g :: runs, gathered => exact ⟨[n] :: pieces, rfl, .cons alone gathered⟩
  | .inl run :: runs, @List.Forall₂.cons _ _ _ p _ ps _ first others =>
    obtain ⟨ne_nil, plain', lines⟩ := first
    refine ⟨(n :: p) :: ps, rfl, .cons (.text (by simp) (List.forall_mem_cons.2 ⟨plain, plain'⟩) ?_) others⟩
    rw [Forest.bareLines_text] at lines ⊢
    rw [Forest.bareLines_cons, lines, ← Forest.bareLines_cons]

/-- The items are read from the lines in turn, and each line belongs to one of them. -/
theorem exists_pieces (o : Options) (base : Nat) (f : List Node) : ∃ pieces : List (List Node), pieces.flatten = f ∧
    List.Forall₂ (RuleItem.GatheredFrom o) pieces (read o base f).value.items := by
  rw [items_read]
  induction f with
  | nil => exact ⟨[], rfl, .nil⟩
  | cons n ns ih =>
    obtain ⟨pieces, rfl, gathered⟩ := ih
    rw [List.foldr_cons]
    rcases addRun_cases o n (pieces.flatten.foldr (addRun o) []) with ⟨key, group, admitted, read⟩ | ⟨plain, read⟩
    · rw [read]
      exact ⟨[n] :: pieces, rfl,
        .cons (.group (SetRuleGroup.gatheredFrom_read o [n] 1 key n List.mem_cons_self group admitted)) gathered⟩
    · rw [read]
      exact gatheredFrom_consLine plain gathered

/-- Items have the lines that they are read from. -/
theorem perm_of_gatheredFrom {o : Options} {pieces : List (List Node)} {items : List RuleItem}
    (gathered : List.Forall₂ (RuleItem.GatheredFrom o) pieces items) :
    (items.flatMap RuleItem.bareLines).Perm (pieces.flatten.flatMap (Node.canonicalLines o 1)) := by
  induction gathered with
  | nil => exact .nil
  | @cons piece item pieces items first _ ih =>
    rw [List.flatMap_cons, List.flatten_cons, List.flatMap_append]
    refine List.Perm.append ?_ ih
    cases first with
    | text ne_nil plain lines =>
      rw [RuleItem.bareLines, lines, Forest.bareLines_eq_flatMap]
      exact .of_eq (List.flatMap_congr fun n hn => (Node.canonicalLines_of_not_opensGroup (plain n hn)).symm)
    | group gathered =>
      rw [List.flatMap_singleton]
      exact gathered.perm

/-- A run is part of the lines, and a group is read from one of them. -/
theorem sources_of_mem_foldr_addRun (o : Options) (f : List Node) : ∀ r ∈ f.foldr (addRun o) [],
    (∃ run, r = .inl run ∧ ∀ n ∈ run, n ∈ f) ∨ ∃ n ∈ f, ∃ key, r = .inr (SetRuleGroup.read o 1 key n).value := by
  intro r hr
  have alone_cases (n : Node) : alone o n = .inl n ∨ ∃ key, alone o n = .inr (SetRuleGroup.read o 1 key n).value := by
    rw [alone]
    cases GroupKey.ofHeader? n.text with
    | none => exact .inl rfl
    | some key =>
      simp only
      split
      · exact .inr ⟨key, rfl⟩
      · exact .inl rfl
  cases r with
  | inl run =>
    refine .inl ⟨run, rfl, fun n hn => ?_⟩
    obtain ⟨m, hm, is⟩ := exists_alone_of_mem_runs hr (List.mem_map_of_mem hn)
    rcases alone_cases m with plain | ⟨key, group⟩
    · rw [plain] at is
      exact Sum.inl.inj is ▸ hm
    · rw [group] at is
      cases is
  | inr g =>
    obtain ⟨m, hm, is⟩ := exists_alone_of_mem_runs hr (List.mem_singleton_self _)
    rcases alone_cases m with plain | ⟨key, group⟩
    · rw [plain] at is
      cases is
    · exact .inr ⟨m, hm, key, congrArg Sum.inr (Sum.inr.inj (is.symm.trans group))⟩

/-- The texts of rules that are read from tidy lines are blocks. -/
theorem isBlock_of_mem_texts {o : Options} {base : Nat} {f : List Node} (tidy : Forest.Tidy f) :
    ∀ t ∈ (read o base f).value.items.flatMap RuleItem.texts, t.IsBlock := by
  intro t ht
  rw [items_read, List.flatMap_map] at ht
  obtain ⟨r, hr, ht⟩ := List.mem_flatMap.1 ht
  rcases sources_of_mem_foldr_addRun o f r hr with ⟨run, rfl, sub⟩ | ⟨n, hn, key, rfl⟩
  · obtain rfl := List.mem_singleton.1 ht
    have run_tidy := Forest.tidy_of_forall fun n hn => ⟨tidy.isContent (sub n hn), tidy.children (sub n hn)⟩
    exact Forest.isBlock_text run_tidy base
  · exact SetRuleGroup.isBlock_of_mem_texts o f 1 key n hn (tidy.children hn) t ht

/-- Reading rules loses and repeats no line, for any bound on the nesting of groups. What was read has the lines of the
source, headers as they are written and repeated headers of entrance and of exit rules once. The items come from the
lines under `Action Rules` in the order of the source, and so do the lines within each text of a group; no two texts
stand side by side. Of lines that say something and of texts made of them, the bare lines are all lines. -/
theorem read_conserves (o : Options) (base : Nat) (f : List Node) :
    ((read o base f).value.items.flatMap RuleItem.bareLines).Perm (f.flatMap (Node.canonicalLines o 1)) ∧
      (∃ pieces : List (List Node), pieces.flatten = f ∧
        List.Forall₂ (RuleItem.GatheredFrom o) pieces (read o base f).value.items) ∧
      (read o base f).value.items.IsChain RuleItem.Alternates ∧
      (Forest.Tidy f → (∀ n ∈ nodes f, n.text.bareLines = [n.text]) ∧
        ∀ t ∈ (read o base f).value.items.flatMap RuleItem.texts,
          t.bareLines = t.lines.map (List.dropWhile (· == '\t'))) := by
  obtain ⟨pieces, whole, gathered⟩ := exists_pieces o base f
  refine ⟨?_, ⟨pieces, whole, gathered⟩, ?_, fun tidy => ⟨fun n hn => ?_, fun t ht => ?_⟩⟩
  · rw [← whole] at gathered ⊢
    exact perm_of_gatheredFrom gathered
  · rw [items_read]
    exact isChain_foldr_addRun o base f
  · exact (tidy n.toLine (List.mem_map_of_mem hn)).bareLines
  · exact (isBlock_of_mem_texts tidy t ht).bareLines

/-- Plain lines around a group with two headers of entrance rules and a nested group. -/
def mixed : List Node :=
  Forest.outline ["before".toList, "a.b set  rules".toList, "\tentrance rules".toList, "\t\tx".toList, "\trule".toList,
    "\tEntrance Rules".toList, "\t\ty".toList, "\tset rules".toList, "\t\tz".toList, "after".toList]

theorem read_conserves_mixed : Forest.Tidy mixed ∧
    ((read (({} : Options).withMaxDepth 1) 0 mixed).value.items.flatMap RuleItem.bareLines).Perm
      ["before".toList, "a.b Set Rules".toList, "Entrance Rules".toList, "x".toList, "rule".toList, "y".toList,
        "set rules".toList, "z".toList, "after".toList] ∧
    ((read (({} : Options).withMaxDepth 2) 0 mixed).value.items.flatMap RuleItem.bareLines).Perm
      ["before".toList, "a.b Set Rules".toList, "Entrance Rules".toList, "x".toList, "rule".toList, "y".toList,
        "Set Rules".toList, "z".toList, "after".toList] ∧
    ∀ t ∈ (read (({} : Options).withMaxDepth 1) 0 mixed).value.items.flatMap RuleItem.texts,
      t.bareLines = t.lines.map (List.dropWhile (· == '\t')) := by
  have tidy : Forest.Tidy mixed := by
    unfold Forest.Tidy
    decide +kernel
  have shallow := read_conserves (({} : Options).withMaxDepth 1) 0 mixed
  have deep := read_conserves (({} : Options).withMaxDepth 2) 0 mixed
  exact ⟨tidy, shallow.1.trans (.of_eq (by decide +kernel)), deep.1.trans (.of_eq (by decide +kernel)),
    (shallow.2.2.2 tidy).2⟩

end ActionRules

end BusinessClass
