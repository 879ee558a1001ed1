import BusinessClass.Proofs.Document.Contents

/-!
# Where problems come from

Every problem that is noted while an outline is read is noted at the line that it is about. A problem that
quotes a line quotes that one, and a problem that names a group is noted at a header of this group.

* `Diagnostic.Kind.Concerns` says that a problem is about a line with a given text.
* `Diagnostic.NotedIn` says that a problem is noted at a node of a forest and concerns it.
* `SetRuleGroup.IsProblem` says that a problem is one of a group; `ActionRules.isProblem_read`: what is noted about
  the rules of an action.
* `Action.notedIn_read` and `Declaration.notedIn_readAll`: what is noted about the other parts of an outline.
* `Document.notedIn_notesOf`: what is noted about the items of a class.
-/

namespace BusinessClass

open Forest (nodes)

namespace Diagnostic

namespace Kind

/-- The line that a problem quotes. -/
def text? : Kind → Option Text
  | .unrecognizedHeader text _ => some text
  | .unknownSectionContent text => some text
  | .malformedActionHeader text => some text
  | _ => none

/-- The group of rules that a problem names. -/
def groupName? : Kind → Option Text
  | .unterminatedSetRuleGroup name => some name
  | .depthLimitExceeded name _ => some name
  | _ => none

/-- Whether the problem is one of an outline: of neither the indentation nor the document as a whole. -/
def isOfOutline : Kind → Bool
  | .malformedIndentation _ | .missingClassHeader | .emptyDocument => false
  | _ => true

/-- The problem is about a line with this text: it quotes no other, and a group that it names is opened there. -/
structure Concerns (kind : Kind) (t : Text) : Prop where
  text : ∀ u ∈ kind.text?, u = t
  group : ∀ name ∈ kind.groupName?, ∃ key, GroupKey.ofHeader? t = some key ∧ key.name = name

theorem Concerns.of_text {kind : Kind} {t : Text} (text : kind.text? = some t) (group : kind.groupName? = none) :
    kind.Concerns t where
  text u hu := (Option.some.inj (text.symm.trans hu)).symm
  group name hname := by rw [group] at hname; cases hname

theorem Concerns.of_group {kind : Kind} {t : Text} {key : GroupKey} (text : kind.text? = none)
    (group : kind.groupName? = some key.name) (opens : GroupKey.ofHeader? t = some key) : kind.Concerns t where
  text u hu := by rw [text] at hu; cases hu
  group name hname := ⟨key, opens, Option.some.inj (group.symm.trans hname)⟩

theorem Concerns.of_none {kind : Kind} (text : kind.text? = none) (group : kind.groupName? = none) (t : Text) :
    kind.Concerns t where
  text u hu := by rw [text] at hu; cases hu
  group name hname := by rw [group] at hname; cases hname

end Kind

/-- The problem is noted at a node of the forest, and concerns its line. -/
def NotedIn (f : List Node) (d : Diagnostic) : Prop :=
  ∃ n ∈ nodes f, ∃ kind : Kind, kind.Concerns n.text ∧ kind.isOfOutline = true ∧ d = n.note kind

theorem NotedIn.mono {f g : List Node} {d : Diagnostic} (h : d.NotedIn f) (sub : ∀ n ∈ nodes f, n ∈ nodes g) :
    d.NotedIn g := by
  obtain ⟨n, hn, noted⟩ := h
  exact ⟨n, sub n hn, noted⟩

theorem NotedIn.of_mem {f : List Node} {n : Node} {d : Diagnostic} (h : d.NotedIn [n]) (mem : n ∈ nodes f) :
    d.NotedIn f := h.mono fun _ hm => (Forest.nodes_sublist_of_mem n mem).subset hm

theorem NotedIn.of_child {n c : Node} {d : Diagnostic} (h : d.NotedIn [c]) (mem : c ∈ n.children) :
    d.NotedIn [n] :=
  h.of_mem ((Forest.nodes_children_sublist n).subset ((Forest.sublist_nodes n.children).subset mem))

theorem notedIn_note {n : Node} {kind : Kind} (concerns : kind.Concerns n.text)
    (isOfOutline : kind.isOfOutline = true) : (n.note kind).NotedIn [n] :=
  ⟨n, Forest.mem_nodes_self n, kind, concerns, isOfOutline, rfl⟩

end Diagnostic

open Diagnostic (NotedIn notedIn_note)
open Diagnostic.Kind (Concerns)

variable {o : Options} {d : Diagnostic}

/-! ### Rules -/

namespace SetRuleGroup

/-- The problem is one of a group that a line of the forest opens: it is nested too deep, or nothing stands under
its header. -/
def IsProblem (o : Options) (f : List Node) (d : Diagnostic) : Prop :=
  ∃ n ∈ nodes f, ∃ key, GroupKey.ofHeader? n.text = some key ∧
    (d = n.note (.unterminatedSetRuleGroup key.name) ∨ d = tooDeep o key n)

theorem IsProblem.mono {f g : List Node} (h : IsProblem o f d) (sub : ∀ n ∈ nodes f, n ∈ nodes g) :
    IsProblem o g d := by
  obtain ⟨n, hn, problem⟩ := h
  exact ⟨n, sub n hn, problem⟩

theorem IsProblem.notedIn {f : List Node} (h : IsProblem o f d) : NotedIn f d := by
  obtain ⟨n, hn, key, opens, rfl | rfl⟩ := h
  · exact ⟨n, hn, _, .of_group rfl rfl opens, rfl, rfl⟩
  · exact ⟨n, hn, _, .of_group rfl rfl opens, rfl, rfl⟩

/-- A line that opens a group is too deep, or the problem is noted in the group. -/
theorem isProblem_openingNotes {key : GroupKey} {c : Node} (opens : GroupKey.ofHeader? c.text = some key)
    (group : ∀ level, ∀ d ∈ (read o level key c).notes, IsProblem o [c] d) {level : Nat}
    (hd : d ∈ openingNotes o level key c) : IsProblem o [c] d := by
  rw [openingNotes] at hd
  split at hd
  · exact group (level + 1) d hd
  · exact ⟨c, Forest.mem_nodes_self c, key, opens, Or.inr (List.mem_singleton.1 hd)⟩

theorem isProblem_read (f : List Node) : ∀ (level : Nat) (key : GroupKey), ∀ n ∈ f,
    GroupKey.ofHeader? n.text = some key → ∀ d ∈ (read o level key n).notes, IsProblem o [n] d := by
  -- Groups inside a group have their own keys and levels, so the induction is on the forest that holds the group.
  induction f using Forest.induction with
  | nil => simp
  | cons m ms ihc ih =>
    intro level key n hn opens d hd
    rcases List.mem_cons.1 hn with rfl | hn
    · rw [notes_read] at hd
      rcases List.mem_append.1 hd with hd | hd
      · rw [unterminated] at hd
        split at hd
        · exact ⟨n, Forest.mem_nodes_self n, key, opens, Or.inl (List.mem_singleton.1 hd)⟩
        · cases hd
      · obtain ⟨c, hc, hd⟩ := List.mem_flatMap.1 hd
        have under : ∀ m ∈ nodes [c], m ∈ nodes [n] := fun m hm =>
          (Forest.nodes_children_sublist n).subset
            ((Forest.nodes_sublist_of_mem c ((Forest.sublist_nodes n.children).subset hc)).subset hm)
        rw [innerNotes] at hd
        split at hd
        · cases hd
        · cases header : GroupKey.ofHeader? c.text with
          | none =>
            rw [header] at hd
            cases hd
          | some key' =>
            rw [header] at hd
            exact (isProblem_openingNotes header (fun level => ihc level key' c hc header) hd).mono under
    · exact ih level key n hn opens d hd

end SetRuleGroup

/-- What is noted about the rules of an action are problems with their groups. -/
theorem ActionRules.isProblem_read (base : Nat) {f : List Node} (hd : d ∈ (read o base f).notes) :
    SetRuleGroup.IsProblem o f d := by
  rw [notes_read] at hd
  obtain ⟨n, hn, hd⟩ := List.mem_flatMap.1 hd
  rw [runNotes] at hd
  cases header : GroupKey.ofHeader? n.text with
  | none =>
    rw [header] at hd
    cases hd
  | some key =>
    rw [header] at hd
    have single := fun level => SetRuleGroup.isProblem_read (o := o) [n] level key n (List.mem_singleton_self n) header
    refine (SetRuleGroup.isProblem_openingNotes header single hd).mono fun m hm => ?_
    exact (Forest.nodes_sublist_of_mem n ((Forest.sublist_nodes f).subset hn)).subset hm

/-! ### Declarations -/

theorem Noted.notedIn_gather {α : Type} {read : Node → Noted (Option α)}
    (each : ∀ n, ∀ d ∈ (read n).notes, NotedIn [n] d) {ns : List Node} (hd : d ∈ (gather read ns).notes) :
    NotedIn ns d := by
  rw [notes_gather] at hd
  obtain ⟨n, hn, hd⟩ := List.mem_flatMap.1 hd
  exact (each n d hd).of_mem ((Forest.sublist_nodes ns).subset hn)

/-- A line that is no header is quoted. -/
theorem Declaration.notedIn_ofSplit {n : Node} {make : Header → List Node → Declaration}
    (hd : d ∈ (ofSplit o n make).notes) : NotedIn [n] d := by
  rw [ofSplit, split] at hd
  cases header : Header.ofText o.phrases n.text n.line n.span with
  | ok h =>
    rw [header] at hd
    cases hd
  | error e =>
    rw [header] at hd
    rw [List.mem_singleton.1 hd]
    exact notedIn_note (.of_text rfl rfl) rfl

namespace Action

theorem notedIn_readSection {depth : Nat} {kind : ActionSectionKind} {ns : List Node}
    (hd : d ∈ (readSection o depth kind ns).notes) : NotedIn ns d := by
  have fields (isLocal : Bool) (hd : d ∈ (Noted.gather
      (fun n => Declaration.ofSplit o n (Declaration.ofField o isLocal)) ns).notes) : NotedIn ns d :=
    Noted.notedIn_gather (fun _ _ => Declaration.notedIn_ofSplit) hd
  cases kind with
  | parameters => exact fields false hd
  | localFields => exact fields true hd
  | actionRules => exact (ActionRules.isProblem_read (baseDepth depth ns) hd).notedIn
  | _ => cases hd

theorem notedIn_read {n : Node} (hd : d ∈ (read o n).notes) : NotedIn [n] d := by
  cases header : Header.recognize o.phrases n.text n.line n.span with
  | error e =>
    rw [read_of_error header, List.mem_singleton] at hd
    rw [hd]
    exact notedIn_note (.of_text rfl rfl) rfl
  | ok h =>
    rw [read_of_ok header] at hd
    rcases List.mem_append.1 hd with hd | hd
    · obtain ⟨e, he, rfl⟩ := List.mem_map.1 hd
      exact (notedIn_note (.of_none rfl rfl _) rfl).of_child (repeated_distribute o n.children e he).1
    · obtain ⟨e, he, hd⟩ := List.mem_flatMap.1 hd
      refine (notedIn_readSection hd).mono fun m hm => (Forest.nodes_children_sublist n).subset ?_
      exact ((sections_distribute o n.children).2 e he).subset hm

end Action

namespace Declaration

variable {kind : SectionKind}

theorem notedIn_read {n : Node} (hd : d ∈ (read o kind n).notes) : NotedIn [n] d := by
  by_cases actions : kind = .actions
  · subst actions
    exact Action.notedIn_read hd
  · rw [read_eq_build actions] at hd
    exact notedIn_ofSplit hd

theorem notedIn_readAll {ns : List Node} (hd : d ∈ (readAll o kind ns).notes) : NotedIn ns d :=
  Noted.notedIn_gather (fun _ _ => notedIn_read) hd

end Declaration

/-! ### Documents -/

namespace Document

theorem notedIn_repeated {n : Node} {isKnown : Bool} {name : Text} (hd : d ∈ Draft.repeated n isKnown name) :
    NotedIn [n] d := by
  rw [Draft.repeated] at hd
  split at hd
  · rw [List.mem_singleton.1 hd]
    exact notedIn_note (.of_none rfl rfl _) rfl
  · cases hd

theorem notedIn_itemNotes {before : List Node} {n : Node} (hd : d ∈ itemNotes o before n) : NotedIn [n] d := by
  rw [itemNotes] at hd
  split at hd
  · cases hd
  · cases hd
  · rcases List.mem_append.1 hd with hd | hd
    · exact notedIn_repeated hd
    · exact (Declaration.notedIn_readAll hd).mono fun m hm => (Forest.nodes_children_sublist n).subset hm
  · exact notedIn_repeated hd
  · split at hd
    · exact Declaration.notedIn_readAll hd
    · rw [List.mem_singleton.1 hd]
      exact notedIn_note (.of_text rfl rfl) rfl

/-- What is noted about the items of a class is noted at their lines. -/
theorem notedIn_notesOf {items : List Node} (hd : d ∈ notesOf o items) : NotedIn items d := by
  obtain ⟨e, he, hd⟩ := List.mem_flatMap.1 hd
  refine (notedIn_itemNotes hd).mono fun m hm => ?_
  rw [nodes_eq_flatMap_withBefore]
  exact List.mem_flatMap.2 ⟨e, he, hm⟩

end Document

end BusinessClass
