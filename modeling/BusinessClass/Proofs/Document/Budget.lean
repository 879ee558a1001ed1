import BusinessClass.Proofs.Document.Relocation
import BusinessClass.Proofs.Document.Sections
import BusinessClass.Proofs.SetRules.Budget
import BusinessClass.Proofs.Source.Layout
import Mathlib.Data.List.Flatten
import Mathlib.Data.List.Nodup

/-!
# A bound on the nesting of groups in a document

The bound on the nesting of groups takes effect in the rules of actions and nowhere else.

* `Document.allRules` and `Document.leveledGroups` list the rules and groups of a document,
  `Document.mapRules` changes its rules.
* `Document.document_classify_withMaxDepth` carries what the bound does to rules over to documents, and
  `Document.trims_classify` what it does to problems.
* `Document.trims_read_withMaxDepth` compares reading with and without the bound.
-/

namespace BusinessClass

open Forest (nodes)

/-! ### The rules of a document -/

namespace ActionSection

/-- The rules, if the sub-section holds some. -/
def actionRules? : ActionSection → Option ActionRules
  | .actionRules r => some r
  | _ => none

/-- The sub-section with other rules. -/
def mapRules (F : ActionRules → ActionRules) : ActionSection → ActionSection
  | .actionRules r => .actionRules (F r)
  | other => other

end ActionSection

namespace Action

/-- The rules in all sub-sections of the action. -/
def allRules (a : Action) : List ActionRules := a.sections.filterMap fun e => e.2.actionRules?

/-- The action with other rules. -/
def mapRules (F : ActionRules → ActionRules) (a : Action) : Action :=
  { a with sections := a.sections.map fun e => (e.1, e.2.mapRules F) }

end Action

namespace Declaration

/-- The rules in all sub-sections of the declaration, if it is an action. -/
def allRules : Declaration → List ActionRules
  | .action a => a.allRules
  | _ => []

/-- The declaration with other rules. -/
def mapRules (F : ActionRules → ActionRules) : Declaration → Declaration
  | .action a => .action (a.mapRules F)
  | other => other

end Declaration

namespace Document

/-- The rules of all actions. -/
def allRules (d : Document) : List ActionRules := d.declarations.flatMap Declaration.allRules

/-- The groups that are nested in no other group. -/
def ruleGroups (d : Document) : List SetRuleGroup := d.allRules.flatMap ActionRules.groups

/-- All groups in order, each with its level. -/
def leveledGroups (d : Document) : List (Nat × SetRuleGroup) := d.allRules.flatMap ActionRules.leveledGroups

/-- The document with other rules. -/
def mapRules (F : ActionRules → ActionRules) (d : Document) : Document :=
  { d with
    sections := d.sections.map fun e =>
      (e.1, { e.2 with declarations := e.2.declarations.map (Declaration.mapRules F) }) }

end Document

theorem ActionSection.mapRules_id (c : ActionSection) : c.mapRules id = c := by
  cases c <;> rfl

theorem Declaration.mapRules_id (d : Declaration) : d.mapRules id = d := by
  cases d with
  | action a =>
    obtain ⟨header, kind, body, sections⟩ := a
    have same : sections.map (fun e => (e.1, e.2.mapRules id)) = sections := by
      simp only [ActionSection.mapRules_id]
      exact List.map_id' sections
    exact congrArg (fun sections => Declaration.action ⟨header, kind, body, sections⟩) same
  | _ => rfl

theorem Document.mapRules_id (d : Document) : d.mapRules id = d := by
  have declarations : Declaration.mapRules id = id := funext Declaration.mapRules_id
  have sections : d.sections.map (fun e => (e.1, { e.2 with declarations := e.2.declarations.map id }))
      = d.sections := by
    simp only [List.map_id]
    exact List.map_id' d.sections
  rw [mapRules, declarations, sections]

variable {o : Options} {n : Nat}

/-! ### Actions -/

namespace Action

/-- An action has each sub-section once, and a sub-section takes its lines in order. -/
theorem sections_distribute (o : Options) (children : List Node) :
    (Catalog.keys (distribute o children).sections).Nodup ∧
      ∀ e ∈ (distribute o children).sections, (nodes e.2).Sublist (nodes children) := by
  have sorts := Parts.sorts_distribute o children
  refine ⟨sorts.nodup_keys, fun e he => ?_⟩
  rw [sorts.eq_givenTo he]
  exact nodes_givenTo_sublist o e.1 children

theorem actionRules?_readSection (o : Options) (depth : Nat) (kind : ActionSectionKind) (ns : List Node) :
    (readSection o depth kind ns).value.actionRules?
      = if kind = .actionRules then some (ActionRules.read o (baseDepth depth ns) ns).value else none := by
  cases kind <;> rfl

/-- Only the rules of an action depend on the bound. -/
theorem value_readSection_withMaxDepth {F : ActionRules → ActionRules} (depth : Nat) (kind : ActionSectionKind)
    {ns : List Node} (agree : ∀ r, (readSection o.unbounded depth kind ns).value.actionRules? = some r →
      (ActionRules.read (o.withMaxDepth n) (baseDepth depth ns) ns).value = F r) :
    (readSection (o.withMaxDepth n) depth kind ns).value
      = (readSection o.unbounded depth kind ns).value.mapRules F := by
  cases kind with
  | actionRules => exact congrArg ActionSection.actionRules (agree _ rfl)
  | _ => rfl

end Action

namespace Declaration

/-- A line that is no header is not a problem of groups. -/
theorem other_of_ofSplit (o : Options) (m : Node) (make : Header → List Node → Declaration) :
    ∀ d ∈ (ofSplit o m make).notes, d.isDepthLimit = false ∧ d.isUnterminated = false := by
  intro d hd
  rw [ofSplit, split] at hd
  cases header : Header.ofText o.phrases m.text m.line m.span with
  | ok h =>
    rw [header] at hd
    cases hd
  | error e =>
    rw [header] at hd
    rw [List.mem_singleton.1 hd]
    exact ⟨rfl, rfl⟩

end Declaration

namespace Action

variable {isDeep : Nat → Bool}

/-- The groups of a sub-section in order, each with its level. -/
def sectionGroups (c : ActionSection) : List (Nat × SetRuleGroup) :=
  c.actionRules?.toList.flatMap ActionRules.leveledGroups

/-- What is noted about a sub-section under a bound. -/
theorem trims_readSection (depth : Nat) (kind : ActionSectionKind) (ns : List Node)
    (deep : ∀ e ∈ sectionGroups (readSection o.unbounded depth kind ns).value,
      isDeep e.2.line = decide (n < e.1)) :
    Trims n isDeep (sectionGroups (readSection o.unbounded depth kind ns).value)
      (readSection o.unbounded depth kind ns).notes (readSection (o.withMaxDepth n) depth kind ns).notes := by
  have fields (isLocal : Bool) : Trims n isDeep []
      (Noted.gather (fun m => Declaration.ofSplit o.unbounded m (Declaration.ofField o.unbounded isLocal)) ns).notes
      (Noted.gather (fun m => Declaration.ofSplit o.unbounded m (Declaration.ofField o.unbounded isLocal)) ns).notes := by
    refine Trims.of_other fun d hd => ?_
    rw [Noted.notes_gather] at hd
    obtain ⟨m, -, hd⟩ := List.mem_flatMap.1 hd
    exact Declaration.other_of_ofSplit _ _ _ d hd
  cases kind with
  | parameters => exact fields false
  | localFields => exact fields true
  | queueMappingFields => exact Trims.nil
  | sortOrder => exact Trims.nil
  | accumulators => exact Trims.nil
  | parameterRules => exact Trims.nil
  | instanceSelection => exact Trims.nil
  | actionRules =>
    have groups : sectionGroups (readSection o.unbounded depth .actionRules ns).value
        = (ActionRules.read o.unbounded (baseDepth depth ns) ns).value.leveledGroups :=
      List.flatMap_singleton _ _
    rw [groups] at deep ⊢
    exact ActionRules.trims_read deep

theorem notes_readSections (o : Options) (depth : Nat) (pending : Catalog ActionSectionKind (List Node)) :
    (readSections o depth pending).notes = pending.flatMap fun e => (readSection o depth e.1 e.2).notes := by
  rw [readSections, Noted.notes_gather]

/-- An action is read if its line is a typed header. -/
theorem read_of_ok {o : Options} {m : Node} {header : Header}
    (ok : Header.recognize o.phrases m.text m.line m.span = .ok header) :
    read o m = ⟨some
      { header := header.addQualifiers (distribute o m.children).qualifiers
        kind := ActionKind.ofType (header.typeName.getD [])
        body := (distribute o m.children).body
        sections := (distribute o m.children).sections.map fun e =>
          (e.1, (readSection o m.depth e.1 e.2).value) },
      (distribute o m.children).repeated.map (repeatedSection header.name)
        ++ (distribute o m.children).sections.flatMap fun e => (readSection o m.depth e.1 e.2).notes⟩ := by
  rw [read, ok]
  simp only [value_readSections, notes_readSections]

theorem read_of_error {o : Options} {m : Node} {e : HeaderError}
    (error : Header.recognize o.phrases m.text m.line m.span = .error e) :
    read o m = ⟨none, [m.note (.malformedActionHeader m.text)]⟩ := by
  rw [read, error]

/-- Reading under the bound `n` does `F` to all rules from some nodes that have the property `P`. -/
def Agrees (o : Options) (n : Nat) (all : List Node) (P : ActionRules → Prop) (F : ActionRules → ActionRules) :
    Prop :=
  ∀ base f, (∀ c ∈ nodes f, c ∈ all) → P (ActionRules.read o.unbounded base f).value →
    (ActionRules.read (o.withMaxDepth n) base f).value = F (ActionRules.read o.unbounded base f).value

variable {all : List Node} {P : ActionRules → Prop} {F : ActionRules → ActionRules}

/-- The rules of an action are read from lines under it. -/
theorem exists_of_mem_allRules {o : Options} {m : Node} {a : Action} (ha : (read o m).value = some a)
    {r : ActionRules} (hr : r ∈ a.allRules) :
    ∃ base f, (nodes f).Sublist (nodes m.children) ∧ r = (ActionRules.read o base f).value := by
  cases header : Header.recognize o.phrases m.text m.line m.span with
  | error e =>
    rw [read_of_error header] at ha
    cases ha
  | ok h =>
    rw [read_of_ok header] at ha
    cases ha
    obtain ⟨e, he, some⟩ := List.mem_filterMap.1 hr
    obtain ⟨⟨kind, ns⟩, hp, rfl⟩ := List.mem_map.1 he
    rw [actionRules?_readSection] at some
    split at some
    · cases some
      exact ⟨_, ns, (sections_distribute o m.children).2 _ hp, rfl⟩
    · cases some

/-- What the bound does to an action. -/
theorem value_read_withMaxDepth (agrees : Agrees o n all P F) {m : Node} (inside : ∀ c ∈ nodes [m], c ∈ all)
    (within : ∀ a, (read o.unbounded m).value = some a → ∀ r ∈ a.allRules, P r) :
    (read (o.withMaxDepth n) m).value = (read o.unbounded m).value.map (mapRules F) := by
  cases header : Header.recognize o.phrases m.text m.line m.span with
  | error e =>
    rw [read_of_error (o := o.withMaxDepth n) header, read_of_error (o := o.unbounded) header]
    rfl
  | ok h =>
    rw [read_of_ok (o := o.unbounded) header] at within
    rw [read_of_ok (o := o.withMaxDepth n) header, read_of_ok (o := o.unbounded) header]
    refine congrArg (fun sections => some (Action.mk _ _ _ sections)) ?_
    rw [List.map_map]
    refine List.map_congr_left fun e he => congrArg (Prod.mk e.1) ?_
    refine value_readSection_withMaxDepth m.depth e.1 fun r hr => ?_
    have mem := within _ rfl r (List.mem_filterMap.2 ⟨_, List.mem_map_of_mem he, hr⟩)
    rw [actionRules?_readSection] at hr
    split at hr
    · cases hr
      refine agrees _ _ (fun c hc => inside c ?_) mem
      rw [Forest.nodes_cons, Forest.nodes_nil, List.append_nil]
      exact List.mem_cons_of_mem _ (((sections_distribute _ m.children).2 e he).subset hc)
    · cases hr

/-- The groups of an action in order, each with its level. -/
def leveledGroups (a : Action) : List (Nat × SetRuleGroup) := a.allRules.flatMap ActionRules.leveledGroups

theorem leveledGroups_eq (a : Action) : a.leveledGroups = a.sections.flatMap fun e => sectionGroups e.2 := by
  rw [leveledGroups, allRules, List.filterMap_eq_flatMap_toList, List.flatMap_assoc]
  rfl

/-- What is noted about an action under a bound. -/
theorem trims_read {m : Node}
    (deep : ∀ a, (read o.unbounded m).value = some a → ∀ e ∈ a.leveledGroups,
      isDeep e.2.line = decide (n < e.1)) :
    Trims n isDeep ((read o.unbounded m).value.toList.flatMap leveledGroups) (read o.unbounded m).notes
      (read (o.withMaxDepth n) m).notes := by
  cases header : Header.recognize o.phrases m.text m.line m.span with
  | error e =>
    rw [read_of_error (o := o.withMaxDepth n) header, read_of_error (o := o.unbounded) header]
    refine Trims.of_other fun d hd => ?_
    rw [List.mem_singleton.1 hd]
    exact ⟨rfl, rfl⟩
  | ok h =>
    rw [read_of_ok (o := o.unbounded) header] at deep
    rw [read_of_ok (o := o.withMaxDepth n) header, read_of_ok (o := o.unbounded) header]
    have deep := deep _ rfl
    rw [leveledGroups_eq, List.flatMap_map] at deep
    rw [Option.toList_some, List.flatMap_singleton, leveledGroups_eq, List.flatMap_map]
    show Trims n isDeep ([] ++ _) _ _
    refine (Trims.of_other fun d hd => ?_).append (Trims.flatMap fun e he => ?_)
    · obtain ⟨e, -, rfl⟩ := List.mem_map.1 hd
      exact ⟨rfl, rfl⟩
    · exact trims_readSection m.depth e.1 e.2 fun g hg => deep g (List.mem_flatMap.2 ⟨e, he, hg⟩)

/-- Every group of an action has the line of its header, each header another one. -/
theorem lines_leveledGroups_sublist {o : Options} {m : Node} {a : Action} (ha : (read o m).value = some a) :
    (a.leveledGroups.map fun e => e.2.line).Sublist ((nodes [m]).map Node.line) := by
  cases header : Header.recognize o.phrases m.text m.line m.span with
  | error e =>
    rw [read_of_error header] at ha
    cases ha
  | ok h =>
    rw [read_of_ok header] at ha
    cases ha
    rw [leveledGroups_eq, List.flatMap_map]
    obtain ⟨nodup, sub⟩ := sections_distribute o m.children
    have other : ∀ e ∈ (distribute o m.children).sections, e.1 ≠ .actionRules →
        sectionGroups (readSection o m.depth e.1 e.2).value = [] := by
      intro e _ ne
      rw [sectionGroups, actionRules?_readSection, if_neg ne]
      rfl
    rcases Catalog.flatMap_of_key nodup other with ⟨-, none⟩ | ⟨ns, mem, eq⟩
    · rw [none]
      exact List.nil_sublist _
    · have groups : sectionGroups (readSection o m.depth .actionRules ns).value
          = (ActionRules.read o (baseDepth m.depth ns) ns).value.leveledGroups :=
        List.flatMap_singleton _ _
      rw [eq, groups, Forest.nodes_cons, Forest.nodes_nil, List.append_nil]
      refine (ActionRules.lines_leveledGroups_sublist o _ ns).trans (List.Sublist.map _ ?_)
      exact (sub _ mem).cons m

end Action

/-! ### Declarations -/

namespace Declaration

variable {all : List Node} {P : ActionRules → Prop} {F : ActionRules → ActionRules} {isDeep : Nat → Bool}
  {kind : SectionKind}

/-- Where no actions are declared, a line makes a declaration without rules. -/
theorem read_eq_ofSplit (simple : kind ≠ .actions) (o : Options) : ∃ make : Header → List Node → Declaration,
    (∀ h body, (make h body).allRules = [] ∧ ∀ F, (make h body).mapRules F = make h body) ∧
      ∀ m, read o kind m = ofSplit o m make := by
  have field (isLocal : Bool) (h : Header) (body : List Node) : (ofField o isLocal h body).allRules = [] ∧
      ∀ F, (ofField o isLocal h body).mapRules F = ofField o isLocal h body := by
    rw [ofField]
    split <;> exact ⟨rfl, fun F => rfl⟩
  cases kind with
  | actions => exact absurd rfl simple
  | localFields => exact ⟨_, field true, fun m => rfl⟩
  | conditions => exact ⟨_, fun h body => ⟨rfl, fun F => rfl⟩, fun m => rfl⟩
  | relations => exact ⟨_, fun h body => ⟨rfl, fun F => rfl⟩, fun m => rfl⟩
  | sets => exact ⟨_, fun h body => ⟨rfl, fun F => rfl⟩, fun m => rfl⟩
  | fieldRules => exact ⟨_, fun h body => ⟨rfl, fun F => rfl⟩, fun m => rfl⟩
  | ruleBlocks => exact ⟨_, fun h body => ⟨rfl, fun F => rfl⟩, fun m => rfl⟩
  | _ => exact ⟨_, field false, fun m => rfl⟩

/-- Where no actions are declared, the bound changes nothing. -/
theorem read_withMaxDepth (simple : kind ≠ .actions) (m : Node) :
    read (o.withMaxDepth n) kind m = read o.unbounded kind m := by
  cases kind with
  | actions => exact absurd rfl simple
  | _ => rfl

theorem simple_of_read (simple : kind ≠ .actions) {m : Node} {d : Declaration}
    (hd : (read o kind m).value = some d) : d.allRules = [] ∧ ∀ F, d.mapRules F = d := by
  obtain ⟨make, plain, eq⟩ := read_eq_ofSplit simple o
  rw [eq, value_ofSplit] at hd
  obtain ⟨p, -, rfl⟩ := Option.map_eq_some_iff.1 hd
  exact plain p.1 p.2

/-- The rules of a declaration are read from lines under it. -/
theorem exists_of_mem_allRules {m : Node} {d : Declaration} (hd : (read o kind m).value = some d)
    {r : ActionRules} (hr : r ∈ d.allRules) :
    ∃ base f, (nodes f).Sublist (nodes m.children) ∧ r = (ActionRules.read o base f).value := by
  by_cases actions : kind = .actions
  · subst actions
    obtain ⟨a, ha, rfl⟩ := Option.map_eq_some_iff.1 hd
    exact Action.exists_of_mem_allRules ha hr
  · rw [(simple_of_read actions hd).1] at hr
    cases hr

/-- What the bound does to declarations. -/
theorem value_readAll_withMaxDepth (agrees : Action.Agrees o n all P F) {ns : List Node}
    (inside : ∀ c ∈ nodes ns, c ∈ all)
    (within : ∀ d ∈ (readAll o.unbounded kind ns).value, ∀ r ∈ d.allRules, P r) :
    (readAll (o.withMaxDepth n) kind ns).value = (readAll o.unbounded kind ns).value.map (mapRules F) := by
  rw [readAll, Noted.value_gather] at within
  rw [readAll, readAll, Noted.value_gather, Noted.value_gather, List.map_filterMap]
  refine List.filterMap_congr fun m hm => ?_
  have found := fun d hd => within d (List.mem_filterMap.2 ⟨m, hm, hd⟩)
  by_cases actions : kind = .actions
  · subst actions
    have value := Action.value_read_withMaxDepth agrees
      (fun c hc => inside c (Forest.mem_nodes_iff.2 ⟨m, hm, hc⟩))
      (fun a ha r hr => found (.action a) (by rw [read, ha]; rfl) r hr)
    rw [read, read]
    simp only [value, Option.map_map]
    rfl
  · rw [read_withMaxDepth actions]
    cases value : (read o.unbounded kind m).value with
    | none => rfl
    | some d => exact congrArg some ((simple_of_read actions value).2 F).symm

/-- The groups of a declaration in order, each with its level. -/
def leveledGroups (d : Declaration) : List (Nat × SetRuleGroup) :=
  d.allRules.flatMap ActionRules.leveledGroups

/-- What is noted about declarations under a bound. -/
theorem trims_readAll {ns : List Node}
    (deep : ∀ e ∈ (readAll o.unbounded kind ns).value.flatMap leveledGroups, isDeep e.2.line = decide (n < e.1)) :
    Trims n isDeep ((readAll o.unbounded kind ns).value.flatMap leveledGroups)
      (readAll o.unbounded kind ns).notes (readAll (o.withMaxDepth n) kind ns).notes := by
  have groups : (readAll o.unbounded kind ns).value.flatMap leveledGroups
      = ns.flatMap fun m => (read o.unbounded kind m).value.toList.flatMap leveledGroups := by
    rw [readAll, Noted.value_gather, List.filterMap_eq_flatMap_toList, List.flatMap_assoc]
  rw [groups] at deep
  rw [groups, readAll, readAll, Noted.notes_gather, Noted.notes_gather]
  refine Trims.flatMap fun m hm => ?_
  have found := fun e he => deep e (List.mem_flatMap.2 ⟨m, hm, he⟩)
  by_cases actions : kind = .actions
  · subst actions
    have same : (read o.unbounded .actions m).value.toList.flatMap leveledGroups
        = (Action.read o.unbounded m).value.toList.flatMap Action.leveledGroups := by
      rw [read]
      cases (Action.read o.unbounded m).value <;> rfl
    rw [same] at found ⊢
    exact Action.trims_read fun a ha e he => found e (by rw [ha]; simpa using he)
  · have none : (read o.unbounded kind m).value.toList.flatMap leveledGroups = [] := by
      refine List.flatMap_eq_nil_iff.2 fun d hd => ?_
      rw [leveledGroups, (simple_of_read actions (Option.mem_toList.1 hd)).1]
      rfl
    obtain ⟨make, -, eq⟩ := read_eq_ofSplit actions o.unbounded
    rw [none, read_withMaxDepth actions, eq]
    exact Trims.of_other (other_of_ofSplit _ _ _)

/-- Every group has the line of its header, each header another one. -/
theorem lines_leveledGroups_sublist (o : Options) (kind : SectionKind) (ns : List Node) :
    (((readAll o kind ns).value.flatMap leveledGroups).map fun e => e.2.line).Sublist
      ((nodes ns).map Node.line) := by
  rw [readAll, Noted.value_gather]
  induction ns with
  | nil => exact .slnil
  | cons m ms ih =>
    have cons : (m :: ms).filterMap (fun m => (read o kind m).value)
        = (read o kind m).value.toList ++ ms.filterMap fun m => (read o kind m).value := by
      rw [List.filterMap_cons]
      cases (read o kind m).value <;> rfl
    rw [cons, List.flatMap_append, List.map_append, Forest.nodes_cons, List.map_append]
    refine List.Sublist.append ?_ ih
    cases value : (read o kind m).value with
    | none => exact List.nil_sublist _
    | some d =>
      rw [Option.toList_some, List.flatMap_singleton]
      by_cases actions : kind = .actions
      · subst actions
        obtain ⟨a, ha, rfl⟩ := Option.map_eq_some_iff.1 value
        have lines := Action.lines_leveledGroups_sublist ha
        rw [Forest.nodes_cons, Forest.nodes_nil, List.append_nil] at lines
        exact lines
      · rw [leveledGroups, (simple_of_read actions value).1]
        exact List.nil_sublist _

end Declaration

/-! ### Documents -/

namespace Document

variable {all : List Node} {P : ActionRules → Prop} {F : ActionRules → ActionRules} {isDeep : Nat → Bool}
  {items f : List Node}

theorem eq_of_frame {d e : Document} (frame : d.frame = e.frame) (sections : d.sections = e.sections)
    (classRules : d.classRules = e.classRules) : d = e := by
  cases d
  cases e
  cases frame
  cases sections
  cases classRules
  rfl

/-- Name, type, owner and prefix are read in the same way whatever the bound is. -/
theorem frame_classify (notes : List Diagnostic) (parts : HasParts o.unbounded f) :
    (classify (o.withMaxDepth n) notes f).document.frame = (classify o.unbounded notes f).document.frame := by
  cases root : classRoot? o.unbounded f with
  | some r =>
    rw [classify_of_root (o := o.withMaxDepth n) notes root, classify_of_root notes root, Draft.close,
      Draft.close, frame_ofItems, frame_ofItems]
  | none =>
    rw [classify_of_headless (o := o.withMaxDepth n) notes parts root, classify_of_headless notes parts root,
      frame_ofItems, frame_ofItems]

/-! ### Items -/

theorem nodes_offered_sublist (m : Node) : (nodes (offered m)).Sublist (nodes [m]) := by
  rw [offered]
  split
  · rw [Forest.nodes_cons, Forest.nodes_nil, List.append_nil]
    exact List.sublist_cons_self _ _
  · exact List.Sublist.refl _

theorem nodes_eq_flatMap_withBefore (items : List Node) :
    nodes items = (withBefore items).flatMap fun e => nodes [e.2] := by
  have preorder (m : Node) : nodes [m] = m.preorder := by simp [Forest.nodes_eq_flatMap]
  have along := List.flatMap_map Prod.snd Node.preorder (withBefore items)
  rw [map_snd_withBefore, ← Forest.nodes_eq_flatMap] at along
  simp only [along, preorder]

/-- The items of a class are lines of the outline. -/
theorem nodes_classItems_sublist (o : Options) (f : List Node) : (nodes (classItems o f)).Sublist (nodes f) := by
  have filtered (g : List Node) : (nodes (g.filter fun m => !isProperty m)).Sublist (nodes g) := by
    rw [Forest.nodes_eq_flatMap, Forest.nodes_eq_flatMap]
    exact List.filter_sublist.flatMap _
  rw [classItems]
  cases f with
  | nil => exact .slnil
  | cons root roots =>
    rw [classRoot?]
    cases classHeader? o root with
    | none => exact filtered _
    | some header =>
      refine (filtered (root.children ++ roots)).trans ?_
      rw [Forest.nodes_append, Forest.nodes_cons]
      exact (List.sublist_cons_self _ _).append (List.Sublist.refl _)

theorem isProperty_of_mem_classItems {m : Node} (h : m ∈ classItems o f) : isProperty m = false := by
  simpa using (List.mem_filter.1 h).2

theorem nodes_offered_subset {e : List Node × Node} (he : e ∈ withBefore (classItems o f)) :
    ∀ c ∈ nodes (offered e.2), c ∈ nodes f := by
  intro c hc
  refine (nodes_classItems_sublist o f).subset ?_
  rw [nodes_eq_flatMap_withBefore]
  exact List.mem_flatMap.2 ⟨e, he, (nodes_offered_sublist e.2).subset hc⟩

/-- A section of another kind has no rules. -/
theorem allRules_of_mem_declarationsOf {kind : SectionKind} (simple : kind ≠ .actions) {d : Declaration}
    (hd : d ∈ declarationsOf o kind items) : d.allRules = [] := by
  obtain ⟨e, -, hd⟩ := List.mem_flatMap.1 hd
  split at hd
  · rw [Declaration.readAll, Noted.value_gather] at hd
    obtain ⟨m, -, hd⟩ := List.mem_filterMap.1 hd
    exact (Declaration.simple_of_read simple hd).1
  · cases hd

/-- The rules of a document are those of its actions. -/
theorem allRules_classify (o : Options) (notes : List Diagnostic) (parts : HasParts o f) :
    (classify o notes f).document.allRules
      = (declarationsOf o .actions (classItems o f)).flatMap Declaration.allRules := by
  obtain ⟨sections, -, -⟩ := sorts_classify o notes parts
  have rules : (classify o notes f).document.allRules
      = (classify o notes f).document.sections.flatMap fun e => e.2.declarations.flatMap Declaration.allRules := by
    rw [allRules, declarations, Catalog.values, List.flatMap_map, List.flatMap_assoc]
  have nodup : (Catalog.keys (classify o notes f).document.sections).Nodup := by
    rw [sections, Catalog.keys_map_self]
    exact Catalog.nodup_eraseDups _
  have other : ∀ e ∈ (classify o notes f).document.sections, e.1 ≠ .actions →
      e.2.declarations.flatMap Declaration.allRules = [] := by
    intro e he simple
    rw [sections] at he
    obtain ⟨kind, -, rfl⟩ := List.mem_map.1 he
    exact List.flatMap_eq_nil_iff.2 fun d hd => allRules_of_mem_declarationsOf simple hd
  rw [rules]
  rcases Catalog.flatMap_of_key nodup other with ⟨absent, none⟩ | ⟨s, mem, eq⟩
  · rw [sections, Catalog.keys_map_self] at absent
    have unopened : SectionKind.actions ∉ (classItems o f).filterMap openedSection? := by
      simpa [sectionKinds] using absent
    rw [none, declarationsOf_eq_nil unopened]
    rfl
  · rw [sections] at mem
    obtain ⟨kind, -, same⟩ := List.mem_map.1 mem
    cases same
    exact eq

theorem mem_declarationsOf {kind : SectionKind} {e : List Node × Node} (he : e ∈ withBefore items)
    (belongs : belonging (e.1 ++ [e.2]) = some kind) {d : Declaration}
    (hd : d ∈ (Declaration.readAll o kind (offered e.2)).value) : d ∈ declarationsOf o kind items :=
  List.mem_flatMap.2 ⟨e, he, by rwa [if_pos belongs]⟩

/-- What the bound does to the declarations of a section. -/
theorem declarationsOf_withMaxDepth (agrees : Action.Agrees o n (nodes f) P F) (kind : SectionKind)
    (within : ∀ d ∈ declarationsOf o.unbounded kind (classItems o f), ∀ r ∈ d.allRules, P r) :
    declarationsOf (o.withMaxDepth n) kind (classItems o f)
      = (declarationsOf o.unbounded kind (classItems o f)).map (Declaration.mapRules F) := by
  rw [declarationsOf, declarationsOf, List.map_flatMap]
  refine List.flatMap_congr fun e he => ?_
  split
  · rename_i belongs
    exact Declaration.value_readAll_withMaxDepth agrees (nodes_offered_subset he) fun d hd =>
      within d (mem_declarationsOf he belongs hd)
  · rfl

/-- What the bound does to the rules of a document it does to the document. -/
theorem document_classify_withMaxDepth (agrees : Action.Agrees o n (nodes f) P F) (notes : List Diagnostic)
    (within : ∀ r ∈ (classify o.unbounded notes f).document.allRules, P r) :
    (classify (o.withMaxDepth n) notes f).document
      = (classify o.unbounded notes f).document.mapRules F := by
  by_cases parts : HasParts o.unbounded f
  · have rules := allRules_classify o.unbounded notes parts
    obtain ⟨sections, classRules, -⟩ := sorts_classify o.unbounded notes parts
    obtain ⟨sections', classRules', -⟩ := sorts_classify (o.withMaxDepth n) notes parts
    refine eq_of_frame (frame_classify notes parts) ?_ ?_
    · rw [sections', mapRules, sections, List.map_map]
      refine List.map_congr_left fun kind _ => congrArg (Prod.mk kind) ?_
      refine congrArg (Section.mk kind _) (declarationsOf_withMaxDepth agrees kind fun d hd r hr => ?_)
      by_cases actions : kind = .actions
      · subst actions
        exact within r (by rw [rules]; exact List.mem_flatMap.2 ⟨d, hd, hr⟩)
      · rw [allRules_of_mem_declarationsOf actions hd] at hr
        cases hr
    · rw [classRules', mapRules, classRules]
      rfl
  · rw [classify_of_not_hasParts (o.withMaxDepth n) notes parts, classify_of_not_hasParts _ notes parts]
    rfl

/-- The rules of a document are read from lines of its outline. -/
theorem exists_of_mem_allRules {notes : List Diagnostic} {r : ActionRules}
    (hr : r ∈ (classify o notes f).document.allRules) : ∃ base ns, r = (ActionRules.read o base ns).value := by
  by_cases parts : HasParts o f
  · rw [allRules_classify o notes parts] at hr
    obtain ⟨d, hd, hr⟩ := List.mem_flatMap.1 hr
    obtain ⟨e, -, hd⟩ := List.mem_flatMap.1 hd
    split at hd
    · rw [Declaration.readAll, Noted.value_gather] at hd
      obtain ⟨m, -, hd⟩ := List.mem_filterMap.1 hd
      obtain ⟨base, ns, -, eq⟩ := Declaration.exists_of_mem_allRules hd hr
      exact ⟨base, ns, eq⟩
    · cases hd
  · rw [classify_of_not_hasParts o notes parts] at hr
    cases hr

/-! ### Problems -/

/-- The groups that an item adds, each with its level. -/
def itemGroups (o : Options) (e : List Node × Node) : List (Nat × SetRuleGroup) :=
  (belonging (e.1 ++ [e.2])).elim [] fun kind =>
    (Declaration.readAll o kind (offered e.2)).value.flatMap Declaration.leveledGroups

theorem leveledGroups_classify (o : Options) (notes : List Diagnostic) (parts : HasParts o f) :
    (classify o notes f).document.leveledGroups = (withBefore (classItems o f)).flatMap (itemGroups o) := by
  rw [leveledGroups, allRules_classify o notes parts, List.flatMap_assoc, declarationsOf, List.flatMap_assoc]
  refine List.flatMap_congr fun e he => ?_
  rw [itemGroups]
  cases belonging (e.1 ++ [e.2]) with
  | none => rfl
  | some kind =>
    by_cases actions : kind = .actions
    · subst actions
      rfl
    · have none : (Declaration.readAll o kind (offered e.2)).value.flatMap Declaration.leveledGroups = [] := by
        refine List.flatMap_eq_nil_iff.2 fun d hd => ?_
        rw [Declaration.readAll, Noted.value_gather] at hd
        obtain ⟨m, -, hd⟩ := List.mem_filterMap.1 hd
        rw [Declaration.leveledGroups, (Declaration.simple_of_read actions hd).1]
        rfl
      rw [Option.elim_some, none, if_neg (by simpa using actions)]
      rfl

theorem other_repeated (m : Node) (isKnown : Bool) (name : Text) :
    ∀ d ∈ Draft.repeated m isKnown name, d.isDepthLimit = false ∧ d.isUnterminated = false := by
  intro d hd
  rw [Draft.repeated] at hd
  split at hd
  · rw [List.mem_singleton.1 hd]
    exact ⟨rfl, rfl⟩
  · cases hd

/-- What is noted about an item under a bound. -/
theorem trims_itemNotes {e : List Node × Node} (content : isProperty e.2 = false)
    (deep : ∀ g ∈ itemGroups o.unbounded e, isDeep g.2.line = decide (n < g.1)) :
    Trims n isDeep (itemGroups o.unbounded e) (itemNotes o.unbounded e.1 e.2)
      (itemNotes (o.withMaxDepth n) e.1 e.2) := by
  rw [itemGroups, belonging_concat] at deep
  rw [itemGroups, belonging_concat, itemNotes, itemNotes]
  -- Only what is read into a section has groups; all other notes are untouched by the bound.
  cases item : ClassItem.ofText e.2.text with
  | owner v => simp [isProperty, item] at content
  | classPrefix v => simp [isProperty, item] at content
  | opensSection kind =>
    have opens : openedSection? e.2 = some kind := by rw [openedSection?, item]
    have lines : offered e.2 = e.2.children := by rw [offered, opens]; rfl
    rw [isHeader, opens, lines] at deep ⊢
    show Trims n isDeep ([] ++ _) _ _
    exact (Trims.of_other (other_repeated _ _ _)).append (Declaration.trims_readAll deep)
  | opensBlock kind =>
    have opens : openedSection? e.2 = none := by rw [openedSection?, item]
    have opensBlock : openedBlock? e.2 = some kind := by rw [openedBlock?, item]
    rw [isHeader, opens, opensBlock]
    exact Trims.of_other (other_repeated _ _ _)
  | content =>
    have opens : openedSection? e.2 = none := by rw [openedSection?, item]
    have opensBlock : openedBlock? e.2 = none := by rw [openedBlock?, item]
    have lines : offered e.2 = [e.2] := by rw [offered, opens]; rfl
    rw [isHeader, opens, opensBlock, lines] at deep ⊢
    simp only [Option.isSome_none, Bool.or_self, Bool.false_eq_true, if_false] at deep ⊢
    cases current : belonging e.1 with
    | some kind =>
      rw [current] at deep
      exact Declaration.trims_readAll deep
    | none =>
      refine Trims.of_other fun d hd => ?_
      rw [List.mem_singleton.1 hd]
      exact ⟨rfl, rfl⟩

/-- What is noted about an outline under a bound. -/
theorem trims_classify {notes : List Diagnostic}
    (other : ∀ d ∈ notes, d.isDepthLimit = false ∧ d.isUnterminated = false)
    (deep : ∀ e ∈ (classify o.unbounded notes f).document.leveledGroups, isDeep e.2.line = decide (n < e.1)) :
    Trims n isDeep (classify o.unbounded notes f).document.leveledGroups
      (classify o.unbounded notes f).diagnostics (classify (o.withMaxDepth n) notes f).diagnostics := by
  by_cases parts : HasParts o.unbounded f
  · rw [leveledGroups_classify _ notes parts] at deep ⊢
    rw [(sorts_classify o.unbounded notes parts).2.2, (sorts_classify (o.withMaxDepth n) notes parts).2.2]
    have items : Trims n isDeep ((withBefore (classItems o.unbounded f)).flatMap (itemGroups o.unbounded))
        (notesOf o.unbounded (classItems o.unbounded f))
        (notesOf (o.withMaxDepth n) (classItems (o.withMaxDepth n) f)) := by
      refine Trims.flatMap fun e he => trims_itemNotes ?_ fun g hg => deep g (List.mem_flatMap.2 ⟨e, he, hg⟩)
      have mem : e.2 ∈ classItems o.unbounded f := by
        rw [← map_snd_withBefore (classItems o.unbounded f)]
        exact List.mem_map_of_mem he
      exact isProperty_of_mem_classItems mem
    have headless : Trims n isDeep [] (headlessNotes o.unbounded f) (headlessNotes (o.withMaxDepth n) f) := by
      refine Trims.of_other fun d hd => ?_
      rw [headlessNotes] at hd
      split at hd
      · cases hd
      · rw [List.mem_singleton.1 hd]
        exact ⟨rfl, rfl⟩
    have all := ((Trims.of_other other).append items).append headless
    rwa [List.nil_append, List.append_nil] at all
  · rw [classify_of_not_hasParts (o.withMaxDepth n) notes parts, classify_of_not_hasParts _ notes parts]
    refine Trims.of_other fun d hd => ?_
    rw [List.mem_singleton.1 hd]
    exact ⟨rfl, rfl⟩

/-- Every group of a document has the line of its header, each header another one. -/
theorem lines_leveledGroups_sublist (o : Options) (notes : List Diagnostic) (f : List Node) :
    ((classify o notes f).document.leveledGroups.map fun e => e.2.line).Sublist ((nodes f).map Node.line) := by
  by_cases parts : HasParts o f
  · have items : (((withBefore (classItems o f)).flatMap (itemGroups o)).map fun e => e.2.line).Sublist
        ((nodes (classItems o f)).map Node.line) := by
      rw [nodes_eq_flatMap_withBefore, List.map_flatMap, List.map_flatMap]
      refine List.Sublist.flatMap_right _ fun e _ => ?_
      rw [itemGroups]
      cases belonging (e.1 ++ [e.2]) with
      | none => exact List.nil_sublist _
      | some kind =>
        exact (Declaration.lines_leveledGroups_sublist o kind _).trans ((nodes_offered_sublist e.2).map _)
    rw [leveledGroups_classify o notes parts]
    exact items.trans ((nodes_classItems_sublist o f).map _)
  · rw [classify_of_not_hasParts o notes parts]
    exact List.nil_sublist _

/-! ### Sources -/

/-- The own lines of the group whose header has the given number, as text. -/
def ownTextAt (f : List Node) (line : Nat) : Option Text :=
  ((nodes f).find? (·.line == line)).bind Node.ownText

/-- Whether a group of the document whose header has the given number is nested deeper than `n`. -/
def isTooDeep (d : Document) (n line : Nat) : Bool :=
  d.leveledGroups.any fun e => decide (n < e.1) && e.2.line == line

theorem ownTextAt_line (nodup : ((nodes f).map Node.line).Nodup) {c : Node} (hc : c ∈ nodes f) :
    ownTextAt f c.line = c.ownText := by
  have found : (nodes f).find? (·.line == c.line) = some c := by
    have some : ((nodes f).find? (·.line == c.line)).isSome = true :=
      List.find?_isSome.2 ⟨c, hc, beq_self_eq_true c.line⟩
    obtain ⟨b, hb⟩ := Option.isSome_iff_exists.1 some
    have same : b.line = c.line := by simpa using List.find?_some hb
    rw [hb, List.inj_on_of_nodup_map nodup (List.mem_of_find?_eq_some hb) hc same]
  rw [ownTextAt, found]
  rfl

theorem isTooDeep_line {d : Document} (nodup : (d.leveledGroups.map fun e => e.2.line).Nodup)
    {e : Nat × SetRuleGroup} (he : e ∈ d.leveledGroups) : d.isTooDeep n e.2.line = decide (n < e.1) := by
  rw [isTooDeep, Bool.eq_iff_iff, List.any_eq_true, decide_eq_true_iff]
  constructor
  · rintro ⟨e', he', deep⟩
    rw [Bool.and_eq_true, decide_eq_true_iff, beq_iff_eq] at deep
    rw [← List.inj_on_of_nodup_map nodup he' he deep.2]
    exact deep.1
  · intro deep
    exact ⟨e, he, by simpa using deep⟩

theorem nodup_lines_outline (o : Options) (source : Text) :
    ((nodes (Forest.ofLines 0 (Source.lines o source))).map Node.line).Nodup := by
  have numbers := Source.nodup_number_lines o source
  rw [← Forest.lines_ofLines 0 (Source.lines o source), Forest.lines, List.map_map] at numbers
  exact numbers

theorem other_indentationNotes (o : Options) (source : Text) :
    ∀ d ∈ indentationNotes o source, d.isDepthLimit = false ∧ d.isUnterminated = false := by
  intro d hd
  obtain ⟨l, -, rfl⟩ := List.mem_map.1 hd
  exact ⟨rfl, rfl⟩

/-- A bound `n` on the nesting of groups only cuts. No group nests deeper than `n`. From `n = 1` on, the
document is that without the bound, with every group of level `n` keeping key, line, entrance and exit rules,
having no nested group, and having all its other lines as rules. Of the groups that are nested deeper nothing
is noted but that those of level `n + 1` exceed the bound; all other problems stay. And where no group nests
deeper than `n` without the bound, it changes nothing. -/
theorem trims_read_withMaxDepth (o : Options) (n : Nat) (source : Text) :
    (∀ g ∈ (read (o.withMaxDepth n) source).document.ruleGroups, g.depth ≤ n) ∧
      (1 ≤ n → (read (o.withMaxDepth n) source).document
        = (read o.unbounded source).document.mapRules (ActionRules.mapGroups
            (SetRuleGroup.cutBelow (ownTextAt (Forest.ofLines 0 (Source.lines o source))) (n - 1)))) ∧
      Trims n ((read o.unbounded source).document.isTooDeep n)
        (read o.unbounded source).document.leveledGroups (read o.unbounded source).diagnostics
        (read (o.withMaxDepth n) source).diagnostics ∧
      ((∀ g ∈ (read o.unbounded source).document.ruleGroups, g.depth ≤ n) →
        read (o.withMaxDepth n) source = read o.unbounded source) := by
  have lines := nodup_lines_outline o source
  have trims : Trims n ((read o.unbounded source).document.isTooDeep n)
      (read o.unbounded source).document.leveledGroups (read o.unbounded source).diagnostics
      (read (o.withMaxDepth n) source).diagnostics := by
    refine Trims.withSourceName (trims_classify (other_indentationNotes o source) fun e he => ?_) o.sourceName
    exact isTooDeep_line (lines.sublist (lines_leveledGroups_sublist _ _ _)) he
  refine ⟨fun g hg => ?_, fun pos => ?_, trims, fun shallow => ?_⟩
  · obtain ⟨r, hr, hg⟩ := List.mem_flatMap.1 hg
    obtain ⟨base, ns, rfl⟩ := exists_of_mem_allRules hr
    exact ActionRules.depth_le_of_mem_groups hg
  · refine document_classify_withMaxDepth (P := fun _ => True) (fun base ns inside _ => ?_) _ fun _ _ => trivial
    exact ActionRules.value_read_withMaxDepth pos base fun c hc => ownTextAt_line lines (inside c hc)
  -- If no group is deeper than the bound, reading the rules of each action agrees.
  · have agrees : Action.Agrees o n (nodes (Forest.ofLines 0 (Source.lines o source)))
        (fun r => ∀ g ∈ r.groups, g.depth ≤ n) id := fun base ns _ le => ActionRules.value_read_of_depth_le le
    have document := document_classify_withMaxDepth agrees (indentationNotes o source) fun r hr g hg =>
      shallow g (List.mem_flatMap.2 ⟨r, hr, hg⟩)
    rw [mapRules_id] at document
    have le : ∀ e ∈ (read o.unbounded source).document.leveledGroups, e.1 ≤ n := by
      intro e he
      obtain ⟨r, hr, he⟩ := List.mem_flatMap.1 he
      obtain ⟨g, hg, he⟩ := List.mem_flatMap.1 he
      have lt := (SetRuleGroup.level_of_mem_leveled r.groups 1 g hg e he).2
      have := shallow g (List.mem_flatMap.2 ⟨r, hr, hg⟩)
      omega
    have diagnostics := trims.eq_of_le le fun line => by
      rw [isTooDeep, List.any_eq_false]
      intro e he
      have := le e he
      simp
      omega
    exact congrArg₂ Reading.mk document diagnostics

/-- Groups that nest three levels deep. -/
def nestedSource : Text := Lines.text (
  ["A is a BusinessClass", "\tActions", "\t\tB is a Set Action", "\t\t\tAction Rules", "\t\t\t\tC Set Rules",
    "\t\t\t\t\tD Set Rules", "\t\t\t\t\t\tE Set Rules", "\t\t\t\t\tx", "\t\t\t\t\tExit Rules",
    "\t\t\t\t\t\ty"].map String.toList)

/-- With a bound of one level, the outermost group of `nestedSource` keeps its exit rules, and all its other
lines become its rules. -/
theorem trims_read_withMaxDepth_nestedSource :
    (read ({} : Options).unbounded nestedSource).document.ruleGroups.map SetRuleGroup.depth = [3] ∧
      (∀ g ∈ (read (({} : Options).withMaxDepth 1) nestedSource).document.ruleGroups, g.depth ≤ 1) ∧
      (read (({} : Options).withMaxDepth 1) nestedSource).document.ruleGroups.map
          (fun g => (g.exit, g.rules))
        = [(some "y".toList, some "D Set Rules\n\tE Set Rules\nx".toList)] := by
  obtain ⟨shallow, cut, -, -⟩ := trims_read_withMaxDepth {} 1 nestedSource
  refine ⟨by decide +kernel, shallow, ?_⟩
  rw [cut (Nat.le_refl 1)]
  decide +kernel

end Document

end BusinessClass
