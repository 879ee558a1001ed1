import BusinessClass.Proofs.Diagnostic.Origin

/-!
# What is read of the lines under an action

What is read of an action follows from the roles of the lines under it alone: its qualifiers, its body, its
sub-sections and all that is noted.

* `Action.Gives` says what a line in the place of a field gives: a declaration or a problem.
* `Action.Distributes` gathers what is read of the lines under an action; `distributes_read`: this is what
  reading does.
-/

namespace BusinessClass

/-- Whether the problem is that something was opened before. -/
def Diagnostic.isDuplicate (d : Diagnostic) : Bool :=
  match d.kind with
  | .duplicateSection _ => true
  | _ => false

namespace Action

variable {o : Options}

/-! ### Lines in the places of fields -/

/-- What a line in the place of a field gives: a declaration, or the problem that it is no header. -/
inductive Gives (o : Options) (isLocal : Bool) (n : Node) : Declaration ⊕ Diagnostic → Prop
  | declaration {header : Header} {body : List Node} (split : Declaration.split o n = .ok (header, body)) :
      Gives o isLocal n (.inl (Declaration.ofField o isLocal header body))
  | problem {e : HeaderError} (error : Header.ofText o.phrases n.text n.line n.span = .error e) :
      Gives o isLocal n (.inr (n.note (.unrecognizedHeader n.text e.message)))

/-- A line in the place of a field gives one thing, which is what reading makes of it. -/
theorem exists_gives (o : Options) (isLocal : Bool) (n : Node) : ∃ result, Gives o isLocal n result ∧
    Declaration.ofSplit o n (Declaration.ofField o isLocal) = ⟨result.getLeft?, result.getRight?.toList⟩ := by
  cases header : Header.ofText o.phrases n.text n.line n.span with
  | error e =>
    refine ⟨_, .problem header, ?_⟩
    rw [Declaration.ofSplit, Declaration.split, header]
    rfl
  | ok h =>
    have split : Declaration.split o n = .ok (h.addQualifiers (n.children.filterMap (Node.qualifiers? o)).flatten,
        n.children.filter fun child => (child.qualifiers? o).isNone) := by
      rw [Declaration.split, header]
    refine ⟨_, .declaration split, ?_⟩
    rw [Declaration.ofSplit, split]
    rfl

/-- The lines in the places of fields give one thing each, in order. -/
theorem exists_forall₂_gives (o : Options) (isLocal : Bool) (lines : List Node) :
    ∃ results, List.Forall₂ (Gives o isLocal) lines results ∧
      Noted.gather (fun n => Declaration.ofSplit o n (Declaration.ofField o isLocal)) lines
        = ⟨results.filterMap Sum.getLeft?, results.filterMap Sum.getRight?⟩ := by
  induction lines with
  | nil => exact ⟨[], .nil, rfl⟩
  | cons n lines ih =>
    obtain ⟨results, gives, gather_eq⟩ := ih
    obtain ⟨result, first, split_eq⟩ := exists_gives o isLocal n
    refine ⟨result :: results, .cons first gives, ?_⟩
    rw [Noted.gather, split_eq, gather_eq]
    cases result <;> rfl

theorem exists_readSection_fields (depth : Nat) {kind : ActionSectionKind} (fields : kind.holdsFields = true)
    (lines : List Node) : ∃ results, List.Forall₂ (Gives o (kind == .localFields)) lines results ∧
      readSection o depth kind lines
        = ⟨.fields (results.filterMap Sum.getLeft?), results.filterMap Sum.getRight?⟩ := by
  have read (isLocal : Bool) : ∃ results, List.Forall₂ (Gives o isLocal) lines results ∧
      (⟨.fields (Noted.gather (fun n => Declaration.ofSplit o n (Declaration.ofField o isLocal)) lines).value,
        (Noted.gather (fun n => Declaration.ofSplit o n (Declaration.ofField o isLocal)) lines).notes⟩
          : Noted ActionSection)
        = ⟨.fields (results.filterMap Sum.getLeft?), results.filterMap Sum.getRight?⟩ := by
    obtain ⟨results, gives, gather_eq⟩ := exists_forall₂_gives o isLocal lines
    exact ⟨results, gives, by rw [gather_eq]⟩
  cases kind with
  | parameters => exact read false
  | localFields => exact read true
  | _ => cases fields

/-- What is noted about a sub-section that holds no fields are problems with groups. -/
theorem isProblem_readSection {depth : Nat} {kind : ActionSectionKind} (other : kind.holdsFields = false)
    {lines : List Node} {d : Diagnostic} (hd : d ∈ (readSection o depth kind lines).notes) :
    SetRuleGroup.IsProblem o lines d := by
  cases kind with
  | parameters => cases other
  | localFields => cases other
  | actionRules => exact ActionRules.isProblem_read (baseDepth depth lines) hd
  | _ => cases hd

/-- Nothing in a sub-section is noted as opened before. -/
theorem isDuplicate_readSection {depth : Nat} {kind : ActionSectionKind} {lines : List Node} {d : Diagnostic}
    (hd : d ∈ (readSection o depth kind lines).notes) : d.isDuplicate = false := by
  have fields {isLocal : Bool} (hd : d ∈ (Noted.gather
      (fun n => Declaration.ofSplit o n (Declaration.ofField o isLocal)) lines).notes) : d.isDuplicate = false := by
    rw [Noted.notes_gather] at hd
    obtain ⟨n, -, hd⟩ := List.mem_flatMap.1 hd
    obtain ⟨result, gives, split_eq⟩ := exists_gives o isLocal n
    rw [split_eq] at hd
    cases gives with
    | declaration => cases hd
    | problem => rw [List.mem_singleton.1 hd]; rfl
  cases kind with
  | parameters => exact fields hd
  | localFields => exact fields hd
  | actionRules =>
    obtain ⟨n, -, key, -, rfl | rfl⟩ := ActionRules.isProblem_read (baseDepth depth lines) hd
    · rfl
    · rfl
  | _ => cases hd

/-- An action and what is noted about it are what the lines under `n` give by their roles; `h` is the header
that is read of the line of `n`. -/
structure Distributes (o : Options) (n : Node) (h : Header) (a : Action) (noted : List Diagnostic) : Prop where
  header : a.header = h.addQualifiers (phrasesOf o n.children)
  body : a.body = bodyOf o n.children
  sections : a.sections = (openedKinds n.children).map fun kind =>
    (kind, (readSection o n.depth kind (givenTo o kind n.children)).value)
  notes : noted = (repeats n.children).map (repeatedSection h.name)
    ++ (openedKinds n.children).flatMap fun kind => (readSection o n.depth kind (givenTo o kind n.children)).notes
  duplicates : noted.filter Diagnostic.isDuplicate = (repeats n.children).map fun e =>
    e.2.note (.duplicateSection (h.name ++ ".".toList ++ e.1.name))
  fields : ∀ kind ∈ openedKinds n.children, kind.holdsFields = true →
    ∃ results, List.Forall₂ (Gives o (kind == .localFields)) (givenTo o kind n.children) results ∧
      readSection o n.depth kind (givenTo o kind n.children)
        = ⟨.fields (results.filterMap Sum.getLeft?), results.filterMap Sum.getRight?⟩
  others : ∀ kind ∈ openedKinds n.children, kind.holdsFields = false →
    ∀ d ∈ (readSection o n.depth kind (givenTo o kind n.children)).notes,
      SetRuleGroup.IsProblem o (givenTo o kind n.children) d

/-- Every line under an action plays exactly one role. A line that is a typed header is read as an action that
has what the lines under it give by their roles; any other gives no action and one problem. -/
theorem distributes_read (o : Options) (n : Node) :
    (∀ i c, n.children[i]? = some c → ∃ r, (cast o n.children)[i]? = some (c, r) ∧
      ∀ r', Plays o (n.children.take i) c r' ↔ r' = r) ∧
    match Header.recognize o.phrases n.text n.line n.span with
    | .ok h => ∃ a noted, read o n = ⟨some a, noted⟩ ∧ Distributes o n h a noted
    | .error _ => read o n = ⟨none, [n.note (.malformedActionHeader n.text)]⟩ := by
  refine ⟨fun i c found => ?_, ?_⟩
  · refine ⟨role o (n.children.take i) c, ?_, fun r' => plays_iff.trans eq_comm⟩
    rw [cast, Document.withBefore, List.getElem?_map, List.getElem?_mapIdx, found]
    rfl
  · cases header : Header.recognize o.phrases n.text n.line n.span with
    | error e => exact read_of_error header
    | ok h =>
      have sorts := Parts.sorts_distribute o n.children
      refine ⟨_, _, read_of_ok header, ⟨?_, ?_, ?_, ?_, ?_, ?_, ?_⟩⟩
      · rw [sorts.qualifiers]
      · exact sorts.body
      · rw [sorts.sections, List.map_map]
        rfl
      · rw [sorts.repeated, sorts.sections, List.flatMap_map]
      · have none : (((distribute o n.children).sections.flatMap fun e =>
            (readSection o n.depth e.1 e.2).notes).filter Diagnostic.isDuplicate) = [] := by
          refine List.filter_eq_nil_iff.2 fun d hd => ?_
          obtain ⟨e, -, hd⟩ := List.mem_flatMap.1 hd
          rw [isDuplicate_readSection hd]
          exact Bool.false_ne_true
        have all : ∀ d ∈ (repeats n.children).map (repeatedSection h.name), d.isDuplicate = true := by
          intro d hd
          obtain ⟨e, -, rfl⟩ := List.mem_map.1 hd
          rfl
        rw [List.filter_append, none, List.append_nil, sorts.repeated, List.filter_eq_self.2 all]
        rfl
      · exact fun kind _ fields => exists_readSection_fields n.depth fields _
      · exact fun kind _ other d hd => isProblem_readSection other hd

/-- An action with stray lines behind its headers, a header that is repeated, and a line that is no field. -/
def posting : Node :=
  (Forest.ofLines 0 (Source.lines {} (Lines.text ["Post is a Set Action".toList, "\trestricted".toList,
    "\tx".toList, "\t\trequired".toList, "\tParameters".toList, "\t\tP is Alpha".toList,
    "\t\tnot a field".toList, "\trequired".toList, "\tLocal Fields".toList, "\tL is a Set".toList,
    "\tparameters".toList, "\t\tQ is Alpha".toList]))).headD default

theorem distributes_read_posting : Plays {} (posting.children.take 3) posting.children[3]! (.stray .parameters) ∧
    ∃ a noted, read {} posting = ⟨some a, noted⟩ ∧ a.header.qualifiers = ["restricted".toList] ∧
      a.body.map Node.text = ["x".toList] ∧ Catalog.keys a.sections = [.parameters, .localFields] ∧
      noted.filter Diagnostic.isDuplicate = [.make (.duplicateSection "Post.Parameters".toList) 11 (some ⟨123, 133⟩)] := by
  have header : Header.recognize ({} : Options).phrases posting.text posting.line posting.span
      = .ok ⟨"Post".toList, some .a, some "Set Action".toList, [], 1, ⟨0, 20⟩⟩ := by decide +kernel
  obtain ⟨roles, distributes⟩ := distributes_read {} posting
  rw [header] at distributes
  obtain ⟨a, noted, read_eq, d⟩ := distributes
  obtain ⟨r, cast_eq, plays⟩ := roles 3 posting.children[3]! (by rfl)
  refine ⟨(plays _).2 ?_, a, noted, read_eq, ?_, ?_, ?_, ?_⟩
  · have : ((cast {} posting.children)[3]?).map Prod.snd = some (.stray .parameters) := by decide +kernel
    rw [cast_eq] at this
    exact (Option.some.inj this).symm
  · rw [d.header]
    decide +kernel
  · rw [d.body]
    decide +kernel
  · rw [d.sections]
    decide +kernel
  · rw [d.duplicates]
    decide +kernel

end Action

end BusinessClass
