import BusinessClass.Proofs.Document.Sections
import BusinessClass.Proofs.Outline.Nesting

/-!
# The roles of the lines under an action

Every line directly under an action plays exactly one role: it opens a sub-section; or it comes behind the
header of one and is a stray line of it; or it comes in front of all headers and then holds qualifiers of the
action or belongs to its body. The roles say where each line goes.

* `Action.Plays` says which role a line plays behind other lines; `Action.role` computes it, and `plays_iff`
  joins the two. `Action.cast` gives all lines their roles.
* `Action.Parts.Sorts` says that parts hold what some lines give by their roles; `Parts.Sorts.add` is one step
  and `Parts.sorts_distribute` the whole run.
* `Action.mem_bodyOf`, `Action.mem_phrasesOf`, `Action.mem_givenTo` and `Action.mem_repeats` say which lines a
  part comes from.
-/

namespace BusinessClass

namespace Action

/-! ### Roles -/

/-- The sub-section that a line opens. -/
def opened? (n : Node) : Option ActionSectionKind := ActionSectionKind.ofHeader? n.text

/-- What a line directly under an action is there for. -/
inductive Role
  /-- It opens a sub-section. -/
  | header (kind : ActionSectionKind)
  /-- It holds qualifiers of the action. -/
  | qualifier (phrases : List Text)
  /-- It belongs to the body of the action. -/
  | body
  /-- It follows in a sub-section that is open. -/
  | stray (kind : ActionSectionKind)
deriving DecidableEq

/-- The role that a line plays behind the lines `before`. -/
inductive Plays (o : Options) (before : List Node) (n : Node) : Role → Prop
  | header {kind : ActionSectionKind} (opens : opened? n = some kind) : Plays o before n (.header kind)
  | qualifier {phrases : List Text} (leads : ∀ m ∈ before, opened? m = none) (plain : opened? n = none)
      (leaf : n.children = []) (line : Qualifier.line? o.phrases n.text = some phrases) :
      Plays o before n (.qualifier phrases)
  | body (leads : ∀ m ∈ before, opened? m = none) (plain : opened? n = none)
      (other : n.children = [] → Qualifier.line? o.phrases n.text = none) : Plays o before n .body
  | stray {kind : ActionSectionKind} {front back : List Node} {h : Node} (plain : opened? n = none)
      (behind : before = front ++ h :: back) (opens : opened? h = some kind)
      (nearest : ∀ m ∈ back, opened? m = none) : Plays o before n (.stray kind)

/-- The sub-section that is open behind some lines: that of the nearest header. -/
def openBehind (before : List Node) : Option ActionSectionKind := before.reverse.findSome? opened?

/-- The role of a line behind the lines `before`. -/
def role (o : Options) (before : List Node) (n : Node) : Role :=
  match opened? n, openBehind before, n.qualifiers? o with
  | some kind, _, _ => .header kind
  | none, some kind, _ => .stray kind
  | none, none, some phrases => .qualifier phrases
  | none, none, none => .body

variable {o : Options} {before : List Node} {n : Node} {r : Role}

theorem openBehind_eq_none_iff : openBehind before = none ↔ ∀ m ∈ before, opened? m = none := by
  simp [openBehind]

theorem openBehind_of_nearest {front back : List Node} {h : Node} {kind : ActionSectionKind}
    (opens : opened? h = some kind) (nearest : ∀ m ∈ back, opened? m = none) :
    openBehind (front ++ h :: back) = some kind := by
  have none : back.reverse.findSome? opened? = none := by simpa using nearest
  rw [openBehind, List.reverse_append, List.reverse_cons, List.findSome?_append, List.findSome?_append, none]
  simp [opens]

theorem exists_nearest {kind : ActionSectionKind} (h : openBehind before = some kind) :
    ∃ front m back, before = front ++ m :: back ∧ opened? m = some kind ∧ ∀ x ∈ back, opened? x = none := by
  obtain ⟨back, m, front, eq, opens, nearest⟩ := List.findSome?_eq_some_iff.1 h
  refine ⟨front.reverse, m, back.reverse, ?_, opens, fun x hx => nearest x (List.mem_reverse.1 hx)⟩
  rw [← List.reverse_reverse before, eq, List.reverse_append, List.reverse_cons, List.append_assoc]
  rfl

theorem qualifiers?_eq_some_iff {qs : List Text} :
    n.qualifiers? o = some qs ↔ n.children = [] ∧ Qualifier.line? o.phrases n.text = some qs := by
  simp [Node.qualifiers?, Node.isLeaf]

theorem qualifiers?_eq_none_iff :
    n.qualifiers? o = none ↔ (n.children = [] → Qualifier.line? o.phrases n.text = none) := by
  simp [Node.qualifiers?, Node.isLeaf]

/-- Every line plays the role that is computed, and no other. -/
theorem plays_iff : Plays o before n r ↔ role o before n = r := by
  constructor
  · intro plays
    cases plays with
    | header opens => rw [role, opens]
    | qualifier leads plain leaf line =>
      rw [role, plain, openBehind_eq_none_iff.2 leads, qualifiers?_eq_some_iff.2 ⟨leaf, line⟩]
    | body leads plain other => rw [role, plain, openBehind_eq_none_iff.2 leads, qualifiers?_eq_none_iff.2 other]
    | stray plain behind opens nearest => rw [role, plain, behind, openBehind_of_nearest opens nearest]
  · rintro rfl
    cases opens : opened? n with
    | some kind =>
      rw [role, opens]
      exact .header opens
    | none =>
      cases current : openBehind before with
      | some kind =>
        rw [role, opens, current]
        obtain ⟨front, m, back, behind, header, nearest⟩ := exists_nearest current
        exact .stray opens behind header nearest
      | none =>
        have leads := openBehind_eq_none_iff.1 current
        cases line : n.qualifiers? o with
        | some phrases =>
          rw [role, opens, current, line]
          obtain ⟨leaf, line⟩ := qualifiers?_eq_some_iff.1 line
          exact .qualifier leads opens leaf line
        | none =>
          rw [role, opens, current, line]
          exact .body leads opens (qualifiers?_eq_none_iff.1 line)

/-! ### What the roles give -/

/-- The lines under an action with their roles. -/
def cast (o : Options) (children : List Node) : List (Node × Role) :=
  (Document.withBefore children).map fun e => (e.2, role o e.1 e.2)

namespace Role

/-- The qualifiers that a line gives to the header. -/
def phrases : Role → List Text
  | .qualifier phrases => phrases
  | _ => []

/-- The lines that a line gives to a sub-section: a header those under it, a stray line itself. -/
def given (kind : ActionSectionKind) (n : Node) : Role → List Node
  | .header k => if k = kind then n.children else []
  | .stray k => if k = kind then [n] else []
  | _ => []

end Role

/-- The qualifiers that the lines under an action give to its header, in order. -/
def phrasesOf (o : Options) (children : List Node) : List Text := (cast o children).flatMap fun e => e.2.phrases

/-- The lines of the body of an action, in order. -/
def bodyOf (o : Options) (children : List Node) : List Node :=
  (cast o children).filterMap fun e => if e.2 = .body then some e.1 else none

/-- The lines that a sub-section is given, in order. -/
def givenTo (o : Options) (kind : ActionSectionKind) (children : List Node) : List Node :=
  (cast o children).flatMap fun e => e.2.given kind e.1

/-- The sub-sections that have a header, in order of their first one. -/
def openedKinds (children : List Node) : List ActionSectionKind := (children.filterMap opened?).eraseDups

/-- The headers of sub-sections that have one in front of them already. -/
def repeats (children : List Node) : List (ActionSectionKind × Node) :=
  (Document.withBefore children).filterMap fun e =>
    (opened? e.2).bind fun kind => if kind ∈ e.1.filterMap opened? then some (kind, e.2) else none

/-! ### One more line -/

variable {children : List Node}

theorem cast_concat : cast o (children ++ [n]) = cast o children ++ [(n, role o children n)] := by
  rw [cast, Document.withBefore_concat, List.map_append, List.map_singleton, cast]

theorem phrasesOf_concat : phrasesOf o (children ++ [n]) = phrasesOf o children ++ (role o children n).phrases := by
  rw [phrasesOf, cast_concat, List.flatMap_append, List.flatMap_singleton, phrasesOf]

theorem bodyOf_concat :
    bodyOf o (children ++ [n]) = bodyOf o children ++ if role o children n = .body then [n] else [] := by
  rw [bodyOf, cast_concat, filterMap_concat, bodyOf]
  split <;> rfl

theorem givenTo_concat (kind : ActionSectionKind) :
    givenTo o kind (children ++ [n]) = givenTo o kind children ++ (role o children n).given kind n := by
  rw [givenTo, cast_concat, List.flatMap_append, List.flatMap_singleton, givenTo]

theorem repeats_concat : repeats (children ++ [n]) = repeats children ++ ((opened? n).bind fun kind =>
    if kind ∈ children.filterMap opened? then some (kind, n) else none).toList := by
  rw [repeats, Document.withBefore_concat, filterMap_concat, repeats]

theorem openBehind_concat : openBehind (children ++ [n]) = (opened? n).or (openBehind children) := by
  rw [openBehind, List.reverse_append, List.reverse_singleton, List.singleton_append, List.findSome?_cons, openBehind]
  cases opened? n <;> rfl

/-- A sub-section that is open was opened before. -/
theorem mem_of_openBehind {kind : ActionSectionKind} (h : openBehind children = some kind) :
    kind ∈ children.filterMap opened? := by
  obtain ⟨front, m, back, rfl, opens, -⟩ := exists_nearest h
  exact List.mem_filterMap.2 ⟨m, by simp, opens⟩

/-- Nothing is given to a sub-section without header. -/
theorem givenTo_eq_nil {kind : ActionSectionKind} (absent : kind ∉ children.filterMap opened?) :
    givenTo o kind children = [] := by
  induction children using List.reverseRecOn with
  | nil => rfl
  | append_singleton children n ih =>
    rw [List.filterMap_append, List.mem_append, not_or] at absent
    rw [givenTo_concat, ih absent.1, List.nil_append]
    have plays : Plays o children n (role o children n) := plays_iff.2 rfl
    generalize role o children n = r at plays
    cases plays with
    | header opens =>
      refine if_neg fun same => absent.2 ?_
      rw [List.filterMap_cons_some opens, same]
      exact List.mem_cons_self
    | qualifier => rfl
    | body => rfl
    | stray plain behind opens nearest =>
      refine if_neg fun same => absent.1 (mem_of_openBehind ?_)
      rw [behind, openBehind_of_nearest opens nearest, same]

/-! ### Handing out lines -/

theorem distribute_concat (o : Options) (children : List Node) (n : Node) :
    distribute o (children ++ [n]) = (distribute o children).add o n := by
  rw [distribute, List.foldl_append]
  rfl

/-- Parts hold what some lines give by their roles. -/
structure Parts.Sorts (o : Options) (children : List Node) (p : Parts) : Prop where
  qualifiers : p.qualifiers = phrasesOf o children
  body : p.body = bodyOf o children
  sections : p.sections = (openedKinds children).map fun kind => (kind, givenTo o kind children)
  current : p.current = openBehind children
  repeated : p.repeated = repeats children

namespace Parts

variable {p : Parts}

/-- Adding lines to a sub-section, when the line gives these and nothing else. -/
theorem Sorts.sections_addTo (h : p.Sorts o children) {kind : ActionSectionKind} {lines : List Node}
    (same : (role o children n).given kind n = lines) (other : ∀ k ≠ kind, (role o children n).given k n = [])
    (kinds : openedKinds (children ++ [n]) = (children.filterMap opened? ++ [kind]).eraseDups) :
    (p.addTo kind lines).sections
      = (openedKinds (children ++ [n])).map fun kind => (kind, givenTo o kind (children ++ [n])) := by
  rw [kinds, Parts.addTo, h.sections, openedKinds]
  refine Catalog.upsert_map_eraseDups kind _ _ (fun k ne => ?_) ?_
  · rw [givenTo_concat, other k ne, List.append_nil]
  · rw [givenTo_concat, same]
    split
    · rfl
    · rename_i absent
      rw [givenTo_eq_nil absent]
      rfl

theorem openedKinds_of_plain (plain : opened? n = none) : openedKinds (children ++ [n]) = openedKinds children := by
  rw [openedKinds, filterMap_concat, plain, Option.toList_none, List.append_nil, openedKinds]

theorem repeats_of_plain (plain : opened? n = none) : repeats (children ++ [n]) = repeats children := by
  rw [repeats_concat, plain, Option.bind_none, Option.toList_none, List.append_nil]

/-- A line that gives nothing to sub-sections changes none. -/
theorem Sorts.sections_of_plain (h : p.Sorts o children) (plain : opened? n = none)
    (none : ∀ k, (role o children n).given k n = []) :
    p.sections = (openedKinds (children ++ [n])).map fun kind => (kind, givenTo o kind (children ++ [n])) := by
  rw [h.sections, openedKinds_of_plain plain]
  refine List.map_congr_left fun k _ => ?_
  rw [givenTo_concat, none, List.append_nil]

/-- Handing out the header of a sub-section. -/
theorem Sorts.add_header (h : p.Sorts o children) {kind : ActionSectionKind} (opens : opened? n = some kind) :
    (p.add o n).Sorts o (children ++ [n]) := by
  have role_eq : role o children n = .header kind := by rw [role, opens]
  have kinds : openedKinds (children ++ [n]) = (children.filterMap opened? ++ [kind]).eraseDups := by
    rw [openedKinds, filterMap_concat, opens, Option.toList_some]
  have known : Catalog.contains p.sections kind = decide (kind ∈ children.filterMap opened?) := by
    rw [Catalog.contains_eq_mem, h.sections]
    simp [openedKinds]
  rw [opened?] at opens
  simp only [Parts.add, opens]
  refine ⟨?_, ?_, ?_, ?_, ?_⟩
  · rw [phrasesOf_concat, role_eq]
    exact h.qualifiers.trans (List.append_nil _).symm
  · rw [bodyOf_concat, role_eq]
    exact h.body.trans (List.append_nil _).symm
  · exact h.sections_addTo (by rw [role_eq]; exact if_pos rfl)
      (fun k ne => by rw [role_eq]; exact if_neg ne.symm) kinds
  · rw [openBehind_concat, opened?, opens]
    rfl
  · rw [repeats_concat, opened?, opens, Option.bind_some, known, h.repeated]
    by_cases again : kind ∈ children.filterMap opened? <;> simp [again]

/-- Handing out a line in a sub-section that is open. -/
theorem Sorts.add_stray (h : p.Sorts o children) {kind : ActionSectionKind} (plain : opened? n = none)
    (current : openBehind children = some kind) : (p.add o n).Sorts o (children ++ [n]) := by
  have role_eq : role o children n = .stray kind := by rw [role, plain, current]
  have kinds : openedKinds (children ++ [n]) = (children.filterMap opened? ++ [kind]).eraseDups := by
    rw [openedKinds_of_plain plain, Catalog.eraseDups_concat, if_pos (mem_of_openBehind current), openedKinds]
  have header : ActionSectionKind.ofHeader? n.text = none := plain
  simp only [Parts.add, header, h.current, current]
  refine ⟨?_, ?_, ?_, ?_, ?_⟩
  · rw [phrasesOf_concat, role_eq]
    exact h.qualifiers.trans (List.append_nil _).symm
  · rw [bodyOf_concat, role_eq]
    exact h.body.trans (List.append_nil _).symm
  · exact h.sections_addTo (by rw [role_eq]; exact if_pos rfl)
      (fun k ne => by rw [role_eq]; exact if_neg ne.symm) kinds
  · rw [openBehind_concat, plain, Option.none_or]
    exact h.current
  · rw [repeats_of_plain plain]
    exact h.repeated

/-- Handing out a line in front of all headers. -/
theorem Sorts.add_leading (h : p.Sorts o children) (plain : opened? n = none)
    (current : openBehind children = none) : (p.add o n).Sorts o (children ++ [n]) := by
  have header : ActionSectionKind.ofHeader? n.text = none := plain
  have open_eq : openBehind (children ++ [n]) = none := by rw [openBehind_concat, plain, Option.none_or, current]
  have repeats_eq : repeats (children ++ [n]) = p.repeated := by rw [repeats_of_plain plain, h.repeated]
  simp only [Parts.add, header, h.current, current]
  cases line : n.qualifiers? o with
  | some qs =>
    have role_eq : role o children n = .qualifier qs := by rw [role, plain, current, line]
    have sections := h.sections_of_plain plain fun k => by rw [role_eq]; rfl
    refine ⟨?_, ?_, sections, open_eq.symm, repeats_eq.symm⟩
    · rw [phrasesOf_concat, role_eq, h.qualifiers]
      rfl
    · rw [bodyOf_concat, role_eq, h.body]
      exact (List.append_nil _).symm
  | none =>
    have role_eq : role o children n = .body := by rw [role, plain, current, line]
    have sections := h.sections_of_plain plain fun k => by rw [role_eq]; rfl
    refine ⟨?_, ?_, sections, open_eq.symm, repeats_eq.symm⟩
    · rw [phrasesOf_concat, role_eq, h.qualifiers]
      exact (List.append_nil _).symm
    · rw [bodyOf_concat, role_eq, h.body]
      rfl

/-- Handing out one more line. -/
theorem Sorts.add (h : p.Sorts o children) (n : Node) : (p.add o n).Sorts o (children ++ [n]) := by
  cases opens : opened? n with
  | some kind => exact h.add_header opens
  | none =>
    cases current : openBehind children with
    | some kind => exact h.add_stray opens current
    | none => exact h.add_leading opens current

/-- Handing out the lines under an action gives what their roles say. -/
theorem sorts_distribute (o : Options) (children : List Node) : (distribute o children).Sorts o children := by
  induction children using List.reverseRecOn with
  | nil => exact ⟨rfl, rfl, rfl, rfl, rfl⟩
  | append_singleton children n ih =>
    rw [distribute_concat]
    exact ih.add n

end Parts

/-! ### Where the parts come from -/

theorem map_fst_cast (o : Options) (children : List Node) : (cast o children).map Prod.fst = children := by
  rw [cast, List.map_map]
  exact Document.map_snd_withBefore children

/-- Every line has a role. -/
theorem exists_mem_cast (h : n ∈ children) : ∃ r, (n, r) ∈ cast o children := by
  rw [← map_fst_cast o children] at h
  obtain ⟨e, mem, rfl⟩ := List.mem_map.1 h
  exact ⟨e.2, mem⟩

/-- The role of a line is the one that it plays behind the lines in front of it. -/
theorem exists_plays_of_mem_cast (h : (n, r) ∈ cast o children) :
    ∃ front back, children = front ++ n :: back ∧ Plays o front n r := by
  obtain ⟨e, mem, same⟩ := List.mem_map.1 h
  obtain ⟨rfl, rfl⟩ := Prod.mk.inj same
  obtain ⟨back, eq⟩ := Document.isPrefix_of_mem_withBefore mem
  exact ⟨e.1, back, by rw [← eq, List.append_assoc, List.singleton_append], plays_iff.2 rfl⟩

theorem mem_of_mem_cast (h : (n, r) ∈ cast o children) : n ∈ children := by
  obtain ⟨front, back, rfl, -⟩ := exists_plays_of_mem_cast h
  simp

theorem mem_phrasesOf {q : Text} :
    q ∈ phrasesOf o children ↔ ∃ n phrases, (n, Role.qualifier phrases) ∈ cast o children ∧ q ∈ phrases := by
  rw [phrasesOf, List.mem_flatMap]
  constructor
  · rintro ⟨⟨n, r⟩, mem, hq⟩
    cases r with
    | qualifier phrases => exact ⟨n, phrases, mem, hq⟩
    | _ => cases hq
  · rintro ⟨n, phrases, mem, hq⟩
    exact ⟨_, mem, hq⟩

theorem mem_bodyOf : n ∈ bodyOf o children ↔ (n, Role.body) ∈ cast o children := by
  rw [bodyOf, List.mem_filterMap]
  constructor
  · rintro ⟨⟨m, r⟩, mem, stands⟩
    split at stands
    · rename_i is
      obtain rfl : r = .body := is
      obtain rfl := Option.some.inj stands
      exact mem
    · cases stands
  · exact fun mem => ⟨_, mem, if_pos rfl⟩

/-- What a sub-section is given stands under one of its headers or is a stray line of it. -/
theorem mem_givenTo {kind : ActionSectionKind} : n ∈ givenTo o kind children ↔
    (n, Role.stray kind) ∈ cast o children ∨ ∃ h, (h, Role.header kind) ∈ cast o children ∧ n ∈ h.children := by
  rw [givenTo, List.mem_flatMap]
  constructor
  · rintro ⟨⟨m, r⟩, mem, hn⟩
    cases r with
    | header k =>
      rw [Role.given] at hn
      split at hn
      · rename_i same
        exact Or.inr ⟨m, same ▸ mem, hn⟩
      · cases hn
    | stray k =>
      rw [Role.given] at hn
      split at hn
      · rename_i same
        rw [List.mem_singleton.1 hn]
        exact Or.inl (same ▸ mem)
      · cases hn
    | _ => cases hn
  · rintro (mem | ⟨m, mem, hn⟩)
    · exact ⟨_, mem, by rw [Role.given, if_pos rfl]; exact List.mem_singleton_self n⟩
    · exact ⟨_, mem, by rw [Role.given, if_pos rfl]; exact hn⟩

theorem mem_repeats {e : ActionSectionKind × Node} (h : e ∈ repeats children) :
    e.2 ∈ children ∧ opened? e.2 = some e.1 := by
  obtain ⟨w, mem, again⟩ := List.mem_filterMap.1 h
  obtain ⟨kind, opens, again⟩ := Option.bind_eq_some_iff.1 again
  split at again
  · obtain rfl := Option.some.inj again
    exact ⟨(Document.isPrefix_of_mem_withBefore mem).subset (by simp), opens⟩
  · cases again

theorem bodyOf_sublist (o : Options) (children : List Node) : (bodyOf o children).Sublist children := by
  induction children using List.reverseRecOn with
  | nil => exact .slnil
  | append_singleton children n ih =>
    rw [bodyOf_concat]
    refine ih.append ?_
    split
    · exact List.Sublist.refl [n]
    · exact List.nil_sublist [n]

/-- A sub-section is given lines in their order. -/
theorem nodes_givenTo_sublist (o : Options) (kind : ActionSectionKind) (children : List Node) :
    (Forest.nodes (givenTo o kind children)).Sublist (Forest.nodes children) := by
  induction children using List.reverseRecOn with
  | nil => exact .slnil
  | append_singleton children n ih =>
    have given : (Forest.nodes ((role o children n).given kind n)).Sublist (Forest.nodes [n]) := by
      rw [Role.given.eq_def]
      split
      · split
        · rw [Forest.nodes_cons, Forest.nodes_nil, List.append_nil]
          exact List.sublist_cons_self _ _
        · exact List.nil_sublist _
      · split
        · exact List.Sublist.refl _
        · exact List.nil_sublist _
      · exact List.nil_sublist _
    rw [givenTo_concat, Forest.nodes_append, Forest.nodes_append]
    exact ih.append given

namespace Parts

variable {p : Parts}

theorem Sorts.nodup_keys (h : p.Sorts o children) : (Catalog.keys p.sections).Nodup := by
  rw [h.sections, Catalog.keys_map_self]
  exact Catalog.nodup_eraseDups _

theorem Sorts.eq_givenTo (h : p.Sorts o children) {e : ActionSectionKind × List Node} (mem : e ∈ p.sections) :
    e.2 = givenTo o e.1 children := by
  rw [h.sections] at mem
  obtain ⟨kind, -, rfl⟩ := List.mem_map.1 mem
  rfl

theorem Sorts.get?_sections (h : p.Sorts o children) (kind : ActionSectionKind) : Catalog.get? p.sections kind
    = if kind ∈ children.filterMap opened? then some (givenTo o kind children) else none := by
  rw [h.sections, Catalog.get?_map_self, openedKinds]
  simp only [List.mem_eraseDups]

end Parts

end Action

end BusinessClass
