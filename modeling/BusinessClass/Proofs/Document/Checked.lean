import BusinessClass.Document.Reading
import BusinessClass.Proofs.Document.WhereClause
import BusinessClass.Proofs.Header.Checked
import BusinessClass.Proofs.SetRules.Checked
import BusinessClass.Proofs.Source.Checked

/-!
# Reading never fails

Reading a source can be done with operations that may fail: parts of texts and lists by position, elements by position,
and differences. The filter of a clause is cut out between byte places, and so is what stands around the keyword; the
words around `relation to` are taken by position. Each of these operations finds what it asks for, in a clause, a
relation and a declaration, and so does everything that reads sections, actions and classes from them.

* `Checked.whereFilter_eq`: places of the keyword and of the parentheses are inside the clause and between characters.
* `Checked.aroundRelationTo_eq` and `mappingUsed_eq`: positions of words are inside the line.
* `Checked.split_eq`, `readAction_eq` and `readDeclarations_eq`: declarations.
* `Checked.readDocument_eq`: reading a source with operations that may fail gives what reading it without them gives.
-/

namespace BusinessClass

namespace Checked

open Text (slice? dropBytes? takeBytes?)

/-! ### Clauses -/

section Clauses

open WhereClause (keyword touches afterKeyword untilClosed parenthesized closing?)

/-- The byte places of the keyword in a text that starts at `offset`; after `skip` characters it is looked for. -/
def keywordPlaces (skip offset : Nat) : Text → List Nat
  | [] => []
  | c :: cs =>
    match skip with
    | skip + 1 => keywordPlaces skip (offset + c.utf8Size) cs
    | 0 =>
      if keyword.isPrefixOf (c :: cs) then offset :: keywordPlaces (keyword.length - 1) (offset + c.utf8Size) cs
      else keywordPlaces 0 (offset + c.utf8Size) cs

/-- Whether no letter or number touches the keyword at a place. -/
def standsAlone (t : Text) (place : Nat) : Option Bool := do
  let before ← takeBytes? place t
  let after ← dropBytes? (place + keyword.byteSize) t
  some (!touches before.getLast? && !touches after.head?)

/-- The text behind the first keyword that stands alone, the places of the keyword given. -/
def behindKeyword (t : Text) : List Nat → Option (Option Text)
  | [] => some none
  | place :: places => do
    if ← standsAlone t place then do
      let after ← dropBytes? (place + keyword.byteSize) t
      some (some after)
    else behindKeyword t places

theorem isPrefixOf_keyword (rest : Text) : keyword.isPrefixOf (keyword ++ rest) = true :=
  List.isPrefixOf_iff_prefix.2 (List.prefix_append keyword rest)

/-- The letters of a keyword start no other one. -/
theorem keywordPlaces_keyword (offset : Nat) (rest : Text) :
    keywordPlaces 0 offset (keyword ++ rest) = offset :: keywordPlaces 0 (offset + keyword.byteSize) rest := by
  have letters : keyword = ['w', 'h', 'e', 'r', 'e'] := by decide
  have here := isPrefixOf_keyword rest
  have size : keyword.byteSize = 5 := by decide
  have skip : keyword.length - 1 = 4 := by decide
  rw [size]
  rw [letters, List.cons_append] at here ⊢
  rw [keywordPlaces, letters, if_pos here, ← letters, skip]
  rfl

theorem afterKeyword_keyword (last : Option Char) (rest : Text) :
    afterKeyword last (keyword ++ rest)
      = if !touches last && !touches rest.head? then some rest else afterKeyword (some 'e') rest := by
  have here : afterKeyword last (keyword ++ rest)
      = if keyword.isPrefixOf (keyword ++ rest) && !touches last && !touches rest.head? then some rest
        else afterKeyword (some 'e') rest := rfl
  rw [here, isPrefixOf_keyword, Bool.true_and]

/-- What stands around a keyword is cut off between characters. -/
theorem standsAlone_keyword (s rest : Text) :
    standsAlone (s ++ (keyword ++ rest)) s.byteSize = some (!touches s.getLast? && !touches rest.head?) := by
  have after : dropBytes? (s.byteSize + keyword.byteSize) (s ++ (keyword ++ rest)) = some rest := by
    rw [← Text.byteSize_append, ← List.append_assoc]
    exact Text.dropBytes?_append _ _
  simp only [standsAlone, Text.takeBytes?_append, after, Option.bind_eq_bind, Option.bind_some]

/-- The places of the keyword are in the text. -/
theorem behindKeyword_eq (s t : Text) :
    behindKeyword (s ++ t) (keywordPlaces 0 s.byteSize t) = some (afterKeyword s.getLast? t) := by
  match t with
  | [] => rfl
  | c :: cs =>
    by_cases here : keyword <+: c :: cs
    · obtain ⟨rest, eq⟩ := here
      have next := behindKeyword_eq (s ++ keyword) rest
      rw [List.append_assoc, Text.byteSize_append, List.getLast?_append] at next
      rw [← eq, keywordPlaces_keyword, behindKeyword, standsAlone_keyword, afterKeyword_keyword]
      have after : dropBytes? (s.byteSize + keyword.byteSize) (s ++ (keyword ++ rest)) = some rest := by
        rw [← Text.byteSize_append, ← List.append_assoc]
        exact Text.dropBytes?_append _ _
      simp only [Option.bind_eq_bind, Option.bind_some, after]
      split_ifs
      · rfl
      · exact next
    · have other : keyword.isPrefixOf (c :: cs) = false := by
        rw [← Bool.not_eq_true, List.isPrefixOf_iff_prefix]
        exact here
      have next := behindKeyword_eq (s ++ [c]) cs
      rw [List.append_assoc, Text.byteSize_append, List.getLast?_append] at next
      rw [keywordPlaces, afterKeyword, other]
      exact next
termination_by t.length
decreasing_by
  · have := congrArg List.length eq
    simp [keyword] at this
    simp
    omega
  · simp

/-- The text behind the first keyword that stands alone. -/
def afterPlace (t : Text) : Option (Option Text) := behindKeyword t (keywordPlaces 0 0 t)

theorem afterPlace_eq (t : Text) : afterPlace t = some (afterKeyword none t) := behindKeyword_eq [] t

/-- The byte place of the first parenthesis. -/
def openPlace (t : Text) : Option Nat := if '(' ∈ t then some (Text.byteSize (t.takeWhile (· != '('))) else none

/-- The text between the first parenthesis and the one that closes it. -/
def enclosed (t : Text) : Option (Option Text) :=
  match openPlace t with
  | none => some none
  | some first => do
    let group ← dropBytes? first t
    match ← closing? 0 0 group with
    | none => some none
    | some last => do
      let inside ← slice? t ⟨first + 1, first + last⟩
      some (some inside)

/-- The places of the parentheses are in the text, and the count between them does not go below zero. -/
theorem enclosed_eq (t : Text) : enclosed t = some (parenthesized t) := by
  by_cases mem : '(' ∈ t
  · obtain ⟨front, group, rfl, first⟩ := List.eq_append_cons_of_mem mem
    have place : openPlace (front ++ '(' :: group) = some (Text.byteSize front) := by
      have skip : (front ++ '(' :: group).takeWhile (· != '(') = front := by
        rw [List.takeWhile_append_of_pos fun c hc => by simpa using ne_of_mem_of_not_mem hc first]
        exact List.append_nil front
      rw [openPlace, if_pos mem, skip]
    have count : closing? 0 0 ('(' :: group) = some ((untilClosed 0 group).map fun s => 1 + Text.byteSize s) :=
      WhereClause.closing?_succ 0 1 group
    rw [enclosed, parenthesized, place, dropWhile_ne_append first]
    simp only [Text.dropBytes?_append, count, Option.bind_eq_bind, Option.bind_some]
    cases found : untilClosed 0 group with
    | none => rfl
    | some inside =>
      obtain ⟨⟨behind, rfl⟩, -⟩ := WhereClause.untilClosed_eq_some_iff.1 found
      have slice : slice? (front ++ '(' :: (inside ++ ')' :: behind))
          ⟨Text.byteSize front + 1, Text.byteSize front + (1 + Text.byteSize inside)⟩ = some inside := by
        have := Text.slice?_append (front ++ ['(']) inside (')' :: behind)
        rw [Text.byteSize_append, List.append_assoc, Nat.add_assoc] at this
        exact this
      simp only [Option.map_some, slice, Option.bind_some]
  · rw [enclosed, openPlace, if_neg mem, parenthesized, dropWhile_ne_of_not_mem mem]

/-- The filter of the clause that a text holds, single spaces between its words. -/
def whereFilter (t : Text) : Option (Option Text) := do
  match ← afterPlace (Text.unwords t.words) with
  | none => some none
  | some after => do
    let inside ← enclosed after
    some (inside.map Text.trim)

theorem whereFilter_eq (t : Text) : whereFilter t = some (WhereClause.filter? t) := by
  simp only [whereFilter, afterPlace_eq, enclosed_eq, Option.bind_eq_bind, Option.bind_some, WhereClause.filter?]
  cases afterKeyword none (Text.unwords t.words) <;> rfl

end Clauses

/-! ### Relations -/

/-- The pairs of neighbours in a list of words. -/
def pairs : List Text → List (List Text)
  | a :: b :: rest => [a, b] :: pairs (b :: rest)
  | _ => []

/-- Whether two words are `relation to`. -/
def isRelationTo (pair : List Text) : Option Bool := do
  let first ← pair[0]?
  let second ← pair[1]?
  some (first == "relation".toList && second == "to".toList)

/-- The position of the first `relation to` among pairs, the first of which is at the given one. -/
def relationPlace (position : Nat) : List (List Text) → Option (Option Nat)
  | [] => some none
  | pair :: rest => do
    if ← isRelationTo pair then some (some position) else relationPlace (position + 1) rest

/-- The words before and after the position of `relation to`; at the start of a line there is none before. -/
def around (words : List Text) : Option Nat → Option (Option (Option Text × Option Text))
  | none => some none
  | some position =>
    match sub? position 1 with
    | none => some (some (none, words[position + 2]?))
    | some before => do
      let word ← words[before]?
      some (some (some word, words[position + 2]?))

/-- The words before and after the first `relation to` of a line. -/
def aroundRelationTo (words : List Text) : Option (Option (Option Text × Option Text)) := do
  around words (← relationPlace 0 (pairs words))

theorem around_length (front : List Text) (a b : Text) (rest : List Text) :
    around (front ++ a :: b :: rest) (some front.length) = some (some (front.getLast?, rest.head?)) := by
  have after : (front ++ a :: b :: rest)[front.length + 2]? = rest.head? := by
    rw [List.getElem?_append_right (by omega), Nat.add_sub_cancel_left, List.head?_eq_getElem?]
    rfl
  rcases List.eq_nil_or_concat' front with rfl | ⟨init, last, rfl⟩
  · rw [around, sub?, if_neg (by simp), after]
    rfl
  · have size : (init ++ [last]).length = init.length + 1 := by simp
    have before : (init ++ [last] ++ a :: b :: rest)[init.length]? = some last := by simp
    rw [around, size, sub?_succ_one, ← size, after]
    simp only [before, Option.bind_eq_bind, Option.bind_some, List.getLast?_concat]

/-- The words around a position of `relation to` are words of the line. -/
theorem relationPlace_bind_around (front rest : List Text) :
    (relationPlace front.length (pairs rest)).bind (around (front ++ rest))
      = some (RelationView.aroundRelationTo front.getLast? rest) := by
  induction rest generalizing front with
  | nil => rfl
  | cons a rest ih =>
    cases rest with
    | nil => rfl
    | cons b rest =>
      have here : isRelationTo [a, b] = some (a == "relation".toList && b == "to".toList) := rfl
      rw [pairs, relationPlace, here, RelationView.aroundRelationTo]
      by_cases said : a = "relation".toList ∧ b = "to".toList
      · rw [if_pos said]
        simp only [said.1, said.2, beq_self_eq_true, Bool.and_self, Option.bind_eq_bind, Option.bind_some, if_true]
        exact around_length front _ _ rest
      -- One word moves from what is searched to what is in front of it.
      · have next := ih (front ++ [a])
        rw [List.length_append, List.length_singleton, List.append_assoc, List.getLast?_concat] at next
        have other : (a == "relation".toList && b == "to".toList) = false := by simpa using said
        rw [if_neg said, other]
        exact next

theorem aroundRelationTo_eq (words : List Text) :
    aroundRelationTo words = some (RelationView.aroundRelationTo none words) := relationPlace_bind_around [] words

/-- What a `Field Mapping` line uses: the words after its first `uses`, or `default`. -/
def mappingUsed (words : List Text) : Option Text :=
  match words.findIdx? (· == "uses".toList) with
  | none => some "default".toList
  | some i =>
    if i + 1 < words.length then do
      let used ← dropFirst? (i + 1) words
      some (Text.unwords used)
    else some "default".toList

/-- The words after `uses` are words of the line. -/
theorem mappingUsed_eq (words : List Text) : mappingUsed words = some (RelationView.mappingUsed words) := by
  have behind : (words.dropWhile (· != "uses".toList)).tail = words.drop (words.findIdx (· == "uses".toList) + 1) := by
    rw [List.dropWhile_eq_drop_findIdx_not, List.tail_drop]
    simp only [bne, Bool.not_not]
  rw [mappingUsed, RelationView.mappingUsed, behind]
  cases place : words.findIdx? (· == "uses".toList) with
  | none =>
    rw [List.findIdx?_eq_none_iff_findIdx_eq.1 place, List.drop_eq_nil_of_le (Nat.le_succ _)]
  | some i =>
    rw [(List.findIdx?_eq_some_iff_findIdx_eq.1 place).2]
    by_cases used : i + 1 < words.length
    · obtain ⟨w, rest, eq⟩ := List.exists_cons_of_ne_nil (mt List.drop_eq_nil_iff.1 (Nat.not_le.2 used))
      refine (if_pos used).trans ?_
      rw [dropFirst?_of_le (Nat.le_of_lt used), eq]
      rfl
    · refine (if_neg used).trans ?_
      rw [List.drop_eq_nil_of_le (Nat.not_lt.1 used)]

/-- Reads a line that is not taken as a relation line. -/
def addLine (v : RelationView) (n : Node) : Option RelationView :=
  if v.fieldMapping.isNone && Text.startsWithWords "Field Mapping".toList n.text then do
    let used ← mappingUsed n.text.words
    some { v with fieldMapping := some used }
  else if RelationView.isMapping n then some { v with mappings := v.mappings ++ [n.text] }
  else if v.instanceSelection.isNone && n.text.words.head? == some WhereClause.keyword then do
    let filter ← whereFilter (RelationView.clause n)
    some { v with instanceSelection := filter }
  else some v

theorem addLine_eq (v : RelationView) (n : Node) : addLine v n = some (v.addLine n) := by
  rw [addLine, RelationView.addLine, mappingUsed_eq, whereFilter_eq]
  split_ifs <;> rfl

/-- Reads one line of a relation. Until a related class is known, a line with `relation to` is taken for it. -/
def addToRelation (v : RelationView) (n : Node) : Option RelationView :=
  match v.target with
  | some _ => addLine v n
  | none => do
    match ← aroundRelationTo n.text.words with
    | some (before, after) => some { v with cardinality := before, target := after }
    | none => addLine v n

theorem addToRelation_eq (v : RelationView) (n : Node) : addToRelation v n = some (v.add n) := by
  rw [addToRelation, RelationView.add, aroundRelationTo_eq]
  cases v.target with
  | some _ => exact addLine_eq v n
  | none =>
    cases RelationView.aroundRelationTo none n.text.words with
    | some _ => rfl
    | none => exact addLine_eq v n

/-- What the body of a relation says. -/
def relationView (body : List Node) : Option RelationView := (Forest.nodes body).foldlM addToRelation {}

theorem relationView_eq (body : List Node) : relationView body = some (.ofBody body) := by
  rw [relationView, funext fun v => funext (addToRelation_eq v)]
  exact List.foldlM_pure

/-! ### Declarations -/

/-- The qualifiers of a line that holds nothing else and has nothing under it. -/
def qualifiers (o : Options) (n : Node) : Option (Option (List Text)) :=
  if n.isLeaf then qualifierLine o.phrases n.text else some none

theorem qualifiers_eq (o : Options) (n : Node) : qualifiers o n = some (n.qualifiers? o) := by
  rw [qualifiers, Node.qualifiers?, qualifierLine_eq]
  split_ifs <;> rfl

/-- Reads header and body of a declaration. -/
def split (o : Options) (n : Node) : Option (Except Diagnostic (Header × List Node)) := do
  match ← headerOfText o.phrases n.text n.line n.span with
  | .error e => some (.error (n.note (.unrecognizedHeader n.text e.message)))
  | .ok header => do
    let read ← n.children.mapM fun child => do some (child, ← qualifiers o child)
    let body := (read.filter fun r => r.2.isNone).map Prod.fst
    some (.ok (header.addQualifiers (read.filterMap Prod.snd).flatten, body))

theorem split_eq (o : Options) (n : Node) : split o n = some (Declaration.split o n) := by
  have read : n.children.mapM (fun child => do some (child, ← qualifiers o child))
      = some (n.children.map fun child => (child, child.qualifiers? o)) := by
    simp only [qualifiers_eq, Option.bind_eq_bind, Option.bind_some]
    exact List.mapM_pure
  rw [split, Declaration.split, headerOfText_eq, read]
  cases Header.ofText o.phrases n.text n.line n.span with
  | error e => rfl
  | ok header =>
    simp only [Option.bind_eq_bind, Option.bind_some, List.filterMap_map, List.filter_map, List.map_map,
      Function.comp_def, List.map_id']

/-- Reads a declaration whose header and body make it up; a line that is no header gives none. -/
def ofSplit (o : Options) (n : Node) (make : Header → List Node → Option Declaration) :
    Option (Noted (Option Declaration)) := do
  match ← split o n with
  | .ok (header, body) => do
    let declaration ← make header body
    some ⟨some declaration, []⟩
  | .error e => some ⟨none, [e]⟩

theorem ofSplit_eq (o : Options) (n : Node) {make : Header → List Node → Option Declaration}
    {made : Header → List Node → Declaration} (total : ∀ header body, make header body = some (made header body)) :
    ofSplit o n make = some (Declaration.ofSplit o n made) := by
  rw [ofSplit, Declaration.ofSplit, split_eq]
  simp only [total, Option.bind_eq_bind, Option.bind_some]
  cases Declaration.split o n <;> rfl

/-- Reads some parts in order; a part may give no value. -/
def gather {α β : Type} (read : α → Option (Noted (Option β))) (parts : List α) : Option (Noted (List β)) := do
  let each ← parts.mapM read
  some (Noted.gather id each)

theorem gather_eq {α β : Type} {read : α → Option (Noted (Option β))} {given : α → Noted (Option β)}
    (total : ∀ part, read part = some (given part)) (parts : List α) :
    gather read parts = some (Noted.gather given parts) := by
  have same : Noted.gather id (parts.map given) = Noted.gather given parts := by
    induction parts with
    | nil => rfl
    | cons part parts ih => simp only [List.map_cons, Noted.gather, ih, id]
  have each : parts.mapM read = some (parts.map given) := by
    rw [funext total]
    exact List.mapM_pure
  rw [gather, each, Option.bind_eq_bind, Option.bind_some, same]

/-! ### Actions -/

/-- Hands out one line under an action. -/
def addPart (o : Options) (p : Action.Parts) (n : Node) : Option Action.Parts :=
  match ActionSectionKind.ofHeader? n.text with
  | some kind =>
    let repeated := if Catalog.contains p.sections kind then p.repeated ++ [(kind, n)] else p.repeated
    some { p.addTo kind n.children with current := some kind, repeated := repeated }
  | none =>
    match p.current with
    | some kind => some (p.addTo kind [n])
    | none => do
      match ← qualifiers o n with
      | some qs => some { p with qualifiers := p.qualifiers ++ qs }
      | none => some { p with body := p.body ++ [n] }

theorem addPart_eq (o : Options) (p : Action.Parts) (n : Node) : addPart o p n = some (p.add o n) := by
  rw [addPart, Action.Parts.add, qualifiers_eq]
  cases ActionSectionKind.ofHeader? n.text with
  | some kind => rfl
  | none =>
    cases p.current with
    | some kind => rfl
    | none => cases n.qualifiers? o <;> rfl

/-- Reads the content of a sub-section; `depth` is the depth of the action. -/
def readSection (o : Options) (depth : Nat) (kind : ActionSectionKind) (nodes : List Node) :
    Option (Noted ActionSection) :=
  let base := Action.baseDepth depth nodes
  let fields (isLocal : Bool) : Option (Noted ActionSection) := do
    let ds ← gather (fun n => ofSplit o n fun header body => some (Declaration.ofField o isLocal header body)) nodes
    some ⟨.fields ds.value, ds.notes⟩
  match kind with
  | .parameters => fields false
  | .localFields => fields true
  | .queueMappingFields | .sortOrder | .accumulators => some ⟨.entries nodes, []⟩
  | .parameterRules => some ⟨.rules (Forest.text nodes base), []⟩
  | .instanceSelection => do
    let text := Forest.text nodes base
    let filter ← whereFilter text
    some ⟨.selection ⟨filter, text⟩, []⟩
  | .actionRules => do
    let rules ← actionRules o base nodes
    some ⟨.actionRules rules.value, rules.notes⟩

theorem readSection_eq (o : Options) (depth : Nat) (kind : ActionSectionKind) (nodes : List Node) :
    readSection o depth kind nodes = some (Action.readSection o depth kind nodes) := by
  have fields (isLocal : Bool) :
      gather (fun n => ofSplit o n fun header body => some (Declaration.ofField o isLocal header body)) nodes
        = some (Noted.gather (fun n => Declaration.ofSplit o n (Declaration.ofField o isLocal)) nodes) :=
    gather_eq (fun n => ofSplit_eq o n fun header body => rfl) nodes
  unfold readSection Action.readSection
  simp only [fields, whereFilter_eq, actionRules_eq, Option.bind_eq_bind, Option.bind_some]
  cases kind <;> rfl

/-- Reads the contents of all sub-sections in order. -/
def readSections (o : Options) (depth : Nat) (pending : Catalog ActionSectionKind (List Node)) :
    Option (Noted (List (ActionSectionKind × ActionSection))) :=
  gather (fun s => do
    let content ← readSection o depth s.1 s.2
    some ⟨some (s.1, content.value), content.notes⟩) pending

theorem readSections_eq (o : Options) (depth : Nat) (pending : Catalog ActionSectionKind (List Node)) :
    readSections o depth pending = some (Action.readSections o depth pending) := by
  refine gather_eq (fun s => ?_) pending
  rw [readSection_eq]
  rfl

/-- Reads an action; a line that is no typed header gives none. -/
def readAction (o : Options) (n : Node) : Option (Noted (Option Action)) := do
  match ← recognize o.phrases n.text n.line n.span with
  | .error _ => some ⟨none, [n.note (.malformedActionHeader n.text)]⟩
  | .ok header => do
    let parts ← n.children.foldlM (addPart o) {}
    let sections ← readSections o n.depth parts.sections
    some ⟨some
      { header := header.addQualifiers parts.qualifiers
        kind := ActionKind.ofType (header.typeName.getD [])
        body := parts.body
        sections := sections.value },
      parts.repeated.map (Action.repeatedSection header.name) ++ sections.notes⟩

theorem readAction_eq (o : Options) (n : Node) : readAction o n = some (Action.read o n) := by
  have handedOut : n.children.foldlM (addPart o) {} = some (Action.distribute o n.children) := by
    rw [funext fun p => funext (addPart_eq o p)]
    exact List.foldlM_pure
  rw [readAction, Action.read, recognize_eq]
  cases Header.recognize o.phrases n.text n.line n.span with
  | error e => rfl
  | ok header =>
    simp only [handedOut, readSections_eq, Option.bind_eq_bind, Option.bind_some]

/-! ### Sections -/

/-- Reads one declaration of a section; a line that is no header gives none. -/
def readDeclaration (o : Options) (kind : SectionKind) (n : Node) : Option (Noted (Option Declaration)) :=
  match kind with
  | .actions => do
    let a ← readAction o n
    some ⟨a.value.map .action, a.notes⟩
  | .localFields => ofSplit o n fun header body => some (Declaration.ofField o true header body)
  | .conditions => ofSplit o n fun header body => some (.condition ⟨header, Declaration.bodyText body⟩)
  | .relations => ofSplit o n fun header body => do some (.relation ⟨header, ← relationView body, body⟩)
  | .sets => ofSplit o n fun header body => some (.setDefinition ⟨header, body⟩)
  | .fieldRules | .ruleBlocks =>
    ofSplit o n fun header body => some (.ruleBlock ⟨header, Declaration.bodyText body⟩)
  | .persistentFields | .contextFields | .transientFields | .derivedFields =>
    ofSplit o n fun header body => some (Declaration.ofField o false header body)

theorem readDeclaration_eq (o : Options) (kind : SectionKind) (n : Node) :
    readDeclaration o kind n = some (Declaration.read o kind n) := by
  have relation (header : Header) (body : List Node) :
      (do some (Declaration.relation ⟨header, ← relationView body, body⟩))
        = some (.relation ⟨header, .ofBody body, body⟩) := by
    rw [relationView_eq]
    rfl
  cases kind with
  | actions =>
    rw [readDeclaration, readAction_eq]
    rfl
  | relations => exact ofSplit_eq o n relation
  | _ => exact ofSplit_eq o n fun header body => rfl

/-- Reads the declarations of a section in order. -/
def readDeclarations (o : Options) (kind : SectionKind) (nodes : List Node) : Option (Noted (List Declaration)) :=
  gather (readDeclaration o kind) nodes

theorem readDeclarations_eq (o : Options) (kind : SectionKind) (nodes : List Node) :
    readDeclarations o kind nodes = some (Declaration.readAll o kind nodes) :=
  gather_eq (readDeclaration_eq o kind) nodes

/-! ### Classes -/

open Document (Draft)

/-- Takes up the header of a section with the lines under it. -/
def openSection (o : Options) (d : Draft) (kind : SectionKind) (n : Node) : Option Draft := do
  let isKnown := Catalog.contains d.document.sections kind
  let noted := { d with current := some kind, notes := d.notes ++ Draft.repeated n isKnown kind.name }
  let declarations ← readDeclarations o kind n.children
  some (noted.addTo kind n.line declarations)

/-- Takes up one item of a class. -/
def addItem (o : Options) (d : Draft) (n : Node) : Option Draft :=
  match ClassItem.ofText n.text with
  | .owner name => some { d with document := { d.document with owner := some name } }
  | .classPrefix text => some { d with document := { d.document with classPrefix := some text } }
  | .opensSection kind => openSection o d kind n
  | .opensBlock kind => some (d.openBlock kind n)
  | .content =>
    match d.current with
    | some kind => do
      let declarations ← readDeclarations o kind [n]
      some (d.addTo kind n.line declarations)
    | none => some { d with notes := d.notes ++ [n.note (.unknownSectionContent n.text)] }

theorem addItem_eq (o : Options) (d : Draft) (n : Node) : addItem o d n = some (d.add o n) := by
  have opened (kind : SectionKind) : openSection o d kind n = some (d.openSection o kind n) := by
    rw [openSection, readDeclarations_eq]
    rfl
  have taken (kind : SectionKind) : (do
      let declarations ← readDeclarations o kind [n]
      some (d.addTo kind n.line declarations)) = some (d.addTo kind n.line (Declaration.readAll o kind [n])) := by
    rw [readDeclarations_eq]
    rfl
  rw [addItem, Draft.add]
  cases ClassItem.ofText n.text with
  | opensSection kind => exact opened kind
  | content =>
    cases d.current with
    | some kind => exact taken kind
    | none => rfl
  | _ => rfl

/-- Takes up the items of a class in order; `notes` are the problems found before. -/
def draftOf (o : Options) (start : Document) (notes : List Diagnostic) (items : List Node) : Option Draft :=
  items.foldlM (addItem o) ⟨start, none, notes⟩

theorem draftOf_eq (o : Options) (start : Document) (notes : List Diagnostic) (items : List Node) :
    draftOf o start notes items = some (.ofItems o start notes items) := by
  rw [draftOf, funext fun d => funext (addItem_eq o d)]
  exact List.foldlM_pure

/-- The header of a class, if the line is one. -/
def classHeader (o : Options) (n : Node) : Option (Option Header) := do
  match ← recognize o.phrases n.text n.line n.span with
  | .ok header => some (if header.typeName.any isClassType then some header else none)
  | .error _ => some none

/-- The class header of an outline and the items of the class. -/
def classRoot (o : Options) : List Node → Option (Option (Header × List Node))
  | [] => some none
  | root :: roots => do
    let header ← classHeader o root
    some (header.map fun header => (header, root.children ++ roots))

theorem classRoot_eq (o : Options) (forest : List Node) : classRoot o forest = some (Document.classRoot? o forest) := by
  have header (n : Node) : classHeader o n = some (Document.classHeader? o n) := by
    rw [classHeader, Document.classHeader?, recognize_eq]
    cases Header.recognize o.phrases n.text n.line n.span <;> rfl
  cases forest with
  | nil => rfl
  | cons root roots =>
    rw [classRoot, header]
    rfl

/-- The document of an outline; `notes` are the problems found before. -/
def classify (o : Options) (notes : List Diagnostic) (forest : List Node) : Option Reading := do
  match ← classRoot o forest with
  | some (header, items) => do
    let draft ← draftOf o { name := some header.name, classType := header.typeName } notes items
    some draft.close
  | none => do
    let draft ← draftOf o {} notes forest
    some draft.closeHeadless

theorem classify_eq (o : Options) (notes : List Diagnostic) (forest : List Node) :
    classify o notes forest = some (Document.classify o notes forest) := by
  rw [classify, Document.classify, classRoot_eq]
  simp only [draftOf_eq, Option.bind_eq_bind, Option.bind_some]
  cases Document.classRoot? o forest <;> rfl

/-- Reads a class source with operations that may fail: parts of texts and lists, elements by position, differences and
quotients. -/
def readDocument (o : Options) (source : Text) : Option Reading := do
  let said ← scan o source
  let malformed := said.filterMap fun
    | .ok _ => none
    | .error e => some e
  let r ← classify o (malformed.map Document.malformedLine) (Forest.ofLines 0 (said.filterMap Except.toOption))
  some { r with diagnostics := r.diagnostics.map (·.withSourceName o.sourceName) }

/-- **Reading never fails.** Whatever the source and the options, every part of a text that reading cuts out is inside
that text and between characters, every position is inside its list, and no difference is below zero: with operations
that fail otherwise, reading gives what it gives without them. -/
theorem readDocument_eq (o : Options) (source : Text) : readDocument o source = some (Document.read o source) := by
  rw [readDocument, scan_eq]
  simp only [classify_eq, Option.bind_eq_bind, Option.bind_some]
  rfl

end Checked

end BusinessClass
