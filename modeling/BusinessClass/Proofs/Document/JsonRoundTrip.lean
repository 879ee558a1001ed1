import BusinessClass.Document.Decoding
import BusinessClass.Proofs.Document.Catalog
import BusinessClass.Proofs.Document.Vocabulary
import BusinessClass.Proofs.Json.Decoder

/-!
# Documents that are encoded and decoded again

A value fits if its numbers can be kept and the keys of its catalogs are distinct. The decoders give back every
value that fits and is not nested too deep.

* `Node.ofJson?_toJson` and `SetRuleGroup.ofJson?_toJson`: trees, by induction on the levels that may be nested.
* `Catalog.ofJson?_object`: a catalog comes back with its entries in order.
* `Declaration.Fits.ofJson?_toJson`: declarations, with the declarations in the sub-sections of actions.
* `Document.Fits.ofJson?_toJson`: documents, with or without class-level rule blocks.
-/

namespace BusinessClass

open Json

variable {budget : Nat}

/-! ### Lines -/

/-- The numbers of a span can be kept. -/
structure Span.Fits (s : Span) : Prop where
  start : s.start < naturalBound
  stop : s.stop < naturalBound

/-- The numbers of a node and of the nodes under it can be kept. -/
inductive Node.Fits : Node → Prop
  | mk {text : Text} {depth line : Nat} {span : Span} {children : List Node} (depth_lt : depth < naturalBound)
      (line_lt : line < naturalBound) (span_fits : span.Fits) (children_fit : ∀ c ∈ children, Node.Fits c) :
      Node.Fits ⟨text, depth, line, span, children⟩

/-- The numbers of a header can be kept. -/
structure Header.Fits (h : Header) : Prop where
  line : h.line < naturalBound
  span : h.span.Fits

namespace Span

theorem Fits.plain {s : Span} (fits : s.Fits) : s.toJson.Plain :=
  Plain.ofMembers ⟨.natural fits.start, .natural fits.stop⟩

theorem ofJson?_toJson {s : Span} (le : s.toJson.nesting ≤ budget) : ofJson? budget s.toJson = some s := by
  obtain ⟨pos, -⟩ := nesting_ofMembers_le.1 le
  have fields : s.toJson.fields? budget ["start", "end"] = some [some (.natural s.start), some (.natural s.stop)] :=
    fields?_ofMembers rfl (by decide) pos
  unfold ofJson?
  rw [fields]
  simp [toJson, ofMembers, required?, natural?]

end Span

namespace Node

theorem toJsons_eq_map (f : List Node) : toJsons f = f.map toJson := by
  induction f with
  | nil => rfl
  | cons n ns ih => rw [toJsons, ih, List.map_cons]

theorem toJson_eq (n : Node) : n.toJson = .ofMembers [("text", .string n.text), ("depth", .natural n.depth),
    ("line", .natural n.line), ("span", n.span.toJson), ("children", .array (n.children.map toJson))] := by
  obtain ⟨text, depth, line, span, children⟩ := n
  rw [toJson, toJsons_eq_map]

theorem Fits.plain {n : Node} (fits : n.Fits) : n.toJson.Plain := by
  induction fits with
  | @mk text depth line span children depth_lt line_lt span_fits children_fit ih =>
    rw [toJson_eq]
    exact Plain.ofMembers ⟨.string text, .natural depth_lt, .natural line_lt, span_fits.plain,
      .array (List.forall_mem_map.2 ih)⟩

/-- A node that was encoded is decoded, if it is not nested too deep. -/
theorem ofJson?_toJson {n : Node} (le : n.toJson.nesting ≤ budget) : ofJson? budget n.toJson = some n := by
  induction budget using Nat.strongRecOn generalizing n with
  | ind budget ih =>
    obtain ⟨text, depth, line, span, children⟩ := n
    rw [toJson_eq] at le ⊢
    obtain ⟨pos, -, -, -, span_le, children_le⟩ := nesting_ofMembers_le.1 le
    obtain ⟨pos', each⟩ := nesting_array_le.1 children_le
    -- The object of the node and the array of its children take two levels.
    obtain ⟨b, rfl⟩ : ∃ b, budget = b + 2 := ⟨budget - 2, by omega⟩
    have span_eq : Span.ofJson? (b + 1) span.toJson = some span := Span.ofJson?_toJson span_le
    have children_eq : list? (b + 1) (fun c => ofJson? b c) (.array (children.map toJson)) = some children :=
      list?_map (by omega) fun c hc => ih b (by omega) (each _ (List.mem_map_of_mem hc))
    rw [ofJson?, fields?_ofMembers ?_ ?_ pos]
    · simp [span_eq, children_eq]
    · rfl
    · decide

end Node

namespace Forest

theorem plain_forestJson {f : List Node} (fits : ∀ n ∈ f, n.Fits) : (Node.forestJson f).Plain := by
  rw [Node.forestJson, Node.toJsons_eq_map]
  exact .array (List.forall_mem_map.2 fun n hn => (fits n hn).plain)

theorem forestOfJson?_forestJson {f : List Node} (le : (Node.forestJson f).nesting ≤ budget) :
    Node.forestOfJson? budget (Node.forestJson f) = some f := by
  rw [Node.forestJson, Node.toJsons_eq_map] at le ⊢
  obtain ⟨pos, each⟩ := nesting_array_le.1 le
  exact list?_map pos fun n hn => Node.ofJson?_toJson (each _ (List.mem_map_of_mem hn))

end Forest

/-! ### Headers -/

namespace Header

theorem Fits.plain {h : Header} (fits : h.Fits) : h.toJson.Plain := by
  have article : ((h.article.map Article.toJson).getD .null).Plain := by
    cases h.article with
    | none => exact .null
    | some article => cases article <;> exact .string _
  exact Plain.ofMembers ⟨.string _, article, .ofText? _, .ofTexts _, .natural fits.line, fits.span.plain⟩

theorem ofJson?_toJson (reach : Reach) {h : Header} (le : h.toJson.nesting ≤ budget) :
    ofJson? reach budget h.toJson = some h := by
  rw [toJson] at le ⊢
  obtain ⟨pos, -, -, -, qualifiers_le, -, span_le⟩ := nesting_ofMembers_le.1 le
  have article : orNull? (Article.ofJson? reach (budget - 1)) ((h.article.map Article.toJson).getD .null)
      = some h.article := by
    cases h.article with
    | none => rfl
    | some article => cases article <;> rfl
  have qualifiers := texts?_ofTexts (nesting_array_le.1 qualifiers_le).1 h.qualifiers
  rw [ofJson?, fields?_ofMembers ?_ ?_ pos]
  · simp [article, qualifiers, Span.ofJson?_toJson span_le]
  · rfl
  · decide

end Header

namespace RuleBlock

theorem plain_toJson {b : RuleBlock} (fits : b.header.Fits) : b.toJson.Plain :=
  Plain.ofMembers ⟨fits.plain, .string _⟩

theorem ofJson?_toJson (reach : Reach) {b : RuleBlock} (le : b.toJson.nesting ≤ budget) :
    ofJson? reach budget b.toJson = some b := by
  rw [toJson] at le ⊢
  obtain ⟨pos, header_le, -⟩ := nesting_ofMembers_le.1 le
  rw [ofJson?, fields?_ofMembers ?_ ?_ pos]
  · simp [Header.ofJson?_toJson reach header_le]
  · rfl
  · decide

end RuleBlock

/-! ### Rules -/

/-- The numbers of a group and of the groups nested in it can be kept. -/
inductive SetRuleGroup.Fits : SetRuleGroup → Prop
  | mk {key : GroupKey} {line : Nat} {entrance exit rules : Option Text} {children : List SetRuleGroup}
      (line_lt : line < naturalBound) (children_fit : ∀ c ∈ children, SetRuleGroup.Fits c) :
      SetRuleGroup.Fits ⟨key, line, entrance, exit, rules, children⟩

namespace GroupKey

theorem plain_toJson (key : GroupKey) : key.toJson.Plain := by
  cases key with
  | empty => exact .string _
  | general => exact .string _
  | path segments => exact Plain.ofMembers (.ofTexts segments)

theorem ofJson?_toJson {key : GroupKey} (le : key.toJson.nesting ≤ budget) : ofJson? budget key.toJson = some key := by
  cases key with
  | empty => rfl
  | general => rfl
  | path segments =>
    obtain ⟨pos, segments_le⟩ := nesting_ofMembers_le.1 le
    have texts := texts?_ofTexts (nesting_array_le.1 segments_le).1 segments
    simp [toJson, ofMembers, ofJson?, texts]

end GroupKey

namespace SetRuleGroup

theorem toJsons_eq_map (gs : List SetRuleGroup) : toJsons gs = gs.map toJson := by
  induction gs with
  | nil => rfl
  | cons g gs ih => rw [toJsons, ih, List.map_cons]

theorem toJson_eq (g : SetRuleGroup) : g.toJson = .ofMembers [("key", g.key.toJson), ("line", .natural g.line),
    ("entrance", .ofText? g.entrance), ("exit", .ofText? g.exit), ("rules", .ofText? g.rules),
    ("children", .array (g.children.map toJson))] := by
  obtain ⟨key, line, entrance, exit, rules, children⟩ := g
  rw [toJson, toJsons_eq_map]

theorem Fits.plain {g : SetRuleGroup} (fits : g.Fits) : g.toJson.Plain := by
  induction fits with
  | @mk key line entrance exit rules children line_lt children_fit ih =>
    rw [toJson_eq]
    exact Plain.ofMembers ⟨key.plain_toJson, .natural line_lt, .ofText? _, .ofText? _, .ofText? _,
      .array (List.forall_mem_map.2 ih)⟩

/-- A group that was encoded is decoded, if it is not nested too deep. -/
theorem ofJson?_toJson {g : SetRuleGroup} (le : g.toJson.nesting ≤ budget) :
    ofJson? budget g.toJson = some g := by
  induction budget using Nat.strongRecOn generalizing g with
  | ind budget ih =>
    obtain ⟨key, line, entrance, exit, rules, children⟩ := g
    rw [toJson_eq] at le ⊢
    obtain ⟨pos, key_le, -, -, -, -, children_le⟩ := nesting_ofMembers_le.1 le
    obtain ⟨pos', each⟩ := nesting_array_le.1 children_le
    obtain ⟨b, rfl⟩ : ∃ b, budget = b + 2 := ⟨budget - 2, by omega⟩
    have key_eq : GroupKey.ofJson? (b + 1) key.toJson = some key := GroupKey.ofJson?_toJson key_le
    have children_eq : list? (b + 1) (fun c => ofJson? b c) (.array (children.map toJson)) = some children :=
      list?_map (by omega) fun c hc => ih b (by omega) (each _ (List.mem_map_of_mem hc))
    rw [ofJson?, fields?_ofMembers ?_ ?_ pos]
    · simp [key_eq, children_eq]
    · rfl
    · decide

end SetRuleGroup

namespace Json

theorem nesting_ofContent_le {kind : String} {content : Json} :
    (ofContent kind content).nesting ≤ budget ↔ budget ≠ 0 ∧ content.nesting ≤ budget - 1 := by
  rw [ofContent, nesting_ofMembers_le]
  exact ⟨fun h => ⟨h.1, h.2.2⟩, fun h => ⟨h.1, Nat.zero_le _, h.2⟩⟩

theorem content?_ofContent (pos : budget ≠ 0) (kind : String) (content : Json) :
    content? budget (ofContent kind content) = some (kind.toList, content) := by
  rw [content?, ofContent, fields?_ofMembers ?_ ?_ pos]
  · rfl
  · rfl
  · decide

theorem Plain.ofContent {kind : String} {content : Json} (plain : content.Plain) : (ofContent kind content).Plain :=
  Plain.ofMembers ⟨.string _, plain⟩

end Json

namespace RuleItem

theorem ofJson?_ofContent (pos : budget ≠ 0) (kind : String) (content : Json) :
    ofJson? budget (.ofContent kind content)
      = if kind.toList = "Text".toList then (content.text?).map .text
        else if kind.toList = "SetRules".toList then (SetRuleGroup.ofJson? (budget - 1) content).map .group
        else none := by
  rw [ofJson?, content?_ofContent pos]
  rfl

theorem ofJson?_toJson {i : RuleItem} (le : i.toJson.nesting ≤ budget) : ofJson? budget i.toJson = some i := by
  cases i with
  | text lines =>
    obtain ⟨pos, -⟩ := nesting_ofContent_le.1 le
    rw [toJson, ofJson?_ofContent pos, if_pos rfl]
    rfl
  | group g =>
    obtain ⟨pos, content_le⟩ := nesting_ofContent_le.1 le
    rw [toJson, ofJson?_ofContent pos, if_neg (by decide), if_pos rfl, SetRuleGroup.ofJson?_toJson content_le,
      Option.map_some]

end RuleItem

namespace ActionRules

theorem plain_toJson {r : ActionRules} (fits : ∀ g ∈ r.groups, g.Fits) : r.toJson.Plain := by
  refine Plain.ofMembers (.array (List.forall_mem_map.2 fun i hi => ?_))
  cases i with
  | text lines => exact .ofContent (.string lines)
  | group g => exact .ofContent (fits g (List.mem_filterMap.2 ⟨_, hi, rfl⟩)).plain

theorem ofJson?_toJson {r : ActionRules} (le : r.toJson.nesting ≤ budget) : ofJson? budget r.toJson = some r := by
  rw [toJson] at le ⊢
  obtain ⟨pos, items_le⟩ := nesting_ofMembers_le.1 le
  obtain ⟨pos', each⟩ := nesting_array_le.1 items_le
  have items : list? (budget - 1) (RuleItem.ofJson? (budget - 2)) (.array (r.items.map RuleItem.toJson))
      = some r.items :=
    list?_map pos' fun i hi => RuleItem.ofJson?_toJson (each _ (List.mem_map_of_mem hi))
  rw [ofJson?, fields?_ofMembers ?_ ?_ pos]
  · simp [items]
  · rfl
  · decide

end ActionRules

namespace InstanceSelection

theorem plain_toJson (s : InstanceSelection) : s.toJson.Plain := Plain.ofMembers ⟨.ofText? _, .string _⟩

theorem ofJson?_toJson {s : InstanceSelection} (le : s.toJson.nesting ≤ budget) :
    ofJson? budget s.toJson = some s := by
  rw [toJson] at le ⊢
  obtain ⟨pos, -⟩ := nesting_ofMembers_le.1 le
  rw [ofJson?, fields?_ofMembers ?_ ?_ pos]
  · simp
  · rfl
  · decide

end InstanceSelection

/-! ### Catalogs -/

namespace Catalog

variable {κ α : Type} [DecidableEq κ]

/-- A catalog of entries under distinct keys has these entries in order. -/
theorem ofList_of_nodup {c : Catalog κ α} (nodup : (keys c).Nodup) : ofList c = c := by
  have fold : ∀ (rest done : Catalog κ α), (keys (done ++ rest)).Nodup →
      rest.foldl (fun c e => insert e.1 e.2 c) done = done ++ rest := by
    intro rest
    induction rest with
    | nil => exact fun done _ => (List.append_nil done).symm
    | cons e rest ih =>
      intro done nodup
      have absent : e.1 ∉ keys done := by
        intro mem
        rw [keys, List.map_append] at nodup
        exact (List.nodup_append.1 nodup).2.2 _ mem _ (by simp) rfl
      rw [List.foldl_cons, insert, upsert_of_not_mem absent, ih (done ++ [(e.1, e.2)]) (by rwa [List.append_assoc]),
        List.append_assoc]
      rfl
  exact fold c [] nodup

/-- A catalog that was encoded is decoded. -/
theorem ofJson?_object {key? : Text → Option κ} {name : κ → Text} {decode : Json → Option α} {encode : α → Json}
    (pos : budget ≠ 0) (key : ∀ k, key? (name k) = some k) {c : Catalog κ α}
    (each : ∀ e ∈ c, decode (encode e.2) = some e.2) (nodup : (keys c).Nodup) :
    ofJson? budget key? decode (.object (c.map fun e => (name e.1, encode e.2))) = some c := by
  have entries : (c.map fun e => (name e.1, encode e.2)).mapM (keyed? key? decode) = some c := by
    refine mapM_map fun e he => ?_
    rw [keyed?, key, each e he]
    rfl
  rw [ofJson?, Json.members, if_neg pos, Option.bind_some, entries, Option.map_some, ofList_of_nodup nodup]

end Catalog

/-! ### Declarations -/

mutual

/-- The numbers of a declaration can be kept, and the keys of its sub-sections are distinct. -/
inductive Declaration.Fits : Declaration → Prop
  | field {d : Field} (header : d.header.Fits) (body : ∀ n ∈ d.body, n.Fits) : Declaration.Fits (.field d)
  | relation {d : Relation} (header : d.header.Fits) (body : ∀ n ∈ d.body, n.Fits) :
    Declaration.Fits (.relation d)
  | setDefinition {d : SetDefinition} (header : d.header.Fits) (body : ∀ n ∈ d.body, n.Fits) :
    Declaration.Fits (.setDefinition d)
  | condition {d : Condition} (header : d.header.Fits) : Declaration.Fits (.condition d)
  | action {header : Header} {kind : ActionKind} {body : List Node}
      {sections : List (ActionSectionKind × ActionSection)} (header_fits : header.Fits)
      (body_fits : ∀ n ∈ body, n.Fits) (nodup : (Catalog.keys sections).Nodup)
      (sections_fit : ∀ e ∈ sections, ActionSection.Fits e.2) :
    Declaration.Fits (.action ⟨header, kind, body, sections⟩)
  | ruleBlock {d : RuleBlock} (header : d.header.Fits) : Declaration.Fits (.ruleBlock d)

/-- The numbers of a sub-section can be kept, and the keys in it are distinct. -/
inductive ActionSection.Fits : ActionSection → Prop
  | fields {ds : List Declaration} (each : ∀ d ∈ ds, Declaration.Fits d) : ActionSection.Fits (.fields ds)
  | entries {nodes : List Node} (each : ∀ n ∈ nodes, n.Fits) : ActionSection.Fits (.entries nodes)
  | rules (t : Text) : ActionSection.Fits (.rules t)
  | selection (s : InstanceSelection) : ActionSection.Fits (.selection s)
  | actionRules {r : ActionRules} (each : ∀ g ∈ r.groups, g.Fits) : ActionSection.Fits (.actionRules r)

end

theorem Declaration.toJsons_eq_map (ds : List Declaration) : Declaration.toJsons ds = ds.map Declaration.toJson := by
  induction ds with
  | nil => rfl
  | cons d ds ih => rw [Declaration.toJsons, ih, List.map_cons]

theorem Action.sectionMembers_eq_map (sections : List (ActionSectionKind × ActionSection)) :
    Action.sectionMembers sections = sections.map fun e => (e.1.name, e.2.toJson) := by
  induction sections with
  | nil => rfl
  | cons e sections ih => rw [Action.sectionMembers, ih, List.map_cons]

theorem ActionKind.plain_toJson (kind : ActionKind) : kind.toJson.Plain := by
  cases kind with
  | other typeName => exact Plain.ofMembers (.string typeName)
  | _ => exact .string _

theorem ActionKind.ofJson?_toJson (budget : Nat) (kind : ActionKind) :
    ofJson? budget kind.toJson = some kind := by
  cases kind with
  | other typeName => simp [toJson, ofMembers, ofJson?]
  | _ => rfl

mutual

theorem Declaration.Fits.plain : ∀ {d : Declaration}, d.Fits → d.toJson.Plain
  | _, .field header body => by
    rw [Declaration.toJson]
    exact Plain.ofMembers ⟨.string _, header.plain, Forest.plain_forestJson body⟩
  | _, .relation header body => by
    rw [Declaration.toJson]
    exact Plain.ofMembers ⟨.string _, header.plain, .ofText? _, .ofText? _, .ofText? _, .ofTexts _, .ofText? _,
      Forest.plain_forestJson body⟩
  | _, .setDefinition header body => by
    rw [Declaration.toJson]
    exact Plain.ofMembers ⟨.string _, header.plain, Forest.plain_forestJson body⟩
  | _, .condition header => by
    rw [Declaration.toJson]
    exact Plain.ofMembers ⟨.string _, header.plain, .string _⟩
  | _, .action header body _ each => by
    rw [Declaration.toJson, Action.sectionMembers_eq_map]
    exact Plain.ofMembers ⟨.string _, header.plain, ActionKind.plain_toJson _, Forest.plain_forestJson body,
      .object (List.forall_mem_map.2 fun e he => (each e he).plain)⟩
  | _, .ruleBlock header => by
    rw [Declaration.toJson]
    exact Plain.ofMembers ⟨.string _, header.plain, .string _⟩

theorem ActionSection.Fits.plain : ∀ {c : ActionSection}, c.Fits → c.toJson.Plain
  | _, .fields each => by
    rw [ActionSection.toJson, Declaration.toJsons_eq_map]
    exact .ofContent (.array (List.forall_mem_map.2 fun d hd => (each d hd).plain))
  | _, .entries each => by
    rw [ActionSection.toJson]
    exact .ofContent (Forest.plain_forestJson each)
  | _, .rules t => by
    rw [ActionSection.toJson]
    exact .ofContent (.string t)
  | _, .selection s => by
    rw [ActionSection.toJson]
    exact .ofContent s.plain_toJson
  | _, .actionRules each => by
    rw [ActionSection.toJson]
    exact .ofContent (ActionRules.plain_toJson each)

end

theorem Field.ofJson?_ofMembers {d : Field}
    (le : (Json.ofMembers [("header", d.header.toJson), ("body", Node.forestJson d.body)]).nesting ≤ budget) :
    ofJson? budget (.ofMembers [("header", d.header.toJson), ("body", Node.forestJson d.body)]) = some d := by
  obtain ⟨pos, header_le, body_le⟩ := nesting_ofMembers_le.1 le
  rw [ofJson?, fields?_ofMembers ?_ ?_ pos]
  · simp [Header.ofJson?_toJson .held header_le, Forest.forestOfJson?_forestJson body_le]
  · rfl
  · decide

theorem Relation.ofJson?_ofMembers {d : Relation}
    (le : (Json.ofMembers (("header", d.header.toJson) :: Declaration.relationFields d)).nesting ≤ budget) :
    ofJson? budget (.ofMembers (("header", d.header.toJson) :: Declaration.relationFields d)) = some d := by
  rw [Declaration.relationFields] at le ⊢
  obtain ⟨pos, header_le, -, -, -, mappings_le, -, body_le⟩ := nesting_ofMembers_le.1 le
  have mappings := texts?_ofTexts (nesting_array_le.1 mappings_le).1 d.view.mappings
  rw [ofJson?, fields?_ofMembers ?_ ?_ pos]
  · simp [Header.ofJson?_toJson .held header_le, Forest.forestOfJson?_forestJson body_le, mappings]
  · rfl
  · decide

theorem Condition.ofJson?_ofMembers {d : Condition}
    (le : (Json.ofMembers [("header", d.header.toJson), ("definition", .string d.definition)]).nesting ≤ budget) :
    ofJson? budget (.ofMembers [("header", d.header.toJson), ("definition", .string d.definition)]) = some d := by
  obtain ⟨pos, header_le, -⟩ := nesting_ofMembers_le.1 le
  rw [ofJson?, fields?_ofMembers ?_ ?_ pos]
  · simp [Header.ofJson?_toJson .held header_le]
  · rfl
  · decide

/-- The fields of an action. -/
def Action.jsonFields (a : Action) : List (String × Json) :=
  [("header", a.header.toJson), ("kind", a.kind.toJson), ("body", Node.forestJson a.body),
    ("sections", .object (a.sections.map fun e => (e.1.name, e.2.toJson)))]

theorem Action.ofJson?_ofMembers {a : Action} (le : (Json.ofMembers a.jsonFields).nesting ≤ budget)
    (nodup : (Catalog.keys a.sections).Nodup) {decode : Json → Option ActionSection}
    (each : ∀ e ∈ a.sections, e.2.toJson.nesting ≤ budget - 2 → decode e.2.toJson = some e.2) :
    ofJson? budget decode (.ofMembers a.jsonFields) = some a := by
  obtain ⟨header, kind, body, sections⟩ := a
  rw [jsonFields] at le ⊢
  obtain ⟨pos, header_le, -, body_le, sections_le⟩ := nesting_ofMembers_le.1 le
  obtain ⟨pos', inside⟩ := nesting_object_le.1 sections_le
  have contents : Catalog.ofJson? (budget - 1) ActionSectionKind.ofName? decode
      (.object (sections.map fun e => (e.1.name, e.2.toJson))) = some sections :=
    Catalog.ofJson?_object pos' Vocabulary.ofName?_name
      (fun e he => each e he (inside _ (List.mem_map_of_mem he))) nodup
  rw [ofJson?, fields?_ofMembers ?_ ?_ pos]
  · simp [Header.ofJson?_toJson .held header_le, Forest.forestOfJson?_forestJson body_le,
      ActionKind.ofJson?_toJson, contents]
  · rfl
  · decide

/-- The variant of a declaration that was encoded says how its fields are decoded. -/
theorem Declaration.ofJson?_ofVariant (reach : Reach) (variant : String) {header : Header}
    {fields : List (String × Json)} (names : List String) (eq : fields.map Prod.fst = names)
    (nodup : ("variant" :: "header" :: names).Nodup) {rest : Json}
    (rest_eq : Json.ofMembers (("header", header.toJson) :: fields) = rest) (b : Nat) :
    Declaration.ofJson? reach (b + 2) (ofVariant variant header fields)
      = if variant.toList = "Field".toList then (Field.ofJson? (b + 2) rest).map .field
        else if variant.toList = "Relation".toList then (Relation.ofJson? (b + 2) rest).map .relation
        else if variant.toList = "SetDef".toList then
          (Field.ofJson? (b + 2) rest).map fun d => .setDefinition ⟨d.header, d.body⟩
        else if variant.toList = "Condition".toList then (Condition.ofJson? (b + 2) rest).map .condition
        else if variant.toList = "Action".toList then
          (Action.ofJson? (b + 2) (fun c => ActionSection.ofJson? b c) rest).map .action
        else if variant.toList = "RuleBlock".toList then (RuleBlock.ofJson? .held (b + 2) rest).map .ruleBlock
        else none := by
  have names_eq : (("header", header.toJson) :: fields).map Prod.fst = "header" :: names :=
    congrArg ("header" :: ·) eq
  have tagged : tagged? "variant" (ofVariant variant header fields)
      = some (.string variant.toList, rest) := by
    rw [← rest_eq]
    exact tagged?_ofMembers names_eq nodup _
  rw [Declaration.ofJson?, tagged]
  rfl

/-- The fields of a declaration may be nested as deep as the declaration. -/
theorem Declaration.nesting_ofVariant_le {variant : String} {header : Header} {fields : List (String × Json)}
    (le : (ofVariant variant header fields).nesting ≤ budget) :
    (Json.ofMembers (("header", header.toJson) :: fields)).nesting ≤ budget := by
  rw [ofVariant, nesting_ofMembers_le, List.forall_iff_forall_mem] at le
  rw [nesting_ofMembers_le, List.forall_iff_forall_mem]
  exact ⟨le.1, fun m hm => le.2 m (List.mem_cons_of_mem _ hm)⟩

/-- The kind of a sub-section that was encoded says how its content is decoded. -/
theorem ActionSection.ofJson?_ofContent (kind : String) (content : Json) (b : Nat) :
    ActionSection.ofJson? (b + 1) (.ofContent kind content)
      = if kind.toList = "Fields".toList then
          (list? b (fun c => Declaration.ofJson? .held (b - 1) c) content).map .fields
        else if kind.toList = "Entries".toList then (Node.forestOfJson? b content).map .entries
        else if kind.toList = "Rules".toList then (content.text?).map .rules
        else if kind.toList = "Selection".toList then (InstanceSelection.ofJson? b content).map .selection
        else if kind.toList = "ActionRules".toList then (ActionRules.ofJson? b content).map .actionRules
        else none := by
  rw [ActionSection.ofJson?, content?_ofContent (Nat.succ_ne_zero b)]
  cases b with
  | zero =>
    have none : list? 0 (fun c => Declaration.ofJson? .held (0 - 1) c) content = none := by
      cases content <;> rfl
    rw [none]
    rfl
  | succ b => rfl

/-- A sub-section that was encoded is decoded, if the declarations in it are. -/
theorem ActionSection.ofJson?_toJson_of
    (inner : ∀ b < budget, ∀ {d : Declaration}, d.Fits → d.toJson.nesting ≤ b →
      Declaration.ofJson? .held b d.toJson = some d)
    {c : ActionSection} (fits : c.Fits) (le : c.toJson.nesting ≤ budget) :
    ActionSection.ofJson? budget c.toJson = some c := by
  have content {kind : String} {j : Json} (le : (ofContent kind j).nesting ≤ budget) :
      ∃ b, budget = b + 1 ∧ j.nesting ≤ b := by
    obtain ⟨pos, le⟩ := nesting_ofContent_le.1 le
    exact ⟨budget - 1, by omega, le⟩
  cases fits with
  | @fields ds each =>
    rw [ActionSection.toJson, Declaration.toJsons_eq_map] at le ⊢
    obtain ⟨b, rfl, content_le⟩ := content le
    obtain ⟨pos, inside⟩ := nesting_array_le.1 content_le
    have decoded : list? b (fun c => Declaration.ofJson? .held (b - 1) c) (.array (ds.map Declaration.toJson))
        = some ds :=
      list?_map pos fun d hd => inner (b - 1) (by omega) (each d hd) (inside _ (List.mem_map_of_mem hd))
    rw [ActionSection.ofJson?_ofContent, if_pos rfl, decoded, Option.map_some]
  | entries each =>
    rw [ActionSection.toJson] at le ⊢
    obtain ⟨b, rfl, content_le⟩ := content le
    rw [ActionSection.ofJson?_ofContent, if_neg (by decide), if_pos rfl, Forest.forestOfJson?_forestJson content_le,
      Option.map_some]
  | rules t =>
    rw [ActionSection.toJson] at le ⊢
    obtain ⟨b, rfl, -⟩ := content le
    rw [ActionSection.ofJson?_ofContent, if_neg (by decide), if_neg (by decide), if_pos rfl, text?_string,
      Option.map_some]
  | selection s =>
    rw [ActionSection.toJson] at le ⊢
    obtain ⟨b, rfl, content_le⟩ := content le
    rw [ActionSection.ofJson?_ofContent, if_neg (by decide), if_neg (by decide), if_neg (by decide), if_pos rfl,
      InstanceSelection.ofJson?_toJson content_le, Option.map_some]
  | actionRules each =>
    rw [ActionSection.toJson] at le ⊢
    obtain ⟨b, rfl, content_le⟩ := content le
    rw [ActionSection.ofJson?_ofContent, if_neg (by decide), if_neg (by decide), if_neg (by decide),
      if_neg (by decide), if_pos rfl, ActionRules.ofJson?_toJson content_le, Option.map_some]

/-- A declaration that was encoded is decoded, if the sub-sections in it are. -/
theorem Declaration.ofJson?_toJson_of
    (inner : ∀ b < budget, ∀ {c : ActionSection}, c.Fits → c.toJson.nesting ≤ b →
      ActionSection.ofJson? b c.toJson = some c)
    (reach : Reach) {d : Declaration} (fits : d.Fits) (le : d.toJson.nesting ≤ budget) :
    Declaration.ofJson? reach budget d.toJson = some d := by
  -- The header of every declaration is an object with an object in it.
  have deep {variant : String} {header : Header} {fields : List (String × Json)}
      (le : (ofVariant variant header fields).nesting ≤ budget) : ∃ b, budget = b + 2 := by
    rw [ofVariant, nesting_ofMembers_le, List.forall_iff_forall_mem] at le
    have header_le := le.2 ("header", header.toJson) (by simp)
    have pos := (nesting_ofMembers_le.1 header_le).1
    exact ⟨budget - 2, by omega⟩
  cases fits with
  | @field d header body =>
    rw [Declaration.toJson] at le ⊢
    have fields_le := nesting_ofVariant_le le
    obtain ⟨b, rfl⟩ := deep le
    rw [ofJson?_ofVariant reach "Field" ["body"] rfl (by decide) rfl b, if_pos rfl,
      Field.ofJson?_ofMembers fields_le, Option.map_some]
  | @relation d header body =>
    rw [Declaration.toJson] at le ⊢
    have fields_le := nesting_ofVariant_le le
    obtain ⟨b, rfl⟩ := deep le
    rw [ofJson?_ofVariant reach "Relation"
        ["cardinality", "target", "field_mapping", "mappings", "instance_selection", "body"] rfl (by decide) rfl b,
      if_neg (by decide), if_pos rfl, Relation.ofJson?_ofMembers fields_le, Option.map_some]
  | @setDefinition d header body =>
    rw [Declaration.toJson] at le ⊢
    have fields_le := nesting_ofVariant_le le
    obtain ⟨b, rfl⟩ := deep le
    have decoded := Field.ofJson?_ofMembers (d := ⟨d.header, d.body⟩) fields_le
    rw [ofJson?_ofVariant reach "SetDef" ["body"] rfl (by decide) rfl b, if_neg (by decide), if_neg (by decide),
      if_pos rfl, decoded, Option.map_some]
  | @condition d header =>
    rw [Declaration.toJson] at le ⊢
    have fields_le := nesting_ofVariant_le le
    obtain ⟨b, rfl⟩ := deep le
    rw [ofJson?_ofVariant reach "Condition" ["definition"] rfl (by decide) rfl b, if_neg (by decide),
      if_neg (by decide), if_neg (by decide), if_pos rfl, Condition.ofJson?_ofMembers fields_le, Option.map_some]
  | @action header kind body sections header_fits body_fits nodup each =>
    rw [Declaration.toJson, Action.sectionMembers_eq_map] at le ⊢
    have fields_le := nesting_ofVariant_le le
    obtain ⟨b, rfl⟩ := deep le
    have decoded := Action.ofJson?_ofMembers (a := ⟨header, kind, body, sections⟩) fields_le nodup
      fun e he le => inner b (by omega) (each e he) le
    rw [ofJson?_ofVariant reach "Action" ["kind", "body", "sections"] rfl (by decide) rfl b, if_neg (by decide),
      if_neg (by decide), if_neg (by decide), if_neg (by decide), if_pos rfl]
    exact congrArg (Option.map Declaration.action) decoded
  | @ruleBlock d header =>
    rw [Declaration.toJson] at le ⊢
    have fields_le := nesting_ofVariant_le le
    obtain ⟨b, rfl⟩ := deep le
    have decoded := RuleBlock.ofJson?_toJson .held fields_le
    rw [ofJson?_ofVariant reach "RuleBlock" ["body"] rfl (by decide) rfl b, if_neg (by decide), if_neg (by decide),
      if_neg (by decide), if_neg (by decide), if_neg (by decide), if_pos rfl]
    exact congrArg (Option.map Declaration.ruleBlock) decoded

/-- A declaration that was encoded is decoded, if it is not nested too deep. -/
theorem Declaration.Fits.ofJson?_toJson (reach : Reach) {d : Declaration} (fits : d.Fits)
    (le : d.toJson.nesting ≤ budget) : Declaration.ofJson? reach budget d.toJson = some d := by
  -- The levels shrink from the declaration to its sub-sections and from these to the declarations in them.
  induction budget using Nat.strongRecOn generalizing reach d with
  | ind budget ih =>
    refine Declaration.ofJson?_toJson_of (fun b hb c c_fits c_le => ?_) reach fits le
    exact ActionSection.ofJson?_toJson_of (fun b' hb' d d_fits d_le => ih b' (by omega) .held d_fits d_le) c_fits c_le

/-! ### Sections and documents -/

/-- The numbers of a section and of its declarations can be kept. -/
structure Section.Fits (s : Section) : Prop where
  line : s.line < naturalBound
  declarations : ∀ d ∈ s.declarations, d.Fits

/-- The numbers of a document can be kept, and the keys of its catalogs are distinct. -/
structure Document.Fits (d : Document) : Prop where
  sectionKeys : (Catalog.keys d.sections).Nodup
  sections : ∀ e ∈ d.sections, e.2.Fits
  classRuleKeys : (Catalog.keys d.classRules).Nodup
  classRules : ∀ e ∈ d.classRules, e.2.header.Fits

namespace Section

theorem toJson_eq (s : Section) : s.toJson = .ofMembers [("kind", .string s.kind.name), ("line", .natural s.line),
    ("declarations", .array (s.declarations.map Declaration.toJson))] := by
  rw [toJson, Declaration.toJsons_eq_map]

theorem Fits.plain {s : Section} (fits : s.Fits) : s.toJson.Plain := by
  rw [toJson_eq]
  exact Plain.ofMembers ⟨.string _, .natural fits.line,
    .array (List.forall_mem_map.2 fun d hd => (fits.declarations d hd).plain)⟩

theorem Fits.ofJson?_toJson {s : Section} (fits : s.Fits) (le : s.toJson.nesting ≤ budget) :
    ofJson? budget s.toJson = some s := by
  rw [toJson_eq] at le ⊢
  obtain ⟨pos, -, -, declarations_le⟩ := nesting_ofMembers_le.1 le
  obtain ⟨pos', each⟩ := nesting_array_le.1 declarations_le
  have declarations : list? (budget - 1) (Declaration.ofUsable? (budget - 1 - 1))
      (.array (s.declarations.map Declaration.toJson)) = some s.declarations := by
    refine list?_map pos' fun d hd => ?_
    have le := each _ (List.mem_map_of_mem hd)
    rw [Declaration.ofUsable?, if_pos ((fits.declarations d hd).plain.isUsable le)]
    exact (fits.declarations d hd).ofJson?_toJson .direct le
  have kind : SectionKind.ofJson? (budget - 1) (.string s.kind.name) = some s.kind := Vocabulary.ofName?_name s.kind
  rw [ofJson?, fields?_ofMembers ?_ ?_ pos]
  · simp [declarations, kind]
  · rfl
  · decide

end Section

namespace Document

theorem Fits.plain {d : Document} (fits : d.Fits) : d.toJson.Plain := by
  have sections : Plain (.object (d.sections.map fun e => (e.1.name, e.2.toJson))) :=
    .object (List.forall_mem_map.2 fun e he => (fits.sections e he).plain)
  have classRules : Plain (.object (d.classRules.map fun e => (e.1.name, e.2.toJson))) :=
    .object (List.forall_mem_map.2 fun e he => RuleBlock.plain_toJson (fits.classRules e he))
  rw [toJson, classRulesMember]
  by_cases empty : d.classRules.isEmpty
  · rw [if_pos empty]
    exact Plain.ofMembers ⟨.ofText? _, .ofText? _, .ofText? _, .ofText? _, sections, .bool _⟩
  · rw [if_neg empty]
    exact Plain.ofMembers ⟨.ofText? _, .ofText? _, .ofText? _, .ofText? _, sections, classRules, .bool _⟩

/-- Class-level rule blocks that were encoded, or left out for want of any, are decoded. -/
theorem Fits.default?_classRules {d : Document} (fits : d.Fits)
    (le : (Json.ofMembers d.classRulesMember).nesting ≤ budget) :
    default? [] (Catalog.ofJson? (budget - 1) ClassBlockKind.ofName? (RuleBlock.ofJson? .direct (budget - 2)))
      (d.classRulesMember.lookup "class_rules") = some d.classRules := by
  rw [classRulesMember] at le ⊢
  by_cases empty : d.classRules.isEmpty
  · rw [if_pos empty, List.isEmpty_iff.1 empty]
    rfl
  · rw [if_neg empty] at le ⊢
    obtain ⟨-, blocks_le⟩ := nesting_ofMembers_le.1 le
    obtain ⟨pos, each⟩ := nesting_object_le.1 blocks_le
    rw [List.lookup_cons_self, default?_some]
    exact Catalog.ofJson?_object pos Vocabulary.ofName?_name
      (fun e he => RuleBlock.ofJson?_toJson .direct (each _ (List.mem_map_of_mem he))) fits.classRuleKeys

/-- The fields of a document that was encoded. -/
theorem fields?_toJson (pos : budget ≠ 0) (d : Document) :
    d.toJson.fields? budget
        ["name", "class_type", "owner", "prefix", "sections", "class_rules", "closed_from_empty"]
      = some [some (.ofText? d.name), some (.ofText? d.classType), some (.ofText? d.owner),
        some (.ofText? d.classPrefix), some (.object (d.sections.map fun e => (e.1.name, e.2.toJson))),
        d.classRulesMember.lookup "class_rules", some (.bool d.closedFromEmpty)] := by
  rw [toJson, classRulesMember]
  by_cases empty : d.classRules.isEmpty
  · have keys : ["name", "class_type", "owner", "prefix", "sections", "closed_from_empty"].Nodup := by decide
    rw [if_pos empty]
    refine fields?_lookup ?_ keys pos _
    rfl
  · rw [if_neg empty]
    exact fields?_ofMembers rfl (by decide) pos

/-- A document that was encoded is decoded, if it is not nested too deep. -/
theorem Fits.ofJson?_toJson {d : Document} (fits : d.Fits) (le : d.toJson.nesting ≤ budget) :
    ofJson? budget d.toJson = some d := by
  have parts := nesting_ofMembers_le.1 le
  rw [List.forall_iff_forall_mem] at parts
  obtain ⟨pos, each⟩ := parts
  have sections_le := each ("sections", .object (d.sections.map fun e => (e.1.name, e.2.toJson))) (by simp)
  have blocks_le : (Json.ofMembers d.classRulesMember).nesting ≤ budget :=
    nesting_ofMembers_le.2 ⟨pos, List.forall_iff_forall_mem.2 fun m hm => each m (by simp [hm])⟩
  obtain ⟨pos', inside⟩ := nesting_object_le.1 sections_le
  have sections : Catalog.ofJson? (budget - 1) SectionKind.ofName? (Section.ofJson? (budget - 2))
      (.object (d.sections.map fun e => (e.1.name, e.2.toJson))) = some d.sections :=
    Catalog.ofJson?_object pos' Vocabulary.ofName?_name
      (fun e he => (fits.sections e he).ofJson?_toJson (inside _ (List.mem_map_of_mem he))) fits.sectionKeys
  have blocks := fits.default?_classRules blocks_le
  rw [ofJson?, fields?_toJson pos]
  simp only [Option.bind_eq_bind, Option.bind_some, optional?_some, required?_some, orNull?_ofText?, bool?_bool,
    sections, show budget - 1 - 1 = budget - 2 from rfl, blocks, Option.pure_def]

end Document

end BusinessClass
