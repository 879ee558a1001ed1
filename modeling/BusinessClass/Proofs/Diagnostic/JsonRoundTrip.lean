import BusinessClass.Diagnostic.Decoding
import BusinessClass.Proofs.Document.JsonRoundTrip

/-!
# Readings that are written as JSON texts and read again

A reading is a document with its diagnostics. `ofJsonText?_compact_and_pretty` is the main result: documents and
readings come back from both of their JSON texts.
-/

namespace BusinessClass

open Json

variable {budget : Nat}

namespace Diagnostic

/-! ### Kinds of problems -/

/-- The number of a kind of problem can be kept. -/
def Kind.Fits : Kind → Prop
  | .depthLimitExceeded _ limit => limit < naturalBound
  | _ => True

instance : DecidablePred Kind.Fits := fun kind =>
  match kind with
  | .depthLimitExceeded _ limit => inferInstanceAs (Decidable (limit < naturalBound))
  | .malformedIndentation _ | .unrecognizedHeader _ _ | .unknownSectionContent _ | .malformedActionHeader _
  | .unterminatedSetRuleGroup _ | .duplicateSection _ | .missingClassHeader | .emptyDocument =>
    inferInstanceAs (Decidable True)

theorem Kind.Fits.plain {kind : Kind} (fits : kind.Fits) : kind.toJson.Plain := by
  cases kind with
  | depthLimitExceeded name limit => exact Plain.ofMembers ⟨.string _, .string name, .natural fits⟩
  | unrecognizedHeader text reason => exact Plain.ofMembers ⟨.string _, .string text, .string reason⟩
  | missingClassHeader => exact Plain.ofMembers (.string _)
  | emptyDocument => exact Plain.ofMembers (.string _)
  | _ => exact Plain.ofMembers ⟨.string _, .string _⟩

/-- The name of a kind of problem that was encoded says how its fields are decoded. -/
theorem Kind.ofJson?_ofMembers {kind : String} {fields : List (String × Json)} {names : List String}
    (plain : (Json.ofMembers (("kind", .string kind.toList) :: fields)).Plain)
    (le : (Json.ofMembers (("kind", .string kind.toList) :: fields)).nesting ≤ budget)
    (eq : fields.map Prod.fst = names) (nodup : ("kind" :: names).Nodup) :
    Kind.ofJson? budget (.ofMembers (("kind", .string kind.toList) :: fields))
      = Kind.ofVariant? budget kind.toList (.ofMembers fields) := by
  rw [Kind.ofJson?, if_pos (plain.isUsable le), tagged?_ofMembers eq nodup]
  rfl

theorem Kind.oneText?_ofMembers (pos : budget ≠ 0) (name : String) (make : Text → Kind) (text : Text) :
    Kind.oneText? budget name make (.ofMembers [(name, .string text)]) = some (make text) := by
  rw [Kind.oneText?, fields?_ofMembers ?_ (List.pairwise_singleton _ name) pos]
  · rfl
  · rfl

/-- A kind of problem with one text that was encoded is decoded. -/
theorem Kind.ofJson?_ofVariant_text {kind name : String} {make : Text → Kind} {text : Text} (ne : "kind" ≠ name)
    (le : (Kind.ofVariant kind [(name, text)]).nesting ≤ budget)
    (variant : ∀ j, Kind.ofVariant? budget kind.toList j = Kind.oneText? budget name make j) :
    Kind.ofJson? budget (Kind.ofVariant kind [(name, text)]) = some (make text) := by
  have plain : (Kind.ofVariant kind [(name, text)]).Plain := Plain.ofMembers ⟨.string _, .string text⟩
  have nodup : ["kind", name].Nodup := by simpa using ne
  rw [Kind.ofVariant] at le plain ⊢
  rw [Kind.ofJson?_ofMembers plain le rfl nodup, variant]
  exact Kind.oneText?_ofMembers (nesting_ofMembers_le.1 le).1 name make text

/-- A kind of problem that was encoded is decoded. -/
theorem Kind.Fits.ofJson?_toJson {kind : Kind} (fits : kind.Fits) (le : kind.toJson.nesting ≤ budget) :
    Kind.ofJson? budget kind.toJson = some kind := by
  have plain := fits.plain
  cases kind with
  | malformedIndentation reason => exact Kind.ofJson?_ofVariant_text (by decide) le fun _ => rfl
  | unknownSectionContent text => exact Kind.ofJson?_ofVariant_text (by decide) le fun _ => rfl
  | malformedActionHeader text => exact Kind.ofJson?_ofVariant_text (by decide) le fun _ => rfl
  | unterminatedSetRuleGroup name => exact Kind.ofJson?_ofVariant_text (by decide) le fun _ => rfl
  | duplicateSection name => exact Kind.ofJson?_ofVariant_text (by decide) le fun _ => rfl
  | unrecognizedHeader text reason =>
    rw [Kind.toJson, Kind.ofVariant, Kind.ofJson?_ofMembers plain le rfl (by simp), Kind.ofVariant?,
      if_neg (by decide), if_pos rfl, fields?_ofMembers ?_ ?_ (nesting_ofMembers_le.1 le).1]
    · rfl
    · rfl
    · decide
  | depthLimitExceeded name limit =>
    rw [Kind.toJson, Kind.ofJson?_ofMembers plain le rfl (by simp), Kind.ofVariant?, if_neg (by decide),
      if_neg (by decide), if_neg (by decide), if_neg (by decide), if_neg (by decide), if_neg (by decide), if_pos rfl,
      fields?_ofMembers ?_ ?_ (nesting_ofMembers_le.1 le).1]
    · rfl
    · rfl
    · decide
  | missingClassHeader =>
    rw [Kind.toJson, Kind.ofVariant, Kind.ofJson?_ofMembers plain le rfl (by simp)]
    rfl
  | emptyDocument =>
    rw [Kind.toJson, Kind.ofVariant, Kind.ofJson?_ofMembers plain le rfl (by simp)]
    rfl

end Diagnostic

/-! ### Diagnostics and readings -/

/-- The numbers of a diagnostic can be kept. -/
structure Diagnostic.Fits (d : Diagnostic) : Prop where
  kind : d.kind.Fits
  line : d.line < naturalBound
  span : ∀ s ∈ d.span, s.Fits

/-- The numbers of a document and of its diagnostics can be kept. -/
structure Reading.Fits (r : Reading) : Prop where
  document : r.document.Fits
  diagnostics : ∀ d ∈ r.diagnostics, d.Fits

namespace Diagnostic

theorem Fits.plain {d : Diagnostic} (fits : d.Fits) : d.toJson.Plain := by
  have severity : d.severity.toJson.Plain := by
    cases d.severity <;> exact .string _
  have span : ((d.span.map Span.toJson).getD .null).Plain := by
    cases eq : d.span with
    | none => exact .null
    | some s => exact (fits.span s eq).plain
  exact Plain.ofMembers ⟨fits.kind.plain, severity, .natural fits.line, span, .ofText? _⟩

theorem Fits.ofJson?_toJson {d : Diagnostic} (fits : d.Fits) (le : d.toJson.nesting ≤ budget) :
    ofJson? budget d.toJson = some d := by
  rw [toJson] at le ⊢
  obtain ⟨pos, kind_le, -, -, span_le, -⟩ := nesting_ofMembers_le.1 le
  have severity : Severity.ofJson? (budget - 1) d.severity.toJson = some d.severity := by
    cases d.severity <;> rfl
  have span : orNull? (Span.ofJson? (budget - 1)) ((d.span.map Span.toJson).getD .null) = some d.span := by
    cases eq : d.span with
    | none => rfl
    | some s =>
      rw [eq] at span_le
      exact congrArg (Option.map some) (Span.ofJson?_toJson span_le)
  rw [ofJson?, fields?_ofMembers ?_ ?_ pos]
  · simp [fits.kind.ofJson?_toJson kind_le, severity, span]
  · rfl
  · decide

end Diagnostic

namespace Reading

theorem Fits.plain {r : Reading} (fits : r.Fits) : r.toJson.Plain :=
  Plain.ofMembers ⟨fits.document.plain, .array (List.forall_mem_map.2 fun d hd => (fits.diagnostics d hd).plain)⟩

/-- A reading that was encoded is decoded, if it is not nested too deep. -/
theorem Fits.ofJson?_toJson {r : Reading} (fits : r.Fits) (le : r.toJson.nesting ≤ budget) :
    ofJson? budget r.toJson = some r := by
  rw [toJson] at le ⊢
  obtain ⟨pos, document_le, diagnostics_le⟩ := nesting_ofMembers_le.1 le
  obtain ⟨pos', each⟩ := nesting_array_le.1 diagnostics_le
  have diagnostics : list? (budget - 1) (Diagnostic.ofJson? (budget - 1 - 1))
      (.array (r.diagnostics.map Diagnostic.toJson)) = some r.diagnostics :=
    list?_map pos' fun d hd => (fits.diagnostics d hd).ofJson?_toJson (each _ (List.mem_map_of_mem hd))
  rw [ofJson?, fields?_ofMembers ?_ ?_ pos]
  · simp [fits.document.ofJson?_toJson document_le, diagnostics]
  · rfl
  · decide

end Reading

/-! ### Texts -/

/-- Documents and readings whose JSON values are not nested too deep come back from both of their JSON texts. -/
theorem ofJsonText?_compact_and_pretty :
    (∀ d : Document, d.Fits → d.toJson.nesting ≤ nestingLimit →
      Document.ofJsonText? d.toJson.compact = some d ∧ Document.ofJsonText? d.toJson.pretty = some d)
    ∧ ∀ r : Reading, r.Fits → r.toJson.nesting ≤ nestingLimit →
      Reading.ofJsonText? r.toJson.compact = some r ∧ Reading.ofJsonText? r.toJson.pretty = some r := by
  constructor
  · intro d fits le
    rw [Document.ofJsonText?, Document.ofJsonText?, read?_compact fits.plain, read?_pretty fits.plain]
    exact ⟨fits.ofJson?_toJson le, fits.ofJson?_toJson le⟩
  · intro r fits le
    rw [Reading.ofJsonText?, Reading.ofJsonText?, read?_compact fits.plain, read?_pretty fits.plain]
    exact ⟨fits.ofJson?_toJson le, fits.ofJson?_toJson le⟩

/-- An action under a key that is not its own, with a parameter, nested nodes and nested groups, and with characters
that are written as escapes. -/
def Reading.escaped : Reading :=
  let header (name : String) : Header := ⟨name.toList, some .an, none, ["default \"\\\"".toList], 3, ⟨7, 9⟩⟩
  let inner : Node := ⟨"x\ty".toList, 2, 5, ⟨0, 0⟩, []⟩
  let group : SetRuleGroup := ⟨.path ["Company".toList, "".toList], 8, some [], none, some "\n".toList,
    [⟨.empty, 9, none, none, none, []⟩]⟩
  { document := {
      name := some "Größe\u0001".toList
      sections := [(.relations, ⟨.actions, 2, [.action ⟨header "Post", .other "Batch".toList,
        [⟨"outer".toList, 1, 4, ⟨1, 5⟩, [inner]⟩],
        [(.actionRules, .actionRules ⟨[.text "a := 1".toList, .group group]⟩),
          (.parameters, .fields [.field ⟨header "Date", []⟩])]⟩]⟩)]
      classRules := [(.createRules, ⟨header "Create Rules", []⟩)] }
    diagnostics := [⟨.depthLimitExceeded "Empty".toList 18446744073709551615, .error, 9, some ⟨0, 4⟩, none⟩] }

theorem Reading.fits_escaped : Reading.escaped.Fits := by
  have small {n : Nat} (lt : n < 10) : n < naturalBound := Nat.lt_trans lt (by decide)
  have span {m n : Nat} (hm : m < 10) (hn : n < 10) : Span.Fits ⟨m, n⟩ := ⟨small hm, small hn⟩
  have header {h : Header} (line : h.line < 10) (start : h.span.start < 10) (stop : h.span.stop < 10) : h.Fits :=
    ⟨small line, span start stop⟩
  have none {α : Type} {P : α → Prop} : ∀ x ∈ ([] : List α), P x := List.forall_mem_nil P
  constructor
  · refine ⟨by decide, List.forall_mem_singleton.2 ⟨by decide, List.forall_mem_singleton.2 ?_⟩, by decide,
      List.forall_mem_singleton.2 (header (by decide) (by decide) (by decide))⟩
    refine .action (header (by decide) (by decide) (by decide)) (List.forall_mem_singleton.2 ?_) (by decide)
      (List.forall_mem_cons.2 ⟨?_, List.forall_mem_singleton.2 ?_⟩)
    · exact .mk (small (by decide)) (small (by decide)) (span (by decide) (by decide)) (List.forall_mem_singleton.2
        (.mk (small (by decide)) (small (by decide)) (span (by decide) (by decide)) none))
    · exact .actionRules (List.forall_mem_singleton.2
        (.mk (small (by decide)) (List.forall_mem_singleton.2 (.mk (small (by decide)) none))))
    · exact .fields (List.forall_mem_singleton.2 (.field (header (by decide) (by decide) (by decide)) none))
  · refine List.forall_mem_singleton.2 ⟨by decide, by decide, ?_⟩
    rintro s ⟨⟩
    exact span (by decide) (by decide)

theorem ofJsonText?_compact_and_pretty_escaped :
    (Reading.escaped.Fits ∧ Reading.escaped.toJson.nesting ≤ nestingLimit)
    ∧ (Document.ofJsonText? Reading.escaped.document.toJson.compact = some Reading.escaped.document
      ∧ Document.ofJsonText? Reading.escaped.document.toJson.pretty = some Reading.escaped.document)
    ∧ Reading.ofJsonText? Reading.escaped.toJson.compact = some Reading.escaped
    ∧ Reading.ofJsonText? Reading.escaped.toJson.pretty = some Reading.escaped := by
  have fits := Reading.fits_escaped
  have document_le : Reading.escaped.document.toJson.nesting ≤ nestingLimit := by decide +kernel
  have le : Reading.escaped.toJson.nesting ≤ nestingLimit := by decide +kernel
  exact ⟨⟨fits, le⟩, ofJsonText?_compact_and_pretty.1 _ fits.document document_le,
    ofJsonText?_compact_and_pretty.2 _ fits le⟩

end BusinessClass
