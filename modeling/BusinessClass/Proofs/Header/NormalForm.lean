import BusinessClass.Proofs.Header.Grammar

/-!
# The normal form of a header line

A header that was read is written with single spaces around its parts. The line has the tokens that the header was
read from, so it is read as this header, whatever further phrases count as qualifiers, and it is written the same
again. Qualifiers from the lines below a header can be added to it: they leave the type where it is.

* `Parts.of_tokens`: where a type ends is decided by the tokens alone. `Parts.append`: the fixed qualifiers of another
  line, put behind those of a header, leave the type where it is.
* `Opens.recognize_render`: a header that stands in a line is written as a line in which it stands.
* `render_normalForm` is the result for a header that was read, typed or bare, and `recognize_render_folded` the one for
  a header to which qualifiers were added.
-/

namespace BusinessClass

open Lexeme (tokens verbatim withGap Complete)

namespace Qualifier

variable {extra : List Phrase} {ts g : List Token} {q : Text} {qs : List Text}

theorem SpellsOne.ne_nil (h : SpellsOne extra g q) : g ≠ [] := by
  rintro rfl
  cases h with
  | fixed spells =>
    obtain ⟨t, ts, none, -⟩ := spells.eq_cons
    cases none
  | further mem words => cases words

/-- The qualifiers that tokens fall into are written by lexemes with these tokens. -/
theorem Splits.exists_lexemes (splits : Splits extra ts qs) (complete : ∀ t ∈ ts, Complete [⟨[], t⟩]) :
    ∃ lss : List (List Lexeme), (∀ ls ∈ lss, Complete ls) ∧ lss.map verbatim = qs ∧ lss.flatMap tokens = ts := by
  induction splits with
  | nil => exact ⟨[], by simp, rfl, rfl⟩
  | @cons g ts q qs first _ ih =>
    obtain ⟨lss, completes, verbatims, same⟩ := ih fun t ht => complete t (List.mem_append_right _ ht)
    have piece : ∀ t ∈ g, Complete [⟨[], t⟩] := fun t ht => complete t (List.mem_append_left _ ht)
    refine ⟨Lexeme.ofTokens g :: lss, ?_, ?_, ?_⟩
    · exact List.forall_mem_cons.2 ⟨Lexeme.complete_ofTokens piece first.ne_nil, completes⟩
    · rw [List.map_cons, Lexeme.verbatim_ofTokens piece, verbatims, ← first.eq_unwords]
    · rw [List.flatMap_cons, Lexeme.tokens_ofTokens, same]

/-- The tokens of a line of qualifiers are read as these qualifiers, and each of them by itself. -/
theorem commits_of_line? {t : Text} (line : line? [] t = some qs) :
    Commits [] (tokens (Lexeme.ofText t)) qs ∧ ∀ u ∈ tokens (Lexeme.ofText t), Complete [⟨[], u⟩] := by
  unfold line? at line
  split at line
  · cases line
  · rename_i ls ne_nil
    refine ⟨all?_eq_some_iff_commits.1 line, ?_⟩
    exact (Lexeme.complete_of_ofText List.infix_rfl ne_nil ((all?_eq_some_iff.1 line).not_mark_mem '"')).token

/-- So are the tokens of such lines one after the other. -/
theorem commits_of_lines {below : List Text} {qss : List (List Text)}
    (lines : List.Forall₂ (fun t qs => line? [] t = some qs) below qss) :
    Commits [] (tokens (below.flatMap Lexeme.ofText)) qss.flatten ∧
      ∀ u ∈ tokens (below.flatMap Lexeme.ofText), Complete [⟨[], u⟩] := by
  induction lines with
  | nil => exact ⟨.nil, by simp⟩
  | @cons t qs below qss line _ ih =>
    obtain ⟨first, complete⟩ := commits_of_line? line
    obtain ⟨more, completes⟩ := ih
    rw [List.flatMap_cons, Lexeme.tokens_append, List.flatten_cons]
    refine ⟨?_, List.forall_mem_append.2 ⟨complete, completes⟩⟩
    rw [← all?_eq_some_iff_commits] at first more ⊢
    exact all?_append first more

end Qualifier

namespace Header

open Qualifier (Splits Commits)

variable {extra : List Phrase} {text : Text} {line : Nat} {span : Span} {front rest type back : List Lexeme}

/-! ### Where a type ends -/

section Parts

variable {run : List Token → List Text → Prop} {qs : List Text}

/-- Where a type ends is decided by the tokens alone. -/
theorem Parts.of_tokens (parts : Parts run rest type back qs) {type' back' : List Lexeme}
    (type_eq : tokens type' = tokens type) (back_eq : tokens back' = tokens back) :
    Parts run (type' ++ back') type' back' qs := by
  have size : type'.length = type.length := by simpa [tokens] using congrArg List.length type_eq
  have same : tokens (type' ++ back') = tokens rest := by
    rw [parts.whole, Lexeme.tokens_append, Lexeme.tokens_append, type_eq, back_eq]
  refine ⟨rfl, ?_, back_eq ▸ parts.qualifiers, fun shorter behind ps whole ne_nil qualifiers => ?_⟩
  · rintro rfl
    exact parts.ne_nil (List.length_eq_zero_iff.1 size.symm)
  · -- the same cut parts the other lexemes
    have behind_eq : tokens (rest.drop shorter.length) = tokens behind := by
      have : tokens (rest.drop shorter.length) = (tokens rest).drop shorter.length := List.map_drop
      rw [this, ← same, whole, Lexeme.tokens_append]
      exact List.drop_left' (by simp [tokens])
    have some_lexeme : rest.take shorter.length ≠ [] := by
      rw [ne_eq, List.take_eq_nil_iff, not_or]
      refine ⟨by simpa using ne_nil, fun none => parts.ne_nil ?_⟩
      exact (List.append_eq_nil_iff.1 (parts.whole.symm.trans none)).1
    have le := parts.least (rest.take shorter.length) (rest.drop shorter.length) ps
      (List.take_append_drop _ _).symm some_lexeme (behind_eq ▸ qualifiers)
    rw [size]
    exact le.trans (List.length_take_le _ _)

/-- Fixed qualifiers behind those of a header leave its type where it is. -/
theorem Parts.append (parts : Parts (Commits []) rest type back qs) {more : List Lexeme} {ps : List Text}
    (qualifiers : Commits [] (tokens more) ps) :
    Parts (Commits []) (type ++ (back ++ more)) type (back ++ more) (qs ++ ps) := by
  have own := Qualifier.all?_eq_some_iff_commits.2 parts.qualifiers
  rw [← Qualifier.all?_eq_some_iff_commits] at qualifiers
  refine ⟨rfl, parts.ne_nil, ?_, fun shorter behind rs whole ne_nil read => ?_⟩
  · rw [Lexeme.tokens_append]
    exact Qualifier.all?_eq_some_iff_commits.1 (Qualifier.all?_append own qualifiers)
  · rcases List.append_eq_append_iff.1 whole with ⟨u, rfl, -⟩ | ⟨u, rfl, rfl⟩
    · simp
    · -- what stands in front of the qualifiers that were added would be qualifiers by itself
      rw [← Qualifier.all?_eq_some_iff_commits, ← List.append_assoc, Lexeme.tokens_append] at read
      obtain ⟨ps', front⟩ := Qualifier.all?_of_append read qualifiers
      exact parts.least shorter (u ++ back) ps' (by rw [parts.whole, List.append_assoc]) ne_nil
        (Qualifier.all?_eq_some_iff_commits.1 front)

end Parts

/-! ### Typed headers -/

section Render

variable {h : Header} (opens : Opens text h.name h.article front rest) (whole : rest = type ++ back)
  (typeName : h.typeName = some (verbatim type)) {lss : List (List Lexeme)} (complete : ∀ ls ∈ lss, Complete ls)
  (qualifiers : lss.map verbatim = h.qualifiers)

include opens whole typeName complete qualifiers

/-- The line of a header that stands in a text opens in the same way, and its type and qualifiers follow. -/
theorem Opens.exists_render (ne_nil : type ≠ []) :
    ∃ front', Opens h.render h.name h.article front' (withGap [' '] type ++ lss.flatMap (withGap [' '])) := by
  obtain ⟨g₁, g₂, more, front_eq, -⟩ := opens.exists_front
  have closed := opens.closed
  rw [whole, Lexeme.tokens_append, List.mem_append, not_or] at closed
  have name_complete : Complete [⟨[], .word h.name⟩] := by
    have inside : [⟨g₁, .word h.name⟩] <:+: Lexeme.ofText text :=
      ⟨[], ⟨g₂, .word "is".toList⟩ :: (more ++ rest), by simp [opens.lexemes, front_eq]⟩
    have alone : Complete [⟨g₁, .word h.name⟩] := Lexeme.complete_of_ofText inside (by simp) (by simp [tokens])
    exact alone.token _ List.mem_cons_self
  have type_complete : Complete type :=
    Lexeme.complete_of_ofText ⟨front, back, by rw [opens.lexemes, whole, List.append_assoc]⟩ ne_nil closed.1
  have line_eq : h.render = Text.unwords
      (([⟨[], .word h.name⟩] :: [⟨[], .word "is".toList⟩] :: (articleLexemes h.article ++ type :: lss)).map verbatim) := by
    rw [render, typeName]
    cases h.article <;> simp [articleLexemes, verbatim, qualifiers, Token.text]
  rw [line_eq]
  refine exists_opens_unwords name_complete type_complete complete fun none l hl => opens.plain none l ?_
  rw [whole, List.head?_append, Option.mem_def.1 hl]
  rfl

/-- A header that stands in a text is written as a line that is read as the header, if its type ends there. -/
theorem Opens.recognize_render {back' : List Lexeme} (tokens_eq : lss.flatMap tokens = tokens back')
    (parts : Parts (Commits extra) (type ++ back') type back' h.qualifiers) :
    recognize extra h.render line span = .ok { h with line := line, span := span } := by
  obtain ⟨front', opens'⟩ := opens.exists_render whole typeName complete qualifiers parts.ne_nil
  refine recognize_eq_ok_iff.2 ⟨rfl, rfl, follows_iff.2
    ⟨front', _, withGap [' '] type, lss.flatMap (withGap [' ']), opens', ?_, ?_⟩⟩
  · refine parts.of_tokens (Lexeme.tokens_withGap _ _) ?_
    simpa [Lexeme.tokens_flatMap] using tokens_eq
  · rw [Lexeme.verbatim_withGap]
    exact typeName

end Render

/-- The tokens of the qualifiers of a line are read by themselves. -/
theorem Opens.complete_back {name : Text} {article : Option Article} (opens : Opens text name article front rest)
    (whole : rest = type ++ back) : ∀ t ∈ tokens back, Complete [⟨[], t⟩] := by
  intro t ht
  have closed := opens.closed
  rw [whole, Lexeme.tokens_append, List.mem_append, not_or] at closed
  have ne_nil : back ≠ [] := by
    rintro rfl
    cases ht
  have behind : back <:+: Lexeme.ofText text := ⟨front ++ type, [], by simp [opens.lexemes, whole]⟩
  exact (Lexeme.complete_of_ofText behind ne_nil closed.2).token t ht

/-! ### Bare headers -/

/-- A chain of names is no typed header: nothing parts its names from each other but dots. -/
theorem exists_error_of_isDottedName (dotted : text.isDottedName = true) :
    ∃ e, recognize extra text line span = .error e := by
  cases read : recognize extra text line span with
  | error e => exact ⟨e, rfl⟩
  | ok h =>
    obtain ⟨front, rest, opens⟩ := exists_opens read
    obtain ⟨g₁, g₂, more, rfl, -⟩ := opens.exists_front
    obtain ⟨trail, -, text_eq, reads⟩ := Lexeme.readIn_ofText text
    rw [opens.lexemes, List.cons_append, List.cons_append] at text_eq reads
    obtain ⟨-, word, behind⟩ := Lexeme.readIn_cons.1 reads
    obtain ⟨blank, -, -⟩ := Lexeme.readIn_cons.1 behind
    have no_gap : g₂ = [] := by
      rw [List.eq_nil_iff_forall_not_mem]
      intro c hc
      have mem : c ∈ text := by
        rw [← text_eq]
        simp [hc]
      have := Text.isBlank_of_isDottedName dotted c mem
      rw [blank c hc] at this
      cases this
    subst no_gap
    have stop := word.isNameChar_head 'i' rfl
    exact absurd stop (by decide +kernel)

/-! ### Headers that were read -/

/-- The line of a header that was read is read as the header again and written as the same line, for any further
phrases. -/
theorem render_normalForm (extra : List Phrase) (text : Text) (line line' : Nat) (span span' : Span) (h : Header) :
    (recognize extra text line span = .ok h →
        ∃ h', recognize extra h.render line' span' = .ok h' ∧ h' = { h with line := line', span := span' } ∧
          h'.render = h.render) ∧
      (bare? text line span = some h →
        ∃ h', ofText extra h.render line' span' = .ok h' ∧ h' = { h with line := line', span := span' } ∧
          h'.typeName = none ∧ h'.render = h.render) := by
  constructor
  · intro read
    obtain ⟨front, rest, type, back, opens, parts, typeName⟩ := follows_iff.1 (recognize_eq_ok_iff.1 read).2.2
    obtain ⟨lss, complete, qualifiers, tokens_eq⟩ :=
      parts.qualifiers.splits.exists_lexemes (opens.complete_back parts.whole)
    refine ⟨_, opens.recognize_render parts.whole typeName complete qualifiers tokens_eq ?_, rfl, rfl⟩
    rwa [← parts.whole]
  · intro bare
    rw [bare?, Option.ite_none_right_eq_some] at bare
    obtain ⟨dotted, same⟩ := bare
    obtain rfl := Option.some.inj same
    have no_type : ∃ e, recognize extra text line' span' = .error e := exists_error_of_isDottedName dotted
    obtain ⟨e, untyped⟩ := no_type
    refine ⟨_, ?_, rfl, rfl, rfl⟩
    rw [ofText, show render ⟨text, none, none, [], line, span⟩ = text from rfl, untyped, bare?, if_pos dotted]

/-- A further phrase of a mark, a quoted word and a number. -/
def dashed : Phrase := ⟨"-".toList, ["\"x\"".toList, "5".toList]⟩

theorem render_normalForm_dashed :
    recognize [dashed] "Code  is an \"A  b\"  of C size  4 -\"x\"5".toList 1 ⟨0, 38⟩ =
        .ok ⟨"Code".toList, some .an, some "\"A  b\"  of C".toList, ["size 4".toList, "- \"x\" 5".toList], 1, ⟨0, 38⟩⟩ ∧
      recognize [dashed] "Code is an \"A  b\"  of C size 4 - \"x\" 5".toList 3 ⟨7, 45⟩ =
        .ok ⟨"Code".toList, some .an, some "\"A  b\"  of C".toList, ["size 4".toList, "- \"x\" 5".toList], 3, ⟨7, 45⟩⟩ ∧
      bare? "Vendor.Name".toList 1 ⟨0, 11⟩ = some ⟨"Vendor.Name".toList, none, none, [], 1, ⟨0, 11⟩⟩ ∧
      ofText [dashed] "Vendor.Name".toList 3 ⟨7, 18⟩ =
        .ok ⟨"Vendor.Name".toList, none, none, [], 3, ⟨7, 18⟩⟩ := by
  have read : recognize [dashed] "Code  is an \"A  b\"  of C size  4 -\"x\"5".toList 1 ⟨0, 38⟩ =
      .ok ⟨"Code".toList, some .an, some "\"A  b\"  of C".toList, ["size 4".toList, "- \"x\" 5".toList], 1, ⟨0, 38⟩⟩ := by
    decide +kernel
  have bare : bare? "Vendor.Name".toList 1 ⟨0, 11⟩ = some ⟨"Vendor.Name".toList, none, none, [], 1, ⟨0, 11⟩⟩ := by
    decide
  obtain ⟨h, again, rfl, -⟩ := (render_normalForm [dashed] _ 1 3 ⟨0, 38⟩ ⟨7, 45⟩ _).1 read
  obtain ⟨b, bare_again, rfl, -, -⟩ := (render_normalForm [dashed] _ 1 3 ⟨0, 11⟩ ⟨7, 18⟩ _).2 bare
  exact ⟨read, again, bare, bare_again⟩

/-- Qualifiers from the lines below a header that was read are added to it, and the line of the header is read as the
header with these qualifiers: none of them becomes part of the type, and no part of the type becomes a qualifier. -/
theorem recognize_render_folded {h : Header} {below : List Text} {qss : List (List Text)}
    (read : recognize [] text line span = .ok h)
    (lines : List.Forall₂ (fun t qs => Qualifier.line? [] t = some qs) below qss) (line' : Nat) (span' : Span) :
    recognize [] (h.addQualifiers qss.flatten).render line' span' =
      .ok { h.addQualifiers qss.flatten with line := line', span := span' } := by
  obtain ⟨front, rest, type, back, opens, parts, typeName⟩ := follows_iff.1 (recognize_eq_ok_iff.1 read).2.2
  obtain ⟨added, alone⟩ := Qualifier.commits_of_lines lines
  obtain ⟨own, own_complete, own_qualifiers, own_tokens⟩ :=
    parts.qualifiers.splits.exists_lexemes (opens.complete_back parts.whole)
  obtain ⟨more, more_complete, more_qualifiers, more_tokens⟩ := added.splits.exists_lexemes alone
  have opens' : Opens text (h.addQualifiers qss.flatten).name (h.addQualifiers qss.flatten).article front rest := opens
  have complete : ∀ ls ∈ own ++ more, Complete ls := List.forall_mem_append.2 ⟨own_complete, more_complete⟩
  refine opens'.recognize_render parts.whole typeName complete ?qualifiers ?tokens (parts.append added)
  case qualifiers =>
    rw [List.map_append, own_qualifiers, more_qualifiers]
    rfl
  case tokens => rw [List.flatMap_append, own_tokens, more_tokens, Lexeme.tokens_append]

theorem recognize_render_folded_required :
    recognize [] "Code is a required Thing holds".toList 1 ⟨0, 30⟩ =
        .ok ⟨"Code".toList, some .a, some "required Thing holds".toList, [], 1, ⟨0, 30⟩⟩ ∧
      List.Forall₂ (fun t qs => Qualifier.line? [] t = some qs)
        ["restricted".toList, "size 4  holds pii".toList, "default label is\t\"A b\"".toList]
        [["restricted".toList], ["size 4".toList, "holds pii".toList], ["default label is \"A b\"".toList]] ∧
      recognize [] "Code is a required Thing holds restricted size 4 holds pii default label is \"A b\"".toList 3 ⟨7, 88⟩ =
        .ok ⟨"Code".toList, some .a, some "required Thing holds".toList,
          ["restricted".toList, "size 4".toList, "holds pii".toList, "default label is \"A b\"".toList], 3, ⟨7, 88⟩⟩ := by
  have read : recognize [] "Code is a required Thing holds".toList 1 ⟨0, 30⟩ =
      .ok ⟨"Code".toList, some .a, some "required Thing holds".toList, [], 1, ⟨0, 30⟩⟩ := by decide +kernel
  have lines : List.Forall₂ (fun t qs => Qualifier.line? [] t = some qs)
      ["restricted".toList, "size 4  holds pii".toList, "default label is\t\"A b\"".toList]
      [["restricted".toList], ["size 4".toList, "holds pii".toList], ["default label is \"A b\"".toList]] :=
    .cons (by decide +kernel) (.cons (by decide +kernel) (.cons (by decide +kernel) .nil))
  have folded := recognize_render_folded read lines 3 ⟨7, 88⟩
  have line : (addQualifiers ⟨"Code".toList, some .a, some "required Thing holds".toList, [], 1, ⟨0, 30⟩⟩
      (List.flatten [["restricted".toList], ["size 4".toList, "holds pii".toList],
        ["default label is \"A b\"".toList]])).render
      = "Code is a required Thing holds restricted size 4 holds pii default label is \"A b\"".toList := by
    decide +kernel
  rw [line] at folded
  exact ⟨read, lines, folded⟩

end Header

end BusinessClass
