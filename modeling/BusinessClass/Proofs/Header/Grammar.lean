import BusinessClass.Proofs.Header.Lossless
import BusinessClass.Proofs.Header.RoundTrip
import BusinessClass.Proofs.Header.Splitting
import Mathlib.Data.Nat.Find

/-!
# The grammar of typed headers

A typed header is a name, `is`, perhaps an article, a type and qualifiers. The type is as short as it can be: nothing
but qualifiers stands behind it.

* Behind what opens the line (`Header.Opens`), `Header.Parts` says where a type ends if given lists of tokens count as
  qualifiers, and `Header.Follows` that a header is what the line spells.
* `recognize_eq_ok_iff`: a header is read iff the line spells it, where the qualifiers are those that the reader
  commits to.
* `recognize_grammar`: how this stands to the grammar, in which any way to split the end of the line into qualifiers
  counts.
-/

namespace BusinessClass

namespace Header

open Lexeme (tokens verbatim source spans)
open Qualifier (Splits Commits Unnested)

variable {extra : List Phrase} {text : Text} {line : Nat} {span : Span} {name : Text} {article : Option Article}
  {front rest : List Lexeme}

/-! ### Type and qualifiers -/

/-- What stands behind `is` and the article is a type and tokens that count as qualifiers, and no shorter type would
do. -/
structure Parts (run : List Token → List Text → Prop) (rest type back : List Lexeme) (qs : List Text) : Prop where
  whole : rest = type ++ back
  ne_nil : type ≠ []
  qualifiers : run (tokens back) qs
  least : ∀ type' back' qs', rest = type' ++ back' → type' ≠ [] → run (tokens back') qs' →
    type.length ≤ type'.length

variable {run : List Token → List Text → Prop} {type back : List Lexeme} {qs : List Text}

theorem Parts.eq {type' back' : List Lexeme} {qs' : List Text} (parts : Parts run rest type back qs)
    (parts' : Parts run rest type' back' qs') : type = type' ∧ back = back' :=
  List.append_inj (parts.whole.symm.trans parts'.whole)
    (Nat.le_antisymm (parts.least _ _ _ parts'.whole parts'.ne_nil parts'.qualifiers)
      (parts'.least _ _ _ parts.whole parts.ne_nil parts.qualifiers))

/-- There is such a type: behind all of them stands nothing. -/
theorem exists_parts (ne_nil : rest ≠ []) (nothing : run [] []) : ∃ type back qs, Parts run rest type back qs := by
  classical
  have some_ : ∃ n type back qs, rest = type ++ back ∧ type ≠ [] ∧ run (tokens back) qs ∧ type.length = n :=
    ⟨_, rest, [], [], by simp, ne_nil, nothing, rfl⟩
  obtain ⟨type, back, qs, whole, ne_nil, qualifiers, size⟩ := Nat.find_spec some_
  refine ⟨type, back, qs, whole, ne_nil, qualifiers, fun type' back' qs' whole' ne_nil' qualifiers' => ?_⟩
  rw [size]
  exact Nat.find_min' some_ ⟨type', back', qs', whole', ne_nil', qualifiers', rfl⟩

/-- The reader parts a line where the first run of qualifiers begins that it commits to. -/
theorem parts_commits_iff {l : Lexeme} {ls : List Lexeme} :
    Parts (Commits extra) (l :: ls) type back qs ↔
      ∃ more, type = l :: more ∧ ls = more ++ back ∧ splitQualifiers extra ls = (more, qs) := by
  constructor
  · intro parts
    obtain ⟨m, more, rfl⟩ := List.exists_cons_of_ne_nil parts.ne_nil
    obtain ⟨rfl, rfl⟩ := List.cons.inj parts.whole
    refine ⟨more, rfl, rfl, splitQualifiers_append (Qualifier.all?_eq_some_iff_commits.2 parts.qualifiers) ?_⟩
    rintro u ⟨pre, rfl⟩ ne
    rw [Option.eq_none_iff_forall_not_mem]
    intro qs' read
    have le := parts.least (l :: pre) (u ++ back) qs' (by simp) (by simp) (Qualifier.all?_eq_some_iff_commits.1 read)
    have pos := List.length_pos_iff.2 ne
    simp only [List.length_cons, List.length_append] at le
    omega
  · rintro ⟨more, rfl, rfl, split⟩
    obtain ⟨back', same, read, first⟩ := exists_of_splitQualifiers split
    obtain rfl := List.append_cancel_left same
    refine ⟨rfl, by simp, Qualifier.all?_eq_some_iff_commits.1 read, fun type' back' qs' whole ne qualifiers => ?_⟩
    obtain ⟨m, pre, rfl⟩ := List.exists_cons_of_ne_nil ne
    rcases List.append_eq_append_iff.1 (List.cons.inj whole).2 with ⟨u, rfl, -⟩ | ⟨u, rfl, rfl⟩
    · simp
    · -- a shorter type would leave a longer run of qualifiers
      by_cases ne : u = []
      · simp [ne]
      · have := first u (List.suffix_append _ _) ne
        rw [Qualifier.all?_eq_some_iff_commits.2 qualifiers] at this
        cases this

/-- The reader finds the type of the grammar iff it commits to qualifiers behind that type. -/
theorem Parts.commits_iff {type' back' : List Lexeme} {qs' : List Text} (grammar : Parts (Splits extra) rest type back qs)
    (reader : Parts (Commits extra) rest type' back' qs') :
    type = type' ↔ ∃ qs, Commits extra (tokens back) qs := by
  constructor
  · rintro rfl
    obtain rfl := List.append_cancel_left (grammar.whole.symm.trans reader.whole)
    exact ⟨qs', reader.qualifiers⟩
  · rintro ⟨ps, commits⟩
    exact Parts.eq ⟨grammar.whole, grammar.ne_nil, commits, fun _ _ _ whole ne_nil qualifiers =>
      grammar.least _ _ _ whole ne_nil qualifiers.splits⟩ reader |>.1

/-- The type as written stands in the line, from where its first token starts to where its last one stops. -/
theorem Opens.exists_slice (opens : Opens text name article front rest) (parts : Parts run rest type back qs) :
    ∃ r s, (spans 0 (Lexeme.ofText text))[front.length]? = some r ∧
      (spans 0 (Lexeme.ofText text))[front.length + (type.length - 1)]? = some s ∧
      text.slice? ⟨r.start, s.stop⟩ = some (verbatim type) := by
  obtain ⟨trail, -, whole, -⟩ := Lexeme.readIn_ofText text
  have slice := Lexeme.slice?_verbatim front parts.ne_nil back trail
  rwa [← parts.whole, ← opens.lexemes, whole] at slice

/-! ### The whole line -/

/-- The header is what the line spells. Its type is the piece of the line from the first token of the type to the
last. -/
def Follows (run : List Token → List Text → Prop) (text : Text) (h : Header) : Prop :=
  ∃ front rest type back, Opens text h.name h.article front rest ∧ Parts run rest type back h.qualifiers ∧
    ∃ r s t, (spans 0 (Lexeme.ofText text))[front.length]? = some r ∧
      (spans 0 (Lexeme.ofText text))[front.length + (type.length - 1)]? = some s ∧
      text.slice? ⟨r.start, s.stop⟩ = some t ∧ h.typeName = some t

theorem follows_iff {h : Header} : Follows run text h ↔
    ∃ front rest type back, Opens text h.name h.article front rest ∧ Parts run rest type back h.qualifiers ∧
      h.typeName = some (verbatim type) := by
  constructor
  · rintro ⟨front, rest, type, back, opens, parts, r, s, t, first, last, covered, typeName⟩
    obtain ⟨r', s', first', last', covered'⟩ := opens.exists_slice parts
    obtain rfl := Option.some.inj (first.symm.trans first')
    obtain rfl := Option.some.inj (last.symm.trans last')
    exact ⟨front, rest, type, back, opens, parts, by rw [typeName, ← covered, covered']⟩
  · rintro ⟨front, rest, type, back, opens, parts, typeName⟩
    obtain ⟨r, s, first, last, covered⟩ := opens.exists_slice parts
    exact ⟨front, rest, type, back, opens, parts, r, s, _, first, last, covered, typeName⟩

/-- A header is read iff it is what the line spells with the qualifiers that the reader commits to. -/
theorem recognize_eq_ok_iff {h : Header} : recognize extra text line span = .ok h ↔
    h.line = line ∧ h.span = span ∧ Follows (Commits extra) text h := by
  rw [follows_iff]
  constructor
  · intro read
    obtain ⟨front, rest, opens⟩ := exists_opens read
    obtain ⟨l, ls, rfl⟩ := List.exists_cons_of_ne_nil opens.ne_nil
    have same := Except.ok.inj (read.symm.trans opens.recognize_eq)
    obtain ⟨more, qs, split⟩ : ∃ more qs, splitQualifiers extra ls = (more, qs) := ⟨_, _, rfl⟩
    obtain ⟨back, whole, -⟩ := exists_of_splitQualifiers split
    rw [split] at same
    rw [same]
    exact ⟨rfl, rfl, front, l :: ls, l :: more, back, opens, parts_commits_iff.2 ⟨more, rfl, whole, split⟩, rfl⟩
  · rintro ⟨rfl, rfl, front, rest, type, back, opens, parts, typeName⟩
    obtain ⟨l, ls, rfl⟩ := List.exists_cons_of_ne_nil opens.ne_nil
    obtain ⟨more, rfl, -, split⟩ := parts_commits_iff.1 parts
    rw [opens.recognize_eq, split, ← typeName]

/-- Types that begin at the same token are told apart by their texts. -/
theorem Opens.type_eq (opens : Opens text name article front rest) {type' back' : List Lexeme}
    (whole : rest = type ++ back) (whole' : rest = type' ++ back') (ne_nil : type ≠ []) (ne_nil' : type' ≠ [])
    (same : verbatim type = verbatim type') : type = type' := by
  obtain ⟨trail, -, -, reads⟩ := Lexeme.readIn_ofText text
  rw [opens.lexemes] at reads
  have written : ∀ l ∈ rest, l.token.text ≠ [] := by
    intro l hl none_
    obtain ⟨-, behind, token⟩ := reads.of_mem l (List.mem_append_right _ hl)
    obtain ⟨c, w, ht, -⟩ := token.text_eq_cons
    rw [none_] at ht
    cases ht
  -- the longer type goes on with tokens, and tokens are not empty
  have longer {ls ms ns : List Lexeme} (whole : rest = ls ++ ms ++ ns) (ne_nil : ls ≠ [])
      (same : verbatim (ls ++ ms) = verbatim ls) : ms = [] := by
    obtain ⟨l, ls, rfl⟩ := List.exists_cons_of_ne_nil ne_nil
    have nothing : source ms = [] := by simpa [verbatim] using same
    cases ms with
    | nil => rfl
    | cons m ms =>
      rw [Lexeme.source_cons, List.append_eq_nil_iff, List.append_eq_nil_iff] at nothing
      exact absurd nothing.2.1 (written m (by simp [whole]))
  rcases List.append_eq_append_iff.1 (whole.symm.trans whole') with ⟨u, rfl, -⟩ | ⟨u, rfl, -⟩
  · rw [longer whole' ne_nil same.symm, List.append_nil]
  · rw [longer whole ne_nil' same, List.append_nil]

/-- Reading a typed header and its grammar, in which any way to split the end of the line into qualifiers counts.

A line is read iff a name, `is`, perhaps an article and something behind it open it. What is read is what the line
spells with the qualifiers that the reader commits to. This is what the line spells by the grammar iff the reader
commits to qualifiers where they begin by the grammar, so always if no qualifier begins another, longer one. -/
theorem recognize_grammar (extra : List Phrase) (text : Text) (line : Nat) (span : Span) :
    ((∃ h, recognize extra text line span = .ok h) ↔ ∃ name article front rest, Opens text name article front rest) ∧
      (∀ h, recognize extra text line span = .ok h ↔
        h.line = line ∧ h.span = span ∧ Follows (Commits extra) text h) ∧
      (∀ h, recognize extra text line span = .ok h → (Follows (Splits extra) text h ↔
        ∀ front rest type back qs, Opens text h.name h.article front rest → Parts (Splits extra) rest type back qs →
          ∃ qs, Commits extra (tokens back) qs)) ∧
      (Unnested extra → ∀ h, recognize extra text line span = .ok h ↔
        h.line = line ∧ h.span = span ∧ Follows (Splits extra) text h) := by
  refine ⟨⟨?_, ?_⟩, fun h => recognize_eq_ok_iff, fun h read => ?_, fun unnested h => ?_⟩
  · rintro ⟨h, read⟩
    obtain ⟨front, rest, opens⟩ := exists_opens read
    exact ⟨h.name, h.article, front, rest, opens⟩
  · rintro ⟨name, article, front, rest, opens⟩
    obtain ⟨l, ls, rfl⟩ := List.exists_cons_of_ne_nil opens.ne_nil
    exact ⟨_, opens.recognize_eq⟩
  -- A line opens in one way only, so two readings of it differ at most in where the type ends.
  · obtain ⟨front, rest, type, back, opens, reader, typeName⟩ := follows_iff.1 (recognize_eq_ok_iff.1 read).2.2
    rw [follows_iff]
    constructor
    · rintro ⟨front', rest', type', back', opens', grammar, typeName'⟩ front₁ rest₁ type₁ back₁ qs opens₁ grammar₁
      obtain ⟨-, -, rfl, rfl⟩ := opens.eq opens'
      obtain ⟨-, -, rfl, rfl⟩ := opens.eq opens₁
      obtain ⟨rfl, rfl⟩ := grammar.eq grammar₁
      refine (grammar.commits_iff reader).1 ?_
      exact opens.type_eq grammar.whole reader.whole grammar.ne_nil reader.ne_nil
        (Option.some.inj (typeName'.symm.trans typeName))
    · intro commits
      obtain ⟨type', back', qs, grammar⟩ : ∃ type back qs, Parts (Splits extra) rest type back qs :=
        exists_parts opens.ne_nil .nil
      obtain rfl := (grammar.commits_iff reader).2 (commits _ _ _ _ _ opens grammar)
      exact ⟨front, rest, type', back, opens, ⟨reader.whole, reader.ne_nil, reader.qualifiers.splits, grammar.least⟩,
        typeName⟩
  · have same : Splits extra = Commits extra := by
      funext ts qs
      exact propext (Qualifier.splits_iff_commits unnested)
    rw [same]
    exact recognize_eq_ok_iff

/-- A further phrase that begins like no other qualifier. -/
def upperCase : Phrase := ⟨"upper".toList, ["case".toList]⟩

theorem recognize_grammar_upperCase :
    Unnested [upperCase] ∧
      recognize [upperCase] "Code is an Alpha size 4 upper  case".toList 3 ⟨7, 42⟩ = .ok
        ⟨"Code".toList, some .an, some "Alpha".toList, ["size 4".toList, "upper case".toList], 3, ⟨7, 42⟩⟩ ∧
      Follows (Splits [upperCase]) "Code is an Alpha size 4 upper  case".toList
        ⟨"Code".toList, some .an, some "Alpha".toList, ["size 4".toList, "upper case".toList], 3, ⟨7, 42⟩⟩ := by
  have unnested : Unnested [upperCase] := Qualifier.unnested_of_heads (by decide) (by decide)
  have grammar := (recognize_grammar [upperCase] "Code is an Alpha size 4 upper  case".toList 3 ⟨7, 42⟩).2.2.2 unnested
  refine ⟨unnested, ?read, ((grammar _).1 ?read).2.2⟩
  decide +kernel

/-- A further phrase that begins with a fixed qualifier. -/
def requiredField : Phrase := ⟨"required".toList, ["field".toList]⟩

/-- The reader takes `required` for a qualifier by itself, cannot go on with `field` and leaves both in the type. By the
grammar they are one qualifier. -/
theorem recognize_requiredField :
    recognize [requiredField] "Code is Alpha required field".toList 1 ⟨0, 28⟩
        = .ok ⟨"Code".toList, none, some "Alpha required field".toList, [], 1, ⟨0, 28⟩⟩ ∧
      ¬ Follows (Splits [requiredField]) "Code is Alpha required field".toList
        ⟨"Code".toList, none, some "Alpha required field".toList, [], 1, ⟨0, 28⟩⟩ ∧
      Follows (Splits [requiredField]) "Code is Alpha required field".toList
        ⟨"Code".toList, none, some "Alpha".toList, ["required field".toList], 1, ⟨0, 28⟩⟩ := by
  have opens : Opens "Code is Alpha required field".toList "Code".toList none
      [⟨[], .word "Code".toList⟩, ⟨[' '], .word "is".toList⟩]
      [⟨[' '], .word "Alpha".toList⟩, ⟨[' '], .word "required".toList⟩, ⟨[' '], .word "field".toList⟩] :=
    ⟨by decide +kernel, rfl, by simp, fun _ l hl word => by cases hl; cases word <;> decide, by decide⟩
  have phrase : Splits [requiredField] [.word "required".toList, .word "field".toList] ["required field".toList] :=
    .cons (g := [.word "required".toList, .word "field".toList]) (.further (List.mem_singleton.2 rfl) rfl) .nil
  have grammar : Parts (Splits [requiredField])
      [⟨[' '], .word "Alpha".toList⟩, ⟨[' '], .word "required".toList⟩, ⟨[' '], .word "field".toList⟩]
      [⟨[' '], .word "Alpha".toList⟩] [⟨[' '], .word "required".toList⟩, ⟨[' '], .word "field".toList⟩]
      ["required field".toList] :=
    ⟨rfl, by simp, phrase, fun _ _ _ _ ne_nil _ => List.length_pos_iff.2 ne_nil⟩
  refine ⟨by decide +kernel, fun follows => ?_, follows_iff.2 ⟨_, _, _, _, opens, grammar, rfl⟩⟩
  obtain ⟨front, rest, type, back, opens', grammar', typeName⟩ := follows_iff.1 follows
  obtain ⟨-, -, rfl, rfl⟩ := opens.eq opens'
  obtain ⟨rfl, rfl⟩ := grammar.eq grammar'
  exact absurd typeName (by decide)

end Header

end BusinessClass
