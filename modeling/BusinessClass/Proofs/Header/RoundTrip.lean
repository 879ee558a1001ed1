import BusinessClass.Proofs.Document.Relocation
import BusinessClass.Proofs.Header.Opening
import BusinessClass.Proofs.Header.Qualifier

/-!
# Writing headers and reading them again

A header that was read, with further qualifiers that were read, is written as a line that is read as
the same header.

* `Header.Typed` holds of a typed header and the lexemes of its type: what a typed header that is read
  satisfies (`typed_of_recognize`), and what is needed to read it again (`recognize_render`).
* `Header.Bare` is the same for a bare header, which is written as its name.
* `Header.Readable` is either of them; `isContent_render`: the line of such a header is content.
-/

namespace BusinessClass

namespace Header

open Lexeme (tokens verbatim Whole withGap spaced)

/-! ### Parting a type from qualifiers -/

/-- A type ends where the first run of qualifiers begins. -/
theorem splitQualifiers_append {extra : List Phrase} {more back : List Lexeme} {qs : List Text}
    (all : Qualifier.all? extra (tokens back) = some qs)
    (first : ∀ u, u <:+ more → u ≠ [] → Qualifier.all? extra (tokens (u ++ back)) = none) :
    splitQualifiers extra (more ++ back) = (more, qs) := by
  induction more with
  | nil =>
    cases back with
    | nil =>
      obtain rfl : [] = qs := by simpa using all
      rfl
    | cons l ls => rw [List.nil_append, splitQualifiers, all]
  | cons l more ih =>
    have here : Qualifier.all? extra (tokens (l :: (more ++ back))) = none :=
      first (l :: more) (List.suffix_refl _) (by simp)
    rw [List.cons_append, splitQualifiers, here,
      ih fun u hu ne => first u (hu.trans (List.suffix_cons l more)) ne]

theorem exists_of_splitQualifiers {extra : List Phrase} {ls more : List Lexeme} {qs : List Text}
    (h : splitQualifiers extra ls = (more, qs)) :
    ∃ back, ls = more ++ back ∧ Qualifier.all? extra (tokens back) = some qs ∧
      ∀ u, u <:+ more → u ≠ [] → Qualifier.all? extra (tokens (u ++ back)) = none := by
  induction ls generalizing more with
  | nil =>
    obtain ⟨rfl, rfl⟩ := Prod.mk.inj h
    exact ⟨[], rfl, by simp, fun u hu ne => absurd (List.suffix_nil.1 hu) ne⟩
  | cons l ls ih =>
    rw [splitQualifiers] at h
    split at h
    · rename_i all
      obtain ⟨rfl, rfl⟩ := Prod.mk.inj h
      exact ⟨l :: ls, rfl, all, fun u hu ne => absurd (List.suffix_nil.1 hu) ne⟩
    · rename_i here
      obtain ⟨rfl, rfl⟩ := Prod.mk.inj h
      obtain ⟨back, hls, all, first⟩ := ih rfl
      refine ⟨back, by rw [List.cons_append, ← hls], all, fun u hu ne => ?_⟩
      rcases List.suffix_cons_iff.1 hu with rfl | hu
      · rwa [List.cons_append, ← hls]
      · exact first u hu ne

/-! ### Typed headers -/

/-- The lexemes `ls` are the type of the header, and the line of the header can be written. -/
structure Typed (h : Header) (ls : List Lexeme) : Prop where
  name : Whole [⟨[], .word h.name⟩]
  typeName : h.typeName = some (verbatim ls)
  whole : Whole ls
  /-- Without an article, the type does not start with one. -/
  article : h.article = none → ∀ l ∈ ls.head?, l.token ≠ .word "a".toList ∧ l.token ≠ .word "an".toList
  /-- No qualifiers end the type. -/
  plain : ∀ u, u <:+ ls.tail → u ≠ [] → Qualifier.all? [] (tokens u) = none
  qualifiers : ∀ q ∈ h.qualifiers, Qualifier.IsPhrase q

theorem Typed.addQualifiers {h : Header} {ls : List Lexeme} (typed : h.Typed ls) {qs : List Text}
    (phrases : ∀ q ∈ qs, Qualifier.IsPhrase q) : (h.addQualifiers qs).Typed ls :=
  { typed with
    qualifiers := fun q hq => by
      rcases List.mem_append.1 hq with hq | hq
      · exact typed.qualifiers q hq
      · exact phrases q hq }

/-- A typed header that is read from content can be written. -/
theorem typed_of_recognize {text : Text} {line : Nat} {span : Span} {h : Header}
    (read : recognize [] text line span = .ok h) (feed : '\n' ∉ text) (ret : '\r' ∉ text) :
    ∃ ls, h.Typed ls := by
  obtain ⟨front, rest, opens⟩ := exists_opens read
  obtain ⟨l, ls, rfl⟩ := List.exists_cons_of_ne_nil opens.ne_nil
  obtain ⟨more, qs, split⟩ : ∃ more qs, splitQualifiers [] ls = (more, qs) := ⟨_, _, rfl⟩
  have header := Except.ok.inj (read.symm.trans opens.recognize_eq)
  rw [split] at header
  -- Qualifiers start at `back`, and at no token of the type behind its first.
  obtain ⟨back, rfl, all, first⟩ := exists_of_splitQualifiers split
  have name : Whole [⟨[], .word h.name⟩] := by
    obtain ⟨g₁, g₂, pre, front_eq, -⟩ := opens.exists_front
    have inside : [⟨g₁, .word h.name⟩] <:+: Lexeme.ofText text := by
      rw [opens.lexemes, front_eq]
      exact ⟨[], _, rfl⟩
    exact (Lexeme.whole_of_ofText inside (by simp) (by simp) feed ret).token _ List.mem_cons_self
  -- Any stretch of what was read is written as it was read: no quote in it is open.
  have whole {ms : List Lexeme} (infix_ : ms <:+: l :: (more ++ back)) (ne : ms ≠ []) : Whole ms := by
    refine Lexeme.whole_of_ofText ?_ ne (fun mark => opens.closed ?_) feed ret
    · rw [opens.lexemes]
      exact infix_.trans (List.suffix_append _ _).isInfix
    · exact (infix_.map Lexeme.token).subset mark
  have spells := Qualifier.all?_eq_some_iff.1 all
  refine ⟨l :: more, name, by rw [header], whole (List.prefix_append _ _).isInfix (by simp), fun none m hm => ?_,
    fun u hu ne => ?_, ?_⟩
  · exact ⟨opens.plain none m hm .a, opens.plain none m hm .an⟩
  · rw [Option.eq_none_iff_forall_not_mem]
    intro ps hps
    have := Qualifier.all?_append hps all
    rw [← Lexeme.tokens_append, first u hu ne] at this
    cases this
  · rw [header]
    refine spells.isPhrase fun t ht => ?_
    have ne : back ≠ [] := by
      rintro rfl
      cases ht
    exact (whole (List.suffix_append (l :: more) back).isInfix ne).token t ht

/-! ### Writing typed headers -/

/-- The lexemes of the line of a typed header. -/
theorem Typed.exists_pieces {h : Header} {ls : List Lexeme} (typed : h.Typed ls) :
    ∃ lss : List (List Lexeme), (∀ ms ∈ lss, Whole ms) ∧
      Qualifier.SpellsAll (lss.flatMap tokens) h.qualifiers ∧
      ∃ pieces : List (List Lexeme), (∀ ms ∈ pieces, Whole ms) ∧
        pieces = [⟨[], .word h.name⟩] :: [⟨[], .word "is".toList⟩]
          :: (articleLexemes h.article ++ ls :: lss) ∧
        h.render = Text.unwords (pieces.map verbatim) := by
  obtain ⟨lss, wholes, verbatims, spells⟩ := Qualifier.exists_lexemes typed.qualifiers
  refine ⟨lss, wholes, spells, _, ?_, rfl, ?_⟩
  · simp only [List.mem_cons, List.mem_append]
    rintro ms (rfl | rfl | hm | rfl | hm)
    · exact typed.name
    · exact whole_is
    · exact whole_article _ ms hm
    · exact typed.whole
    · exact wholes ms hm
  · rw [render, typed.typeName]
    cases h.article <;> simp [articleLexemes, verbatim, verbatims, Token.text]

/-- The line of a typed header is read as that header. -/
theorem Typed.recognize_render {h : Header} {ls : List Lexeme} (typed : h.Typed ls) (line : Nat)
    (span : Span) : recognize [] h.render line span = .ok { h with line := line, span := span } := by
  obtain ⟨lss, wholes, spells, pieces, -, rfl, render_eq⟩ := typed.exists_pieces
  obtain ⟨front, opens⟩ := exists_opens_unwords typed.name.toComplete typed.whole.toComplete
    (fun ms hm => (wholes ms hm).toComplete) fun none l hl word => by
      cases word
      · exact (typed.article none l hl).1
      · exact (typed.article none l hl).2
  obtain ⟨l, more, rfl⟩ := List.exists_cons_of_ne_nil typed.whole.ne_nil
  rw [← render_eq] at opens
  have all := Qualifier.all?_eq_some_iff.2 spells
  have tokens_back : tokens (lss.flatMap (withGap [' '])) = lss.flatMap tokens := by
    simp [Lexeme.tokens_flatMap]
  rw [← tokens_back] at all
  -- No shorter type does: what would be left of the type is not made of qualifiers.
  have first : ∀ u, u <:+ more → u ≠ [] →
      Qualifier.all? [] (tokens (u ++ lss.flatMap (withGap [' ']))) = none := by
    intro u hu ne
    rw [Option.eq_none_iff_forall_not_mem]
    intro ps hps
    rw [Lexeme.tokens_append] at hps
    obtain ⟨ps', h⟩ := Qualifier.all?_of_append hps all
    rw [typed.plain u hu ne] at h
    cases h
  rw [withGap, List.cons_append] at opens
  rw [opens.recognize_eq, splitQualifiers_append all first, typed.typeName]
  rfl

/-- The line of a typed header is content. -/
theorem Typed.isContent_render {h : Header} {ls : List Lexeme} (typed : h.Typed ls) :
    h.render.IsContent := by
  obtain ⟨lss, wholes, spells, pieces, pieces_whole, hp, hr⟩ := typed.exists_pieces
  have whole := Lexeme.whole_spaced pieces_whole (by simp [hp])
  have verbatim_eq := Lexeme.verbatim_spaced fun ms hm => (pieces_whole ms hm).toComplete
  rw [hr, ← verbatim_eq]
  refine whole.isContent ?_
  obtain ⟨c, w, hw, start⟩ := typed.name.readIn.2.1.isNameStart
  have slash : ('/' == c) = false := by
    rw [beq_eq_false_iff_ne]
    rintro rfl
    exact absurd start (by decide)
  have no_comment (t : Text) : "//".toList.isPrefixOf (c :: t) = false := by
    change ('/' == c && _) = false
    rw [slash, Bool.false_and]
  rw [verbatim_eq, hp, List.map_cons, Text.unwords_cons]
  exact hw ▸ no_comment _

/-! ### Bare headers -/

/-- A bare header whose name is read as one. -/
structure Bare (h : Header) : Prop where
  article : h.article = none
  typeName : h.typeName = none
  isContent : h.name.IsContent
  read : ∀ line span, ofText [] h.name line span = .ok ⟨h.name, none, none, [], line, span⟩
  qualifiers : ∀ q ∈ h.qualifiers, Qualifier.IsPhrase q

/-- A header that was read, typed or bare, can be written and read again. -/
inductive Readable (h : Header) : Prop
  | typed {ls : List Lexeme} (typed : h.Typed ls)
  | bare (bare : h.Bare)

/-- A typed header is read as what it is recognized as. -/
theorem ofText_of_recognize {extra : List Phrase} {text : Text} {line : Nat} {span : Span} {h : Header}
    (recognized : recognize extra text line span = .ok h) : ofText extra text line span = .ok h := by
  rw [ofText, recognized]

theorem readable_of_ofText {text : Text} (content : text.IsContent) {line : Nat} {span : Span}
    {h : Header} (read : ofText [] text line span = .ok h) : h.Readable := by
  unfold ofText at read
  split at read
  · rename_i header typed
    cases read
    obtain ⟨ls, typed⟩ := typed_of_recognize typed content.no_feed content.no_return
    exact .typed typed
  · rename_i e untyped
    split at read
    · rename_i header bare
      cases read
      unfold bare? at bare
      split at bare
      · rename_i dotted
        cases bare
        refine .bare ⟨rfl, rfl, content, fun line' span' => ?_, by simp⟩
        have untyped' : ∃ e, recognize [] text line' span' = .error e := by
          have := recognize_relocate ⟨fun _ => line', fun _ => span', id⟩ [] text line span
          rw [untyped] at this
          exact ⟨e, this⟩
        obtain ⟨e', untyped'⟩ := untyped'
        rw [ofText, untyped', bare?, if_pos dotted]
      · cases bare
    · cases read

theorem Readable.addQualifiers {h : Header} (readable : h.Readable) {qs : List Text}
    (phrases : ∀ q ∈ qs, Qualifier.IsPhrase q) : (h.addQualifiers qs).Readable := by
  cases readable with
  | typed typed => exact .typed (typed.addQualifiers phrases)
  | bare bare =>
    refine .bare { bare with qualifiers := fun q hq => ?_ }
    rcases List.mem_append.1 hq with hq | hq
    · exact bare.qualifiers q hq
    · exact phrases q hq

theorem Readable.qualifiers {h : Header} (readable : h.Readable) :
    ∀ q ∈ h.qualifiers, Qualifier.IsPhrase q := by
  cases readable with
  | typed typed => exact typed.qualifiers
  | bare bare => exact bare.qualifiers

theorem Bare.render_eq {h : Header} (bare : h.Bare) : h.render = h.name := by
  rw [render, bare.typeName]

theorem Bare.addQualifiers_name {h : Header} (bare : h.Bare) :
    (Header.mk h.name none none [] 0 ⟨0, 0⟩).addQualifiers h.qualifiers = h.relocate .unplace := by
  rw [Header.addQualifiers, Header.relocate, bare.article, bare.typeName]
  rfl

theorem Readable.isContent_render {h : Header} (readable : h.Readable) : h.render.IsContent := by
  cases readable with
  | typed typed => exact typed.isContent_render
  | bare bare =>
    rw [bare.render_eq]
    exact bare.isContent

end Header

end BusinessClass
