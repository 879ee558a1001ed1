import BusinessClass.Header.Basic
import BusinessClass.Proofs.Header.Token

/-!
# In front of the type

A typed header opens with a name, `is` and perhaps an article. Behind them stands something in which no quote is left
open. This is all that decides whether a line is read as a typed header.

* `Header.Opens` says how a line opens. `Opens.recognize_eq`: such a line is read. `exists_opens`: every line that is
  read opens in this way; `Opens.eq`: in one way only.
* `exists_opens_unwords`: a line that is written from its parts opens with them.
-/

namespace BusinessClass

namespace Header

open Lexeme (tokens verbatim Whole Complete withGap)

variable {extra : List Phrase} {text : Text} {line : Nat} {span : Span}

/-! ### Lines that open like a header -/

/-- The line is a name, `is`, perhaps an article and something behind it, where no quote is left open. -/
structure Opens (text name : Text) (article : Option Article) (front rest : List Lexeme) : Prop where
  lexemes : Lexeme.ofText text = front ++ rest
  tokens_front : tokens front = .word name :: .word "is".toList :: article.toList.map (.word ·.text)
  ne_nil : rest ≠ []
  /-- A word that can be the article is the article. -/
  plain : article = none → ∀ l ∈ rest.head?, ∀ word : Article, l.token ≠ .word word.text
  closed : .mark '"' ∉ tokens rest

variable {name : Text} {article : Option Article} {front rest : List Lexeme}

theorem Opens.exists_front (opens : Opens text name article front rest) :
    ∃ g₁ g₂ more, front = ⟨g₁, .word name⟩ :: ⟨g₂, .word "is".toList⟩ :: more ∧
      tokens more = article.toList.map (.word ·.text) := by
  obtain ⟨⟨g₁, _⟩, ls, rfl, rfl, tail⟩ := List.map_eq_cons_iff.1 opens.tokens_front
  obtain ⟨⟨g₂, _⟩, more, rfl, rfl, tail'⟩ := List.map_eq_cons_iff.1 tail
  exact ⟨g₁, g₂, more, rfl, tail'⟩

theorem takeArticle_cases (ls : List Lexeme) :
    (∃ word l ls', ls = l :: ls' ∧ l.token = .word (Article.text word) ∧ takeArticle ls = (some word, ls')) ∨
      (takeArticle ls = (none, ls) ∧ ∀ l ∈ ls.head?, ∀ word : Article, l.token ≠ .word word.text) := by
  cases ls with
  | nil => exact .inr ⟨rfl, by simp⟩
  | cons l ls =>
    rw [takeArticle]
    split
    · rename_i a
      exact .inl ⟨.a, l, ls, rfl, a, rfl⟩
    · rename_i not_a
      split
      · rename_i an
        exact .inl ⟨.an, l, ls, rfl, an, rfl⟩
      · rename_i not_an
        refine .inr ⟨rfl, fun m hm word => ?_⟩
        obtain rfl := Option.some.inj hm
        cases word
        · exact not_a
        · exact not_an

theorem takeArticle_append {more : List Lexeme} (tail : tokens more = article.toList.map (.word ·.text))
    (plain : article = none → ∀ l ∈ rest.head?, ∀ word : Article, l.token ≠ .word word.text) :
    takeArticle (more ++ rest) = (article, rest) := by
  cases article with
  | none =>
    obtain rfl : more = [] := List.map_eq_nil_iff.1 tail
    rcases takeArticle_cases rest with ⟨word, l, ls, rfl, token, -⟩ | ⟨taken, -⟩
    · exact absurd token (plain rfl l rfl word)
    · exact taken
  | some word =>
    obtain ⟨l, more, rfl, token, tail⟩ := List.map_eq_cons_iff.1 tail
    obtain rfl : more = [] := List.map_eq_nil_iff.1 tail
    cases word <;> simp [takeArticle, token, Article.text]

/-- A line that opens like a typed header is read as one. -/
theorem Opens.recognize_eq {l : Lexeme} {ls : List Lexeme} (opens : Opens text name article front (l :: ls)) :
    recognize extra text line span = .ok ⟨name, article, some (verbatim (l :: (splitQualifiers extra ls).1)),
      (splitQualifiers extra ls).2, line, span⟩ := by
  obtain ⟨g₁, g₂, more, rfl, tail⟩ := opens.exists_front
  have closed : .mark '"' ∉ tokens (more ++ l :: ls) := by
    rw [Lexeme.tokens_append, tail, List.mem_append, not_or]
    exact ⟨by simp, opens.closed⟩
  rw [recognize, opens.lexemes]
  simp only [List.cons_append, if_true, recognizeType, if_neg closed, takeArticle_append tail opens.plain]

/-- What follows `is`, if it is read as type and qualifiers, is perhaps an article and something behind it. -/
theorem exists_of_recognizeType {ls : List Lexeme} {typeName : Text} {qs : List Text}
    (read : recognizeType extra ls = .ok (article, typeName, qs)) : .mark '"' ∉ tokens ls ∧
      ∃ more rest, ls = more ++ rest ∧ rest ≠ [] ∧ tokens more = article.toList.map (.word ·.text) ∧
        (article = none → ∀ l ∈ rest.head?, ∀ word : Article, l.token ≠ .word word.text) := by
  unfold recognizeType at read
  split at read
  · cases read
  · rename_i closed
    refine ⟨closed, ?_⟩
    rcases takeArticle_cases ls with ⟨word, m, ms, rfl, token, taken⟩ | ⟨taken, plain⟩
    · rw [taken] at read
      cases ms with
      | nil => cases read
      | cons l ms =>
        cases read
        exact ⟨[m], l :: ms, rfl, by simp, by simp [token], by simp⟩
    · rw [taken] at read
      cases ls with
      | nil => cases read
      | cons l ls =>
        cases read
        exact ⟨[], l :: ls, rfl, by simp, rfl, fun _ => plain⟩

/-- A line that is read as a typed header opens like one. -/
theorem exists_opens {h : Header} (read : recognize extra text line span = .ok h) :
    ∃ front rest, Opens text h.name h.article front rest := by
  unfold recognize at read
  split at read
  · rename_i g₁ name g₂ is rest lexemes
    split at read
    · rename_i his
      subst his
      split at read
      · rename_i article typeName qs readType
        cases read
        obtain ⟨closed, more, rest, rfl, ne_nil, tail, plain⟩ := exists_of_recognizeType readType
        refine ⟨⟨g₁, .word name⟩ :: ⟨g₂, .word "is".toList⟩ :: more, rest, lexemes, ?_, ne_nil, plain, ?_⟩
        · rw [Lexeme.tokens_cons, Lexeme.tokens_cons, tail]
        · rw [Lexeme.tokens_append, List.mem_append, not_or] at closed
          exact closed.2
      · cases read
    · cases read
  · cases read

/-- What stands in front of the type is fixed by the line. -/
theorem Opens.eq {name' : Text} {article' : Option Article} {front' rest' : List Lexeme}
    (opens : Opens text name article front rest) (opens' : Opens text name' article' front' rest') :
    name = name' ∧ article = article' ∧ front = front' ∧ rest = rest' := by
  obtain ⟨g₁, g₂, more, rfl, tail⟩ := opens.exists_front
  obtain ⟨h₁, h₂, more', rfl, tail'⟩ := opens'.exists_front
  have lexemes := opens.lexemes.symm.trans opens'.lexemes
  simp only [List.cons_append, List.cons.injEq, Lexeme.mk.injEq, Token.word.injEq] at lexemes
  obtain ⟨⟨rfl, rfl⟩, ⟨rfl, -⟩, same⟩ := lexemes
  have taken := takeArticle_append tail opens.plain
  rw [same, takeArticle_append tail' opens'.plain] at taken
  obtain ⟨rfl, rfl⟩ := Prod.mk.inj taken
  rw [List.append_cancel_right same]
  exact ⟨rfl, rfl, rfl, rfl⟩

/-! ### Writing the parts of a line -/

/-- The lexemes of an article. -/
def articleLexemes : Option Article → List (List Lexeme)
  | none => []
  | some article => [[⟨[], .word article.text⟩]]

theorem whole_is : Whole [⟨[], .word "is".toList⟩] :=
  Lexeme.whole_singleton (r := []) ⟨'i', "s".toList, rfl, by decide, by decide +kernel⟩ (by decide)
    (by simp [Token.text])

theorem whole_article (article : Option Article) : ∀ ls ∈ articleLexemes article, Whole ls := by
  match article with
  | none => simp [articleLexemes]
  | some .a =>
    simp only [articleLexemes, List.mem_singleton, forall_eq]
    exact Lexeme.whole_singleton (r := []) ⟨'a', [], rfl, by decide, by decide +kernel⟩ (by decide)
      (by simp [Token.text, Article.text])
  | some .an =>
    simp only [articleLexemes, List.mem_singleton, forall_eq]
    exact Lexeme.whole_singleton (r := []) ⟨'a', "n".toList, rfl, by decide, by decide +kernel⟩
      (by decide) (by simp [Token.text, Article.text])

/-- A line that is written from name, `is`, article, type and qualifiers opens with them. -/
theorem exists_opens_unwords {name : Text} {type : List Lexeme} {lss : List (List Lexeme)}
    (name_complete : Complete [⟨[], .word name⟩]) (type_complete : Complete type)
    (complete : ∀ ls ∈ lss, Complete ls)
    (plain : article = none → ∀ l ∈ type.head?, ∀ word : Article, l.token ≠ .word word.text) :
    ∃ front, Opens (Text.unwords (([⟨[], .word name⟩] :: [⟨[], .word "is".toList⟩]
        :: (articleLexemes article ++ type :: lss)).map verbatim)) name article front
      (withGap [' '] type ++ lss.flatMap (withGap [' '])) := by
  have pieces : ∀ ls ∈ [⟨[], .word name⟩] :: [⟨[], .word "is".toList⟩] :: (articleLexemes article ++ type :: lss),
      Complete ls := by
    simp only [List.mem_cons, List.mem_append]
    rintro ls (rfl | rfl | hl | rfl | hl)
    · exact name_complete
    · exact whole_is.toComplete
    · exact (whole_article _ ls hl).toComplete
    · exact type_complete
    · exact complete ls hl
  refine ⟨⟨[], .word name⟩ :: ⟨[' '], .word "is".toList⟩ :: (articleLexemes article).flatMap (withGap [' ']),
    ?_, ?_, ?_, fun none l hl => ?_, ?_⟩
  · rw [Lexeme.ofText_unwords pieces (by simp)]
    simp [Lexeme.spaced, withGap]
  · cases article <;> rfl
  · obtain ⟨l, ls, rfl⟩ := List.exists_cons_of_ne_nil type_complete.ne_nil
    simp [withGap]
  · obtain ⟨m, ls, rfl⟩ := List.exists_cons_of_ne_nil type_complete.ne_nil
    obtain rfl := Option.some.inj hl
    exact plain none m rfl
  · rw [Lexeme.tokens_append, Lexeme.tokens_withGap, Lexeme.tokens_flatMap, List.mem_append, not_or, List.mem_flatMap]
    refine ⟨type_complete.closed, ?_⟩
    rintro ⟨ls, hl, mark⟩
    refine (complete ls hl).closed ?_
    rwa [Lexeme.tokens_withGap] at mark

end Header

end BusinessClass
