import BusinessClass.Proofs.Header.NormalForm
import BusinessClass.Proofs.Header.Spacing
import BusinessClass.Proofs.SetRules.GroupKey

/-!
# Dotted names as tokens

What a name is can be told from the characters of a text, or from its tokens: a dotted name is read as a word and any
number of further words, each behind a dot, and there is nothing in front of these tokens, between them or behind them.

* `Span.Tile`: spans that stand one right behind the other.
* `Lexeme.tile_spans_iff`: the places of tokens do so if no blank is left between them.
* `Lexeme.readIn_joined_chain_iff`: words with dots between them are read off exactly if they are names.
* `isDottedName_agrees`: characters and tokens agree, so no bare header is a typed one, and the path of a group is a
  dotted name.
-/

namespace BusinessClass

/-- The spans stand one right behind the other, the first from `start` and the last up to `stop`. -/
def Span.Tile : List Span → Nat → Nat → Prop
  | [], start, stop => start = stop
  | s :: ss, start, stop => s.start = start ∧ Tile ss s.stop stop

namespace Token

theorem reads_dot (rest : Text) : (mark '.').Reads rest := ⟨'.', [], rfl, by decide, rfl⟩

/-- A word, and further words with a dot in front of each. -/
def chain (w : Text) (ws : List Text) : List Token := .word w :: ws.flatMap fun v => [.mark '.', .word v]

theorem chain_cons (w v : Text) (ws : List Text) : chain w (v :: ws) = .word w :: .mark '.' :: chain v ws := rfl

/-- The tokens of a chain spell its words with dots between them. -/
theorem flatMap_text_chain (w : Text) (ws : List Text) : (chain w ws).flatMap text = ['.'].intercalate (w :: ws) := by
  induction ws generalizing w with
  | nil => simp [chain, text]
  | cons v ws ih =>
    rw [chain_cons, List.flatMap_cons, List.flatMap_cons, ih, List.intercalate_cons_cons, List.append_assoc]
    rfl

end Token

namespace Lexeme

open Token (chain)

/-! ### Tokens without gaps -/

/-- Tokens with no blank in front of any of them. -/
def joined (ts : List Token) : List Lexeme := ts.map fun t => ⟨[], t⟩

@[simp] theorem tokens_joined (ts : List Token) : tokens (joined ts) = ts := by
  rw [tokens, joined, List.map_map]
  exact List.map_id ts

theorem source_joined (ts : List Token) : source (joined ts) = ts.flatMap Token.text := by
  rw [source, joined, List.flatMap_map]
  rfl

/-- The places of lexemes tile a range of bytes if no blank is in front of any of them and they are as long as the
range. -/
theorem tile_spans_iff {ls : List Lexeme} {start stop : Nat} :
    Span.Tile (spans start ls) start stop ↔ ls = joined (tokens ls) ∧ start + (source ls).byteSize = stop := by
  induction ls generalizing start with
  | nil => simp [Span.Tile, joined]
  | cons l ls ih =>
    obtain ⟨gap, token⟩ := l
    rw [spans_cons, Span.Tile, tokens_cons, joined, List.map_cons, ← joined, List.cons.injEq, source_cons]
    by_cases empty : gap = []
    · subst empty
      simp [ih, Nat.add_assoc]
    · have size := mt Text.byteSize_eq_zero_iff.1 empty
      simp only [Lexeme.mk.injEq, empty, false_and, iff_false, not_and]
      omega

/-! ### Chains -/

/-- Words with dots between them are read off exactly if they are names. -/
theorem readIn_joined_chain_iff (w : Text) (ws : List Text) :
    ReadIn (joined (chain w ws)) [] ↔ ∀ v ∈ w :: ws, v.isName = true := by
  induction ws generalizing w with
  | nil =>
    have alone : joined (chain w []) = [⟨[], .word w⟩] := rfl
    simp [alone, readIn_cons, Token.reads_word_iff]
  | cons v ws ih =>
    have first : joined (chain w (v :: ws)) = ⟨[], .word w⟩ :: ⟨[], .mark '.'⟩ :: joined (chain v ws) := rfl
    have stop : isNameChar '.' = false := by decide
    rw [first, readIn_cons, readIn_cons, List.forall_mem_cons, ← ih v]
    simp [Token.reads_word_iff, Token.reads_dot, Token.text, stop]

/-- A dotted name is read as words with dots between them, and their places tile the text. -/
theorem exists_tokens_of_isDottedName {t : Text} (dotted : t.isDottedName = true) :
    ∃ ls w ws, ofText? t = some ls ∧ tokens ls = chain w ws ∧ Span.Tile (spans 0 ls) 0 t.byteSize := by
  obtain ⟨w, ws, rfl, names⟩ := Text.isDottedName_iff.1 dotted
  have spelled : source (joined (chain w ws)) = ['.'].intercalate (w :: ws) := by
    rw [source_joined, Token.flatMap_text_chain]
  have read := ofText_source_append ((readIn_joined_chain_iff w ws).2 names)
  rw [List.append_nil, ofText_eq_nil (t := []) rfl, List.append_nil, spelled] at read
  refine ⟨joined (chain w ws), w, ws, ?_, tokens_joined _, tile_spans_iff.2 ⟨?_, ?_⟩⟩
  · rw [← read]
    refine ofText?_of_ne_nil ?_
    rw [read]
    exact List.cons_ne_nil _ _
  · rw [tokens_joined]
  · rw [spelled, Nat.zero_add]

/-- A text that words with dots between them tile is a dotted name. -/
theorem isDottedName_of_tokens {t : Text} {ls : List Lexeme} {w : Text} {ws : List Text} (read : ofText? t = some ls)
    (tokens_eq : tokens ls = chain w ws) (tile : Span.Tile (spans 0 ls) 0 t.byteSize) : t.isDottedName = true := by
  obtain rfl := eq_ofText_of_ofText? read
  obtain ⟨gapless, size⟩ := tile_spans_iff.1 tile
  obtain ⟨trail, -, whole, reads⟩ := readIn_ofText t
  -- the tokens reach to the end of the text, so nothing is behind the last one
  obtain rfl : trail = [] := by
    have := congrArg Text.byteSize whole
    rw [Text.byteSize_append] at this
    exact Text.byteSize_eq_zero_iff.1 (by omega)
  rw [gapless, tokens_eq] at reads whole
  rw [List.append_nil, source_joined, Token.flatMap_text_chain] at whole
  exact Text.isDottedName_iff.2 ⟨w, ws, whole.symm, (readIn_joined_chain_iff w ws).1 reads⟩

end Lexeme

namespace Header

/-- **Characters and tokens agree on what a name is.** A text is a dotted name exactly if it is read as a word and any
number of further words, each behind a dot, and the places of these tokens stand one right behind the other from the
start of the text to its end. No text is read both as a typed header and as a bare one. The path in the header of a
group is one word of it, and this word is a dotted name. -/
theorem isDottedName_agrees (t : Text) :
    (t.isDottedName = true ↔ ∃ ls w ws, Lexeme.ofText? t = some ls ∧ Lexeme.tokens ls = Token.chain w ws ∧
      Span.Tile (Lexeme.spans 0 ls) 0 t.byteSize) ∧
    (¬ ∃ extra line line' span span' typed bare, recognize extra t line span = .ok typed ∧
      bare? t line' span' = some bare) ∧
    ∀ segments, GroupKey.ofHeader? t = some (.path segments) → ∃ word set rules, t.words = [word, set, rules] ∧
      GroupKey.name (.path segments) = word ∧ word.isDottedName = true := by
  refine ⟨⟨Lexeme.exists_tokens_of_isDottedName, ?_⟩, ?_, fun segments => GroupKey.exists_word_of_path⟩
  · rintro ⟨ls, w, ws, read, tokens_eq, tile⟩
    exact Lexeme.isDottedName_of_tokens read tokens_eq tile
  · rintro ⟨extra, line, line', span, span', typed, bare, read, found⟩
    rw [bare?, Option.ite_none_right_eq_some] at found
    have untyped : ∃ e, recognize extra t line span = .error e := exists_error_of_isDottedName found.1
    obtain ⟨e, error⟩ := untyped
    rw [read] at error
    cases error

/-- Letters of any script, numbers that are no digits, and hyphens stand in names; a path of a group has no hyphens. -/
theorem isDottedName_agrees_wide :
    let name : Text := "Größe-2._½.Ⅷ".toList
    let header : Text := " Größe._½\u00a0SET rules".toList
    (∃ ls w ws, Lexeme.ofText? name = some ls ∧ Lexeme.tokens ls = Token.chain w ws ∧
      Span.Tile (Lexeme.spans 0 ls) 0 name.byteSize) ∧
    GroupKey.ofHeader? header = some (.path ["Größe".toList, "_½".toList]) ∧
    ∃ word set rules, header.words = [word, set, rules] ∧ "Größe._½".toList = word ∧ word.isDottedName = true := by
  intro name header
  have dotted : name.isDottedName = true := by decide +kernel
  have key : GroupKey.ofHeader? header = some (.path ["Größe".toList, "_½".toList]) := by decide +kernel
  have spelled : GroupKey.name (.path ["Größe".toList, "_½".toList]) = "Größe._½".toList := by decide +kernel
  have path := (isDottedName_agrees header).2.2 _ key
  rw [spelled] at path
  exact ⟨(isDottedName_agrees name).1.1 dotted, key, path⟩

end Header

end BusinessClass
