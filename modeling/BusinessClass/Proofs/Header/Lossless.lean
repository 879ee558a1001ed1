import BusinessClass.Proofs.Header.Token
import BusinessClass.Proofs.Source.Places

/-!
# Tokens and their places

Reading tokens loses nothing. Each token stands at its place in the text, the places come one behind the other, and
what is left between them is blank.

* `Lexeme.exists_of_mem_located`: the place of a token starts behind the lexemes in front and its own gap.
* `Lexeme.slice?_verbatim`: the text from the first of some lexemes to the last is a piece of the text they are read
  from.
* `Lexeme.Covers` gathers what tokens are to the text; `ofText?_covers`: a text that is not blank has such tokens.
-/

namespace BusinessClass

namespace Token

theorem Reads.byteSize_pos {tok : Token} {rest : Text} (reads : tok.Reads rest) : 0 < tok.text.byteSize := by
  obtain ⟨c, w, ht, -⟩ := reads.text_eq_cons
  rw [ht, Text.byteSize_cons]
  exact Nat.add_pos_left c.utf8Size_pos _

end Token

namespace Lexeme

/-! ### Places -/

@[simp] theorem spans_nil (offset : Nat) : spans offset [] = [] := rfl

theorem spans_cons (offset : Nat) (l : Lexeme) (ls : List Lexeme) :
    spans offset (l :: ls) = ⟨offset + l.gap.byteSize, offset + l.gap.byteSize + l.token.text.byteSize⟩ ::
      spans (offset + l.gap.byteSize + l.token.text.byteSize) ls := rfl

@[simp] theorem length_spans (offset : Nat) (ls : List Lexeme) : (spans offset ls).length = ls.length := by
  induction ls generalizing offset with
  | nil => rfl
  | cons l ls ih => rw [spans_cons, List.length_cons, List.length_cons, ih]

theorem spans_append (offset : Nat) (ls ms : List Lexeme) :
    spans offset (ls ++ ms) = spans offset ls ++ spans (offset + (source ls).byteSize) ms := by
  induction ls generalizing offset with
  | nil => rfl
  | cons l ls ih =>
    rw [List.cons_append, spans_cons, spans_cons, List.cons_append, ih]
    simp [Nat.add_assoc]

/-- The tokens of a text that starts at the given offset, with their places. -/
def located (offset : Nat) (ls : List Lexeme) : List (Span × Token) := (spans offset ls).zip (tokens ls)

theorem located_cons (offset : Nat) (l : Lexeme) (ls : List Lexeme) :
    located offset (l :: ls) =
      (⟨offset + l.gap.byteSize, offset + l.gap.byteSize + l.token.text.byteSize⟩, l.token) ::
        located (offset + l.gap.byteSize + l.token.text.byteSize) ls := rfl

theorem map_fst_located (offset : Nat) (ls : List Lexeme) : (located offset ls).map Prod.fst = spans offset ls :=
  List.map_fst_zip (by simp [tokens])

/-- The place of a token starts behind the lexemes in front and its own gap. -/
theorem exists_of_mem_located {offset : Nat} {ls : List Lexeme} :
    ∀ p ∈ located offset ls, ∃ before l after, ls = before ++ l :: after ∧ p.2 = l.token ∧
      p.1 = ⟨offset + (source before ++ l.gap).byteSize,
        offset + (source before ++ l.gap).byteSize + l.token.text.byteSize⟩ := by
  induction ls generalizing offset with
  | nil => simp [located]
  | cons l ls ih =>
    rw [located_cons]
    intro p hp
    rcases List.mem_cons.1 hp with rfl | hp
    · exact ⟨[], l, ls, rfl, rfl, by simp⟩
    · obtain ⟨before, m, after, rfl, token, place⟩ := ih p hp
      refine ⟨l :: before, m, after, rfl, token, ?_⟩
      rw [place]
      simp [Nat.add_assoc]

/-- The places come one behind the other. -/
theorem pairwise_spans (offset : Nat) (ls : List Lexeme) :
    (∀ s ∈ spans offset ls, offset ≤ s.start ∧ s.start ≤ s.stop) ∧
      (spans offset ls).Pairwise fun r s => r.stop ≤ s.start := by
  induction ls generalizing offset with
  | nil => simp
  | cons l ls ih =>
    obtain ⟨behind, ordered⟩ := ih (offset + l.gap.byteSize + l.token.text.byteSize)
    rw [spans_cons, List.pairwise_cons, List.forall_mem_cons]
    refine ⟨⟨⟨Nat.le_add_right _ _, Nat.le_add_right _ _⟩, fun s hs => ?_⟩, fun s hs => (behind s hs).1, ordered⟩
    have := behind s hs
    omega

/-- The place of the lexeme at a position. -/
theorem getElem?_spans (offset : Nat) (before : List Lexeme) (l : Lexeme) (after : List Lexeme) :
    (spans offset (before ++ l :: after))[before.length]? = some ⟨offset + (source before ++ l.gap).byteSize,
      offset + (source before ++ l.gap).byteSize + l.token.text.byteSize⟩ := by
  rw [spans_append, spans_cons, List.getElem?_append_right (by simp)]
  simp [Nat.add_assoc]

/-- The text from the first of some lexemes to the last stands in the text that they are read from, from where the
place of the first starts to where the place of the last stops. -/
theorem slice?_verbatim (before : List Lexeme) {ls : List Lexeme} (ne_nil : ls ≠ []) (after : List Lexeme)
    (trail : Text) : ∃ r s, (spans 0 (before ++ (ls ++ after)))[before.length]? = some r ∧
      (spans 0 (before ++ (ls ++ after)))[before.length + (ls.length - 1)]? = some s ∧
      Text.slice? (source (before ++ (ls ++ after)) ++ trail) ⟨r.start, s.stop⟩ = some (verbatim ls) := by
  obtain ⟨l, more, rfl⟩ := List.exists_cons_of_ne_nil ne_nil
  have first := getElem?_spans 0 before l (more ++ after)
  obtain ⟨init, last, split⟩ : ∃ init last, l :: more = init ++ [last] :=
    ⟨_, _, (List.dropLast_concat_getLast ne_nil).symm⟩
  have final := getElem?_spans 0 (before ++ init) last after
  have size : (source init).byteSize + last.gap.byteSize + last.token.text.byteSize
      = l.gap.byteSize + (verbatim (l :: more)).byteSize := by
    have := congrArg (fun ls => (source ls).byteSize) split
    simp only [source_cons, source_append, source_nil, Text.byteSize_append, List.append_nil] at this
    rw [verbatim, Text.byteSize_append]
    omega
  have index : (before ++ init).length = before.length + ((l :: more).length - 1) := by rw [split]; simp
  have regroup : before ++ init ++ last :: after = before ++ (l :: more ++ after) := by rw [split]; simp
  rw [index, regroup] at final
  refine ⟨_, _, first, final, ?_⟩
  have whole : source (before ++ (l :: more ++ after)) ++ trail
      = (source before ++ l.gap) ++ (verbatim (l :: more) ++ (source after ++ trail)) := by simp [verbatim]
  have stop : 0 + (source (before ++ init) ++ last.gap).byteSize + last.token.text.byteSize
      = (source before ++ l.gap).byteSize + (verbatim (l :: more)).byteSize := by
    simp only [source_append, Text.byteSize_append]
    omega
  rw [whole, stop, Nat.zero_add]
  exact Text.slice?_append _ _ _

/-! ### The text around the places -/

/-- A character of two texts, one behind the other, is in the first or in the second. -/
theorem append_eq_append_cons {w r u v : Text} {c : Char} (h : w ++ r = u ++ c :: v) :
    (∃ w', w = u ++ c :: w') ∨ ∃ u', u = w ++ u' ∧ r = u' ++ c :: v := by
  rcases List.append_eq_append_iff.1 h with ⟨u', hu, hr⟩ | ⟨w', hw, hv⟩
  · exact .inr ⟨u', hu, hr⟩
  · rcases List.cons_eq_append_iff.1 hv with ⟨rfl, hr⟩ | ⟨w'', rfl, -⟩
    · exact .inr ⟨[], by simpa using hw.symm, hr⟩
    · exact .inl ⟨w'', hw⟩

/-- A character that no place covers stands in a gap. -/
theorem isBlank_of_not_covered {ls : List Lexeme} {trail : Text} (reads : ReadIn ls trail)
    (blank : ∀ c ∈ trail, isBlank c = true) (offset : Nat) {u v : Text} {c : Char}
    (split : source ls ++ trail = u ++ c :: v)
    (outside : ∀ s ∈ spans offset ls, ¬ (s.start ≤ offset + u.byteSize ∧ offset + u.byteSize < s.stop)) :
    isBlank c = true := by
  induction ls generalizing offset u with
  | nil => exact blank c (by rw [show trail = u ++ c :: v from split]; simp)
  | cons l ls ih =>
    obtain ⟨gap, -, more⟩ := readIn_cons.1 reads
    rw [spans_cons, List.forall_mem_cons] at outside
    rw [source_cons, List.append_assoc, List.append_assoc] at split
    -- The character stands in the gap of the first token, in the token, or behind it.
    rcases append_eq_append_cons split with ⟨w, inGap⟩ | ⟨u, rfl, behindGap⟩
    · exact gap c (by rw [inGap]; simp)
    rcases append_eq_append_cons behindGap with ⟨w, inToken⟩ | ⟨u, rfl, behindToken⟩
    · refine absurd ⟨?_, ?_⟩ outside.1
      · simp
      · have := c.utf8Size_pos
        rw [inToken]
        simp only [Text.byteSize_append, Text.byteSize_cons]
        omega
    · refine ih more (offset + l.gap.byteSize + l.token.text.byteSize) behindToken fun s hs => ?_
      have := outside.2 s hs
      simpa only [Text.byteSize_append, Nat.add_assoc] using this

/-! ### What tokens are to a text -/

/-- The tokens and the blanks between them make up the text, and each token has a place there. -/
structure Covers (t : Text) (ls : List Lexeme) : Prop where
  /-- The text is made up of the tokens as written, each behind its gap, and of what follows them. -/
  interleaved : ∃ trail, t = source ls ++ trail ∧ (∀ c ∈ trail, isBlank c = true) ∧
    ∀ l ∈ ls, ∀ c ∈ l.gap, isBlank c = true
  /-- Every token has a place. -/
  placed : (located 0 ls).map Prod.fst = spans 0 ls ∧ (located 0 ls).map Prod.snd = tokens ls
  /-- The place of a token covers the token as written and nothing else. -/
  held : ∀ p ∈ located 0 ls, t.slice? p.1 = some p.2.text
  /-- A place is not empty and does not leave the text. -/
  within : ∀ s ∈ spans 0 ls, s.start < s.stop ∧ s.stop ≤ t.byteSize
  /-- The places come one behind the other. -/
  ordered : (spans 0 ls).Pairwise fun r s => r.stop ≤ s.start
  /-- A character that no place covers is blank. -/
  between : ∀ (u : Text) c v, t = u ++ c :: v → (∀ s ∈ spans 0 ls, ¬ (s.start ≤ u.byteSize ∧ u.byteSize < s.stop)) →
    isBlank c = true
  /-- Behind a quote that is a token of its own stands no other quote. -/
  unclosed : ∀ p ∈ located 0 ls, p.2 = .mark '"' → ∃ rest, t.dropBytes? p.1.stop = some rest ∧ '"' ∉ rest
  /-- What stands between two quotes contains none. -/
  closed : ∀ q, .quoted q ∈ tokens ls → '"' ∉ q

theorem ReadIn.of_mem {ls : List Lexeme} {rest : Text} (reads : ReadIn ls rest) :
    ∀ l ∈ ls, (∀ c ∈ l.gap, isBlank c = true) ∧ ∃ back, l.token.Reads back := by
  intro l hl
  obtain ⟨before, after, rfl⟩ := List.append_of_mem hl
  obtain ⟨gap, token, -⟩ := readIn_cons.1 (readIn_append.1 reads).2
  exact ⟨gap, _, token⟩

/-- The tokens of a text make it up. -/
theorem covers_ofText (t : Text) : Covers t (ofText t) := by
  obtain ⟨trail, blank, whole, reads⟩ := readIn_ofText t
  -- Every token with its place splits the text into what is in front, the token and what is behind.
  have at_ {p : Span × Token} (hp : p ∈ located 0 (ofText t)) :
      ∃ front back, t = front ++ (p.2.text ++ back) ∧ p.2.Reads back ∧
        p.1 = ⟨front.byteSize, front.byteSize + p.2.text.byteSize⟩ := by
    obtain ⟨before, l, after, hls, token, place⟩ := exists_of_mem_located p hp
    rw [hls, readIn_append, readIn_cons] at reads
    refine ⟨source before ++ l.gap, source after ++ trail, ?_, ?_, ?_⟩
    · rw [token, ← whole, hls]
      simp
    · rw [token]
      exact reads.2.2.1
    · rw [place, token, Nat.zero_add]
  have fst := map_fst_located 0 (ofText t)
  refine ⟨⟨trail, whole.symm, blank, fun l hl => (reads.of_mem l hl).1⟩, ⟨fst, List.map_snd_zip (by simp [tokens])⟩, ?_, ?_,
    (pairwise_spans 0 _).2, ?_, ?_, ?_⟩
  · intro p hp
    obtain ⟨front, back, ht, -, place⟩ := at_ hp
    rw [place, ht]
    exact Text.slice?_append _ _ _
  · intro s hs
    rw [← fst] at hs
    obtain ⟨p, hp, rfl⟩ := List.mem_map.1 hs
    obtain ⟨front, back, ht, reads, place⟩ := at_ hp
    have pos := reads.byteSize_pos
    rw [place, ht]
    simp only [Text.byteSize_append]
    omega
  · intro u c v ht outside
    refine isBlank_of_not_covered reads blank 0 (whole.trans ht) fun s hs => ?_
    rw [Nat.zero_add]
    exact outside s hs
  · intro p hp mark
    obtain ⟨front, back, ht, reads, place⟩ := at_ hp
    rw [mark] at reads
    refine ⟨back, ?_, Token.reads_quote_iff.1 reads⟩
    rw [place, ht, ← List.append_assoc, ← Text.byteSize_append]
    exact Text.dropBytes?_append _ _
  · intro q hq
    obtain ⟨l, hl, token⟩ := List.mem_map.1 hq
    obtain ⟨-, back, reads⟩ := reads.of_mem l hl
    rw [token] at reads
    exact Token.reads_quoted_iff.1 reads

/-- A text that is not blank is read as tokens, and they make it up. -/
theorem ofText?_covers {t : Text} (notBlank : ∃ c ∈ t, isBlank c = false) :
    ∃ ls, ofText? t = some ls ∧ Covers t ls := by
  obtain ⟨c, hc, notBlank⟩ := notBlank
  have some_blank : t.all isBlank = false := by
    rw [List.all_eq_false]
    exact ⟨c, hc, by simp [notBlank]⟩
  exact ⟨ofText t, by simp [ofText?, some_blank], covers_ofText t⟩

/-- A zero in front of digits, a no-break space, a letter with a combining mark, a point without digits, a number that
is no digit and a quote without its partner. -/
def rareTokens : Text := "007 \"é x\"\u00a0A\u0301 15. ½ \"b ".toList

theorem ofText?_covers_rareTokens :
    (∃ c ∈ rareTokens, isBlank c = false) ∧ ∃ ls, ofText? rareTokens = some ls ∧ Covers rareTokens ls := by
  have notBlank : ∃ c ∈ rareTokens, isBlank c = false := ⟨'0', by decide +kernel, by decide⟩
  exact ⟨notBlank, ofText?_covers notBlank⟩

end Lexeme

end BusinessClass
