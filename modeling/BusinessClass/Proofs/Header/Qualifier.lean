import BusinessClass.Header.Basic
import BusinessClass.Proofs.Header.Token

/-!
# What spells qualifiers

Without further phrases, a list of tokens is a list of qualifiers when it falls into pieces that each
spell one. The first token of a piece starts no other place of a piece, so the pieces are where they
are whatever stands in front.

* `Qualifier.Spells` says which tokens spell a qualifier; `first?_eq_some_iff` and `all?_eq_some_iff`
  are the readers in these terms.
* `all?_append` and `all?_of_append`: qualifiers in front of qualifiers are read by themselves.
* `Qualifier.IsPhrase` is a qualifier with the lexemes that spell it; `line?_of_isPhrase`: written on a
  line of its own it is read as that line.
-/

namespace BusinessClass

namespace Qualifier

/-- The tokens spell the qualifier. -/
inductive Spells : List Token → Text → Prop
  | size (n : Text) : Spells [.word "size".toList, .number n] ("size ".toList ++ n)
  | label (s : Text) :
    Spells [.word "default".toList, .word "label".toList, .word "is".toList, .quoted s]
      ("default label is ".toList ++ (Token.quoted s).text)
  | flag {w : Text} (mem : w ∈ flags) : Spells [.word w] w
  | pair {a b : Text} (mem : (a, b) ∈ pairs) : Spells [.word a, .word b] (Text.unwords [a, b])

theorem Spells.eq_unwords {g : List Token} {q : Text} (h : Spells g q) :
    q = Text.unwords (g.map Token.text) := by
  cases h <;> simp [Text.unwords, List.intercalate, Token.text]

/-- Whether the token starts a qualifier. -/
def opens : Token → Bool
  | .word w => (["size".toList, "default".toList, "holds".toList, "delete".toList] ++ flags).contains w
  | _ => false

/-- The first token of a qualifier starts it, and no other one starts a qualifier. -/
theorem Spells.eq_cons {g : List Token} {q : Text} (h : Spells g q) :
    ∃ t ts, g = t :: ts ∧ opens t = true ∧ ∀ u ∈ ts, opens u = false := by
  cases h with
  | size n => exact ⟨_, _, rfl, by decide, by simp [opens]⟩
  | label s =>
    refine ⟨_, _, rfl, by decide, ?_⟩
    simp only [List.mem_cons, List.not_mem_nil, or_false, forall_eq_or_imp, forall_eq]
    exact ⟨by decide, by decide, rfl⟩
  | flag mem => exact ⟨_, [], rfl, by simp [opens, mem], by simp⟩
  | pair mem =>
    simp only [pairs, List.mem_cons, Prod.mk.injEq, List.not_mem_nil, or_false] at mem
    rcases mem with ⟨rfl, rfl⟩ | ⟨rfl, rfl⟩ <;> exact ⟨_, _, rfl, by decide, by decide⟩

/-- The number of tokens of the qualifier that the token starts. -/
def lengthFrom : Token → Nat
  | .word w => if w = "default".toList then 4 else if flags.contains w then 1 else 2
  | _ => 0

theorem Spells.length_eq {t : Token} {ts : List Token} {q : Text} (h : Spells (t :: ts) q) :
    (t :: ts).length = lengthFrom t := by
  cases h with
  | size n => rfl
  | label s => rfl
  | flag mem =>
    simp only [flags, List.mem_cons, List.not_mem_nil, or_false] at mem
    rcases mem with rfl | rfl | rfl | rfl <;> rfl
  | pair mem =>
    simp only [pairs, List.mem_cons, Prod.mk.injEq, List.not_mem_nil, or_false] at mem
    rcases mem with ⟨rfl, rfl⟩ | ⟨rfl, rfl⟩ <;> rfl

/-- No qualifier begins another, longer one. -/
theorem Spells.eq_of_prefix {g h : List Token} {q r : Text} (hg : Spells g q) (hh : Spells h r) (pre : g <+: h) :
    g = h := by
  obtain ⟨t, ts, rfl, -⟩ := hg.eq_cons
  obtain ⟨u, us, rfl, -⟩ := hh.eq_cons
  obtain ⟨rfl, -⟩ := List.cons_prefix_cons.1 pre
  exact pre.eq_of_length (by rw [hg.length_eq, hh.length_eq])

/-! ### The readers -/

theorem size?_eq_some_iff {ts rest : List Token} {q : Text} :
    size? ts = some (q, rest) ↔
      ∃ n, ts = .word "size".toList :: .number n :: rest ∧ q = "size ".toList ++ n := by
  constructor
  · intro h
    unfold size? at h
    split at h
    · split at h
      · rename_i hw
        cases h
        exact ⟨_, by rw [hw], rfl⟩
      · cases h
    · cases h
  · rintro ⟨n, rfl, rfl⟩
    rfl

theorem label?_eq_some_iff {ts rest : List Token} {q : Text} :
    label? ts = some (q, rest) ↔
      ∃ s, ts = .word "default".toList :: .word "label".toList :: .word "is".toList :: .quoted s :: rest ∧
        q = "default label is ".toList ++ (Token.quoted s).text := by
  constructor
  · intro h
    unfold label? at h
    split at h
    · split at h
      · rename_i hw
        cases h
        exact ⟨_, by rw [hw.1, hw.2.1, hw.2.2], rfl⟩
      · cases h
    · cases h
  · rintro ⟨s, rfl, rfl⟩
    rfl

theorem flag?_eq_some_iff {ts rest : List Token} {q : Text} :
    flag? ts = some (q, rest) ↔ q ∈ flags ∧ ts = .word q :: rest := by
  constructor
  · intro h
    unfold flag? at h
    split at h
    · split at h
      · rename_i hw
        cases h
        exact ⟨hw, rfl⟩
      · cases h
    · cases h
  · rintro ⟨mem, rfl⟩
    simp [flag?, mem]

theorem pair?_eq_some_iff {ts rest : List Token} {q : Text} :
    pair? ts = some (q, rest) ↔
      ∃ a b, (a, b) ∈ pairs ∧ ts = .word a :: .word b :: rest ∧ q = Text.unwords [a, b] := by
  constructor
  · intro h
    unfold pair? at h
    split at h
    · split at h
      · rename_i hw
        cases h
        exact ⟨_, _, hw, rfl, rfl⟩
      · cases h
    · cases h
  · rintro ⟨a, b, mem, rfl, rfl⟩
    simp [pair?, mem]

/-- Between them, the readers read what spells a qualifier. -/
theorem exists_reader_iff {ts rest : List Token} {q : Text} :
    (∃ reader ∈ readers [], reader ts = some (q, rest)) ↔ ∃ g, Spells g q ∧ ts = g ++ rest := by
  simp only [readers, List.map_nil, List.append_nil, List.mem_cons, List.not_mem_nil, or_false, exists_eq_or_imp,
    exists_eq_left, size?_eq_some_iff, label?_eq_some_iff, flag?_eq_some_iff, pair?_eq_some_iff]
  constructor
  · rintro (⟨n, rfl, rfl⟩ | ⟨s, rfl, rfl⟩ | ⟨mem, rfl⟩ | ⟨a, b, mem, rfl, rfl⟩)
    · exact ⟨_, .size n, rfl⟩
    · exact ⟨_, .label s, rfl⟩
    · exact ⟨_, .flag mem, rfl⟩
    · exact ⟨_, .pair mem, rfl⟩
  · rintro ⟨g, spells, rfl⟩
    cases spells with
    | size n => exact .inl ⟨n, rfl, rfl⟩
    | label s => exact .inr (.inl ⟨s, rfl, rfl⟩)
    | flag mem => exact .inr (.inr (.inl ⟨mem, rfl⟩))
    | pair mem => exact .inr (.inr (.inr ⟨_, _, mem, rfl, rfl⟩))

/-- No qualifier begins another, so the order in which the readers are tried does not matter. -/
theorem first?_eq_some_iff {ts rest : List Token} {q : Text} :
    first? [] ts = some (q, rest) ↔ ∃ g, Spells g q ∧ ts = g ++ rest := by
  rw [← exists_reader_iff]
  refine ⟨List.exists_of_findSome?_eq_some, fun ⟨reader, mem, read⟩ => ?_⟩
  cases taken : first? [] ts with
  | none =>
    rw [List.findSome?_eq_none_iff.1 taken reader mem] at read
    cases read
  | some r =>
    -- whichever reader came first, it read the same tokens
    obtain ⟨g, spells, rfl⟩ := exists_reader_iff.1 ⟨reader, mem, read⟩
    obtain ⟨h, spells', front⟩ := exists_reader_iff.1 (List.exists_of_findSome?_eq_some taken)
    have same : g = h := by
      rcases List.prefix_or_prefix_of_prefix (List.prefix_append g rest) ⟨r.2, front.symm⟩ with pre | pre
      · exact spells.eq_of_prefix spells' pre
      · exact (spells'.eq_of_prefix spells pre).symm
    subst same
    rw [spells.eq_unwords, ← spells'.eq_unwords, List.append_cancel_left front]

/-- The tokens spell the qualifiers one after the other. -/
inductive SpellsAll : List Token → List Text → Prop
  | nil : SpellsAll [] []
  | cons {g ts : List Token} {q : Text} {qs : List Text} (first : Spells g q) (rest : SpellsAll ts qs) :
    SpellsAll (g ++ ts) (q :: qs)

theorem SpellsAll.append {ts us : List Token} {ps qs : List Text} (hp : SpellsAll ts ps)
    (hq : SpellsAll us qs) : SpellsAll (ts ++ us) (ps ++ qs) := by
  induction hp with
  | nil => exact hq
  | cons first _ ih =>
    rw [List.append_assoc]
    exact .cons first ih

theorem all?_eq_some_nil {extra : List Phrase} {ts : List Token} : all? extra ts = some [] ↔ ts = [] := by
  cases ts with
  | nil => simp
  | cons t ts => simp [all?_cons, Option.bind_eq_some_iff]

/-- Qualifiers are read one by one. -/
theorem all?_eq_some_cons {extra : List Phrase} {ts : List Token} {q : Text} {qs : List Text} :
    all? extra ts = some (q :: qs) ↔ ∃ rest, first? extra ts = some (q, rest) ∧ all? extra rest = some qs := by
  cases ts with
  | nil =>
    refine ⟨fun h => by simp at h, fun ⟨rest, taken, _⟩ => ?_⟩
    exact absurd (length_first?_lt taken) (Nat.not_lt_zero _)
  | cons t ts =>
    rw [all?_cons, Option.bind_eq_some_iff]
    constructor
    · rintro ⟨⟨q', rest⟩, taken, read⟩
      obtain ⟨qs', more, hq⟩ := Option.map_eq_some_iff.1 read
      obtain ⟨rfl, rfl⟩ := List.cons.inj hq
      exact ⟨rest, taken, more⟩
    · rintro ⟨rest, taken, more⟩
      exact ⟨(q, rest), taken, by rw [more]; rfl⟩

theorem all?_eq_some_iff {ts : List Token} {qs : List Text} :
    all? [] ts = some qs ↔ SpellsAll ts qs := by
  constructor
  · intro h
    induction qs generalizing ts with
    | nil =>
      rw [all?_eq_some_nil.1 h]
      exact .nil
    | cons q qs ih =>
      obtain ⟨rest, taken, more⟩ := all?_eq_some_cons.1 h
      obtain ⟨g, spells, rfl⟩ := first?_eq_some_iff.1 taken
      exact .cons spells (ih more)
  · intro h
    induction h with
    | nil => exact all?_nil []
    | cons first rest ih => exact all?_eq_some_cons.2 ⟨_, first?_eq_some_iff.2 ⟨_, first, rfl⟩, ih⟩

/-- Qualifiers behind qualifiers are read as both. -/
theorem all?_append {ts us : List Token} {ps qs : List Text} (hp : all? [] ts = some ps)
    (hq : all? [] us = some qs) : all? [] (ts ++ us) = some (ps ++ qs) := by
  rw [all?_eq_some_iff] at *
  exact hp.append hq

/-- What stands in front of qualifiers in a list of qualifiers is one by itself: no qualifier goes on
where another begins. -/
theorem SpellsAll.of_append {ts us : List Token} {ps qs : List Text} (hp : SpellsAll (ts ++ us) ps)
    (hq : SpellsAll us qs) : ∃ ps', SpellsAll ts ps' := by
  generalize hw : ts ++ us = ws at hp
  induction hp generalizing ts with
  | nil =>
    obtain ⟨rfl, -⟩ := List.append_eq_nil_iff.1 hw
    exact ⟨[], .nil⟩
  | @cons g ws p ps first rest ih =>
    rcases List.append_eq_append_iff.1 hw with ⟨as, rfl, hus⟩ | ⟨bs, rfl, hws⟩
    · -- the piece `g` starts in `ts` and ends with it or in `us`
      cases ts with
      | nil => exact ⟨[], .nil⟩
      | cons t ts =>
        cases as with
        | nil => exact ⟨[p], by simpa using SpellsAll.cons first .nil⟩
        | cons a as =>
          obtain ⟨t', g', hg, -, inner⟩ := first.eq_cons
          obtain ⟨-, rfl⟩ := List.cons.inj hg
          have inside : opens a = false := inner a (by simp)
          cases hq with
          | nil => cases hus
          | cons first' _ =>
            obtain ⟨b, g'', rfl, outer, -⟩ := first'.eq_cons
            obtain ⟨rfl, -⟩ := List.cons.inj hus
            rw [outer] at inside
            cases inside
    · obtain ⟨ps', h⟩ := ih hws.symm
      exact ⟨p :: ps', .cons first h⟩

theorem all?_of_append {ts us : List Token} {ps qs : List Text} (hp : all? [] (ts ++ us) = some ps)
    (hq : all? [] us = some qs) : ∃ ps', all? [] ts = some ps' := by
  obtain ⟨ps', h⟩ := (all?_eq_some_iff.1 hp).of_append (all?_eq_some_iff.1 hq)
  exact ⟨ps', all?_eq_some_iff.2 h⟩

/-! ### Qualifiers as texts -/

/-- A qualifier together with lexemes that spell it. -/
def IsPhrase (q : Text) : Prop :=
  ∃ ls, Lexeme.Whole ls ∧ Spells (Lexeme.tokens ls) q ∧ Lexeme.verbatim ls = q

theorem SpellsAll.not_mark_mem {ts : List Token} {qs : List Text} (h : SpellsAll ts qs) (c : Char) :
    Token.mark c ∉ ts := by
  induction h with
  | nil => simp
  | cons first _ ih =>
    rw [List.mem_append, not_or]
    refine ⟨?_, ih⟩
    cases first <;> simp

/-- Qualifiers that are read off tokens can be written by themselves. -/
theorem SpellsAll.isPhrase {ts : List Token} {qs : List Text} (h : SpellsAll ts qs)
    (whole : ∀ t ∈ ts, Lexeme.Whole [⟨[], t⟩]) : ∀ q ∈ qs, IsPhrase q := by
  induction h with
  | nil => simp
  | @cons g ts q qs first _ ih =>
    have pieces : ∀ t ∈ g, Lexeme.Whole [⟨[], t⟩] := fun t ht => whole t (List.mem_append_left _ ht)
    intro p hp
    rcases List.mem_cons.1 hp with rfl | hp
    · refine ⟨Lexeme.ofTokens g, Lexeme.whole_ofTokens pieces ?_, ?_, ?_⟩
      · obtain ⟨t, g, rfl, -⟩ := first.eq_cons
        simp
      · rwa [Lexeme.tokens_ofTokens]
      · rw [Lexeme.verbatim_ofTokens fun t ht => (pieces t ht).toComplete, ← first.eq_unwords]
    · exact ih (fun t ht => whole t (List.mem_append_right _ ht)) p hp

theorem IsPhrase.isContent {q : Text} (h : IsPhrase q) : q.IsContent := by
  obtain ⟨ls, whole, spells, hq⟩ := h
  have no_comment : "//".toList.isPrefixOf q = false := by
    generalize Lexeme.tokens ls = g at spells
    cases spells with
    | size n => rfl
    | label s => rfl
    | flag mem =>
      simp only [flags, List.mem_cons, List.not_mem_nil, or_false] at mem
      rcases mem with h | h | h | h <;> rw [h] <;> rfl
    | pair mem =>
      simp only [pairs, List.mem_cons, Prod.mk.injEq, List.not_mem_nil, or_false] at mem
      rcases mem with ⟨rfl, rfl⟩ | ⟨rfl, rfl⟩ <;> rfl
  rw [← hq] at no_comment ⊢
  exact whole.isContent no_comment

/-- A qualifier on a line of its own is read as that line. -/
theorem line?_of_isPhrase {q : Text} (h : IsPhrase q) : line? [] q = some [q] := by
  obtain ⟨ls, whole, spells, rfl⟩ := h
  have ne := whole.ne_nil
  have all : all? [] (Lexeme.tokens ls) = some [Lexeme.verbatim ls] := by
    rw [all?_eq_some_iff]
    simpa using SpellsAll.cons spells .nil
  rw [line?, whole.toComplete.ofText_verbatim]
  cases ls with
  | nil => exact absurd rfl ne
  | cons l ls => exact all

/-- Qualifiers one after the other have lexemes that spell them in this order. -/
theorem exists_lexemes {qs : List Text} (h : ∀ q ∈ qs, IsPhrase q) :
    ∃ lss : List (List Lexeme), (∀ ls ∈ lss, Lexeme.Whole ls) ∧ lss.map Lexeme.verbatim = qs ∧
      SpellsAll (lss.flatMap Lexeme.tokens) qs := by
  induction qs with
  | nil => exact ⟨[], by simp, rfl, .nil⟩
  | cons q qs ih =>
    obtain ⟨ls, whole, spells, hq⟩ := h q List.mem_cons_self
    obtain ⟨lss, wholes, hqs, more⟩ := ih fun p hp => h p (List.mem_cons_of_mem q hp)
    refine ⟨ls :: lss, ?_, by rw [List.map_cons, hq, hqs], ?_⟩
    · simpa using ⟨whole, wholes⟩
    · rw [List.flatMap_cons]
      exact .cons spells more

/-- The qualifiers of a line can be written by themselves. -/
theorem isPhrase_of_line? {t : Text} {qs : List Text} (h : line? [] t = some qs) (feed : '\n' ∉ t)
    (ret : '\r' ∉ t) : ∀ q ∈ qs, IsPhrase q := by
  unfold line? at h
  split at h
  · cases h
  · rename_i ls ne
    have spells := all?_eq_some_iff.1 h
    have whole : Lexeme.Whole (Lexeme.ofText t) :=
      Lexeme.whole_of_ofText List.infix_rfl ne (spells.not_mark_mem '"') feed ret
    exact spells.isPhrase whole.token

end Qualifier

end BusinessClass
