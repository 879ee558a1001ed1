import BusinessClass.Header.Token

/-!
# Qualifiers

A qualifier is a short phrase that ends a header or stands on a line of its own below it: `size`
with a number, `default label is` with a quoted string, a flag word, one of two fixed pairs, or one
of the further phrases that the options give. Each is kept with single spaces.

* `Qualifier.first?` reads one qualifier at the front of a token list.
* `Qualifier.all?` reads a token list that consists of qualifiers.
-/

namespace BusinessClass

/-- A phrase of at least one word. -/
structure Phrase where
  /-- The first word. -/
  head : Text
  /-- The other words. -/
  tail : List Text
deriving DecidableEq, Repr

namespace Phrase

/-- The words of the phrase. -/
def words (p : Phrase) : List Text := p.head :: p.tail

/-- The phrase with single spaces. -/
def text (p : Phrase) : Text := Text.unwords p.words

/-- The phrase that a text spells, if it has a word. -/
def ofText? (t : Text) : Option Phrase :=
  match t.words with
  | [] => none
  | w :: ws => some ⟨w, ws⟩

end Phrase

namespace Qualifier

/-- The qualifiers of one word. -/
def flags : List Text :=
  ["restricted".toList, "required".toList, "translatable".toList, "background".toList]

/-- The qualifiers of two words. -/
def pairs : List (Text × Text) :=
  [("holds".toList, "pii".toList), ("delete".toList, "ignored".toList)]

/-- Reads `size` and a number. -/
def size? : List Token → Option (Text × List Token)
  | .word w :: .number n :: rest =>
    if w = "size".toList then some ("size ".toList ++ n, rest) else none
  | _ => none

/-- Reads `default label is` and a quoted string. -/
def label? : List Token → Option (Text × List Token)
  | .word a :: .word b :: .word c :: .quoted s :: rest =>
    if a = "default".toList ∧ b = "label".toList ∧ c = "is".toList then
      some ("default label is ".toList ++ (Token.quoted s).text, rest)
    else none
  | _ => none

/-- Reads a flag word. -/
def flag? : List Token → Option (Text × List Token)
  | .word w :: rest => if w ∈ flags then some (w, rest) else none
  | _ => none

/-- Reads a fixed pair of words. -/
def pair? : List Token → Option (Text × List Token)
  | .word a :: .word b :: rest =>
    if (a, b) ∈ pairs then some (Text.unwords [a, b], rest) else none
  | _ => none

/-- Reads one phrase word by word, whatever kind of token spells a word. -/
def phrase? (p : Phrase) (ts : List Token) : Option (Text × List Token) :=
  if p.words.isPrefixOf (ts.map Token.text) then some (p.text, ts.drop p.words.length) else none

/-- The readers of one qualifier in the order in which they are tried: the fixed qualifiers before
the further phrases, and those in the order given. -/
def readers (extra : List Phrase) : List (List Token → Option (Text × List Token)) :=
  [size?, label?, flag?, pair?] ++ extra.map phrase?

/-- Reads one qualifier: its text with single spaces, and the tokens behind it. -/
def first? (extra : List Phrase) (ts : List Token) : Option (Text × List Token) :=
  (readers extra).findSome? fun reader => reader ts

/-- Every reader takes at least one token. -/
theorem length_reader_lt {extra : List Phrase} {reader : List Token → Option (Text × List Token)}
    (mem : reader ∈ readers extra) {ts rest : List Token} {q : Text}
    (h : reader ts = some (q, rest)) : rest.length < ts.length := by
  simp only [readers, List.cons_append, List.nil_append, List.mem_cons, List.mem_map] at mem
  have taken {c : Prop} [Decidable c] {x : Text} {tail : List Token}
      (h : (if c then some (x, tail) else none) = some (q, rest)) : rest = tail := by
    simp only [Option.ite_none_right_eq_some, Option.some.injEq, Prod.mk.injEq] at h
    exact h.2.2.symm
  rcases mem with rfl | rfl | rfl | rfl | ⟨p, -, rfl⟩
  · unfold size? at h
    split at h
    · rw [taken h]; simp only [List.length_cons]; omega
    · cases h
  · unfold label? at h
    split at h
    · rw [taken h]; simp only [List.length_cons]; omega
    · cases h
  · unfold flag? at h
    split at h
    · rw [taken h]; simp only [List.length_cons]; omega
    · cases h
  · unfold pair? at h
    split at h
    · rw [taken h]; simp only [List.length_cons]; omega
    · cases h
  · unfold phrase? at h
    rw [taken h]
    cases ts with
    | nil => simp [Phrase.words] at h
    | cons t ts => simp only [Phrase.words, List.length_cons, List.length_drop]; omega

theorem length_first?_lt {extra : List Phrase} {ts rest : List Token} {q : Text}
    (h : first? extra ts = some (q, rest)) : rest.length < ts.length := by
  obtain ⟨reader, mem, hr⟩ := List.exists_of_findSome?_eq_some h
  exact length_reader_lt mem hr

/-- The qualifiers that a token list consists of. Each is read as far as it goes, and the list is
refused as soon as no qualifier stands at the front. -/
def all? (extra : List Phrase) (ts : List Token) : Option (List Text) :=
  if ts.isEmpty then some []
  else match _h : first? extra ts with
    | none => none
    | some (q, rest) => (all? extra rest).map (q :: ·)
termination_by ts.length
decreasing_by exact length_first?_lt _h

@[simp] theorem all?_nil (extra : List Phrase) : all? extra [] = some [] := by
  rw [all?]; simp

/-- A list of qualifiers is a qualifier and a list of qualifiers. -/
theorem all?_cons (extra : List Phrase) (t : Token) (ts : List Token) :
    all? extra (t :: ts) =
      (first? extra (t :: ts)).bind fun r => (all? extra r.2).map (r.1 :: ·) := by
  rw [all?]
  simp only [List.isEmpty_cons, Bool.false_eq_true, if_false]
  split <;> simp_all

end Qualifier

end BusinessClass
