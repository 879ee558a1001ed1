import BusinessClass.Header.Basic
import BusinessClass.Proofs.Header.Lossless
import BusinessClass.Proofs.Header.Splitting
import BusinessClass.Proofs.Text.Checked
import Mathlib.Data.List.Basic

/-!
# Headers read by positions

A header can be read by positions in the list of its tokens: the name, `is` and the article are cut off, the list is
parted behind every token in turn, each qualifier takes the tokens it counts, and the type is cut out of the line from
where its first token starts to where its last one stops. Each of these cuts is inside the list or the line and
between characters. So reading by positions never fails.

* `Checked.counted` lists the readers of qualifiers with the number of tokens that each takes;
  `exists_of_mem_counted`: there are so many.
* `Checked.qualifierRun_eq`: qualifiers are cut off as far as there are tokens.
* `Checked.typeFrom_eq`: wherever the list is parted, the type stands in the line.
* `Checked.recognize_eq`, `headerOfText_eq` and `qualifierLine_eq`: a header and a line of qualifiers are read as
  without operations that fail.
-/

namespace BusinessClass

namespace Checked

open Qualifier (size? label? flag? pair? phrase? first? all? readers)

/-! ### Qualifiers -/

variable {extra : List Phrase} {ts : List Token}

/-- The readers of one qualifier, each with the number of tokens that it takes. -/
def counted (extra : List Phrase) : List (Nat × (List Token → Option (Text × List Token))) :=
  [(2, size?), (4, label?), (1, flag?), (2, pair?)] ++ extra.map fun p => (p.words.length, phrase? p)

/-- The number of tokens that the first qualifier takes, and its text. -/
def qualifierAt (extra : List Phrase) (ts : List Token) : Option (Nat × Text) :=
  (counted extra).findSome? fun c => (c.2 ts).map fun r => (c.1, r.1)

theorem map_snd_counted (extra : List Phrase) : (counted extra).map Prod.snd = readers extra := by
  simp [counted, readers, Function.comp_def]

/-- A reader takes as many tokens as it counts. -/
theorem exists_of_mem_counted {c : Nat × (List Token → Option (Text × List Token))} (mem : c ∈ counted extra)
    {q : Text} {rest : List Token} (read : c.2 ts = some (q, rest)) :
    ∃ taken, ts = taken ++ rest ∧ taken.length = c.1 ∧ 0 < c.1 := by
  simp only [counted, List.cons_append, List.nil_append, List.mem_cons, List.mem_map] at mem
  rcases mem with rfl | rfl | rfl | rfl | ⟨p, -, rfl⟩
  · obtain ⟨n, rfl, -⟩ := Qualifier.size?_eq_some_iff.1 read
    exact ⟨[_, _], rfl, rfl, Nat.succ_pos _⟩
  · obtain ⟨s, rfl, -⟩ := Qualifier.label?_eq_some_iff.1 read
    exact ⟨[_, _, _, _], rfl, rfl, Nat.succ_pos _⟩
  · obtain ⟨-, rfl⟩ := Qualifier.flag?_eq_some_iff.1 read
    exact ⟨[_], rfl, rfl, Nat.succ_pos _⟩
  · obtain ⟨a, b, -, rfl, -⟩ := Qualifier.pair?_eq_some_iff.1 read
    exact ⟨[_, _], rfl, rfl, Nat.succ_pos _⟩
  · obtain ⟨g, words, rfl, -⟩ := Qualifier.phrase?_eq_some_iff.1 read
    exact ⟨g, rfl, by rw [← words, List.length_map], Nat.succ_pos _⟩

/-- The tokens that the first qualifier takes are there. -/
theorem qualifierAt_le {len : Nat} {q : Text} (read : qualifierAt extra ts = some (len, q)) :
    0 < len ∧ len ≤ ts.length := by
  obtain ⟨c, mem, found⟩ := List.exists_of_findSome?_eq_some read
  obtain ⟨⟨q', rest⟩, taken, eq⟩ := Option.map_eq_some_iff.1 found
  obtain ⟨rfl, -⟩ := Prod.mk.inj eq
  obtain ⟨front, rfl, size, pos⟩ := exists_of_mem_counted mem taken
  exact ⟨pos, by rw [← size, List.length_append]; exact Nat.le_add_right _ _⟩

/-- To cut off what the first qualifier takes is to read it. -/
theorem first?_eq_map_qualifierAt (extra : List Phrase) (ts : List Token) :
    first? extra ts = (qualifierAt extra ts).map fun r => (r.2, ts.drop r.1) := by
  have same : ∀ c ∈ counted extra, c.2 ts = ((c.2 ts).map fun r => (c.1, r.1)).map fun r => (r.2, ts.drop r.1) := by
    intro c mem
    cases read : c.2 ts with
    | none => rfl
    | some r =>
      obtain ⟨front, rfl, size, -⟩ := exists_of_mem_counted mem (show c.2 ts = some (r.1, r.2) from read)
      rw [Option.map_some, Option.map_some, ← size, List.drop_left]
  rw [first?, qualifierAt, List.map_findSome?, ← map_snd_counted, List.findSome?_map, ← List.head?_filterMap,
    ← List.head?_filterMap]
  exact congrArg List.head? (List.filterMap_congr same)

theorem length_lt_of_dropFirst? {len : Nat} {rest : List Token} (pos : 0 < len) (cut : dropFirst? len ts = some rest) :
    rest.length < ts.length := by
  rw [dropFirst?, Option.ite_none_right_eq_some] at cut
  obtain ⟨fits, eq⟩ := cut
  rw [← Option.some.inj eq, List.length_drop]
  omega

/-- The qualifiers that a token list consists of, cut off one after the other. -/
def qualifierRun (extra : List Phrase) (ts : List Token) : Option (Option (List Text)) :=
  if ts.isEmpty then some (some [])
  else match _read : qualifierAt extra ts with
    | none => some none
    | some (len, q) =>
      match _cut : dropFirst? len ts with
      | none => none
      | some rest => (qualifierRun extra rest).map (Option.map (q :: ·))
termination_by ts.length
decreasing_by exact length_lt_of_dropFirst? (qualifierAt_le _read).1 _cut

/-- The tokens of every qualifier are there to be cut off. -/
theorem qualifierRun_eq (extra : List Phrase) (ts : List Token) : qualifierRun extra ts = some (all? extra ts) := by
  fun_induction qualifierRun extra ts with
  | case1 ts empty =>
    rw [List.isEmpty_iff] at empty
    rw [empty, Qualifier.all?_nil]
  | case2 ts some_ none =>
    obtain ⟨t, ts, rfl⟩ := List.exists_cons_of_ne_nil (mt List.isEmpty_iff.2 some_)
    rw [Qualifier.all?_cons, first?_eq_map_qualifierAt, none]
    rfl
  | case3 ts _ len q read cut =>
    rw [dropFirst?_of_le (qualifierAt_le read).2] at cut
    cases cut
  | case4 ts some_ len q read rest cut ih =>
    obtain ⟨t, ts, rfl⟩ := List.exists_cons_of_ne_nil (mt List.isEmpty_iff.2 some_)
    rw [dropFirst?_of_le (qualifierAt_le read).2] at cut
    obtain rfl := Option.some.inj cut
    rw [ih, Qualifier.all?_cons, first?_eq_map_qualifierAt, read]
    rfl

/-- The qualifiers of a line that holds at least one and nothing else. -/
def qualifierLine (extra : List Phrase) (text : Text) : Option (Option (List Text)) :=
  let ts := Lexeme.tokens (Lexeme.ofText text)
  if ts.isEmpty then some none else qualifierRun extra ts

theorem qualifierLine_eq (extra : List Phrase) (text : Text) :
    qualifierLine extra text = some (Qualifier.line? extra text) := by
  rw [qualifierLine, Qualifier.line?]
  cases Lexeme.ofText text with
  | nil => rfl
  | cons l ls => exact qualifierRun_eq extra _

/-! ### Parting the tokens behind the type -/

/-- The article at the front of a list of tokens. -/
def article (ps : List (Span × Token)) : Option Article :=
  match ps.head? with
  | some (_, tok) =>
    if tok = .word "a".toList then some .a else if tok = .word "an".toList then some .an else none
  | none => none

/-- The type and the qualifiers in `rest`: the list is parted behind `split` tokens, then behind one more, until only
qualifiers follow, and so many times at most. -/
def typeFrom (extra : List Phrase) (text : Text) (rest : List (Span × Token)) :
    Nat → Nat → Option (Option (Text × List Text))
  | 0, _ => some none
  | times + 1, split => do
    let behind ← dropFirst? split rest
    match ← qualifierRun extra (behind.map Prod.snd) with
    | none => typeFrom extra text rest times (split + 1)
    | some qualifiers => do
      let first ← rest[0]?
      let last ← rest[← sub? split 1]?
      let typeName ← text.slice? ⟨first.1.start, last.1.stop⟩
      some (some (typeName, qualifiers))

section Located

open Lexeme (located source spans tokens verbatim)

theorem length_located (offset : Nat) (ls : List Lexeme) : (located offset ls).length = ls.length := by
  simp [located, tokens]

theorem map_snd_located (offset : Nat) (ls : List Lexeme) : (located offset ls).map Prod.snd = tokens ls :=
  List.map_snd_zip (by simp [tokens])

theorem located_append (offset : Nat) (ls ms : List Lexeme) :
    located offset (ls ++ ms) = located offset ls ++ located (offset + (source ls).byteSize) ms := by
  rw [located, Lexeme.spans_append, tokens, List.map_append]
  exact List.zip_append (by simp)

/-- The place of a token among those of all tokens of a line is its place among those behind some of them. -/
theorem exists_getElem?_located {before ls : List Lexeme} {i : Nat} {s : Span}
    (place : (spans 0 (before ++ ls))[before.length + i]? = some s) :
    ∃ p, (located (source before).byteSize ls)[i]? = some p ∧ p.1 = s := by
  rw [Lexeme.spans_append, List.getElem?_append_right (by simp), Lexeme.length_spans, Nat.add_sub_cancel_left,
    Nat.zero_add, ← Lexeme.map_fst_located, List.getElem?_map] at place
  exact Option.map_eq_some_iff.1 place

variable {text trail : Text} {before back : List Lexeme} {l : Lexeme}

/-- The type stands in the line from where its first token starts to where its last one stops. -/
theorem exists_slice (front : List Lexeme) (whole : text = source (before ++ (l :: front ++ back)) ++ trail) :
    ∃ first last, (located (source before).byteSize (l :: front ++ back))[0]? = some first ∧
      (located (source before).byteSize (l :: front ++ back))[front.length]? = some last ∧
      text.slice? ⟨first.1.start, last.1.stop⟩ = some (verbatim (l :: front)) := by
  obtain ⟨r, s, start, stop, slice⟩ := Lexeme.slice?_verbatim before (List.cons_ne_nil l front) back trail
  obtain ⟨first, first_eq, rfl⟩ := exists_getElem?_located (i := 0) start
  obtain ⟨last, last_eq, rfl⟩ := exists_getElem?_located (i := front.length) stop
  exact ⟨first, last, first_eq, last_eq, by rw [whole]; exact slice⟩

/-- Behind some of its tokens the list goes on with the others. -/
theorem dropFirst?_located (offset : Nat) (front : List Lexeme) :
    dropFirst? (front.length + 1) (located offset (l :: front ++ back))
      = some (located (offset + (source (l :: front)).byteSize) back) := by
  have size : front.length + 1 = (located offset (l :: front)).length := by rw [length_located, List.length_cons]
  rw [located_append, size, dropFirst?_of_le (by simp), List.drop_left]

/-- Where only qualifiers follow, the type is cut out. -/
theorem typeFrom_of_some (front : List Lexeme) (whole : text = source (before ++ (l :: front ++ back)) ++ trail)
    {qs : List Text} (read : all? extra (tokens back) = some qs) (times : Nat) :
    typeFrom extra text (located (source before).byteSize (l :: front ++ back)) (times + 1) (front.length + 1)
      = some (some (verbatim (l :: front), qs)) := by
  obtain ⟨first, last, first_eq, last_eq, slice⟩ := exists_slice front whole
  simp only [typeFrom, dropFirst?_located, map_snd_located, qualifierRun_eq, read, first_eq, sub?_succ_one, last_eq,
    slice, Option.bind_eq_bind, Option.bind_some]

/-- Where something else follows, the list is parted behind the next token. -/
theorem typeFrom_of_none (offset : Nat) (front : List Lexeme) (read : all? extra (tokens back) = none) (times : Nat) :
    typeFrom extra text (located offset (l :: front ++ back)) (times + 1) (front.length + 1)
      = typeFrom extra text (located offset (l :: front ++ back)) times (front.length + 2) := by
  rw [typeFrom]
  simp only [dropFirst?_located, map_snd_located, qualifierRun_eq, read, Option.bind_eq_bind, Option.bind_some]

/-- Wherever the tokens are parted, the list is long enough and the type stands in the line. -/
theorem typeFrom_eq (front : List Lexeme) (whole : text = source (before ++ (l :: front ++ back)) ++ trail) :
    typeFrom extra text (located (source before).byteSize (l :: front ++ back)) (back.length + 1) (front.length + 1)
      = some (some (verbatim (l :: (front ++ (Header.splitQualifiers extra back).1)),
          (Header.splitQualifiers extra back).2)) := by
  induction back generalizing front with
  | nil =>
    rw [typeFrom_of_some front whole (Qualifier.all?_nil extra), Header.splitQualifiers, List.append_nil]
  | cons b back ih =>
    cases read : all? extra (tokens (b :: back)) with
    | some qs =>
      rw [typeFrom_of_some front whole read, Header.splitQualifiers, read, List.append_nil]
    | none =>
      have shift : l :: front ++ b :: back = l :: (front ++ [b]) ++ back := by simp
      have next := ih (front ++ [b]) (by rw [whole, shift])
      rw [List.length_append, List.length_singleton] at next
      rw [List.length_cons, typeFrom_of_none _ front read, shift, next, Header.splitQualifiers, read]
      simp

/-- What follows the article in a typed header: type and qualifiers. -/
def typed (extra : List Phrase) (text : Text) (article : Option Article) (rest : List (Span × Token)) :
    Option (Except HeaderError (Option Article × Text × List Text)) :=
  if rest.isEmpty then some (.error .missingType)
  else do
    match ← typeFrom extra text rest rest.length 1 with
    | some (typeName, qualifiers) => some (.ok (article, typeName, qualifiers))
    | none => some (.error .missingType)

/-- What follows `is` in a typed header: article, type and qualifiers. -/
def recognizeType (extra : List Phrase) (text : Text) (rest : List (Span × Token)) :
    Option (Except HeaderError (Option Article × Text × List Text)) :=
  if Token.mark '"' ∈ rest.map Prod.snd then some (.error .unterminatedString)
  else (if (article rest).isSome then dropFirst? 1 rest else some rest).bind (typed extra text (article rest))

/-- Reads a typed header: a name, `is`, a type and qualifiers. -/
def recognize (extra : List Phrase) (text : Text) (line : Nat) (span : Span) : Option (Except HeaderError Header) :=
  let tokens := Lexeme.located 0 (Lexeme.ofText text)
  match tokens with
  | (_, .word name) :: (_, is) :: _ =>
    if is = .word "is".toList then do
      let rest ← dropFirst? 2 tokens
      match ← recognizeType extra text rest with
      | .ok (article, typeName, qualifiers) => some (.ok ⟨name, article, some typeName, qualifiers, line, span⟩)
      | .error e => some (.error e)
    else some (.error .continuation)
  | _ => some (.error .continuation)

/-- Behind the article the type is read, if there is anything. -/
theorem typed_cons (article : Option Article) (ls : List Lexeme) (whole : text = source (before ++ l :: ls) ++ trail) :
    typed extra text article (located (source before).byteSize (l :: ls)) = some (.ok (article,
      verbatim (l :: (Header.splitQualifiers extra ls).1), (Header.splitQualifiers extra ls).2)) := by
  have found : typeFrom extra text (located (source before).byteSize (l :: ls)) (l :: ls).length 1
      = some (some (verbatim (l :: (Header.splitQualifiers extra ls).1), (Header.splitQualifiers extra ls).2)) :=
    typeFrom_eq [] whole
  rw [typed, if_neg (by simp [Lexeme.located_cons]), length_located]
  simp only [found, Option.bind_eq_bind, Option.bind_some]

/-- The article is there to be cut off, and so is the type. -/
theorem recognizeType_eq (ls : List Lexeme) (whole : text = source (before ++ ls) ++ trail) :
    recognizeType extra text (located (source before).byteSize ls) = some (Header.recognizeType extra ls) := by
  rw [recognizeType, map_snd_located]
  by_cases quote : Token.mark '"' ∈ tokens ls
  · rw [if_pos quote, Header.recognizeType, if_pos quote]
  · rw [if_neg quote]
    cases ls with
    | nil =>
      rw [Header.recognizeType, if_neg quote]
      rfl
    | cons l ls =>
      have article_eq : article (located (source before).byteSize (l :: ls))
          = if l.token = .word "a".toList then some .a else if l.token = .word "an".toList then some .an else none := rfl
      have cut : dropFirst? 1 (located (source before).byteSize (l :: ls))
          = some (located (source (before ++ [l])).byteSize ls) := by
        rw [Lexeme.source_append, Text.byteSize_append]
        exact dropFirst?_located (source before).byteSize []
      -- With an article, the type is looked for one token further on.
      have behind (word : Article) (read : Header.takeArticle (l :: ls) = (some word, ls)) :
          (dropFirst? 1 (located (source before).byteSize (l :: ls))).bind (typed extra text (some word))
            = some (Header.recognizeType extra (l :: ls)) := by
        rw [Header.recognizeType, if_neg quote, read, cut, Option.bind_some]
        cases ls with
        | nil => rfl
        | cons m ls =>
          have shift : text = source (before ++ [l] ++ m :: ls) ++ trail := by rw [whole]; simp
          exact typed_cons (some word) ls shift
      by_cases a : l.token = .word "a".toList
      · rw [article_eq, if_pos a]
        exact behind .a (by rw [Header.takeArticle, if_pos a])
      · by_cases an : l.token = .word "an".toList
        · rw [article_eq, if_neg a, if_pos an]
          exact behind .an (by rw [Header.takeArticle, if_neg a, if_pos an])
        · rw [article_eq, if_neg a, if_neg an, Header.recognizeType, if_neg quote, Header.takeArticle, if_neg a,
            if_neg an]
          exact typed_cons none ls whole

/-- The name and `is` are there to be cut off. -/
theorem recognize_eq (extra : List Phrase) (text : Text) (line : Nat) (span : Span) :
    recognize extra text line span = some (Header.recognize extra text line span) := by
  obtain ⟨trail, -, whole, -⟩ := Lexeme.readIn_ofText text
  rw [recognize, Header.recognize]
  generalize Lexeme.ofText text = ls at whole
  rcases ls with - | ⟨⟨gap, name⟩, - | ⟨⟨gap', is⟩, ls⟩⟩
  · rfl
  · cases name <;> rfl
  · have cut : dropFirst? 2 (located 0 (⟨gap, name⟩ :: ⟨gap', is⟩ :: ls))
        = some (located (source [⟨gap, name⟩, ⟨gap', is⟩]).byteSize ls) := by
      have := @dropFirst?_located ls ⟨gap, name⟩ 0 [⟨gap', is⟩]
      rwa [Nat.zero_add] at this
    have behind : recognizeType extra text (located (source [⟨gap, name⟩, ⟨gap', is⟩]).byteSize ls)
        = some (Header.recognizeType extra ls) := recognizeType_eq ls whole.symm
    rw [Lexeme.located_cons, Lexeme.located_cons] at cut ⊢
    cases name with
    | word name =>
      cases is with
      | word is =>
        by_cases said : is = "is".toList
        · subst said
          simp only [if_true, cut, behind, Option.bind_eq_bind, Option.bind_some]
          cases Header.recognizeType extra ls <;> rfl
        · have other : Token.word is ≠ .word "is".toList := fun same => said (Token.word.inj same)
          simp only [if_neg said, if_neg other]
      | number _ => rfl
      | quoted _ => rfl
      | mark _ => rfl
    | number _ => rfl
    | quoted _ => rfl
    | mark _ => rfl

end Located

/-- Reads a typed header, or else a bare one; the error is that of the typed reading. -/
def headerOfText (extra : List Phrase) (text : Text) (line : Nat) (span : Span) :
    Option (Except HeaderError Header) := do
  match ← recognize extra text line span with
  | .ok header => some (.ok header)
  | .error e =>
    match Header.bare? text line span with
    | some header => some (.ok header)
    | none => some (.error e)

theorem headerOfText_eq (extra : List Phrase) (text : Text) (line : Nat) (span : Span) :
    headerOfText extra text line span = some (Header.ofText extra text line span) := by
  simp only [headerOfText, Header.ofText, recognize_eq, Option.bind_eq_bind, Option.bind_some]
  cases Header.recognize extra text line span with
  | ok header => rfl
  | error e => cases Header.bare? text line span <;> rfl

end Checked

end BusinessClass
