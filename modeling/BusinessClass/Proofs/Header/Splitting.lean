import BusinessClass.Proofs.Header.Qualifier

/-!
# Qualifiers with further phrases

With further phrases a list of tokens may fall into qualifiers in several ways, or only in ways that begin with another
qualifier than the one that is taken. The reader commits to a qualifier as soon as one fits: a fixed one before the
further phrases, and those in the order given.

* `Qualifier.Splits` says that tokens fall into qualifiers in some way, `Qualifier.Commits` that they do so in the
  way of the reader; `all?_eq_some_iff_commits`.
* `Commits.splits`: what is read is a way to split the tokens.
* `splits_iff_commits`: it is the only one if no qualifier begins another, longer one.
* `unnested_of_heads`: a condition on the further phrases for this.
-/

namespace BusinessClass

namespace Qualifier

variable {extra : List Phrase} {ts g rest : List Token} {q : Text} {qs : List Text}

/-! ### One qualifier -/

/-- The tokens spell the qualifier, a fixed one or a further phrase word by word. -/
inductive SpellsOne (extra : List Phrase) : List Token → Text → Prop
  | fixed {g : List Token} {q : Text} (spells : Spells g q) : SpellsOne extra g q
  | further {g : List Token} {p : Phrase} (mem : p ∈ extra) (words : g.map Token.text = p.words) :
    SpellsOne extra g p.text

theorem SpellsOne.eq_unwords (h : SpellsOne extra g q) : q = Text.unwords (g.map Token.text) := by
  cases h with
  | fixed spells => exact spells.eq_unwords
  | further mem words => rw [words, Phrase.text]

/-- The qualifier is taken off the front of the tokens: a fixed one if one stands there, or else the first further
phrase that does. -/
inductive Takes (extra : List Phrase) (ts : List Token) : Text → List Token → Prop
  | fixed {g : List Token} {q : Text} {rest : List Token} (spells : Spells g q) (front : ts = g ++ rest) :
    Takes extra ts q rest
  | further {g : List Token} {p : Phrase} {before after : List Phrase} {rest : List Token}
    (unfixed : ∀ f r, Spells f r → ¬ f <+: ts) (order : extra = before ++ p :: after)
    (skipped : ∀ r ∈ before, ∀ f, f.map Token.text = r.words → ¬ f <+: ts)
    (words : g.map Token.text = p.words) (front : ts = g ++ rest) : Takes extra ts p.text rest

theorem Takes.exists_spellsOne (h : Takes extra ts q rest) : ∃ g, SpellsOne extra g q ∧ ts = g ++ rest := by
  cases h with
  | fixed spells front => exact ⟨_, .fixed spells, front⟩
  | further unfixed order skipped words front => exact ⟨_, .further (by rw [order]; simp) words, front⟩

theorem phrase?_eq_some_iff {p : Phrase} :
    phrase? p ts = some (q, rest) ↔ ∃ g, g.map Token.text = p.words ∧ ts = g ++ rest ∧ q = p.text := by
  rw [phrase?, Option.ite_none_right_eq_some, List.isPrefixOf_iff_prefix, Option.some_inj, Prod.mk.injEq]
  constructor
  · rintro ⟨front, rfl, rfl⟩
    refine ⟨ts.take p.words.length, ?_, (List.take_append_drop _ _).symm, rfl⟩
    rw [List.map_take]
    exact (List.prefix_iff_eq_take.1 front).symm
  · rintro ⟨g, words, rfl, rfl⟩
    rw [List.map_append, words]
    refine ⟨List.prefix_append _ _, rfl, ?_⟩
    rw [← words, List.length_map, List.drop_left]

theorem phrase?_eq_none_iff {p : Phrase} :
    phrase? p ts = none ↔ ∀ f, f.map Token.text = p.words → ¬ f <+: ts := by
  rw [Option.eq_none_iff_forall_not_mem]
  constructor
  · rintro none_ f words ⟨rest, rfl⟩
    exact none_ (p.text, rest) (phrase?_eq_some_iff.2 ⟨f, words, rfl, rfl⟩)
  · rintro none_ ⟨q, rest⟩ h
    obtain ⟨g, words, rfl, -⟩ := phrase?_eq_some_iff.1 h
    exact none_ g words (List.prefix_append _ _)

/-- The fixed qualifiers are tried before the further phrases. -/
theorem first?_eq_or (extra : List Phrase) (ts : List Token) :
    first? extra ts = (first? [] ts).or (extra.findSome? fun p => phrase? p ts) := by
  simp only [first?, readers, List.map_nil, List.append_nil, List.findSome?_append, List.findSome?_map]
  rfl

theorem first?_nil_eq_none_iff : first? [] ts = none ↔ ∀ f r, Spells f r → ¬ f <+: ts := by
  rw [Option.eq_none_iff_forall_not_mem]
  constructor
  · rintro none_ f r spells ⟨rest, rfl⟩
    exact none_ (r, rest) (first?_eq_some_iff.2 ⟨f, spells, rfl⟩)
  · rintro none_ ⟨q, rest⟩ h
    obtain ⟨g, spells, rfl⟩ := first?_eq_some_iff.1 h
    exact none_ g q spells (List.prefix_append _ _)

theorem first?_eq_some_iff_takes : first? extra ts = some (q, rest) ↔ Takes extra ts q rest := by
  rw [first?_eq_or, Option.or_eq_some_iff, first?_eq_some_iff, first?_nil_eq_none_iff, List.findSome?_eq_some_iff]
  constructor
  · rintro (⟨g, spells, front⟩ | ⟨unfixed, before, p, after, order, read, skipped⟩)
    · exact .fixed spells front
    · obtain ⟨g, words, front, rfl⟩ := phrase?_eq_some_iff.1 read
      exact .further unfixed order (fun r hr => phrase?_eq_none_iff.1 (skipped r hr)) words front
  · intro h
    cases h with
    | fixed spells front => exact .inl ⟨_, spells, front⟩
    | further unfixed order skipped words front =>
      exact .inr ⟨unfixed, _, _, _, order, phrase?_eq_some_iff.2 ⟨_, words, front, rfl⟩,
        fun r hr => phrase?_eq_none_iff.2 (skipped r hr)⟩

/-- Where some qualifier stands, one is taken. -/
theorem SpellsOne.exists_takes (h : SpellsOne extra g q) (rest : List Token) :
    ∃ q' rest', Takes extra (g ++ rest) q' rest' := by
  have some_ : first? extra (g ++ rest) ≠ none := by
    rw [first?_eq_or, ne_eq, Option.or_eq_none_iff, first?_nil_eq_none_iff, List.findSome?_eq_none_iff]
    rintro ⟨unfixed, skipped⟩
    cases h with
    | fixed spells => exact unfixed g q spells (List.prefix_append _ _)
    | further mem words => exact phrase?_eq_none_iff.1 (skipped _ mem) g words (List.prefix_append _ _)
  obtain ⟨⟨q', rest'⟩, taken⟩ := Option.ne_none_iff_exists'.1 some_
  exact ⟨q', rest', first?_eq_some_iff_takes.1 taken⟩

/-! ### Lists of qualifiers -/

/-- The tokens fall into pieces that spell the qualifiers. -/
inductive Splits (extra : List Phrase) : List Token → List Text → Prop
  | nil : Splits extra [] []
  | cons {g ts : List Token} {q : Text} {qs : List Text} (first : SpellsOne extra g q) (more : Splits extra ts qs) :
    Splits extra (g ++ ts) (q :: qs)

/-- The qualifiers are taken off the tokens one by one until none is left. -/
inductive Commits (extra : List Phrase) : List Token → List Text → Prop
  | nil : Commits extra [] []
  | cons {ts rest : List Token} {q : Text} {qs : List Text} (first : Takes extra ts q rest)
    (more : Commits extra rest qs) : Commits extra ts (q :: qs)

theorem all?_eq_some_iff_commits : all? extra ts = some qs ↔ Commits extra ts qs := by
  constructor
  · intro h
    induction qs generalizing ts with
    | nil =>
      rw [all?_eq_some_nil.1 h]
      exact .nil
    | cons q qs ih =>
      obtain ⟨rest, taken, more⟩ := all?_eq_some_cons.1 h
      exact .cons (first?_eq_some_iff_takes.1 taken) (ih more)
  · intro h
    induction h with
    | nil => exact all?_nil extra
    | cons first more ih => exact all?_eq_some_cons.2 ⟨_, first?_eq_some_iff_takes.2 first, ih⟩

/-- What is read is one way to split the tokens. -/
theorem Commits.splits (h : Commits extra ts qs) : Splits extra ts qs := by
  induction h with
  | nil => exact .nil
  | cons first more ih =>
    obtain ⟨g, spells, rfl⟩ := first.exists_spellsOne
    exact .cons spells ih

/-! ### Qualifiers that begin no other -/

/-- No qualifier begins another, longer one. -/
def Unnested (extra : List Phrase) : Prop :=
  ∀ g q h r, SpellsOne extra g q → SpellsOne extra h r → g <+: h → g = h

section Unnested

variable (unnested : Unnested extra)

include unnested

/-- Then only one qualifier can stand at the front of a list of tokens. -/
theorem Unnested.takes_of_spellsOne (spells : SpellsOne extra g q) : Takes extra (g ++ rest) q rest := by
  obtain ⟨q', rest', taken⟩ := spells.exists_takes rest
  obtain ⟨h, spells', front⟩ := taken.exists_spellsOne
  have same : g = h := by
    rcases List.prefix_or_prefix_of_prefix (List.prefix_append g rest) ⟨rest', front.symm⟩ with pre | pre
    · exact unnested _ _ _ _ spells spells' pre
    · exact (unnested _ _ _ _ spells' spells pre).symm
  subst same
  rw [List.append_cancel_left front, spells.eq_unwords, ← spells'.eq_unwords]
  rwa [List.append_cancel_left front] at taken

/-- Then the reader finds the way to split the tokens if there is one, and there is only one. -/
theorem splits_iff_commits : Splits extra ts qs ↔ Commits extra ts qs := by
  refine ⟨fun h => ?_, Commits.splits⟩
  induction h with
  | nil => exact .nil
  | cons first more ih => exact .cons (unnested.takes_of_spellsOne first) ih

end Unnested

/-- Further phrases that start as no fixed qualifier does, and none of which begins another one, leave the qualifiers
apart. -/
theorem unnested_of_heads (heads : ∀ p ∈ extra, opens (.word p.head) = false)
    (apart : ∀ p ∈ extra, ∀ r ∈ extra, p.words <+: r.words → p.words = r.words) : Unnested extra := by
  -- a token that starts a fixed qualifier starts no phrase
  have opening {t : Token} {ts : List Token} {p : Phrase} (mem : p ∈ extra) (opening : opens t = true)
      (words : (t :: ts).map Token.text = p.words) : False := by
    cases t with
    | word w =>
      have head : w = p.head := (List.cons.inj words).1
      rw [head, heads p mem] at opening
      cases opening
    | _ => cases opening
  intro g q h r hg hh pre
  cases hg with
  | fixed hg =>
    cases hh with
    | fixed hh => exact hg.eq_of_prefix hh pre
    | further mem words =>
      obtain ⟨t, g, rfl, opens_, -⟩ := hg.eq_cons
      obtain ⟨s, rfl⟩ := pre
      exact (opening mem opens_ words).elim
  | further mem words =>
    cases hh with
    | fixed hh =>
      obtain ⟨t, h, rfl, opens_, -⟩ := hh.eq_cons
      cases g with
      | nil => cases words
      | cons u g =>
        obtain ⟨rfl, -⟩ := List.cons_prefix_cons.1 pre
        exact (opening mem opens_ words).elim
    | further mem' words' =>
      have texts : g.map Token.text <+: h.map Token.text := pre.map _
      rw [words, words'] at texts
      have size := congrArg List.length (apart _ mem _ mem' texts)
      rw [← words, ← words', List.length_map, List.length_map] at size
      exact pre.eq_of_length size

end Qualifier

end BusinessClass
