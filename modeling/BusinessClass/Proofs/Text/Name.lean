import BusinessClass.Proofs.Text.Words
import BusinessClass.Text.Name

/-!
# Characters of names

No character of a name is a blank, so a name, or a chain of names with dots between them, is a word.

* `isBlank_of_isNameChar`, `isBlank_of_isDigit` and `isDigit_of_isNameStart`: the classes of characters are apart.
* `Text.isNameChar_of_isName`: what a name consists of.
* `Text.isDottedName_iff`: a chain of names consists of names with dots between them.
* `isWord_of_isDottedName` and `isNameStart_of_isDottedName`: a chain of names is a word that starts like a name.
* `Text.IsIdentifier` says what a name without hyphens is.
-/

namespace BusinessClass

/-! ### Blanks and name characters -/

/-- The code points of the blanks one by one. -/
def blankPoints : List Nat :=
  [0x9, 0xA, 0xB, 0xC, 0xD, 0x20, 0x85, 0xA0, 0x1680, 0x2000, 0x2001, 0x2002, 0x2003, 0x2004,
   0x2005, 0x2006, 0x2007, 0x2008, 0x2009, 0x200A, 0x2028, 0x2029, 0x202F, 0x205F, 0x3000]

theorem toNat_mem_of_isBlank {c : Char} (h : isBlank c = true) : c.toNat ∈ blankPoints := by
  simp only [isBlank, blankRanges, Ranges.contains_cons, Ranges.contains_nil, Bool.if_false_left,
    Bool.if_true_left, Bool.and_eq_true, Bool.or_eq_true, Bool.not_eq_true', decide_eq_true_eq,
    decide_eq_false_iff_not, Bool.false_eq_true, or_false] at h
  simp only [blankPoints, List.mem_cons, List.not_mem_nil, or_false]
  omega

/-- No blank continues a name, and none is a digit. -/
theorem not_isNameChar_of_isBlank {c : Char} (h : isBlank c = true) :
    isNameChar c = false ∧ c.isDigit = false := by
  have table : ∀ n ∈ blankPoints, isNameChar (Char.ofNat n) = false ∧ (Char.ofNat n).isDigit = false := by
    decide +kernel
  have := table c.toNat (toNat_mem_of_isBlank h)
  rwa [Char.ofNat_toNat] at this

theorem isBlank_of_isNameChar {c : Char} (h : isNameChar c = true) : isBlank c = false := by
  cases hb : isBlank c
  · rfl
  · rw [(not_isNameChar_of_isBlank hb).1] at h
    cases h

theorem isBlank_of_isDigit {c : Char} (h : c.isDigit = true) : isBlank c = false := by
  cases hb : isBlank c
  · rfl
  · rw [(not_isNameChar_of_isBlank hb).2] at h
    cases h

/-- No digit starts a name. -/
theorem isDigit_of_isNameStart {c : Char} (h : isNameStart c = true) : c.isDigit = false := by
  cases hd : c.isDigit
  · rfl
  · have table : ∀ n < 10, isNameStart (Char.ofNat (48 + n)) = false := by decide +kernel
    have bounds : 48 ≤ c.toNat ∧ c.toNat ≤ 57 := by simpa [Char.isDigit, UInt32.le_iff_toNat_le] using hd
    have no_start := table (c.toNat - 48) (by omega)
    rw [Nat.add_sub_cancel' bounds.1, Char.ofNat_toNat, h] at no_start
    cases no_start

namespace Text

/-! ### Names -/

theorem isName_cons_iff {c : Char} {cs : Text} :
    isName (c :: cs) = true ↔ isNameStart c = true ∧ ∀ d ∈ cs, isNameChar d = true := by
  rw [isName, Bool.and_eq_true, List.all_eq_true]

theorem isNameChar_of_isName {t : Text} (name : t.isName = true) : ∀ c ∈ t, isNameChar c = true := by
  cases t with
  | nil => cases name
  | cons c cs =>
    obtain ⟨start, more⟩ := isName_cons_iff.1 name
    exact List.forall_mem_cons.2 ⟨isNameChar_of_isNameStart start, more⟩

theorem dot_not_mem_of_isName {t : Text} (name : t.isName = true) : '.' ∉ t := by
  intro mem
  exact absurd (isNameChar_of_isName name '.' mem) (by decide)

/-! ### Chains of names -/

/-- A chain of names consists of names with dots between them. -/
theorem isDottedName_iff {t : Text} :
    t.isDottedName = true ↔ ∃ w ws, t = ['.'].intercalate (w :: ws) ∧ ∀ v ∈ w :: ws, isName v = true := by
  constructor
  · intro dotted
    obtain ⟨w, ws, pieces⟩ := List.exists_cons_of_ne_nil (split_ne_nil (· == '.') t)
    refine ⟨w, ws, ?_, ?_⟩
    · rw [← pieces, intercalate_split]
    · rw [← pieces]
      exact List.all_eq_true.1 dotted
  · rintro ⟨w, ws, rfl, names⟩
    have apart : ∀ v ∈ w :: ws, '.' ∉ v := fun v hv => dot_not_mem_of_isName (names v hv)
    rw [isDottedName, segments, split_intercalate (List.cons_ne_nil w ws) apart]
    exact List.all_eq_true.2 names

/-- A chain of names holds no blank. -/
theorem isBlank_of_isDottedName {t : Text} (dotted : t.isDottedName = true) : ∀ c ∈ t, isBlank c = false := by
  intro c hc
  rcases exists_mem_split (· == '.') hc with dot | ⟨w, hw, hc⟩
  · rw [beq_iff_eq.1 dot]
    decide
  · have name : w.isName = true := List.all_eq_true.1 dotted w hw
    exact isBlank_of_isNameChar (isNameChar_of_isName name c hc)

theorem isWord_of_isDottedName {t : Text} (dotted : t.isDottedName = true) : t.IsWord := by
  refine ⟨?_, isBlank_of_isDottedName dotted⟩
  rintro rfl
  cases dotted

/-- A chain of names starts like a name. -/
theorem isNameStart_of_isDottedName {t : Text} (dotted : t.isDottedName = true) :
    ∃ c cs, t = c :: cs ∧ isNameStart c = true := by
  cases t with
  | nil => cases dotted
  | cons c cs =>
    obtain ⟨v, vs, hs⟩ := List.exists_cons_of_ne_nil (split_ne_nil (· == '.') cs)
    refine ⟨c, cs, rfl, ?_⟩
    rw [isDottedName, segments, split, hs] at dotted
    split at dotted
    · cases dotted
    · -- the first name is `c :: v`
      have name : isName (c :: v) = true := List.all_eq_true.1 dotted _ List.mem_cons_self
      exact (isName_cons_iff.1 name).1

/-! ### Identifiers -/

/-- A letter or an underscore, followed by letters, numbers and underscores. -/
def IsIdentifier (t : Text) : Prop :=
  ∃ c cs, t = c :: cs ∧ (isLetter c = true ∨ c = '_') ∧ ∀ d ∈ cs, isAlphanumeric d = true ∨ d = '_'

theorem isPlainName_iff {t : Text} : t.isPlainName = true ↔ t.IsIdentifier := by
  cases t with
  | nil => simp [isPlainName, IsIdentifier]
  | cons c cs =>
    rw [isPlainName, Bool.and_eq_true, List.all_eq_true]
    simp only [isNameStart, isPlainNameChar, Bool.or_eq_true, beq_iff_eq]
    constructor
    · rintro ⟨start, more⟩
      exact ⟨c, cs, rfl, start, more⟩
    · rintro ⟨d, ds, eq, start, more⟩
      cases eq
      exact ⟨start, more⟩

theorem IsIdentifier.isName {t : Text} (h : t.IsIdentifier) : t.isName = true := by
  rw [← isPlainName_iff] at h
  cases t with
  | nil => cases h
  | cons c cs =>
    obtain ⟨start, more⟩ := (Bool.and_eq_true _ _).mp h
    exact isName_cons_iff.2
      ⟨start, fun d hd => isNameChar_of_isPlainNameChar (List.all_eq_true.1 more d hd)⟩

end Text

end BusinessClass
