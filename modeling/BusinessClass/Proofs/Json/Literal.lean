import BusinessClass.Json.Reader
import BusinessClass.Json.Writer

/-!
# Literals of JSON texts

Reading a number or a string that was written gives it back, and leaves what stands behind it.

* `Numeral.read?_ofNat` reads a natural number; no digit, point or exponent may stand behind it.
* `string?_quote` reads a string.
-/

namespace BusinessClass

namespace Text

theorem digitsValue_ofNat (n : Nat) : digitsValue (ofNat n) = n := by
  have step : (fun (n : Nat) (d : Char) => n * 10 + (d.toNat - '0'.toNat))
      = fun n d => 10 * n + (d.toNat - '0'.toNat) := by
    funext n d
    rw [Nat.mul_comm]
  rw [digitsValue, step, ← Nat.ofDigitChars_eq_foldl]
  exact Nat.ofDigitChars_ten_toDigits

theorem isDigit_of_mem_ofNat {n : Nat} {c : Char} (h : c ∈ ofNat n) : c.isDigit = true :=
  Nat.isDigit_of_mem_toDigits (by decide) (by decide) h

/-- Only zero starts with a zero. -/
theorem head?_ofNat_ne {n : Nat} (pos : 0 < n) : (ofNat n).head? ≠ some '0' := by
  induction n using Nat.strongRecOn with
  | ind n ih =>
    rw [ofNat]
    rcases Nat.lt_or_ge n 10 with lt | ge
    · rw [Nat.toDigits_of_lt_base lt]
      simp
      omega
    · rw [Nat.toDigits_of_base_le (by decide) ge, List.head?_append]
      have front := ih (n / 10) (by omega) (by omega)
      rw [ofNat] at front
      cases digits : Nat.toDigits 10 (n / 10) with
      | nil => exact absurd digits Nat.toDigits_ne_nil
      | cons d ds =>
        rw [digits] at front
        exact front

end Text

namespace Json

/-! ### Numbers -/

/-- What stands behind a number does not continue it. -/
def EndsNumber (rest : Text) : Prop :=
  ∀ c ∈ rest.head?, c.isDigit = false ∧ c ≠ '.' ∧ c ≠ 'e' ∧ c ≠ 'E'

namespace Numeral

theorem digits?_ofNat (n : Nat) {rest : Text} (ends : EndsNumber rest) :
    digits? (Text.ofNat n ++ rest) = some (Text.ofNat n, rest) := by
  have stop : rest.takeWhile Char.isDigit = [] ∧ rest.dropWhile Char.isDigit = rest := by
    cases rest with
    | nil => exact ⟨rfl, rfl⟩
    | cons c cs =>
      have := (ends c rfl).1
      simp [this]
  have all := fun c (h : c ∈ Text.ofNat n) => Text.isDigit_of_mem_ofNat h
  rw [digits?, List.takeWhile_append_of_pos all, List.dropWhile_append_of_pos all, stop.1, stop.2,
    List.append_nil]
  cases digits : Text.ofNat n with
  | nil => exact absurd digits Nat.toDigits_ne_nil
  | cons d ds => rfl

/-- A number that is written starts with a digit. -/
theorem exists_ofNat_eq_cons (n : Nat) : ∃ d ds, Text.ofNat n = d :: ds ∧ d.isDigit = true := by
  cases digits : Text.ofNat n with
  | nil => exact absurd digits Nat.toDigits_ne_nil
  | cons d ds => exact ⟨d, ds, rfl, Text.isDigit_of_mem_ofNat (digits ▸ List.mem_cons_self)⟩

theorem whole?_ofNat (n : Nat) {rest : Text} (ends : EndsNumber rest) :
    whole? (Text.ofNat n ++ rest) = some (Text.ofNat n, rest) := by
  rcases Nat.eq_zero_or_pos n with rfl | pos
  · rfl
  · have first := Text.head?_ofNat_ne pos
    have read := digits?_ofNat n ends
    obtain ⟨d, ds, digits, -⟩ := exists_ofNat_eq_cons n
    rw [digits] at first read ⊢
    unfold whole?
    split
    · rename_i eq
      cases eq
      exact absurd rfl first
    · exact read

theorem sign_ofNat (n : Nat) (rest : Text) : sign (Text.ofNat n ++ rest) = (false, Text.ofNat n ++ rest) := by
  obtain ⟨d, ds, digits, isDigit⟩ := exists_ofNat_eq_cons n
  rw [digits]
  unfold sign
  split
  · rename_i eq
    cases eq
    cases isDigit
  · rfl

theorem places?_of_ends {rest : Text} (ends : EndsNumber rest) : places? rest = some (none, rest) := by
  unfold places?
  split
  · exact absurd rfl (ends _ rfl).2.1
  · rfl

theorem exponent?_of_ends {rest : Text} (ends : EndsNumber rest) : exponent? rest = some (none, rest) := by
  unfold exponent?
  split
  · exact absurd rfl (ends _ rfl).2.2.1
  · exact absurd rfl (ends _ rfl).2.2.2
  · rfl

/-- A natural number that was written is read as a numeral with its digits. -/
theorem read?_ofNat (n : Nat) {rest : Text} (ends : EndsNumber rest) :
    read? (Text.ofNat n ++ rest) = some (⟨false, Text.ofNat n, none, none⟩, rest) := by
  rw [read?, sign_ofNat]
  simp only [whole?_ofNat n ends, Option.bind_eq_bind, Option.bind_some, places?_of_ends ends,
    exponent?_of_ends ends]
  rfl

theorem toJson_ofNat {n : Nat} (lt : n < naturalBound) (literal : Text) :
    toJson ⟨false, Text.ofNat n, none, none⟩ literal = .natural n := by
  have value : natural? ⟨false, Text.ofNat n, none, none⟩ = some n := congrArg some (Text.digitsValue_ofNat n)
  rw [toJson, value]
  exact if_pos lt

end Numeral

/-! ### Strings -/

theorem hexValue?_hexDigit {n : Nat} (lt : n < 16) : hexValue? (hexDigit n) = some n := by
  have : ∀ m : Fin 16, hexValue? (hexDigit m) = some m.val := by decide
  exact this ⟨n, lt⟩

theorem units?_of_plain {c : Char} (quote : c ≠ '"') (backslash : c ≠ '\\') (printable : ¬ c.toNat < 0x20)
    (cs : Text) : units? (c :: cs) = (units? cs).map (consUnit c.toNat) := by
  rw [units?.eq_def]
  split
  · rename_i eq
    cases eq
  · rename_i eq
    cases eq
    exact absurd rfl quote
  · rename_i eq
    cases eq
    exact absurd rfl backslash
  · rename_i eq
    cases eq
    exact absurd rfl backslash
  · rename_i eq
    cases eq
    rw [if_neg]
    rintro (h | h)
    · exact printable h
    · exact backslash h

/-- A character that was written is read, escaped or not. -/
theorem units?_escapeChar (c : Char) (cs : Text) :
    units? (escapeChar c ++ cs) = (units? cs).map (consUnit c.toNat) := by
  by_cases short : c ∈ ['"', '\\', '\x08', '\x0c', '\n', '\r', '\t']
  · simp only [List.mem_cons, List.not_mem_nil, or_false] at short
    rcases short with rfl | rfl | rfl | rfl | rfl | rfl | rfl <;> rfl
  · simp only [List.mem_cons, List.not_mem_nil, or_false, not_or] at short
    obtain ⟨quote, backslash, b, f, n, r, t⟩ := short
    rw [escapeChar, if_neg quote, if_neg backslash, if_neg b, if_neg f, if_neg n, if_neg r, if_neg t]
    split
    · rename_i control
      have hex : hexUnit? '0' '0' (hexDigit (c.toNat / 16)) (hexDigit (c.toNat % 16)) = some c.toNat := by
        have zero : hexValue? '0' = some 0 := rfl
        rw [hexUnit?, zero, hexValue?_hexDigit (by omega), hexValue?_hexDigit (by omega)]
        simp only [Option.bind_eq_bind, Option.bind_some, Option.pure_def, Option.some.injEq]
        omega
      show units? ('\\' :: 'u' :: '0' :: '0' :: hexDigit (c.toNat / 16) :: hexDigit (c.toNat % 16) :: cs) = _
      rw [units?, hex]
    · exact units?_of_plain quote backslash ‹_› cs

theorem units?_flatMap_escapeChar (t rest : Text) :
    units? (t.flatMap escapeChar ++ '"' :: rest) = some (t.map Char.toNat, rest) := by
  induction t with
  | nil => rfl
  | cons c t ih => rw [List.flatMap_cons, List.append_assoc, units?_escapeChar, ih]; rfl

/-- No character is half a surrogate pair. -/
theorem not_half (c : Char) : isHighHalf c.toNat = false ∧ isLowHalf c.toNat = false := by
  have valid : c.toNat < 0xD800 ∨ 0xDFFF < c.toNat ∧ c.toNat < 0x110000 := c.valid
  simp only [isHighHalf, isLowHalf, Bool.and_eq_false_iff, decide_eq_false_iff_not]
  omega

theorem ofUnits?_map_toNat (t : Text) : ofUnits? (t.map Char.toNat) = some t := by
  induction t with
  | nil => rfl
  | cons c t ih =>
    obtain ⟨high, low⟩ := not_half c
    cases t with
    | nil => simp [ofUnits?, high, low]
    | cons d t =>
      rw [List.map_cons, List.map_cons] at *
      rw [ofUnits?, high, low, ih]
      simp

/-- A string that was written is read. -/
theorem string?_quote (t rest : Text) : string? (t.flatMap escapeChar ++ '"' :: rest) = some (some t, rest) := by
  rw [string?, units?_flatMap_escapeChar, Option.map_some, ofUnits?_map_toNat]

end Json

end BusinessClass
