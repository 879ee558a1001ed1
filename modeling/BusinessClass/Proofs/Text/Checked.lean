import BusinessClass.Proofs.Source.Places

/-!
# Operations that may fail

A difference of numbers, an element of a list and a part of a list or a text are not always there. The operations
below give nothing where they would have to make something up: a number below zero, an element or a part behind the
end, half a character.

* `sub?`, `div?` and `mod?` are the operations on numbers, `dropFirst?` and `takeFirst?` those on lists. Those on
  texts count bytes: `Text.takeBytes?`, `Text.dropBytes?` and `Text.slice?`.
* `Text.slice?_eq_some_iff`: a part of a text is there exactly if its ends are in order, inside the text and between
  characters.
-/

namespace BusinessClass

/-- The difference of two numbers, unless it is below zero. -/
def sub? (a b : Nat) : Option Nat := if b ≤ a then some (a - b) else none

/-- The whole part of a quotient, unless the divisor is zero. -/
def div? (a b : Nat) : Option Nat := if b = 0 then none else some (a / b)

/-- The rest of a division, unless the divisor is zero. -/
def mod? (a b : Nat) : Option Nat := if b = 0 then none else some (a % b)

theorem sub?_of_le {a b : Nat} (h : b ≤ a) : sub? a b = some (a - b) := if_pos h

theorem sub?_succ_one (a : Nat) : sub? (a + 1) 1 = some a := sub?_of_le (Nat.succ_le_succ (Nat.zero_le a))

theorem div?_of_pos {a b : Nat} (h : 0 < b) : div? a b = some (a / b) := if_neg (Nat.ne_of_gt h)

theorem mod?_of_pos {a b : Nat} (h : 0 < b) : mod? a b = some (a % b) := if_neg (Nat.ne_of_gt h)

section Lists

variable {α : Type} {n : Nat} {xs : List α}

/-- A list without its first `n` elements, if it has so many. -/
def dropFirst? (n : Nat) (xs : List α) : Option (List α) := if n ≤ xs.length then some (xs.drop n) else none

/-- The first `n` elements of a list, if it has so many. -/
def takeFirst? (n : Nat) (xs : List α) : Option (List α) := if n ≤ xs.length then some (xs.take n) else none

theorem dropFirst?_of_le (h : n ≤ xs.length) : dropFirst? n xs = some (xs.drop n) := if_pos h

theorem takeFirst?_of_le (h : n ≤ xs.length) : takeFirst? n xs = some (xs.take n) := if_pos h

end Lists

namespace Text

variable {n : Nat} {t u : Text}

/-- The bytes that are dropped from a text are those of some of its characters. -/
theorem dropBytes?_eq_some_iff : dropBytes? n t = some u ↔ ∃ s, t = s ++ u ∧ byteSize s = n := by
  constructor
  · intro h
    fun_induction dropBytes? n t with
    | case1 t => exact ⟨[], Option.some.inj h, rfl⟩
    | case2 => cases h
    | case3 n c cs fits ih =>
      obtain ⟨s, rfl, size⟩ := ih h
      exact ⟨c :: s, rfl, by rw [byteSize_cons, size]; omega⟩
    | case4 => cases h
  · rintro ⟨s, rfl, rfl⟩
    exact dropBytes?_append s u

/-- The bytes that are taken from a text are those of some of its characters. -/
theorem takeBytes?_eq_some_iff : takeBytes? n t = some u ↔ ∃ v, t = u ++ v ∧ byteSize u = n := by
  constructor
  · intro h
    fun_induction takeBytes? n t generalizing u with
    | case1 t => exact ⟨t, by rw [← Option.some.inj h]; rfl, by rw [← Option.some.inj h]; rfl⟩
    | case2 => cases h
    | case3 n c cs fits ih =>
      obtain ⟨u, hu, rfl⟩ := Option.map_eq_some_iff.1 h
      obtain ⟨v, rfl, size⟩ := ih hu
      exact ⟨v, rfl, by rw [byteSize_cons, size]; omega⟩
    | case4 => cases h
  · rintro ⟨v, rfl, rfl⟩
    exact takeBytes?_append u v

/-- A part of a text is there exactly if the span starts and stops between characters of the text, in this order. -/
theorem slice?_eq_some_iff {s : Span} : slice? t s = some u ↔
    ∃ before behind, t = before ++ (u ++ behind) ∧ byteSize before = s.start ∧ byteSize (before ++ u) = s.stop := by
  obtain ⟨start, stop⟩ := s
  constructor
  · intro h
    rw [slice?, Option.ite_none_right_eq_some, Option.bind_eq_some_iff] at h
    obtain ⟨ordered, rest, dropped, taken⟩ := h
    obtain ⟨before, rfl, start_eq⟩ := dropBytes?_eq_some_iff.1 dropped
    obtain ⟨behind, rfl, size⟩ := takeBytes?_eq_some_iff.1 taken
    exact ⟨before, behind, rfl, start_eq, by rw [byteSize_append, start_eq, size]; exact Nat.add_sub_cancel' ordered⟩
  · rintro ⟨before, behind, rfl, rfl, rfl⟩
    rw [byteSize_append]
    exact slice?_append before u behind

example : slice? "aé".toList ⟨1, 3⟩ = some ['é'] ∧ slice? "aé".toList ⟨1, 2⟩ = none ∧
    slice? "aé".toList ⟨3, 1⟩ = none ∧ slice? "aé".toList ⟨3, 4⟩ = none := by decide

end Text

end BusinessClass
