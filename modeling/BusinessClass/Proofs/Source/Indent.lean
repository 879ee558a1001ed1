import BusinessClass.Source.Indent
import Mathlib.Algebra.Order.Floor.Semifield
import Mathlib.Data.List.Induction
import Mathlib.Data.Rat.Floor

/-!
# What leading blanks stand for

Leading blanks that stand for a depth are tabs followed by spaces. Any other text has a first character out of place,
and the reason that is given is about this one.

* `Indent.run` are tabs followed by spaces, `Misplaced` says that a character cannot continue them.
* `tidy_iff`: tabs followed by spaces are the texts without such a character.
* `count_run_append`: they are counted, whatever comes behind them.
* `measure_language`: what is accepted, with which depth, and the reason why all else is not.
-/

namespace BusinessClass

namespace Indent

/-- Tabs followed by spaces. -/
def run (tabs spaces : Nat) : Text := List.replicate tabs '\t' ++ List.replicate spaces ' '

/-- Behind the text `u`, the character cannot belong to leading blanks: it is neither tab nor space, or it is a tab and
there was a space before. -/
def Misplaced (u : Text) (c : Char) : Prop := c ≠ '\t' ∧ c ≠ ' ' ∨ c = '\t' ∧ ' ' ∈ u

/-- No character of the text is out of place. -/
def Tidy (t : Text) : Prop := ∀ u c v, t = u ++ c :: v → ¬ Misplaced u c

/-- The first character of the text that is out of place. -/
def FirstMisplaced (t : Text) (c : Char) : Prop := ∃ u v, t = u ++ c :: v ∧ Misplaced u c ∧ Tidy u

/-! ### Tabs followed by spaces -/

theorem space_mem_run {n m : Nat} : ' ' ∈ run n m ↔ 0 < m := by
  simp [run, Nat.pos_iff_ne_zero]

theorem misplaced_run_iff {n m : Nat} {c : Char} :
    Misplaced (run n m) c ↔ c ≠ '\t' ∧ c ≠ ' ' ∨ c = '\t' ∧ 0 < m := by
  rw [Misplaced, space_mem_run]

theorem run_concat_space (n m : Nat) : run n m ++ [' '] = run n (m + 1) := by
  rw [run, run, List.append_assoc, List.replicate_succ']

theorem run_concat_tab (n : Nat) : run n 0 ++ ['\t'] = run (n + 1) 0 := by
  simp [run, List.replicate_succ']

theorem tidy_concat_iff {t : Text} {c : Char} : Tidy (t ++ [c]) ↔ Tidy t ∧ ¬ Misplaced t c := by
  constructor
  · intro tidy
    refine ⟨fun u d v eq => tidy u d (v ++ [c]) ?_, tidy t c [] rfl⟩
    rw [eq, List.append_assoc, List.cons_append]
  · rintro ⟨tidy, placed⟩ u d v eq
    rcases List.eq_nil_or_concat v with rfl | ⟨w, e, rfl⟩
    · obtain ⟨rfl, rfl⟩ : t = u ∧ c = d := by simpa using List.append_inj' eq rfl
      exact placed
    · have eq : t ++ [c] = (u ++ d :: w) ++ [e] := by simpa using eq
      exact tidy u d w (List.append_inj' eq rfl).1

/-- The texts without a character out of place are tabs followed by spaces. -/
theorem tidy_iff {t : Text} : Tidy t ↔ ∃ n m, t = run n m := by
  -- from the end, since a character is judged by what stands in front of it
  induction t using List.reverseRecOn with
  | nil =>
    refine iff_of_true (fun u c v eq => ?_) ⟨0, 0, rfl⟩
    simp at eq
  | append_singleton t c ih =>
    rw [tidy_concat_iff, ih]
    constructor
    · rintro ⟨⟨n, m, rfl⟩, placed⟩
      rw [misplaced_run_iff] at placed
      by_cases tab : c = '\t'
      · -- a tab in its place stands behind tabs alone
        obtain rfl : m = 0 := by simpa [tab] using placed
        exact ⟨n + 1, 0, by rw [tab, run_concat_tab]⟩
      · obtain rfl : c = ' ' := by simpa [tab] using placed
        exact ⟨n, m + 1, run_concat_space n m⟩
    · rintro ⟨n, m, eq⟩
      cases m with
      | succ m =>
        rw [← run_concat_space] at eq
        obtain ⟨rfl, hc⟩ := List.append_inj' eq rfl
        obtain rfl : c = ' ' := by simpa using hc
        exact ⟨⟨n, m, rfl⟩, by simp [misplaced_run_iff]⟩
      | zero =>
        cases n with
        | zero => simp [run] at eq
        | succ n =>
          rw [← run_concat_tab] at eq
          obtain ⟨rfl, hc⟩ := List.append_inj' eq rfl
          obtain rfl : c = '\t' := by simpa using hc
          exact ⟨⟨n, 0, rfl⟩, by simp [misplaced_run_iff]⟩

theorem firstMisplaced_iff {t : Text} {c : Char} :
    FirstMisplaced t c ↔ ∃ n m v, t = run n m ++ c :: v ∧ Misplaced (run n m) c := by
  constructor
  · rintro ⟨u, v, eq, misplaced, tidy⟩
    obtain ⟨n, m, rfl⟩ := tidy_iff.1 tidy
    exact ⟨n, m, v, eq, misplaced⟩
  · rintro ⟨n, m, v, eq, misplaced⟩
    exact ⟨run n m, v, eq, misplaced, tidy_iff.2 ⟨n, m, rfl⟩⟩

/-- A text has a first character out of place, unless it is tabs followed by spaces. -/
theorem run_or_firstMisplaced (t : Text) : (∃ n m, t = run n m) ∨ ∃ c, FirstMisplaced t c := by
  induction t using List.reverseRecOn with
  | nil => exact .inl ⟨0, 0, rfl⟩
  | append_singleton t c ih =>
    rcases ih with ⟨n, m, ht⟩ | ⟨d, u, v, rfl, misplaced, tidy⟩
    · have tidy := tidy_iff.2 ⟨n, m, ht⟩
      by_cases placed : Misplaced t c
      · exact .inr ⟨c, t, [], rfl, placed, tidy⟩
      · exact .inl (tidy_iff.1 (tidy_concat_iff.2 ⟨tidy, placed⟩))
    · exact .inr ⟨d, u, v ++ [c], by simp, misplaced, tidy⟩

/-! ### Counting -/

theorem count_spaces_append (tabs spaces m : Nat) (t : Text) :
    count tabs spaces (List.replicate m ' ' ++ t) = count tabs (spaces + m) t := by
  induction m generalizing spaces with
  | zero => rfl
  | succ m ih =>
    rw [List.replicate_succ, List.cons_append, count, if_neg (by decide), if_pos rfl, ih]
    congr 1
    omega

/-- Tabs followed by spaces are counted, whatever comes behind them. -/
theorem count_run_append (tabs n m : Nat) (t : Text) : count tabs 0 (run n m ++ t) = count (tabs + n) m t := by
  induction n generalizing tabs with
  | zero =>
    rw [run, List.replicate_zero, List.nil_append, count_spaces_append, Nat.zero_add]
    rfl
  | succ n ih =>
    have front : run (n + 1) m = '\t' :: run n m := rfl
    rw [front, List.cons_append, count, if_pos rfl, if_pos rfl, ih]
    congr 1
    omega

theorem measure_run (n m width : Nat) : measure (run n m) width = depth (max width 1) n m := by
  have counted := count_run_append 0 n m []
  rw [List.append_nil, Nat.zero_add] at counted
  rw [measure, counted]
  rfl

/-- The reason that a character out of place gives. -/
def misplacement (c : Char) : IndentError := if c = '\t' then .spaceBeforeTab else .foreignBlank c

theorem misplacement_eq_foreignBlank_iff {c d : Char} : misplacement c = .foreignBlank d ↔ c = d ∧ c ≠ '\t' := by
  rw [misplacement]
  split_ifs with tab <;> simp [tab]

theorem misplacement_eq_spaceBeforeTab_iff {c : Char} : misplacement c = .spaceBeforeTab ↔ c = '\t' := by
  rw [misplacement]
  split_ifs with tab <;> simp [tab]

theorem misplacement_ne_partialLevel {c : Char} {m : Nat} : misplacement c ≠ .partialLevel m := by
  rw [misplacement]
  split_ifs <;> simp

/-- The first character out of place decides. -/
theorem measure_of_firstMisplaced {t : Text} {c : Char} (first : FirstMisplaced t c) (width : Nat) :
    measure t width = .error (misplacement c) := by
  obtain ⟨n, m, v, rfl, misplaced⟩ := firstMisplaced_iff.1 first
  have stop : count (0 + n) m (c :: v) = .error (misplacement c) := by
    rw [count, misplacement]
    rcases misplaced_run_iff.1 misplaced with ⟨tab, space⟩ | ⟨rfl, spaces⟩
    · rw [if_neg tab, if_neg space, if_neg tab]
    · rw [if_pos rfl, if_neg (by omega), if_pos rfl]
  rw [measure, count_run_append, stop]

/-! ### Depths -/

section Depth

variable {w n m d : Nat}

/-- Spaces are rounded up to whole levels. -/
theorem roundUp_eq_ceil (pos : 0 < w) : (m + w - 1) / w = ⌈(m : ℚ) / w⌉₊ := by
  have pos' : (0 : ℚ) < w := by exact_mod_cast pos
  refine eq_of_forall_ge_iff fun d => ?_
  rw [Nat.ceil_le, div_le_iff₀ pos', ← Nat.lt_succ_iff, Nat.div_lt_iff_lt_mul pos]
  have cast : (m : ℚ) ≤ d * w ↔ m ≤ d * w := by exact_mod_cast Iff.rfl
  rw [cast, Nat.succ_mul]
  omega

theorem depth_eq_ok_iff (pos : 0 < w) :
    depth w n m = .ok d ↔ n = 0 ∧ d = ⌈(m : ℚ) / w⌉₊ ∨ 0 < n ∧ w ∣ m ∧ d = n + m / w := by
  rw [depth, roundUp_eq_ceil pos, Nat.dvd_iff_mod_eq_zero]
  split_ifs with noTabs whole
  · simp [noTabs, eq_comm]
  · simp [noTabs, whole, Nat.pos_of_ne_zero noTabs, eq_comm]
  · simp [noTabs, whole]

theorem depth_eq_error_iff {e : IndentError} :
    depth w n m = .error e ↔ 0 < n ∧ ¬ w ∣ m ∧ e = .partialLevel m := by
  rw [depth, Nat.dvd_iff_mod_eq_zero]
  split_ifs with noTabs whole
  · simp [noTabs]
  · simp [whole]
  · simp [whole, Nat.pos_of_ne_zero noTabs, eq_comm]

/-- Whole levels of spaces count like tabs. -/
theorem depth_whole (pos : 0 < w) (n k : Nat) : depth w n (k * w) = .ok (n + k) := by
  rw [depth_eq_ok_iff pos]
  rcases Nat.eq_zero_or_pos n with rfl | tabs
  · refine .inl ⟨rfl, ?_⟩
    have ne : (w : ℚ) ≠ 0 := by exact_mod_cast pos.ne'
    rw [Nat.cast_mul, mul_div_cancel_right₀ _ ne, Nat.ceil_natCast, Nat.zero_add]
  · exact .inr ⟨tabs, Nat.dvd_mul_left w k, by rw [Nat.mul_div_cancel _ pos]⟩

end Depth

/-! ### What is measured -/

section Measure

variable {t : Text} {width d : Nat} {e : IndentError}

theorem measure_eq_ok_iff : measure t width = .ok d ↔ ∃ n m, t = run n m ∧ depth (max width 1) n m = .ok d := by
  constructor
  · intro measured
    rcases run_or_firstMisplaced t with ⟨n, m, rfl⟩ | ⟨c, first⟩
    · exact ⟨n, m, rfl, (measure_run n m width).symm.trans measured⟩
    · cases (measure_of_firstMisplaced first width).symm.trans measured
  · rintro ⟨n, m, rfl, value⟩
    rw [measure_run, value]

theorem measure_eq_error_iff : measure t width = .error e ↔
    (∃ n m, t = run n m ∧ depth (max width 1) n m = .error e) ∨ ∃ c, FirstMisplaced t c ∧ misplacement c = e := by
  constructor
  · intro measured
    rcases run_or_firstMisplaced t with ⟨n, m, rfl⟩ | ⟨c, first⟩
    · exact .inl ⟨n, m, rfl, (measure_run n m width).symm.trans measured⟩
    · exact .inr ⟨c, first, Except.error.inj ((measure_of_firstMisplaced first width).symm.trans measured)⟩
  · rintro (⟨n, m, rfl, value⟩ | ⟨c, first, rfl⟩)
    · rw [measure_run, value]
    · exact measure_of_firstMisplaced first width

end Measure

/-- **Leading blanks are tabs followed by spaces.** Where `w` spaces make a level, tabs followed by spaces stand for a
depth if there are no tabs, the spaces being rounded up, or if the spaces are whole levels; else the reason counts the
spaces. In any other text the first character out of place is the reason. -/
theorem measure_language (t : Text) (width : Nat) :
    let w := if width = 0 then 1 else width
    (∀ d, measure t width = .ok d ↔
      ∃ n m, t = run n m ∧ (n = 0 ∧ d = ⌈(m : ℚ) / w⌉₊ ∨ 0 < n ∧ w ∣ m ∧ d = n + m / w)) ∧
    (∀ c, measure t width = .error (.foreignBlank c) ↔ FirstMisplaced t c ∧ c ≠ '\t') ∧
    (measure t width = .error .spaceBeforeTab ↔ FirstMisplaced t '\t') ∧
    (∀ m, measure t width = .error (.partialLevel m) ↔ ∃ n, t = run n m ∧ 0 < n ∧ ¬ w ∣ m) ∧
    ∀ n k, measure (run n (k * w)) width = .ok (n + k) := by
  intro w
  have pos : 0 < w := by grind
  have level : max width 1 = w := by grind
  refine ⟨fun d => ?_, fun c => ?_, ?_, fun m => ?_, fun n k => ?_⟩
  · simp only [measure_eq_ok_iff, level, depth_eq_ok_iff pos]
  · simp [measure_eq_error_iff, depth_eq_error_iff, misplacement_eq_foreignBlank_iff]
  · simp [measure_eq_error_iff, depth_eq_error_iff, misplacement_eq_spaceBeforeTab_iff]
  · simp [measure_eq_error_iff, level, depth_eq_error_iff, misplacement_ne_partialLevel]
  · rw [measure_run, level, depth_whole pos]

/-- Spaces alone are rounded up; behind a tab they are not; the first character out of place is named. -/
example : measure "     ".toList 4 = .ok 2 ∧ measure "\t     ".toList 4 = .error (.partialLevel 5) ∧
    measure "\t \t\u00a0".toList 0 = .error .spaceBeforeTab := by decide

end Indent

end BusinessClass
