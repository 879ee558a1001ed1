import BusinessClass.Json.Decoder
import BusinessClass.Proofs.Json.RoundTrip
import Mathlib.Data.List.Basic

/-!
# Decoding what was encoded

What decoders find in records, arrays and tagged values that were encoded.

* `Json.nesting_array_le` and `Json.nesting_ofMembers_le`: what may be nested in a value may be nested, one
  level less, in its parts.
* `Json.fields?_ofMembers`, `Json.tagged?_ofMembers` and `Json.list?_map` take values apart.
* `Json.Plain.isUsable`: a plain value can be kept if it is not nested too deep.
-/

namespace BusinessClass

namespace Json

variable {α : Type} {budget : Nat}

/-! ### Nesting -/

theorem nestings_le {js : List Json} {k : Nat} : nestings js ≤ k ↔ ∀ j ∈ js, nesting j ≤ k := by
  induction js with
  | nil => simp [nestings]
  | cons j js ih => rw [nestings, Nat.max_le, ih, List.forall_mem_cons]

theorem memberNestings_le {ms : List (Text × Json)} {k : Nat} :
    memberNestings ms ≤ k ↔ ∀ m ∈ ms, nesting m.2 ≤ k := by
  induction ms with
  | nil => simp [memberNestings]
  | cons m ms ih => rw [memberNestings, Nat.max_le, ih, List.forall_mem_cons]

/-- The elements of an array may be nested one level less. -/
theorem nesting_array_le {js : List Json} :
    nesting (.array js) ≤ budget ↔ budget ≠ 0 ∧ ∀ j ∈ js, nesting j ≤ budget - 1 := by
  rw [nesting, ← nestings_le]
  omega

/-- The members of an object may be nested one level less. -/
theorem nesting_object_le {ms : List (Text × Json)} :
    nesting (.object ms) ≤ budget ↔ budget ≠ 0 ∧ ∀ m ∈ ms, nesting m.2 ≤ budget - 1 := by
  rw [nesting, ← memberNestings_le]
  omega

theorem nesting_ofMembers_le {ms : List (String × Json)} :
    nesting (.ofMembers ms) ≤ budget ↔ budget ≠ 0 ∧ ms.Forall fun m => nesting m.2 ≤ budget - 1 := by
  rw [ofMembers, nesting_object_le, List.forall_mem_map, List.forall_iff_forall_mem]

/-- A plain value can be kept if it is not nested too deep. -/
theorem Plain.isUsable {j : Json} (plain : Plain j) : ∀ {budget : Nat}, nesting j ≤ budget →
    isUsable budget j = true := by
  -- A list of values can be kept if each value can.
  have elements {js : List Json} {budget : Nat} (each : ∀ j ∈ js, Json.isUsable budget j = true) :
      areUsable budget js = true := by
    induction js with
    | nil => rw [areUsable]
    | cons j js ih =>
      rw [areUsable, each j List.mem_cons_self, ih fun k hk => each k (List.mem_cons_of_mem j hk)]
      rfl
  have members {ms : List (Text × Json)} {budget : Nat} (each : ∀ m ∈ ms, Json.isUsable budget m.2 = true) :
      membersUsable budget ms = true := by
    induction ms with
    | nil => rw [membersUsable]
    | cons m ms ih =>
      rw [membersUsable, each m List.mem_cons_self, ih fun k hk => each k (List.mem_cons_of_mem m hk)]
      rfl
  induction plain with
  | null => simp [Json.isUsable]
  | bool b => simp [Json.isUsable]
  | natural lt => simp [Json.isUsable]
  | string t => simp [Json.isUsable]
  | array each ih =>
    intro budget le
    obtain ⟨pos, inside⟩ := nesting_array_le.1 le
    obtain ⟨k, rfl⟩ := Nat.exists_eq_succ_of_ne_zero pos
    rw [Json.isUsable]
    exact elements fun j hj => ih j hj (inside j hj)
  | object each ih =>
    intro budget le
    obtain ⟨pos, inside⟩ := nesting_object_le.1 le
    obtain ⟨k, rfl⟩ := Nat.exists_eq_succ_of_ne_zero pos
    rw [Json.isUsable]
    exact members fun m hm => ih m hm (inside m hm)

/-! ### Plain values -/

theorem Plain.ofMembers {ms : List (String × Json)} (each : ms.Forall fun m => Plain m.2) :
    Plain (.ofMembers ms) :=
  .object (List.forall_mem_map.2 (List.forall_iff_forall_mem.1 each))

theorem Plain.ofText? (t : Option Text) : Plain (.ofText? t) := by
  cases t with
  | none => exact .null
  | some t => exact .string t

theorem Plain.ofTexts (ts : List Text) : Plain (.ofTexts ts) := by
  refine .array fun j hj => ?_
  obtain ⟨t, -, rfl⟩ := List.mem_map.1 hj
  exact .string t

/-! ### Arrays -/

theorem mapM_map {β : Type} {decode : β → Option α} {encode : α → β} {xs : List α}
    (each : ∀ x ∈ xs, decode (encode x) = some x) : (xs.map encode).mapM decode = some xs := by
  induction xs with
  | nil => rfl
  | cons x xs ih =>
    rw [List.map_cons, List.mapM_cons, each x List.mem_cons_self,
      ih fun y hy => each y (List.mem_cons_of_mem x hy)]
    rfl

theorem list?_map {decode : Json → Option α} {encode : α → Json} (pos : budget ≠ 0) {xs : List α}
    (each : ∀ x ∈ xs, decode (encode x) = some x) :
    list? budget decode (.array (xs.map encode)) = some xs := by
  rw [list?, elements, if_neg pos]
  exact mapM_map each

theorem texts?_ofTexts (pos : budget ≠ 0) (ts : List Text) : texts? budget (.ofTexts ts) = some ts :=
  list?_map pos fun _ _ => rfl

@[simp] theorem orNull?_ofText? (t : Option Text) : orNull? text? (.ofText? t) = some t := by
  cases t <;> rfl

/-! ### Records -/

section

variable (decode : Json → Option α)

@[simp] theorem text?_string (t : Text) : text? (.string t) = some t := rfl

@[simp] theorem natural?_natural (n : Nat) : natural? (.natural n) = some n := rfl

@[simp] theorem bool?_bool (b : Bool) : bool? (.bool b) = some b := rfl

@[simp] theorem required?_some (j : Json) : required? decode (some j) = decode j := rfl

@[simp] theorem optional?_some (j : Json) : optional? decode (some j) = orNull? decode j := rfl

@[simp] theorem default?_some (a : α) (j : Json) : default? a decode (some j) = decode j := rfl

end

theorem field?_ofMembers {ms : List (String × Json)} (nodup : (ms.map Prod.fst).Nodup) (name : String) :
    field? (ms.map fun m => (m.1.toList, m.2)) name = some (ms.lookup name) := by
  induction ms with
  | nil => rfl
  | cons m ms ih =>
    obtain ⟨k, j⟩ := m
    rw [List.map_cons, List.nodup_cons] at nodup
    have rest := ih nodup.2
    rw [field?] at rest
    by_cases same : name = k
    · subst same
      have none : (ms.map fun m => (m.1.toList, m.2)).filter (fun m => m.1 == name.toList) = [] := by
        refine List.filter_eq_nil_iff.2 fun m hm eq => nodup.1 ?_
        obtain ⟨b, hb, rfl⟩ := List.mem_map.1 hm
        exact List.mem_map.2 ⟨b, hb, String.toList_injective (by simpa using eq)⟩
      rw [field?, List.map_cons, List.filter_cons_of_pos (by simp), none, List.lookup_cons_self]
    · have other : ¬ k.toList = name.toList := fun eq => same (String.toList_injective eq.symm)
      rw [field?, List.map_cons, List.filter_cons_of_neg (by simpa using other), rest, List.lookup_cons,
        beq_eq_false_iff_ne.2 same]

/-- The fields of a record that was encoded; a field that was left out has no value. -/
theorem fields?_lookup {ms : List (String × Json)} {keys : List String} (eq : ms.map Prod.fst = keys)
    (nodup : keys.Nodup) (pos : budget ≠ 0) (names : List String) :
    fields? budget names (.ofMembers ms) = some (names.map (ms.lookup ·)) := by
  subst eq
  rw [ofMembers, fields?, if_neg pos]
  induction names with
  | nil => rfl
  | cons name names ih =>
    rw [List.mapM_cons, field?_ofMembers nodup, ih]
    rfl

theorem map_lookup {ms : List (String × Json)} (nodup : (ms.map Prod.fst).Nodup) :
    (ms.map Prod.fst).map (ms.lookup ·) = ms.map fun m => some m.2 := by
  induction ms with
  | nil => rfl
  | cons m ms ih =>
    rw [List.map_cons, List.nodup_cons] at nodup
    have rest : (ms.map Prod.fst).map (((m :: ms).lookup ·)) = (ms.map Prod.fst).map (ms.lookup ·) := by
      refine List.map_congr_left fun name mem => ?_
      have ne : name ≠ m.1 := fun eq => nodup.1 (eq ▸ mem)
      rw [List.lookup_cons, beq_eq_false_iff_ne.2 ne]
    rw [List.map_cons, List.map_cons, rest, ih nodup.2, List.map_cons, List.lookup_cons_self]

/-- The fields of a record that was encoded. -/
theorem fields?_ofMembers {ms : List (String × Json)} {names : List String} (eq : ms.map Prod.fst = names)
    (nodup : names.Nodup) (pos : budget ≠ 0) :
    fields? budget names (.ofMembers ms) = some (ms.map fun m => some m.2) := by
  subst eq
  rw [fields?_lookup rfl nodup pos, map_lookup nodup]

/-- The tag of a record that was encoded behind it, and the record. -/
theorem tagged?_ofMembers {tag : String} {ms : List (String × Json)} {names : List String}
    (eq : ms.map Prod.fst = names) (nodup : (tag :: names).Nodup) (j : Json) :
    tagged? tag (.ofMembers ((tag, j) :: ms)) = some (j, .ofMembers ms) := by
  subst eq
  have others : (ms.map fun m => (m.1.toList, m.2)).filter (fun m => m.1 != tag.toList)
      = ms.map fun m => (m.1.toList, m.2) := by
    refine List.filter_eq_self.2 fun m hm => ?_
    obtain ⟨b, hb, rfl⟩ := List.mem_map.1 hm
    refine bne_iff_ne.2 fun eq => (List.nodup_cons.1 nodup).1 ?_
    exact List.mem_map.2 ⟨b, hb, String.toList_injective eq⟩
  have found := field?_ofMembers (show (((tag, j) :: ms).map Prod.fst).Nodup from nodup) tag
  rw [List.lookup_cons_self] at found
  rw [ofMembers, tagged?, found]
  simp only [List.map_cons, List.filter_cons, bne_self_eq_false, Bool.false_eq_true, if_false, others]
  rfl

end Json

end BusinessClass
