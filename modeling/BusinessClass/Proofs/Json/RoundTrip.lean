import BusinessClass.Proofs.Json.Literal

/-!
# Reading JSON texts that were written

Both ways of writing a value differ in the blanks between tokens alone, and reading skips them.

* `Json.Plain` says that all numbers of a value are naturals that can be kept.
* `Json.Layout.write` writes a value with the given blanks; `compact_eq_write` and `prettyAt_eq_write` say
  that the two ways of writing do so.
* `Json.value?_write` reads what was written, whatever follows; `read?_compact` and `read?_pretty` follow.
-/

namespace BusinessClass

namespace Json

/-- The value has no numbers but naturals that can be kept, and no unusable literal. -/
inductive Plain : Json → Prop
  | null : Plain .null
  | bool (b : Bool) : Plain (.bool b)
  | natural {n : Nat} (lt : n < naturalBound) : Plain (.natural n)
  | string (t : Text) : Plain (.string t)
  | array {js : List Json} (each : ∀ j ∈ js, Plain j) : Plain (.array js)
  | object {ms : List (Text × Json)} (each : ∀ m ∈ ms, Plain m.2) : Plain (.object ms)

/-! ### Layouts -/

/-- The blanks of a way of writing. -/
structure Layout where
  /-- What stands in front of an element or a closing bracket at a level. -/
  newLine : Nat → Text
  /-- What stands behind a colon. -/
  afterColon : Text
  isGap_newLine : ∀ level, ∀ c ∈ newLine level, isGap c = true
  isGap_afterColon : ∀ c ∈ afterColon, isGap c = true

namespace Layout

variable (l : Layout)

mutual

/-- A value with the given blanks. -/
def write (level : Nat) : Json → Text
  | .array (j :: js) =>
    '[' :: l.newLine (level + 1) ++ elements (level + 1) (j :: js) ++ l.newLine level ++ [']']
  | .object (m :: ms) =>
    '{' :: l.newLine (level + 1) ++ members (level + 1) (m :: ms) ++ l.newLine level ++ ['}']
  | j => scalar j

/-- Elements with the given blanks. -/
def elements (level : Nat) : List Json → Text
  | [] => []
  | [j] => write level j
  | j :: js => write level j ++ ',' :: l.newLine level ++ elements level js

/-- Members with the given blanks. -/
def members (level : Nat) : List (Text × Json) → Text
  | [] => []
  | [(name, j)] => quote name ++ ':' :: l.afterColon ++ write level j
  | (name, j) :: ms =>
    quote name ++ ':' :: l.afterColon ++ write level j ++ ',' :: l.newLine level ++ members level ms

end

theorem write_array (level : Nat) (j : Json) (js : List Json) : l.write level (.array (j :: js))
    = '[' :: (l.newLine (level + 1) ++ (l.elements (level + 1) (j :: js) ++ (l.newLine level ++ [']']))) := by
  rw [write]
  simp

theorem write_object (level : Nat) (m : Text × Json) (ms : List (Text × Json)) :
    l.write level (.object (m :: ms)) = '{' :: (l.newLine (level + 1)
      ++ (l.members (level + 1) (m :: ms) ++ (l.newLine level ++ ['}']))) := by
  rw [write]
  simp

theorem elements_cons_cons (level : Nat) (j k : Json) (js : List Json) : l.elements level (j :: k :: js)
    = l.write level j ++ ',' :: (l.newLine level ++ l.elements level (k :: js)) := by
  rw [elements]
  · simp
  · simp

theorem members_singleton (level : Nat) (name : Text) (j : Json) :
    l.members level [(name, j)] = quote name ++ ':' :: (l.afterColon ++ l.write level j) := by
  rw [members]
  simp

theorem members_cons_cons (level : Nat) (name : Text) (j : Json) (m : Text × Json) (ms : List (Text × Json)) :
    l.members level ((name, j) :: m :: ms) = quote name ++ ':' :: (l.afterColon
      ++ (l.write level j ++ ',' :: (l.newLine level ++ l.members level (m :: ms)))) := by
  rw [members]
  · simp
  · simp

/-- No blanks. -/
def dense : Layout where
  newLine _ := []
  afterColon := []
  isGap_newLine _ _ h := by cases h
  isGap_afterColon _ h := by cases h

/-- One element to a line. -/
def lined : Layout where
  newLine := Json.newLine
  afterColon := [' ']
  isGap_newLine level c h := by
    rcases List.mem_cons.1 h with rfl | h
    · rfl
    · rw [List.eq_of_mem_replicate h]
      rfl
  isGap_afterColon c h := by
    rw [List.mem_singleton.1 h]
    rfl

end Layout

mutual

theorem compact_eq_write (level : Nat) : ∀ j, compact j = Layout.dense.write level j
  | .array [] => rfl
  | .array (j :: js) => by
    rw [compact, Layout.write, compactElements_eq_elements (level + 1)]
    simp [Layout.dense]
  | .object [] => rfl
  | .object (m :: ms) => by
    rw [compact, Layout.write, compactMembers_eq_members (level + 1)]
    simp [Layout.dense]
  | .null | .bool _ | .natural _ | .number _ | .string _ | .unusable _ => by
    rw [compact, Layout.write] <;> simp

theorem compactElements_eq_elements (level : Nat) : ∀ js, compactElements js = Layout.dense.elements level js
  | [] => rfl
  | [j] => by rw [compactElements, Layout.elements, compact_eq_write level]
  | j :: k :: js => by
    rw [compactElements, Layout.elements, compact_eq_write level, compactElements_eq_elements level (k :: js)]
    · simp [Layout.dense]
    · simp
    · simp

theorem compactMembers_eq_members (level : Nat) : ∀ ms, compactMembers ms = Layout.dense.members level ms
  | [] => rfl
  | [(name, j)] => by
    rw [compactMembers, Layout.members, compact_eq_write level]
    simp [Layout.dense]
  | (name, j) :: m :: ms => by
    rw [compactMembers, Layout.members, compact_eq_write level, compactMembers_eq_members level (m :: ms)]
    · simp [Layout.dense]
    · simp
    · simp

end

mutual

theorem prettyAt_eq_write (level : Nat) : ∀ j, prettyAt level j = Layout.lined.write level j
  | .array [] => rfl
  | .array (j :: js) => by
    rw [prettyAt, Layout.write, prettyElements_eq_elements (level + 1)]
    rfl
  | .object [] => rfl
  | .object (m :: ms) => by
    rw [prettyAt, Layout.write, prettyMembers_eq_members (level + 1)]
    rfl
  | .null | .bool _ | .natural _ | .number _ | .string _ | .unusable _ => by
    rw [prettyAt, Layout.write] <;> simp

theorem prettyElements_eq_elements (level : Nat) :
    ∀ js, prettyElements level js = Layout.lined.elements level js
  | [] => rfl
  | [j] => by rw [prettyElements, Layout.elements, prettyAt_eq_write level]
  | j :: k :: js => by
    rw [prettyElements, Layout.elements, prettyAt_eq_write level, prettyElements_eq_elements level (k :: js)]
    · rfl
    · simp
    · simp

theorem prettyMembers_eq_members (level : Nat) : ∀ ms, prettyMembers level ms = Layout.lined.members level ms
  | [] => rfl
  | [(name, j)] => by
    rw [prettyMembers, Layout.members, prettyAt_eq_write level]
    simp [Layout.lined]
  | (name, j) :: m :: ms => by
    rw [prettyMembers, Layout.members, prettyAt_eq_write level, prettyMembers_eq_members level (m :: ms)]
    · simp [Layout.lined]
    · simp
    · simp

end

/-! ### Blanks -/

theorem skipGap_append {gap : Text} (isGap : ∀ c ∈ gap, isGap c = true) (t : Text) :
    skipGap (gap ++ t) = skipGap t := List.dropWhile_append_of_pos isGap

theorem skipGap_cons {c : Char} (token : isGap c = false) (t : Text) : skipGap (c :: t) = c :: t :=
  List.dropWhile_cons_of_neg (by simp [token])

/-- Blanks in front of a value are skipped. -/
theorem value?_append {gap : Text} (isGap : ∀ c ∈ gap, isGap c = true) (fuel : Nat) (t : Text) :
    value? fuel (gap ++ t) = value? fuel t := by
  cases fuel with
  | zero => rw [value?, value?]
  | succ fuel => rw [value?, value?, skipGap_append isGap]

theorem elements?_append {gap : Text} (isGap : ∀ c ∈ gap, isGap c = true) (fuel : Nat) (t : Text) :
    elements? fuel (gap ++ t) = elements? fuel t := by
  cases fuel with
  | zero => rw [elements?, elements?]
  | succ fuel => rw [elements?, elements?, value?_append isGap]

theorem members?_append {gap : Text} (isGap : ∀ c ∈ gap, isGap c = true) (fuel : Nat) (t : Text) :
    members? fuel (gap ++ t) = members? fuel t := by
  cases fuel with
  | zero => rw [members?, members?]
  | succ fuel => rw [members?, members?, skipGap_append isGap]

/-- Blanks, commas and closing brackets end a number. -/
theorem endsNumber_of_gap {gap : Text} (isGap : ∀ c ∈ gap, isGap c = true) {t : Text} (ends : EndsNumber t) :
    EndsNumber (gap ++ t) := by
  cases gap with
  | nil => exact ends
  | cons c cs =>
    intro d hd
    cases hd
    have := isGap c List.mem_cons_self
    simp only [Json.isGap, Bool.or_eq_true, beq_iff_eq] at this
    rcases this with ((rfl | rfl) | rfl) | rfl <;> decide

theorem endsNumber_of_head {c : Char} (h : c.isDigit = false ∧ c ≠ '.' ∧ c ≠ 'e' ∧ c ≠ 'E') (t : Text) :
    EndsNumber (c :: t) := by
  intro d hd
  cases hd
  exact h

/-! ### Scalars -/

theorem isGap_eq_false_of_isDigit {c : Char} (h : c.isDigit = true) : isGap c = false := by
  refine Bool.eq_false_iff.2 fun gap => ?_
  simp only [isGap, Bool.or_eq_true, beq_iff_eq] at gap
  rcases gap with ((rfl | rfl) | rfl) | rfl <;> exact absurd h (by decide)

theorem value?_ofNat {n : Nat} (lt : n < naturalBound) {rest : Text} (ends : EndsNumber rest) (fuel : Nat) :
    value? (fuel + 1) (Text.ofNat n ++ rest) = some (.natural n, rest) := by
  have read := Numeral.read?_ofNat n ends
  obtain ⟨d, ds, digits, isDigit⟩ := Numeral.exists_ofNat_eq_cons n
  have skip : skipGap (Text.ofNat n ++ rest) = Text.ofNat n ++ rest := by
    rw [digits]
    exact skipGap_cons (isGap_eq_false_of_isDigit isDigit) _
  rw [value?, skip]
  split
  -- A digit starts neither a word nor a string nor a container.
  all_goals rename_i eq
  iterate 6
    rw [digits] at eq
    rw [(List.cons.inj eq).1] at isDigit
    exact absurd isDigit (by decide)
  rw [read, Option.map_some, Numeral.toJson_ofNat lt]

theorem skipGap_quote (name t : Text) :
    skipGap (quote name ++ t) = '"' :: (name.flatMap escapeChar ++ '"' :: t) := by
  rw [quote, List.cons_append, List.cons_append, List.append_assoc]
  exact skipGap_cons (by decide) _

theorem value?_quote (t : Text) (rest : Text) (fuel : Nat) :
    value? (fuel + 1) (quote t ++ rest) = some (.string t, rest) := by
  rw [value?, skipGap_quote]
  simp only [string?_quote]

/-! ### Containers -/

/-- What `value?` does with a text that a layout gave: it reads the value and leaves what follows. -/
def ReadsBack (l : Layout) (j : Json) : Prop :=
  ∀ (level fuel : Nat) (rest : Text), EndsNumber rest → 2 * (l.write level j).length ≤ fuel →
    value? fuel (l.write level j ++ rest) = some (j, rest)

/-- A value that was written starts with a token that opens it. -/
theorem exists_write_eq_cons (l : Layout) (level : Nat) {j : Json} (plain : Plain j) :
    ∃ c cs, l.write level j = c :: cs ∧ isGap c = false ∧ c ≠ ']' := by
  cases plain with
  | null => exact ⟨'n', _, rfl, rfl, by decide⟩
  | bool b => cases b with
    | false => exact ⟨'f', _, rfl, rfl, by decide⟩
    | true => exact ⟨'t', _, rfl, rfl, by decide⟩
  | @natural n lt =>
    obtain ⟨d, ds, digits, isDigit⟩ := Numeral.exists_ofNat_eq_cons n
    refine ⟨d, ds, digits, isGap_eq_false_of_isDigit isDigit, ?_⟩
    rintro rfl
    exact absurd isDigit (by decide)
  | string t => exact ⟨'"', _, rfl, rfl, by decide⟩
  | @array js each => cases js with
    | nil => exact ⟨'[', _, rfl, rfl, by decide⟩
    | cons j js => exact ⟨'[', _, rfl, rfl, by decide⟩
  | @object ms each => cases ms with
    | nil => exact ⟨'{', _, rfl, rfl, by decide⟩
    | cons m ms => exact ⟨'{', _, rfl, rfl, by decide⟩

/-- Elements do not start with the bracket that closes them. -/
theorem head?_skipGap_elements (l : Layout) (level : Nat) {j : Json} (plain : Plain j) (js : List Json)
    (t : Text) : (skipGap (l.elements level (j :: js) ++ t)).head? ≠ some ']' := by
  obtain ⟨c, cs, first, token, ne⟩ := exists_write_eq_cons l level plain
  obtain ⟨tail, elements⟩ : ∃ tail, l.elements level (j :: js) = c :: tail := by
    cases js with
    | nil => exact ⟨cs, by rw [Layout.elements, first]⟩
    | cons k js => exact ⟨_, by rw [Layout.elements_cons_cons, first, List.cons_append]⟩
  rw [elements, List.cons_append, skipGap_cons token]
  simpa using ne

/-- Members do not start with the brace that closes them. -/
theorem head?_skipGap_members (l : Layout) (level : Nat) (m : Text × Json) (ms : List (Text × Json)) (t : Text) :
    (skipGap (l.members level (m :: ms) ++ t)).head? ≠ some '}' := by
  obtain ⟨tail, members⟩ : ∃ tail, l.members level (m :: ms) = quote m.1 ++ tail := by
    cases ms with
    | nil => exact ⟨_, l.members_singleton level m.1 m.2⟩
    | cons k ms => exact ⟨_, l.members_cons_cons level m.1 m.2 k ms⟩
  rw [members, List.append_assoc, skipGap_quote]
  simp

theorem value?_array {cs : Text} (filled : (skipGap cs).head? ≠ some ']') (fuel : Nat) :
    value? (fuel + 1) ('[' :: cs) = (elements? fuel cs).map fun r => (.array r.1, r.2) := by
  rw [value?, skipGap_cons (by decide)]
  simp only
  split
  · rename_i eq
    rw [eq] at filled
    exact absurd rfl filled
  · rfl

theorem named?_map_some (ms : List (Text × Json)) : named? (ms.map fun m => (some m.1, m.2)) = some ms := by
  induction ms with
  | nil => rfl
  | cons m ms ih => rw [List.map_cons, named?, ih, Option.map_some]

theorem value?_object {cs : Text} (filled : (skipGap cs).head? ≠ some '}') {fuel : Nat}
    {ms : List (Text × Json)} {rest : Text}
    (read : members? fuel cs = some (ms.map fun m => (some m.1, m.2), rest)) :
    value? (fuel + 1) ('{' :: cs) = some (.object ms, rest) := by
  rw [value?, skipGap_cons (by decide)]
  simp only
  split
  · rename_i eq
    rw [eq] at filled
    exact absurd rfl filled
  · simp only [read, named?_map_some]

theorem elements?_elements (l : Layout) {js : List Json} (ne : js ≠ [])
    (each : ∀ j ∈ js, ReadsBack l j) (level outer : Nat) (rest : Text) :
    ∀ fuel, 2 * (l.elements level js).length + 1 ≤ fuel →
      elements? fuel (l.elements level js ++ (l.newLine outer ++ ']' :: rest)) = some (js, rest) := by
  induction js with
  | nil => exact absurd rfl ne
  | cons j js ih =>
    intro fuel enough
    have first := each j List.mem_cons_self level
    obtain ⟨fuel, rfl⟩ : ∃ k, fuel = k + 1 := ⟨fuel - 1, by omega⟩
    have close : skipGap (l.newLine outer ++ ']' :: rest) = ']' :: rest :=
      (skipGap_append (l.isGap_newLine outer) _).trans (skipGap_cons (by decide) _)
    cases js with
    | nil =>
      rw [Layout.elements] at enough ⊢
      have ends := endsNumber_of_gap (l.isGap_newLine outer) (endsNumber_of_head (c := ']') (by decide) rest)
      rw [elements?, first fuel _ ends (by omega)]
      simp only [close]
    | cons k js =>
      have later := ih (List.cons_ne_nil k js) (fun b hb => each b (List.mem_cons_of_mem j hb)) fuel
      rw [Layout.elements_cons_cons] at enough ⊢
      simp only [List.length_append, List.length_cons] at enough
      rw [List.append_assoc, List.cons_append, elements?,
        first fuel _ (endsNumber_of_head (by decide) _) (by omega)]
      simp only [skipGap_cons (show isGap ',' = false by decide)]
      rw [List.append_assoc, elements?_append (l.isGap_newLine level), later (by omega)]
      rfl

theorem members?_of_comma (l : Layout) {name t rest rest' : Text} {j : Json} {fuel : Nat}
    (value : value? fuel t = some (j, rest)) (comma : skipGap rest = ',' :: rest') :
    members? (fuel + 1) (quote name ++ ':' :: (l.afterColon ++ t))
      = (members? fuel rest').map fun r => ((some name, j) :: r.1, r.2) := by
  rw [members?, skipGap_quote]
  simp only [string?_quote, skipGap_cons (show isGap ':' = false by decide),
    value?_append l.isGap_afterColon, value, comma]

theorem members?_of_close (l : Layout) {name t rest rest' : Text} {j : Json} {fuel : Nat}
    (value : value? fuel t = some (j, rest)) (close : skipGap rest = '}' :: rest') :
    members? (fuel + 1) (quote name ++ ':' :: (l.afterColon ++ t)) = some ([(some name, j)], rest') := by
  rw [members?, skipGap_quote]
  simp only [string?_quote, skipGap_cons (show isGap ':' = false by decide),
    value?_append l.isGap_afterColon, value, close]

theorem members?_members (l : Layout) {ms : List (Text × Json)} (ne : ms ≠ [])
    (each : ∀ m ∈ ms, ReadsBack l m.2) (level outer : Nat) (rest : Text) :
    ∀ fuel, 2 * (l.members level ms).length + 1 ≤ fuel →
      members? fuel (l.members level ms ++ (l.newLine outer ++ '}' :: rest))
        = some (ms.map fun m => (some m.1, m.2), rest) := by
  induction ms with
  | nil => exact absurd rfl ne
  | cons m ms ih =>
    intro fuel enough
    obtain ⟨name, j⟩ := m
    have first : ReadsBack l j := each (name, j) List.mem_cons_self
    obtain ⟨fuel, rfl⟩ : ∃ k, fuel = k + 1 := ⟨fuel - 1, by omega⟩
    cases ms with
    | nil =>
      rw [Layout.members_singleton] at enough ⊢
      simp only [List.length_append, List.length_cons] at enough
      have ends := endsNumber_of_gap (l.isGap_newLine outer) (endsNumber_of_head (c := '}') (by decide) rest)
      rw [List.append_assoc, List.cons_append, List.append_assoc]
      refine members?_of_close l (first level fuel _ ends (by omega)) ?_
      exact (skipGap_append (l.isGap_newLine outer) _).trans (skipGap_cons (by decide) _)
    | cons k ms =>
      have later := ih (List.cons_ne_nil k ms) (fun b hb => each b (List.mem_cons_of_mem _ hb)) fuel
      rw [Layout.members_cons_cons] at enough ⊢
      simp only [List.length_append, List.length_cons] at enough
      rw [List.append_assoc, List.cons_append, List.append_assoc, List.append_assoc, List.cons_append]
      have value (t : Text) := first level fuel (',' :: t) (endsNumber_of_head (by decide) t) (by omega)
      rw [members?_of_comma l (value _) (skipGap_cons (by decide) _), List.append_assoc,
        members?_append (l.isGap_newLine level), later (by omega)]
      rfl

/-- Reading what was written gives the value back and leaves what follows. -/
theorem value?_write (l : Layout) {j : Json} (plain : Plain j) : ReadsBack l j := by
  -- A written value has a character at least, so there is fuel for one call.
  have some_fuel {level fuel : Nat} {j : Json} (plain : Plain j)
      (enough : 2 * (l.write level j).length ≤ fuel) : ∃ k, fuel = k + 1 := by
    obtain ⟨c, cs, write, -⟩ := exists_write_eq_cons l level plain
    rw [write, List.length_cons] at enough
    exact ⟨fuel - 1, by omega⟩
  induction plain with
  | null =>
    intro level fuel rest _ enough
    obtain ⟨fuel, rfl⟩ := some_fuel .null enough
    rfl
  | bool b =>
    intro level fuel rest _ enough
    obtain ⟨fuel, rfl⟩ := some_fuel (.bool b) enough
    cases b <;> rfl
  | natural lt =>
    intro level fuel rest ends enough
    obtain ⟨fuel, rfl⟩ := some_fuel (.natural lt) enough
    exact value?_ofNat lt ends fuel
  | string t =>
    intro level fuel rest _ enough
    obtain ⟨fuel, rfl⟩ := some_fuel (.string t) enough
    exact value?_quote t rest fuel
  | @array js each ih =>
    intro level fuel rest _ enough
    obtain ⟨fuel, rfl⟩ := some_fuel (.array each) enough
    cases js with
    | nil => rfl
    | cons j js =>
      rw [Layout.write_array] at enough ⊢
      simp only [List.length_append, List.length_cons, List.length_nil] at enough
      have inside := elements?_elements l (List.cons_ne_nil j js) ih (level + 1) level rest fuel (by omega)
      have filled := head?_skipGap_elements l (level + 1) (each j List.mem_cons_self) js
        (l.newLine level ++ ']' :: rest)
      simp only [List.cons_append, List.append_assoc, List.nil_append]
      rw [value?_array, elements?_append (l.isGap_newLine _), inside]
      · rfl
      · rwa [skipGap_append (l.isGap_newLine _)]
  | @object ms each ih =>
    intro level fuel rest _ enough
    obtain ⟨fuel, rfl⟩ := some_fuel (.object each) enough
    cases ms with
    | nil => rfl
    | cons m ms =>
      rw [Layout.write_object] at enough ⊢
      simp only [List.length_append, List.length_cons, List.length_nil] at enough
      have inside := members?_members l (List.cons_ne_nil m ms) ih (level + 1) level rest fuel (by omega)
      have filled := head?_skipGap_members l (level + 1) m ms (l.newLine level ++ '}' :: rest)
      simp only [List.cons_append, List.append_assoc, List.nil_append]
      refine value?_object ?_ ?_
      · rwa [skipGap_append (l.isGap_newLine _)]
      · rw [members?_append (l.isGap_newLine _), inside]

/-- A text that was written is read. -/
theorem read?_write (l : Layout) {j : Json} (plain : Plain j) : read? (l.write 0 j) = some j := by
  have read := value?_write l plain 0 (2 * (l.write 0 j).length + 1) [] (by simp [EndsNumber]) (by omega)
  rw [List.append_nil] at read
  rw [read?, read]
  rfl

theorem read?_compact {j : Json} (plain : Plain j) : read? j.compact = some j := by
  rw [compact_eq_write 0, read?_write _ plain]

theorem read?_pretty {j : Json} (plain : Plain j) : read? j.pretty = some j := by
  rw [pretty, prettyAt_eq_write, read?_write _ plain]

end Json

end BusinessClass
