import BusinessClass.Document.RelationView
import BusinessClass.Proofs.Outline.Layout
import BusinessClass.Proofs.Text.Words
import Mathlib.Data.List.Induction
import Mathlib.Data.List.Infix
import Mathlib.Tactic.SplitIfs

/-!
# What the lines of a relation say

The lines of a relation are scanned once, and each line that is read changes one slot at most. What a slot holds in the
end can be said without the scan: it comes from the first line that has something for it, among the lines that are not
taken for the related class.

* `FirstLink` cuts the words of a line at the first `relation to`; `Related` says which line gives the related class
  and its cardinality, and which lines are left for the other slots.
* `First` says which line fills a slot, for a relation between lines and what they give.
* `addLine_eq`: a line that is left changes the slot that it is for. `Describes.add`: reading one more line.
* `describes_ofBody`: what the view of a relation holds.
-/

namespace BusinessClass

namespace RelationView

/-! ### The slots -/

/-- The words that announce the related class. -/
def link : List Text := ["relation".toList, "to".toList]

/-- The words are those in front of the first `relation to`, this pair, and those behind it. -/
structure FirstLink (words front back : List Text) : Prop where
  here : words = front ++ (link ++ back)
  first : ∀ front' back', words = front' ++ (link ++ back') → front.length ≤ front'.length

/-- The line holds `relation to`. -/
def IsRelationLine (n : Node) : Prop := link <:+: n.text.words

instance (n : Node) : Decidable (IsRelationLine n) := inferInstanceAs (Decidable (link <:+: n.text.words))

/-- The line names a class: the word behind its first `relation to`. -/
def Names (n : Node) (target : Text) : Prop := ∃ front back, FirstLink n.text.words front (target :: back)

/-- Cardinality and related class that lines give, and the lines that are left for the other slots. -/
inductive Related : List Node → Option Text → Option Text → List Node → Prop
  /-- The first line that names a class counts. Lines with `relation to` are left out up to this one. -/
  | named {before after : List Node} {n : Node} {front back : List Text} {target : Text}
      (unnamed : ∀ m ∈ before, ∀ t, ¬ Names m t) (line : FirstLink n.text.words front (target :: back)) :
      Related (before ++ n :: after) front.getLast? (some target) (before.filter (¬ IsRelationLine ·) ++ after)
  /-- No line names a class. The last one with `relation to` counts, and all of them are left out. -/
  | unnamed {before after : List Node} {n : Node} {front : List Text}
      (unnamed : ∀ m ∈ before ++ n :: after, ∀ t, ¬ Names m t) (line : FirstLink n.text.words front [])
      (last : ∀ m ∈ after, ¬ IsRelationLine m) :
      Related (before ++ n :: after) front.getLast? none ((before ++ n :: after).filter (¬ IsRelationLine ·))
  /-- There is no line with `relation to`. -/
  | absent {lines : List Node} (absent : ∀ m ∈ lines, ¬ IsRelationLine m) : Related lines none none lines

/-- What the first of some lines gives that gives something. -/
inductive First (Gives : Node → Text → Prop) : List Node → Option Text → Prop
  | absent {lines : List Node} (nothing : ∀ m ∈ lines, ∀ t, ¬ Gives m t) : First Gives lines none
  | found {before after : List Node} {n : Node} {t : Text} (nothing : ∀ m ∈ before, ∀ t, ¬ Gives m t)
      (gives : Gives n t) : First Gives (before ++ n :: after) (some t)

/-- The first two words are `field mapping`, in any letter case. -/
def IsFieldMapping (n : Node) : Prop := ∃ a b rest, n.text.words = a :: b :: rest ∧
  Text.sameLetters a "field".toList = true ∧ Text.sameLetters b "mapping".toList = true

/-- What is behind the first `uses` among words; `default` if there is nothing, or no `uses`. -/
inductive Uses : List Text → Text → Prop
  | named {front used : List Text} (first : "uses".toList ∉ front) (some : used ≠ []) :
      Uses (front ++ "uses".toList :: used) (Text.unwords used)
  | nothing {front : List Text} (first : "uses".toList ∉ front) : Uses (front ++ ["uses".toList]) "default".toList
  | absent {words : List Text} (absent : "uses".toList ∉ words) : Uses words "default".toList

/-- The line is a field mapping and uses this. -/
def MapsFields (n : Node) (used : Text) : Prop := IsFieldMapping n ∧ Uses n.text.words used

/-- The first word of the line is `where`, and the text is the filter of the clause that it begins. -/
def Filters (n : Node) (filter : Text) : Prop :=
  n.text.words.head? = some WhereClause.keyword ∧ WhereClause.filter? (clause n) = some filter

/-- What the lines of a relation say: some give the related class, and the other slots are filled from those left. -/
def Describes (lines : List Node) (v : RelationView) : Prop := ∃ left,
  Related lines v.cardinality v.target left ∧
  v.mappings = (left.filter fun n => "related.".toList <+: n.text).map Node.text ∧
  First MapsFields left v.fieldMapping ∧ First Filters left v.instanceSelection

/-! ### Lines with `relation to` -/

section Link

variable {words front back front' back' : List Text}

theorem FirstLink.unique (h : FirstLink words front back) (h' : FirstLink words front' back') :
    front = front' ∧ back = back' := by
  have size : front.length = front'.length :=
    Nat.le_antisymm (h.first _ _ h'.here) (h'.first _ _ h.here)
  obtain ⟨front_eq, rest⟩ := List.append_inj (h.here.symm.trans h'.here) size
  exact ⟨front_eq, List.append_cancel_left rest⟩

theorem FirstLink.isInfix (h : FirstLink words front back) : link <:+: words :=
  ⟨front, back, by rw [h.here, List.append_assoc]⟩

/-- The pair is not at the front of the words, so it is found in the rest if it is found at all. -/
theorem firstLink_cons {w : Text} (none : ¬ link <+: w :: words) (h : FirstLink words front back) :
    FirstLink (w :: words) (w :: front) back := by
  refine ⟨by rw [h.here, List.cons_append], fun front' back' here => ?_⟩
  cases front' with
  | nil => exact absurd ⟨back', here.symm⟩ none
  | cons v vs =>
    obtain ⟨rfl, rest⟩ := List.cons.inj (here.trans List.cons_append)
    exact Nat.succ_le_succ (h.first vs back' rest)

/-- The search finds the first pair, with the words next to it. -/
theorem aroundRelationTo_cases (before : Option Text) (words : List Text) :
    (aroundRelationTo before words = none ∧ ¬ link <:+: words) ∨ ∃ front back, FirstLink words front back ∧
      aroundRelationTo before words = some (front.getLast?.or before, back.head?) := by
  induction before, words using aroundRelationTo.induct with
  | case1 before a b rest pair =>
    obtain ⟨rfl, rfl⟩ := pair
    -- nothing is in front of the pair, so the word before counts
    refine .inr ⟨[], rest, ⟨rfl, fun _ _ _ => Nat.zero_le _⟩, ?_⟩
    rw [aroundRelationTo, if_pos ⟨rfl, rfl⟩]
    rfl
  | case2 before a b rest noPair ih =>
    have notHere : ¬ link <+: a :: b :: rest := by
      rintro ⟨back, here⟩
      obtain ⟨relation, behind⟩ := List.cons.inj here
      exact noPair ⟨relation.symm, (List.cons.inj behind).1.symm⟩
    rw [aroundRelationTo, if_neg noPair]
    rcases ih with ⟨none, notLater⟩ | ⟨front, back, line, found⟩
    · refine .inl ⟨none, fun inside => ?_⟩
      exact (List.infix_cons_iff.1 inside).elim notHere notLater
    · refine .inr ⟨a :: front, back, firstLink_cons notHere line, ?_⟩
      rw [found, List.getLast?_cons]
      cases front.getLast? <;> rfl
  | case3 words before short =>
    match words with
    | [] => exact .inl ⟨rfl, by decide⟩
    | [a] => exact .inl ⟨rfl, fun inside => Nat.not_succ_le_self 1 inside.length_le⟩
    | a :: b :: rest => exact absurd rfl (short a b rest)

theorem aroundRelationTo_eq_none_iff : aroundRelationTo none words = none ↔ ¬ link <:+: words := by
  rcases aroundRelationTo_cases none words with ⟨none, notInside⟩ | ⟨front, back, line, found⟩
  · simp [none, notInside]
  · simp [found, line.isInfix]

theorem firstLink_of_aroundRelationTo {cardinality target : Option Text}
    (h : aroundRelationTo none words = some (cardinality, target)) :
    ∃ front back, FirstLink words front back ∧ front.getLast? = cardinality ∧ back.head? = target := by
  rcases aroundRelationTo_cases none words with ⟨none, -⟩ | ⟨front, back, line, found⟩
  · cases none.symm.trans h
  · cases found.symm.trans h
    exact ⟨front, back, line, (Option.or_none).symm, rfl⟩

end Link

/-- A line without `relation to` names no class. -/
theorem not_names {n : Node} (h : ¬ IsRelationLine n) (t : Text) : ¬ Names n t :=
  fun ⟨_, _, line⟩ => h line.isInfix

/-! ### Lines for the other slots -/

section Lines

variable {n : Node} {t : Text}

theorem startsWithWords_iff : Text.startsWithWords "Field Mapping".toList n.text = true ↔ IsFieldMapping n := by
  have lead : (Text.words "Field Mapping".toList).map Text.lower = ["field".toList, "mapping".toList] := by decide
  have small : Text.lower "field".toList = "field".toList ∧ Text.lower "mapping".toList = "mapping".toList := by decide
  rw [Text.startsWithWords, lead, IsFieldMapping, List.isPrefixOf_iff_prefix]
  simp only [Text.sameLetters, beq_iff_eq, small]
  rcases n.text.words with _ | ⟨a, _ | ⟨b, rest⟩⟩
  · simp
  · simp
  · simp [List.cons_prefix_cons, eq_comm]

/-- What is read off a field mapping is what is behind its first `uses`. -/
theorem uses_iff {words : List Text} : Uses words t ↔ t = mappingUsed words := by
  constructor
  · rintro (⟨first, some⟩ | first | absent)
    · rw [mappingUsed, dropWhile_ne_append first, List.tail_cons]
      split
      · exact absurd rfl some
      · rfl
    · rw [mappingUsed, dropWhile_ne_append first]
      rfl
    · rw [mappingUsed, dropWhile_ne_of_not_mem absent]
      rfl
  · rintro rfl
    by_cases mem : "uses".toList ∈ words
    · obtain ⟨front, used, rfl, first⟩ := List.eq_append_cons_of_mem mem
      rw [mappingUsed, dropWhile_ne_append first, List.tail_cons]
      cases used with
      | nil => exact .nothing first
      | cons u us => exact .named first (List.cons_ne_nil u us)
    · rw [mappingUsed, dropWhile_ne_of_not_mem mem]
      exact .absent mem

theorem mapsFields_iff : MapsFields n t ↔ IsFieldMapping n ∧ t = mappingUsed n.text.words := by
  rw [MapsFields, uses_iff]

/-- A line that starts with `related.` has this at the front of its first word. -/
theorem head?_words_of_isMapping (h : "related.".toList <+: n.text) :
    ∃ w, n.text.words.head? = some ("related.".toList ++ w) := by
  obtain ⟨rest, text_eq⟩ := h
  have plain : ("related.".toList.all fun c => isBlank c = false) = true := by decide
  have noBlank : ∀ c ∈ "related.".toList, isBlank c = false :=
    fun c hc => of_decide_eq_true (List.all_eq_true.1 plain c hc)
  obtain ⟨v, vs, split⟩ := List.exists_cons_of_ne_nil (Text.split_ne_nil isBlank rest)
  refine ⟨v, ?_⟩
  rw [← text_eq, Text.words, Text.split_append noBlank split]
  rfl

/-- The other slots are for lines with different first words. -/
theorem not_isMapping_of_isFieldMapping (h : IsFieldMapping n) :
    ¬ "related.".toList <+: n.text ∧ n.text.words.head? ≠ some WhereClause.keyword := by
  obtain ⟨a, b, rest, words_eq, field, -⟩ := h
  have small : Text.lower a = "field".toList := beq_iff_eq.1 field
  rw [words_eq, List.head?_cons]
  refine ⟨fun mapping => ?_, fun where_ => ?_⟩
  · obtain ⟨w, head⟩ := head?_words_of_isMapping mapping
    rw [words_eq, List.head?_cons] at head
    obtain rfl := Option.some.inj head
    rw [Text.lower, List.map_append] at small
    exact absurd (List.cons.inj small).1 (by decide)
  · obtain rfl := Option.some.inj where_
    exact absurd small (by decide)

theorem head?_words_ne_of_isMapping (h : "related.".toList <+: n.text) :
    n.text.words.head? ≠ some WhereClause.keyword := by
  obtain ⟨w, head⟩ := head?_words_of_isMapping h
  rw [head]
  intro where_
  exact absurd (List.cons.inj (Option.some.inj where_)).1 (by decide)

end Lines

/-! ### Reading one line -/

section AddLine

variable (v : RelationView) (n : Node)

/-- The name under which a field mapping is kept; none for any other line. -/
def mapped? (n : Node) : Option Text :=
  if Text.startsWithWords "Field Mapping".toList n.text then some (mappingUsed n.text.words) else none

/-- The filter that a line begins; none for a line that does not start with `where`. -/
def filtered? (n : Node) : Option Text :=
  if n.text.words.head? = some WhereClause.keyword then WhereClause.filter? (clause n) else none

theorem mapped?_eq_some_iff (t : Text) : mapped? n = some t ↔ MapsFields n t := by
  rw [mapped?, Option.ite_none_right_eq_some, startsWithWords_iff, mapsFields_iff, Option.some.injEq, eq_comm]

theorem filtered?_eq_some_iff (t : Text) : filtered? n = some t ↔ Filters n t := by
  rw [filtered?, Option.ite_none_right_eq_some, Filters]

/-- No line is for two slots, so each slot takes what the line has for it unless it is full. -/
theorem addLine_eq : v.addLine n = { v with
    fieldMapping := v.fieldMapping.or (mapped? n)
    mappings := v.mappings ++ if "related.".toList <+: n.text then [n.text] else []
    instanceSelection := v.instanceSelection.or (filtered? n) } := by
  have mapping : isMapping n = true ↔ "related.".toList <+: n.text := List.isPrefixOf_iff_prefix
  obtain ⟨cardinality, target, fieldMapping, mappings, selection⟩ := v
  simp only [addLine, mapped?, filtered?, Bool.and_eq_true, beq_iff_eq, mapping]
  by_cases field : Text.startsWithWords "Field Mapping".toList n.text = true
  · -- also behind another field mapping such a line leaves the other slots alone
    obtain ⟨notMapping, notWhere⟩ := not_isMapping_of_isFieldMapping (startsWithWords_iff.1 field)
    simp only [field, notMapping, notWhere, and_true, and_false, if_true, if_false, List.append_nil, Option.or_none]
    cases fieldMapping <;> rfl
  · simp only [field, Bool.false_eq_true, and_false, if_false, Option.or_none]
    by_cases related : "related.".toList <+: n.text
    · simp only [related, head?_words_ne_of_isMapping related, if_true, if_false, Option.or_none]
    · simp only [related, if_false, List.append_nil]
      by_cases clause : n.text.words.head? = some WhereClause.keyword
      · simp only [clause, and_true, if_true]
        cases selection <;> rfl
      · simp only [clause, and_false, if_false, Option.or_none]

end AddLine

/-! ### Reading the lines -/

/-- One more line: an empty slot takes what the line gives. -/
theorem First.concat {Gives : Node → Text → Prop} {lines : List Node} {o o' : Option Text} {n : Node}
    (h : First Gives lines o) (gives : ∀ t, o' = some t ↔ Gives n t) : First Gives (lines ++ [n]) (o.or o') := by
  cases h with
  | @found before after m t nothing given =>
    rw [List.append_assoc, List.cons_append]
    exact .found nothing given
  | absent nothing =>
    rw [Option.none_or]
    cases o' with
    | some t => exact .found nothing ((gives t).1 rfl)
    | none =>
      refine .absent fun m hm => ?_
      obtain hm | hm := List.mem_append.1 hm
      · exact nothing m hm
      · obtain rfl := List.mem_singleton.1 hm
        exact fun t given => Option.some_ne_none t ((gives t).2 given).symm

section Step

variable {lines left : List Node} {cardinality cardinality' target' : Option Text} {target : Text} {n : Node}

/-- As long as no class is named, all lines with `relation to` are left out. -/
theorem Related.of_none (h : Related lines cardinality none left) :
    (∀ m ∈ lines, ∀ t, ¬ Names m t) ∧ left = lines.filter (¬ IsRelationLine ·) := by
  cases h with
  | unnamed nothing line last => exact ⟨nothing, rfl⟩
  | absent absent =>
    exact ⟨fun m hm => not_names (absent m hm), (List.filter_eq_self.2 fun m hm => decide_eq_true (absent m hm)).symm⟩

/-- Once a class is named, any line is left for the other slots. -/
theorem Related.concat_of_some (h : Related lines cardinality (some target) left) :
    Related (lines ++ [n]) cardinality (some target) (left ++ [n]) := by
  cases h with
  | named nothing line =>
    rw [List.append_assoc, List.append_assoc, List.cons_append]
    exact .named nothing line

/-- A line without `relation to` is left for the other slots. -/
theorem Related.concat_of_not (h : Related lines cardinality none left) (plain : ¬ IsRelationLine n) :
    Related (lines ++ [n]) cardinality none (left ++ [n]) := by
  have also {P : Node → Prop} {ms : List Node} (old : ∀ m ∈ ms, P m) (new : P n) : ∀ m ∈ ms ++ [n], P m :=
    List.forall_mem_append.2 ⟨old, List.forall_mem_singleton.2 new⟩
  cases h with
  | @unnamed before after m front nothing line last =>
    have kept : (before ++ m :: after).filter (¬ IsRelationLine ·) ++ [n] =
        (before ++ m :: (after ++ [n])).filter (¬ IsRelationLine ·) := by
      simp only [List.filter_append, List.filter_cons, List.filter_nil, plain, not_false_eq_true, decide_true, if_true,
        List.append_assoc]
      split <;> rfl
    -- the last line with `relation to` is still the last one
    rw [kept, List.append_assoc, List.cons_append]
    refine .unnamed ?_ line (also last plain)
    rw [← List.cons_append, ← List.append_assoc]
    exact also nothing (not_names plain)
  | absent absent => exact .absent (also absent plain)

/-- As long as no class is named, a line with `relation to` replaces what was read. -/
theorem Related.concat_of_link (h : Related lines cardinality none left)
    (around : aroundRelationTo none n.text.words = some (cardinality', target')) :
    Related (lines ++ [n]) cardinality' target' left := by
  obtain ⟨nothing, rfl⟩ := h.of_none
  obtain ⟨front, back, line, rfl, rfl⟩ := firstLink_of_aroundRelationTo around
  cases back with
  | cons target back =>
    rw [← List.append_nil (lines.filter _)]
    exact .named nothing line
  | nil =>
    have unnamed : ∀ m ∈ lines ++ [n], ∀ t, ¬ Names m t := by
      refine List.forall_mem_append.2 ⟨nothing, List.forall_mem_singleton.2 fun t ⟨_, _, naming⟩ => ?_⟩
      exact List.cons_ne_nil _ _ (naming.unique line).2
    have result := Related.unnamed unnamed line (List.forall_mem_nil _)
    have out : IsRelationLine n := line.isInfix
    rwa [List.filter_append, List.filter_singleton, decide_eq_false (not_not_intro out), cond_false,
      List.append_nil] at result

end Step

/-- A line that is not taken for the related class fills the other slots. -/
theorem Describes.addLine {lines : List Node} {v : RelationView} {n : Node} (h : Describes lines v)
    (related : ∀ left, Related lines v.cardinality v.target left →
      Related (lines ++ [n]) v.cardinality v.target (left ++ [n])) :
    Describes (lines ++ [n]) (v.addLine n) := by
  obtain ⟨left, given, mappings, field, selection⟩ := h
  rw [addLine_eq]
  refine ⟨left ++ [n], related left given, ?_, field.concat (mapped?_eq_some_iff n),
    selection.concat (filtered?_eq_some_iff n)⟩
  rw [List.filter_append, List.map_append, ← mappings, List.filter_singleton]
  split_ifs with mapping
  · rw [decide_eq_true mapping]
    rfl
  · rw [decide_eq_false mapping]
    rfl

/-- One more line is read. -/
theorem Describes.add {lines : List Node} {v : RelationView} (h : Describes lines v) (n : Node) :
    Describes (lines ++ [n]) (v.add n) := by
  rw [RelationView.add]
  split
  case h_1 cardinality target unknown line =>
    obtain ⟨left, given, others⟩ := h
    rw [unknown] at given
    exact ⟨left, given.concat_of_link line, others⟩
  case h_2 _ known =>
    refine h.addLine fun left given => ?_
    match target : v.target with
    | some _ =>
      rw [target] at given
      exact given.concat_of_some
    | none =>
      rw [target] at given
      refine given.concat_of_not (aroundRelationTo_eq_none_iff.1 ?_)
      exact Option.eq_none_iff_forall_ne_some.2 fun around line => known _ _ target line

/-- **What the view of a relation holds.** The lines of the body and what is under them are read from the top. The
first line that names a class gives it with its cardinality; without one, the last line with `relation to` gives the
cardinality. Each other slot is filled by the first line that has something for it, among the lines that are left. -/
theorem describes_ofBody (body : List Node) : Describes (Forest.nodes body) (ofBody body) := by
  rw [ofBody]
  -- over the lines read so far: the last of them is read last
  induction Forest.nodes body using List.reverseRecOn with
  | nil =>
    exact ⟨[], .absent (List.forall_mem_nil _), rfl, .absent (List.forall_mem_nil _), .absent (List.forall_mem_nil _)⟩
  | append_singleton lines n ih =>
    rw [List.foldl_append]
    exact ih.add n

/-- A line that names no class gives way to one that does, and a clause without a filter to one that has one. -/
example : ofBody (Forest.outline (["many relation to", "one relation to A relation to B", "where c", "\tfield  MAPPING",
      "related.d relation to", "two relation to E", "where (related.f", "\trelated.g)"].map String.toList)) =
    { cardinality := some "one".toList, target := some "A".toList, fieldMapping := some "default".toList,
      mappings := ["related.d relation to".toList, "related.g)".toList],
      instanceSelection := some "related.f related.g".toList } := by
  decide +kernel

end RelationView

end BusinessClass
