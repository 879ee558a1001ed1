import BusinessClass.Document.Reading
import BusinessClass.Proofs.SetRules.RoundTrip
import Mathlib.Data.List.Pairwise
import Mathlib.Data.Set.Subsingleton

/-!
# Fixed headers told apart

Fixed headers are recognized up to letter case and spacing. A line is the header of at most one section, of at most one
class-level rule block and of at most one sub-section. Directly under a class header it states a property, opens a
section, opens a rule block or does none of these; directly under the header of a group it opens entrance rules, exit
rules, a nested group or none of these.

* `Text.equivalence_sameWords`: texts that are the same up to letter case and spacing form classes.
* `subsingleton_of_pairwise`: of entries that exclude one another at most one applies.
* `Vocabulary.subsingleton_sameWords`: a line is the header of at most one kind of a vocabulary.
* `Vocabulary.ofHeader?_eq_some_iff`: a line opens a kind if and only if it is its header.
* `ClassReading.subsingleton_item?` and `PartReading.subsingleton_header?`: a line can be read in at most one way.
-/

namespace BusinessClass

/-- If the entries of a complete table exclude one another, at most one of them applies. -/
theorem subsingleton_of_pairwise {α : Type} {p : α → Prop} {table : List α} (complete : ∀ a, a ∈ table)
    (apart : table.Pairwise fun a b => p a → ¬ p b) : {a | p a}.Subsingleton := by
  have symmetric : Std.Symm fun a b => p a → ¬ p b := ⟨fun a b h hb ha => h ha hb⟩
  intro a ha b hb
  by_contra ne
  exact apart.forall (complete a) (complete b) ne ha hb

/-- A search finds the one entry that fits. -/
theorem find?_eq_some_of_subsingleton {α : Type} {fits : α → Bool} (one : {a | fits a = true}.Subsingleton)
    {l : List α} {a : α} (mem : a ∈ l) (h : fits a = true) : l.find? fits = some a := by
  have found : (l.find? fits).isSome = true := List.find?_isSome.2 ⟨a, mem, h⟩
  obtain ⟨b, found⟩ := Option.isSome_iff_exists.1 found
  rw [found, one (List.find?_some found) h]

/-- Three entries that exclude one another. -/
theorem pairwise_three {α : Type} {r : α → α → Prop} {a b c : α} (ab : r a b) (ac : r a c) (bc : r b c) :
    [a, b, c].Pairwise r := by
  refine .cons ?_ (.cons ?_ (List.pairwise_singleton r c))
  · exact List.forall_mem_cons.2 ⟨ab, List.forall_mem_singleton.2 ac⟩
  · exact List.forall_mem_singleton.2 bc

namespace Text

/-- Texts that are the same up to letter case and spacing form classes. -/
theorem equivalence_sameWords : Equivalence fun s t : Text => sameWords s t = true where
  refl := sameWords_refl
  symm {s t} same := by rwa [sameWords_comm]
  trans := sameWords_trans

end Text

/-! ### Headers of a vocabulary -/

namespace Vocabulary

variable {κ : Type} {v : Vocabulary κ}

variable (v) in
/-- A line is the header of at most one kind. -/
theorem subsingleton_sameWords (text : Text) : {k | Text.sameWords text (v.name k) = true}.Subsingleton := by
  refine subsingleton_of_pairwise v.mem_all (v.apart.imp fun differ same same' => ?_)
  have both := Text.equivalence_sameWords.trans (Text.equivalence_sameWords.symm same) same'
  rw [differ] at both
  cases both

/-- A line opens a kind if and only if it is its header. -/
theorem ofHeader?_eq_some_iff {text : Text} {k : κ} :
    v.ofHeader? text = some k ↔ Text.sameWords text (v.name k) = true := by
  constructor
  · intro header
    have found := List.find?_some header
    exact found
  · intro same
    exact find?_eq_some_of_subsingleton (v.subsingleton_sameWords text) (v.mem_all k) same

theorem ofHeader?_name (k : κ) : v.ofHeader? (v.name k) = some k :=
  ofHeader?_eq_some_iff.2 (Text.sameWords_refl _)

theorem name_injective : Function.Injective v.name := by
  intro k k' same
  refine v.subsingleton_sameWords (v.name k) (Text.sameWords_refl _) ?_
  rw [same]
  exact Text.sameWords_refl _

theorem ofName?_name (k : κ) : v.ofName? (v.name k) = some k := by
  refine find?_eq_some_of_subsingleton ?_ (v.mem_all k) (beq_self_eq_true (v.name k))
  intro a ha b hb
  exact name_injective ((beq_iff_eq.1 ha).trans (beq_iff_eq.1 hb).symm)

end Vocabulary

/-! ### Lines directly under a class header -/

namespace ClassItem

/-- No property is stated by a fixed header that starts with neither word. -/
theorem property?_of_sameWords {text name : Text} (same : Text.sameWords text name = true)
    (other : ∀ w ∈ name.words.head?, Text.sameLetters w "owned".toList = false ∧
      Text.sameLetters w "prefix".toList = false) : property? text.words = none := by
  have heads := congrArg List.head? (beq_iff_eq.1 same)
  rw [List.head?_map, List.head?_map] at heads
  unfold property?
  split
  · rename_i a b value words
    rw [words] at heads
    obtain ⟨w, hw, lower⟩ := Option.map_eq_some_iff.1 heads.symm
    have letters (t : Text) : Text.sameLetters a t = Text.sameLetters w t := by
      rw [Text.sameLetters, Text.sameLetters, lower]
    rw [letters, letters, (other w hw).1, (other w hw).2]
    rfl
  · rfl

theorem property?_of_section {text : Text} {kind : SectionKind} (h : SectionKind.ofHeader? text = some kind) :
    property? text.words = none :=
  property?_of_sameWords (Vocabulary.ofHeader?_eq_some_iff.1 h) (by cases kind <;> decide)

theorem property?_of_block {text : Text} {kind : ClassBlockKind} (h : ClassBlockKind.ofHeader? text = some kind) :
    property? text.words = none :=
  property?_of_sameWords (Vocabulary.ofHeader?_eq_some_iff.1 h) (by cases kind <;> decide)

end ClassItem

/-- No header opens both a section and a rule block. -/
theorem SectionKind.ofHeader?_of_block {text : Text} {kind : ClassBlockKind}
    (h : ClassBlockKind.ofHeader? text = some kind) : ofHeader? text = none := by
  refine Option.eq_none_iff_forall_ne_some.2 fun other header => ?_
  have apart : ∀ k ∈ all, ∀ b ∈ ClassBlockKind.all, Text.sameWords k.name b.name = false := by decide +kernel
  have both : Text.sameWords other.name kind.name = true := Text.sameWords_trans
    (Text.equivalence_sameWords.symm (Vocabulary.ofHeader?_eq_some_iff.1 header))
    (Vocabulary.ofHeader?_eq_some_iff.1 h)
  rw [apart other (mem_all other) kind (ClassBlockKind.mem_all kind)] at both
  cases both

/-- The ways in which a line directly under a class header is read, before it is taken for content. -/
inductive ClassReading
  /-- As a class property. -/
  | property
  /-- As the header of a section. -/
  | opensSection
  /-- As the header of a class-level rule block. -/
  | opensBlock
deriving DecidableEq, Repr

namespace ClassReading

/-- All ways in their conventional order. -/
def all : List ClassReading := [.property, .opensSection, .opensBlock]

theorem mem_all (r : ClassReading) : r ∈ all := by cases r <;> decide

/-- What a line is if it is read in this way. -/
def item? : ClassReading → Text → Option ClassItem
  | .property, text => ClassItem.property? text.words
  | .opensSection, text => (SectionKind.ofHeader? text).map .opensSection
  | .opensBlock, text => (ClassBlockKind.ofHeader? text).map .opensBlock

/-- The conventional order is that of the program. -/
theorem ofText_eq (text : Text) : ClassItem.ofText text = (all.findSome? (item? · text)).getD .content := by
  rw [ClassItem.ofText]
  simp only [all, List.findSome?_cons, List.findSome?_nil, item?]
  cases ClassItem.property? text.words <;> cases SectionKind.ofHeader? text <;>
    cases ClassBlockKind.ofHeader? text <;> rfl

@[simp] theorem isSome_property (text : Text) :
    (item? .property text).isSome = (ClassItem.property? text.words).isSome := rfl

@[simp] theorem isSome_opensSection (text : Text) :
    (item? .opensSection text).isSome = (SectionKind.ofHeader? text).isSome := by
  rw [item?, Option.isSome_map]

@[simp] theorem isSome_opensBlock (text : Text) :
    (item? .opensBlock text).isSome = (ClassBlockKind.ofHeader? text).isSome := by
  rw [item?, Option.isSome_map]

/-- A line directly under a class header can be read in at most one way. -/
theorem subsingleton_item? (text : Text) : {r : ClassReading | (r.item? text).isSome = true}.Subsingleton := by
  have propertySection : (item? .property text).isSome = true → ¬ (item? .opensSection text).isSome = true := by
    rw [isSome_property, isSome_opensSection, Option.isSome_iff_exists (x := SectionKind.ofHeader? text)]
    rintro states ⟨kind, opens⟩
    rw [ClassItem.property?_of_section opens] at states
    cases states
  have propertyBlock : (item? .property text).isSome = true → ¬ (item? .opensBlock text).isSome = true := by
    rw [isSome_property, isSome_opensBlock, Option.isSome_iff_exists (x := ClassBlockKind.ofHeader? text)]
    rintro states ⟨kind, opens⟩
    rw [ClassItem.property?_of_block opens] at states
    cases states
  have sectionBlock : (item? .opensSection text).isSome = true → ¬ (item? .opensBlock text).isSome = true := by
    rw [isSome_opensSection, isSome_opensBlock, Option.isSome_iff_exists (x := ClassBlockKind.ofHeader? text)]
    rintro opens ⟨kind, block⟩
    rw [SectionKind.ofHeader?_of_block block] at opens
    cases opens
  exact subsingleton_of_pairwise mem_all (pairwise_three propertySection propertyBlock sectionBlock)

end ClassReading

/-! ### Lines directly under the header of a group -/

/-- What a line directly under the header of a group may open. -/
inductive PartHeader
  /-- Entrance rules. -/
  | entrance
  /-- Exit rules. -/
  | exit
  /-- A nested group. -/
  | nested (key : GroupKey)
deriving DecidableEq, Repr

/-- The ways in which a line directly under the header of a group is read, before it is taken for a rule. -/
inductive PartReading
  /-- As the header of entrance rules. -/
  | entrance
  /-- As the header of exit rules. -/
  | exit
  /-- As the header of a nested group. -/
  | nested
deriving DecidableEq, Repr

namespace PartReading

/-- All ways in their conventional order. -/
def all : List PartReading := [.entrance, .exit, .nested]

theorem mem_all (r : PartReading) : r ∈ all := by cases r <;> decide

/-- What a line opens if it is read in this way. -/
def header? : PartReading → Text → Option PartHeader
  | .entrance, text => if Text.sameWords text SetRuleGroup.entranceHeader then some .entrance else none
  | .exit, text => if Text.sameWords text SetRuleGroup.exitHeader then some .exit else none
  | .nested, text => (GroupKey.ofHeader? text).map .nested

@[simp] theorem isSome_entrance (text : Text) :
    (header? .entrance text).isSome = Text.sameWords text SetRuleGroup.entranceHeader := by
  rw [header?]
  split <;> simp_all

@[simp] theorem isSome_exit (text : Text) :
    (header? .exit text).isSome = Text.sameWords text SetRuleGroup.exitHeader := by
  rw [header?]
  split <;> simp_all

@[simp] theorem isSome_nested (text : Text) : (header? .nested text).isSome = (GroupKey.ofHeader? text).isSome := by
  rw [header?, Option.isSome_map]

/-- A line directly under the header of a group can be read in at most one way. -/
theorem subsingleton_header? (text : Text) : {r : PartReading | (r.header? text).isSome = true}.Subsingleton := by
  have entranceExit : (header? .entrance text).isSome = true → ¬ (header? .exit text).isSome = true := by
    rw [isSome_entrance, isSome_exit]
    intro entrance exit
    have both := Text.sameWords_trans (Text.equivalence_sameWords.symm entrance) exit
    exact absurd both (by decide)
  have entranceNested : (header? .entrance text).isSome = true → ¬ (header? .nested text).isSome = true := by
    rw [isSome_entrance, isSome_nested, Option.isSome_iff_exists]
    rintro entrance ⟨key, group⟩
    rw [(GroupKey.not_part_of_ofHeader? group).1] at entrance
    cases entrance
  have exitNested : (header? .exit text).isSome = true → ¬ (header? .nested text).isSome = true := by
    rw [isSome_exit, isSome_nested, Option.isSome_iff_exists]
    rintro exit ⟨key, group⟩
    rw [(GroupKey.not_part_of_ofHeader? group).2] at exit
    cases exit
  exact subsingleton_of_pairwise mem_all (pairwise_three entranceExit entranceNested exitNested)

end PartReading

end BusinessClass
