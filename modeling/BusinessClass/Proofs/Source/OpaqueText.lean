import BusinessClass.Document.Reading
import BusinessClass.Proofs.Outline.Parents
import BusinessClass.Proofs.Source.Layout

/-!
# Opaque text read again

A forest that is kept as text, one tab for each level below a base depth, is still there: read as a source of its own,
the text has no malformed line, and its outline is the forest with all depths counted from the base.

* `Source.ReadsAs` says of a text that it is read as a forest, without a problem.
* `Source.readsAs_text`: the text of a forest is read as the forest.
* `Source.readsAs_text_and_bodyText`: so is what stands under any of its nodes.
-/

namespace BusinessClass

open Forest

namespace Forest

/-- What stands under a node of a forest is in the forest. -/
theorem mem_nodes_of_mem_children {f : List Node} :
    ∀ n ∈ nodes f, ∀ m ∈ nodes n.children, m ∈ nodes f := by
  induction f using induction with
  | nil => simp
  | cons k ks ihc ih =>
    intro n hn m hm
    simp only [nodes_cons, List.cons_append, List.mem_cons, List.mem_append] at hn ⊢
    rcases hn with rfl | hn | hn
    · exact .inr (.inl hm)
    · exact .inr (.inl (ihc n hn m hm))
    · exact .inr (.inr (ih n hn m hm))

end Forest

namespace Source

/-- With default options, the text is read as the forest, up to numbers and places, and without a problem. -/
structure ReadsAs (t : Text) (f : List Node) : Prop where
  clean : Document.indentationNotes {} t = []
  forest : (ofLines 0 (lines {} t)).map (Node.relocate .unplace) = f

/-- The text is content and does not start like a source with a byte order mark. -/
def Keeps (t : Text) : Prop := t.IsContent ∧ t.head? ≠ some byteOrderMark

instance (t : Text) : Decidable (Keeps t) := inferInstanceAs (Decidable (_ ∧ _))

/-- Tabs in front of content start with no byte order mark if the content does not. -/
theorem head?_lineOf {l : SourceLine} (keeps : Keeps l.text) (b : Nat) :
    ∃ c, (lineOf b l).head? = some c ∧ c ≠ byteOrderMark := by
  rw [lineOf]
  cases l.depth - b with
  | zero =>
    obtain ⟨c, t, ht⟩ := List.exists_cons_of_ne_nil keeps.1.ne_nil
    refine ⟨c, by rw [ht]; rfl, fun isMark => keeps.2 ?_⟩
    rw [ht, ← isMark]
    rfl
  | succ k => exact ⟨'\t', rfl, by decide⟩

/-- The text of a forest starts as its first line does. -/
theorem head?_text {f : List Node} (keeps : ∀ l ∈ Forest.lines f, Keeps l.text) (b : Nat) :
    ∀ c ∈ (text f b).head?, c ≠ byteOrderMark := by
  intro c hc
  rw [text_eq] at hc
  cases hl : Forest.lines f with
  | nil =>
    rw [hl] at hc
    cases hc
  | cons l ls =>
    obtain ⟨d, head, notMark⟩ := head?_lineOf (keeps l (by rw [hl]; exact List.mem_cons_self)) b
    obtain ⟨t, ht⟩ := List.head?_eq_some_iff.1 head
    rw [hl, List.map_cons, ht] at hc
    have first : (Text.stack ((d :: t) :: ls.map (lineOf b))).head? = some d := by
      cases ls.map (lineOf b) <;> simp [Text.stack_cons_cons]
    rw [first] at hc
    exact Option.some.inj hc ▸ notMark

/-- The text of a nested forest is read as the forest. -/
theorem readsAs_text {f : List Node} (nested : Nested f) (keeps : ∀ n ∈ nodes f, Keeps n.text) {b : Nat}
    (le : ∀ n ∈ f, b ≤ n.depth) : ReadsAs (text f b) (f.map (Node.relocate (.rebase b))) := by
  have keepsLine : ∀ l ∈ Forest.lines f, Keeps l.text := by
    intro l hl
    obtain ⟨n, hn, rfl⟩ := List.mem_map.1 hl
    exact keeps n hn
  have tidy : Tidy f := fun l hl => (keepsLine l hl).1
  have deep : ∀ l ∈ Forest.lines f, b ≤ l.depth := le_depth_of_mem_lines (fun _ hn => nested.tree hn) le
  have outline_eq := outline_lines_text tidy deep
  rw [lines_text tidy, ofLines_lines nested] at outline_eq
  have head := head?_text keepsLine b
  rw [text_eq] at head ⊢
  obtain ⟨read, scan, same⟩ := scan_stack (isLine_lineOf tidy b) head
  refine ⟨?_, ?_⟩
  · rw [Document.indentationNotes, malformed_of_scan scan, List.map_nil]
  · rw [ofLines_of_scan scan same, outline_eq]

/-- Opaque text keeps the whole structure: the text of a forest, relative to a depth that no root falls below, and what
stands under any node, relative to the first level there. -/
theorem readsAs_text_and_bodyText {f : List Node} (nested : Nested f) (keeps : ∀ n ∈ nodes f, Keeps n.text) :
    (∀ b ≤ minDepth f, ReadsAs (text f b) (f.map (Node.relocate (.rebase b)))) ∧
      ∀ n ∈ nodes f, ReadsAs n.bodyText (n.children.map (Node.relocate (.rebase (n.depth + 1)))) := by
  refine ⟨fun b le => readsAs_text nested keeps fun n hn => Nat.le_trans le (minDepth_le hn), fun n hn => ?_⟩
  have tree := nestedTree_of_mem_nodes (fun _ hm => nested.tree hm) n hn
  exact readsAs_text tree.children (fun m hm => keeps m (mem_nodes_of_mem_children n hn m hm))
    fun c hc => tree.lt_depth hc

/-- A forest whose first root is the deepest one and that skips levels. -/
def ragged : List Node :=
  [⟨"when (Status = \"é\")".toList, 5, 4, ⟨20, 40⟩,
    [⟨"set  Code".toList, 9, 5, ⟨46, 55⟩, []⟩,
      ⟨"assign /*".toList, 7, 7, ⟨60, 69⟩, [⟨"= 1".toList, 8, 8, ⟨78, 81⟩, []⟩]⟩]⟩,
    ⟨"otherwise".toList, 3, 9, ⟨85, 94⟩, []⟩]

theorem readsAs_text_and_bodyText_ragged :
    Nested ragged ∧ (∀ n ∈ nodes ragged, Keeps n.text) ∧ minDepth ragged = 3 ∧
      text ragged 2 = ("\t\t\twhen (Status = \"é\")\n\t\t\t\t\t\t\tset  Code\n\t\t\t\t\tassign /*\n" ++
        "\t\t\t\t\t\t= 1\n\totherwise").toList ∧
      ReadsAs (text ragged 2) (ragged.map (Node.relocate (.rebase 2))) ∧
      ∀ n ∈ nodes ragged, ReadsAs n.bodyText (n.children.map (Node.relocate (.rebase (n.depth + 1)))) := by
  have nested : Nested ragged := by simp [ragged, nested_cons, nestedTree_iff]
  have keeps : ∀ n ∈ nodes ragged, Keeps n.text := by decide +kernel
  have least : minDepth ragged = 3 := by decide +kernel
  have reads := readsAs_text_and_bodyText nested keeps
  exact ⟨nested, keeps, least, by decide +kernel, reads.1 2 (by rw [least]; decide), reads.2⟩

end Source

end BusinessClass
