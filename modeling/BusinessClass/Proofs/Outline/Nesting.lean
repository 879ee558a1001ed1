import BusinessClass.Outline.Node
import Mathlib.Data.List.TakeWhile

/-!
# Forests and their lines

A forest is *nested* when children are deeper than their parent and no tree is deeper than the tree
before it. These are the forests that lists of lines have.

* `Forest.induction` is induction on a forest: its first tree's children, and the other trees.
* `lines_ofLines` and `ofLines_lines`: a list of lines and its forest determine each other.
* `ofLines_append`: lines that end with all trees closed have a forest of their own.
* `roots_ofLines_lines`: laying out trees one after the other makes nothing but trees a root.
-/

namespace BusinessClass

namespace Node

@[simp] theorem text_ofLine (l : SourceLine) (children : List Node) :
    (ofLine l children).text = l.text := rfl

@[simp] theorem depth_ofLine (l : SourceLine) (children : List Node) :
    (ofLine l children).depth = l.depth := rfl

@[simp] theorem text_toLine (n : Node) : n.toLine.text = n.text := rfl

@[simp] theorem depth_toLine (n : Node) : n.toLine.depth = n.depth := rfl

@[simp] theorem ofLine_toLine (n : Node) : ofLine n.toLine n.children = n := by
  cases n; rfl

end Node

namespace Forest

/-- Induction on a forest. -/
theorem induction {P : List Node → Prop} (nil : P [])
    (cons : ∀ n ns, P n.children → P ns → P (n :: ns)) : ∀ f, P f
  | [] => nil
  | ⟨text, depth, line, span, children⟩ :: ns =>
    cons ⟨text, depth, line, span, children⟩ ns (induction nil cons children)
      (induction nil cons ns)

@[simp] theorem nodes_append (f g : List Node) : nodes (f ++ g) = nodes f ++ nodes g := by
  simp [nodes_eq_flatMap]

/-- The lines of a forest in source order. -/
def lines (f : List Node) : List SourceLine := (nodes f).map Node.toLine

@[simp] theorem lines_nil : lines [] = [] := rfl

@[simp] theorem lines_cons (n : Node) (ns : List Node) :
    lines (n :: ns) = n.toLine :: (lines n.children ++ lines ns) := by
  simp [lines]

@[simp] theorem lines_append (f g : List Node) : lines (f ++ g) = lines f ++ lines g := by
  simp [lines]

theorem toLine_mem_lines {f : List Node} {n : Node} (h : n ∈ f) : n.toLine ∈ lines f := by
  induction f with
  | nil => cases h
  | cons m ms ih =>
    rcases List.mem_cons.1 h with rfl | h
    · simp
    · simp [ih h]

theorem lines_children_subset {f : List Node} {n : Node} (h : n ∈ f) :
    ∀ l ∈ lines n.children, l ∈ lines f := by
  intro l hl
  induction f with
  | nil => cases h
  | cons m ms ih =>
    rcases List.mem_cons.1 h with rfl | h
    · simp [hl]
    · simp [ih h]

theorem mem_lines_of_sublist {f g : List Node} (h : f.Sublist g) : ∀ l ∈ lines f, l ∈ lines g := by
  intro l hl
  simp only [lines, nodes_eq_flatMap, List.mem_map, List.mem_flatMap] at hl ⊢
  obtain ⟨m, ⟨n, hn, hm⟩, rfl⟩ := hl
  exact ⟨m, ⟨n, h.subset hn, hm⟩, rfl⟩

theorem mem_lines_iff {f : List Node} {l : SourceLine} :
    l ∈ lines f ↔ ∃ n ∈ f, l = n.toLine ∨ l ∈ lines n.children := by
  induction f with
  | nil => simp
  | cons m ms ih => simp [ih, or_assoc]

/-! ### Lines of a forest that is built -/

/-- With base depth zero, a root belongs under a line as soon as it is deeper. -/
theorem isUnder_zero (l : SourceLine) (n : Node) : isUnder 0 l n = decide (l.depth < n.depth) := by
  by_cases h : l.depth < n.depth
  · have : 0 < n.depth := by omega
    simp [isUnder, h, this]
  · simp [isUnder, h]

@[simp] theorem lines_grow (base : Nat) (l : SourceLine) (f : List Node) :
    lines (grow base l f) = l :: lines f := by
  rw [grow, lines_cons, Node.toLine_ofLine, Node.children_ofLine, ← lines_append,
    List.takeWhile_append_dropWhile]

/-- Building a forest loses no line and keeps the order. -/
theorem lines_ofLines (base : Nat) (ls : List SourceLine) : lines (ofLines base ls) = ls := by
  induction ls with
  | nil => rfl
  | cons l ls ih => rw [ofLines_cons, lines_grow, ih]

theorem toLine_mem_of_mem_ofLines {base : Nat} {ls : List SourceLine} {n : Node}
    (h : n ∈ ofLines base ls) : n.toLine ∈ ls := by
  have := toLine_mem_lines h
  rwa [lines_ofLines] at this

theorem head_ofLines (base : Nat) (ls : List SourceLine) :
    (ofLines base ls).head?.map Node.toLine = ls.head? := by
  cases ls <;> rfl

/-! ### Nested forests -/

mutual

/-- Children are deeper than their parent, down to the leaves. -/
def NestedTree : Node → Prop
  | ⟨_, depth, _, _, children⟩ => (∀ c ∈ children, depth < c.depth) ∧ Nested children

/-- Children are deeper than their parent, and no tree is deeper than an earlier one beside it. -/
def Nested : List Node → Prop
  | [] => True
  | n :: ns => NestedTree n ∧ (∀ m ∈ ns, m.depth ≤ n.depth) ∧ Nested ns

end

@[simp] theorem nested_nil : Nested [] := trivial

theorem nestedTree_iff (n : Node) :
    NestedTree n ↔ (∀ c ∈ n.children, n.depth < c.depth) ∧ Nested n.children := by
  cases n; rfl

theorem nested_cons (n : Node) (ns : List Node) :
    Nested (n :: ns) ↔ NestedTree n ∧ (∀ m ∈ ns, m.depth ≤ n.depth) ∧ Nested ns := Iff.rfl

theorem Nested.tree {f : List Node} (h : Nested f) {n : Node} (mem : n ∈ f) : NestedTree n := by
  induction f with
  | nil => cases mem
  | cons m ms ih =>
    rcases List.mem_cons.1 mem with rfl | mem
    · exact h.1
    · exact ih h.2.2 mem

theorem NestedTree.children {n : Node} (h : NestedTree n) : Nested n.children :=
  ((nestedTree_iff n).1 h).2

theorem NestedTree.lt_depth {n c : Node} (h : NestedTree n) (mem : c ∈ n.children) :
    n.depth < c.depth := ((nestedTree_iff n).1 h).1 c mem

/-- Taking trees out of a nested forest leaves a nested forest. -/
theorem Nested.sublist {f g : List Node} (hg : Nested g) (h : f.Sublist g) : Nested f := by
  induction h with
  | slnil => trivial
  | cons n _ ih => exact ih hg.2.2
  | cons_cons n hs ih => exact ⟨hg.1, fun m hm => hg.2.1 m (hs.subset hm), ih hg.2.2⟩

/-- Trees of one depth are nested as soon as each of them is. -/
theorem nested_of_depth_eq {f : List Node} {d : Nat} (trees : ∀ n ∈ f, NestedTree n)
    (h : ∀ n ∈ f, n.depth = d) : Nested f := by
  induction f with
  | nil => trivial
  | cons n ns ih =>
    refine ⟨trees n List.mem_cons_self, fun m hm => ?_,
      ih (fun m hm => trees m (List.mem_cons_of_mem n hm))
        fun m hm => h m (List.mem_cons_of_mem n hm)⟩
    exact Nat.le_of_eq (by rw [h m (List.mem_cons_of_mem n hm), h n List.mem_cons_self])

/-- Every line of a tree is at least as deep as its root. -/
theorem le_depth_of_mem_lines {b : Nat} {f : List Node} (trees : ∀ n ∈ f, NestedTree n)
    (h : ∀ n ∈ f, b ≤ n.depth) : ∀ l ∈ lines f, b ≤ l.depth := by
  induction f using induction with
  | nil => simp
  | cons n ns ihc ih =>
    have hn := trees n List.mem_cons_self
    intro l hl
    simp only [lines_cons, List.mem_cons, List.mem_append] at hl
    rcases hl with rfl | hl | hl
    · exact h n List.mem_cons_self
    · have hb := h n List.mem_cons_self
      exact ihc (fun c hc => hn.children.tree hc)
        (fun c hc => Nat.le_of_lt (Nat.lt_of_le_of_lt hb (hn.lt_depth hc))) l hl
    · exact ih (fun m hm => trees m (List.mem_cons_of_mem n hm))
        (fun m hm => h m (List.mem_cons_of_mem n hm)) l hl

theorem NestedTree.lt_of_mem_lines {n : Node} (h : NestedTree n) :
    ∀ l ∈ lines n.children, n.depth < l.depth :=
  le_depth_of_mem_lines (fun _ hc => h.children.tree hc) fun _ hc => h.lt_depth hc

/-! ### A forest is built from its lines -/

theorem nested_iff_pairwise (f : List Node) :
    Nested f ↔ (∀ n ∈ f, NestedTree n) ∧ f.Pairwise fun m n => n.depth ≤ m.depth := by
  induction f with
  | nil => simp
  | cons n ns ih =>
    rw [nested_cons, ih, List.forall_mem_cons, List.pairwise_cons]
    constructor
    · rintro ⟨tree, le, trees, roots⟩
      exact ⟨⟨tree, trees⟩, le, roots⟩
    · rintro ⟨⟨tree, trees⟩, le, roots⟩
      exact ⟨tree, le, trees, roots⟩

/-- Every tree is nested, and a root that is deeper than `base` is no deeper than the roots before it. These
are the forests that are built from lines at base depth `base`. -/
structure NestedFrom (base : Nat) (f : List Node) : Prop where
  trees : ∀ n ∈ f, NestedTree n
  roots : f.Pairwise fun m n => n.depth ≤ base ∨ n.depth ≤ m.depth

theorem nestedFrom_nil (base : Nat) : NestedFrom base [] := ⟨by simp, .nil⟩

/-- The roots that come under a line are deeper than it. -/
theorem lt_depth_of_mem_takeWhile {base : Nat} {l : SourceLine} {f : List Node} {n : Node}
    (h : n ∈ f.takeWhile (isUnder base l)) : base < n.depth ∧ l.depth < n.depth := by
  have under := List.mem_takeWhile_imp h
  rw [isUnder, Bool.and_eq_true, decide_eq_true_iff, decide_eq_true_iff] at under
  exact under.symm

/-- The other roots are not. -/
theorem NestedFrom.depth_le_of_mem_dropWhile {base : Nat} {l : SourceLine} {f : List Node} (h : NestedFrom base f)
    {n : Node} (mem : n ∈ f.dropWhile (isUnder base l)) : n.depth ≤ base ∨ n.depth ≤ l.depth := by
  have roots := h.roots.sublist (List.dropWhile_sublist (isUnder base l))
  have first := List.head?_dropWhile_not (isUnder base l) f
  cases left : f.dropWhile (isUnder base l) with
  | nil =>
    rw [left] at mem
    cases mem
  | cons r rs =>
    rw [left] at mem roots first
    have closed : r.depth ≤ base ∨ r.depth ≤ l.depth := by
      simp only [List.head?_cons, isUnder, Bool.and_eq_false_iff, decide_eq_false_iff_not] at first
      omega
    rcases List.mem_cons.1 mem with rfl | mem
    · exact closed
    · -- A later root is shallower than this one, or not deeper than `base`.
      have later := (List.pairwise_cons.1 roots).1 n mem
      omega

/-- A line in front takes the roots below it as children and leaves the forest nested. -/
theorem NestedFrom.grow {base : Nat} {f : List Node} (h : NestedFrom base f) (l : SourceLine) :
    NestedFrom base (grow base l f) := by
  have taken := List.takeWhile_sublist (isUnder base l) (l := f)
  have left := List.dropWhile_sublist (isUnder base l) (l := f)
  have children : Nested (f.takeWhile (isUnder base l)) := by
    rw [nested_iff_pairwise]
    refine ⟨fun n hn => h.trees n (taken.subset hn), (h.roots.sublist taken).imp_of_mem ?_⟩
    intro m n _ hn le
    have := lt_depth_of_mem_takeWhile hn
    omega
  constructor
  · intro n hn
    rcases List.mem_cons.1 hn with rfl | hn
    · rw [nestedTree_iff]
      exact ⟨fun c hc => (lt_depth_of_mem_takeWhile hc).2, children⟩
    · exact h.trees n (left.subset hn)
  · exact List.pairwise_cons.2 ⟨fun n hn => h.depth_le_of_mem_dropWhile hn, h.roots.sublist left⟩

theorem nestedFrom_ofLines (base : Nat) (ls : List SourceLine) : NestedFrom base (ofLines base ls) := by
  induction ls with
  | nil => exact nestedFrom_nil base
  | cons l ls ih => exact ih.grow l

/-- A forest that is built at base depth zero is nested. -/
theorem nested_ofLines (ls : List SourceLine) : Nested (ofLines 0 ls) := by
  have nested := nestedFrom_ofLines 0 ls
  rw [nested_iff_pairwise]
  refine ⟨nested.trees, nested.roots.imp ?_⟩
  intro m n le
  omega

theorem takeWhile_append_of_head {α : Type} {p : α → Bool} (f g : List α)
    (h : ∀ a ∈ g.head?, p a = false) : (f ++ g).takeWhile p = f.takeWhile p := by
  induction f with
  | nil => cases g <;> simp_all
  | cons a f ih => by_cases ha : p a <;> simp [ha, ih]

theorem dropWhile_append_of_head {α : Type} {p : α → Bool} (f g : List α)
    (h : ∀ a ∈ g.head?, p a = false) : (f ++ g).dropWhile p = f.dropWhile p ++ g := by
  induction f with
  | nil => cases g <;> simp_all
  | cons a f ih => by_cases ha : p a <;> simp [ha, ih]

/-- Where a line is no deeper than all lines before it, the forest falls into two. -/
theorem ofLines_append {ls ms : List SourceLine}
    (h : ∀ m ∈ ms.head?, ∀ l ∈ ls, m.depth ≤ l.depth) :
    ofLines 0 (ls ++ ms) = ofLines 0 ls ++ ofLines 0 ms := by
  induction ls with
  | nil => rfl
  | cons l ls ih =>
    have flush : ∀ n ∈ (ofLines 0 ms).head?, isUnder 0 l n = false := by
      intro n hn
      have hm : n.toLine ∈ ms.head? := by
        rw [← head_ofLines 0 ms, Option.mem_def.1 hn]; rfl
      have : n.depth ≤ l.depth := h _ hm l List.mem_cons_self
      simpa [isUnder_zero] using this
    rw [List.cons_append, ofLines_cons, ofLines_cons,
      ih fun m hm l' hl' => h m hm l' (List.mem_cons_of_mem l hl'), grow, grow,
      takeWhile_append_of_head _ _ flush, dropWhile_append_of_head _ _ flush]
    rfl

/-- A line in front of deeper lines is their parent. -/
theorem ofLines_cons_of_lt {l : SourceLine} {ls : List SourceLine}
    (h : ∀ m ∈ ls, l.depth < m.depth) : ofLines 0 (l :: ls) = [Node.ofLine l (ofLines 0 ls)] := by
  have under : ∀ n ∈ ofLines 0 ls, isUnder 0 l n = true := fun n hn => by
    simpa [isUnder_zero] using h _ (toLine_mem_of_mem_ofLines hn)
  have hd : (ofLines 0 ls).dropWhile (isUnder 0 l) = [] := List.dropWhile_eq_nil_iff.2 under
  have ht : (ofLines 0 ls).takeWhile (isUnder 0 l) = ofLines 0 ls :=
    List.takeWhile_eq_self_iff.2 under
  rw [ofLines_cons, grow, ht, hd]

/-- A nested forest is the forest of its lines. -/
theorem ofLines_lines {f : List Node} (h : Nested f) : ofLines 0 (lines f) = f := by
  induction f using induction with
  | nil => rfl
  | cons n ns ihc ih =>
    have hc := h.1.children
    have tree : ofLines 0 (n.toLine :: lines n.children) = [n] := by
      rw [ofLines_cons_of_lt h.1.lt_of_mem_lines, ihc hc, Node.ofLine_toLine]
    rw [lines_cons, ← List.cons_append, ofLines_append, tree, ih h.2.2]
    · rfl
    · -- the next tree closes this one
      intro m hm l hl
      rw [← head_ofLines 0, ih h.2.2] at hm
      obtain ⟨r, hr, rfl⟩ := Option.map_eq_some_iff.1 hm
      have hrn : r.depth ≤ n.depth := h.2.1 r (List.mem_of_mem_head? hr)
      rcases List.mem_cons.1 hl with rfl | hl
      · exact hrn
      · exact Nat.le_of_lt (Nat.lt_of_le_of_lt hrn (h.1.lt_of_mem_lines l hl))

/-! ### Laying out trees that are no forest -/

/-- Lines deeper than `d` in front of others change nothing about the roots that follow them. -/
theorem dropWhile_ofLines_append {d : Nat} {ls : List SourceLine} (ms : List SourceLine)
    (h : ∀ l ∈ ls, d < l.depth) :
    (ofLines 0 (ls ++ ms)).dropWhile (fun n => d < n.depth)
      = (ofLines 0 ms).dropWhile (fun n => d < n.depth) := by
  induction ls with
  | nil => rfl
  | cons l ls ih =>
    have hl := h l List.mem_cons_self
    -- What the root `l` takes under it is deeper than `l`, so also deeper than `d`.
    have drop : ∀ f : List Node, (f.dropWhile (isUnder 0 l)).dropWhile (fun n => d < n.depth)
        = f.dropWhile (fun n => d < n.depth) := by
      intro f
      induction f with
      | nil => rfl
      | cons n f ihf =>
        by_cases hn : l.depth < n.depth
        · have hd : d < n.depth := Nat.lt_trans hl hn
          simp [isUnder_zero, hn, hd] at ihf ⊢; exact ihf
        · simp [isUnder_zero, hn]
    rw [List.cons_append, ofLines_cons, grow, List.dropWhile_cons_of_pos (by simp [hl]), drop,
      ih fun l' hl' => h l' (List.mem_cons_of_mem l hl')]

/-- The roots that the lines of some trees have are roots of these trees. -/
theorem roots_ofLines_lines {f : List Node} (trees : ∀ n ∈ f, NestedTree n) :
    ((ofLines 0 (lines f)).map Node.toLine).Sublist (f.map Node.toLine) := by
  induction f with
  | nil => simp
  | cons n ns ih =>
    have hn := trees n List.mem_cons_self
    have isUnder_eq : isUnder 0 n.toLine = fun m => decide (n.depth < m.depth) :=
      funext fun m => isUnder_zero _ m
    rw [lines_cons, ofLines_cons, grow, isUnder_eq,
      dropWhile_ofLines_append _ hn.lt_of_mem_lines, List.map_cons, List.map_cons,
      Node.toLine_ofLine]
    exact ((List.dropWhile_sublist _).map _).trans
      (ih fun m hm => trees m (List.mem_cons_of_mem n hm)) |>.cons_cons _

end Forest

end BusinessClass
