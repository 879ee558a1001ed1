import BusinessClass.Proofs.Outline.Nesting
import Mathlib.Algebra.Ring.Nat

/-!
# Parents of lines

A forest that is built from lines lists them again, line by line, and each line stands under the nearest
earlier line that is shallower. Positions in source order tell lines apart, whatever they say.

* `Forest.parents` gives the position of the parent for each position.
* `Forest.parents_grow`: what a line in front of a forest does to parents.
* `Forest.Attached` is the rule for parents, said of the depths of the lines alone;
  `Forest.attached_parents` is the induction over the lines.
* `Forest.parents_ofLines` gathers what is true of every forest that is built.
-/

namespace BusinessClass

namespace Node

mutual

/-- The positions of the parents in a tree that stands at position `i` under the parent `p`. -/
def parentsAt (i : Nat) (p : Option Nat) : Node → List (Option Nat)
  | ⟨_, _, _, _, children⟩ => p :: parentsFrom (i + 1) (some i) children

/-- The positions of the parents in a forest that stands from position `i` on under the parent `p`. -/
def parentsFrom (i : Nat) (p : Option Nat) : List Node → List (Option Nat)
  | [] => []
  | n :: ns => parentsAt i p n ++ parentsFrom (i + n.size) p ns

end

theorem size_eq (n : Node) : n.size = 1 + sizes n.children := by
  cases n
  rfl

end Node

namespace Forest

open Node (parentsFrom sizes)

/-- For each node of a forest in source order, the position of its parent; roots have none. -/
def parents (f : List Node) : List (Option Nat) := parentsFrom 0 none f

/-! ### Sizes -/

theorem sizes_eq_sum (f : List Node) : sizes f = (f.map Node.size).sum := by
  induction f with
  | nil => rfl
  | cons n ns ih => rw [sizes, List.map_cons, List.sum_cons, ih]

/-- A forest has as many lines as its trees have nodes. -/
theorem length_lines (f : List Node) : (lines f).length = sizes f := by
  induction f using induction with
  | nil => rfl
  | cons n ns ihc ih =>
    rw [lines_cons, List.length_cons, List.length_append, ihc, ih, sizes, Node.size_eq]
    omega

/-! ### Parents -/

theorem parentsFrom_cons (i : Nat) (p : Option Nat) (n : Node) (ns : List Node) :
    parentsFrom i p (n :: ns)
      = p :: (parentsFrom (i + 1) (some i) n.children ++ parentsFrom (i + n.size) p ns) := by
  cases n
  rfl

theorem parentsFrom_append (i : Nat) (p : Option Nat) (f g : List Node) :
    parentsFrom i p (f ++ g) = parentsFrom i p f ++ parentsFrom (i + sizes f) p g := by
  induction f generalizing i with
  | nil => rfl
  | cons n ns ih =>
    rw [List.cons_append, parentsFrom_cons, parentsFrom_cons, ih, sizes, Nat.add_assoc, List.cons_append,
      List.append_assoc]

theorem length_parentsFrom (i : Nat) (p : Option Nat) (f : List Node) :
    (parentsFrom i p f).length = (lines f).length := by
  induction f using induction generalizing i p with
  | nil => rfl
  | cons n ns ihc ih =>
    rw [parentsFrom_cons, lines_cons, List.length_cons, List.length_cons, List.length_append,
      List.length_append, ihc, ih]

/-- A node that has the parent `p` of the forest is a root, and any other one is a child of the node at the position
of its parent. -/
theorem getElem?_parentsFrom {f : List Node} {i k : Nat} {p q : Option Nat}
    (h : (parentsFrom i p f)[k]? = some q) : ∃ n, (nodes f)[k]? = some n ∧
      (q = p ∧ n ∈ f ∨ ∃ j m, q = some (i + j) ∧ (nodes f)[j]? = some m ∧ n ∈ m.children) := by
  induction f using induction generalizing i k p with
  | nil => simp [parentsFrom] at h
  | cons n ns ihc ih =>
    rw [parentsFrom_cons] at h
    rw [nodes_cons, List.cons_append]
    cases k with
    | zero => exact ⟨n, rfl, .inl ⟨(Option.some.inj h).symm, List.mem_cons_self⟩⟩
    | succ k =>
      have size : (parentsFrom (i + 1) (some i) n.children).length = (nodes n.children).length := by
        rw [length_parentsFrom, lines, List.length_map]
      have whole : n.size = (nodes n.children).length + 1 := by
        rw [Node.size_eq, ← length_lines, lines, List.length_map, Nat.add_comm]
      rw [List.getElem?_cons_succ] at h ⊢
      -- The positions behind the root are those of the nodes under it, then those of the roots that follow.
      by_cases inside : k < (nodes n.children).length
      · rw [List.getElem?_append_left (by omega)] at h
        rw [List.getElem?_append_left inside]
        obtain ⟨c, found, parent⟩ := ihc h
        refine ⟨c, found, .inr ?_⟩
        rcases parent with ⟨rfl, mem⟩ | ⟨j, m, rfl, hm, mem⟩
        · exact ⟨0, n, rfl, rfl, mem⟩
        · refine ⟨j + 1, m, congrArg some (Nat.add_right_comm i 1 j), ?_, mem⟩
          rw [List.getElem?_cons_succ, List.getElem?_append_left (List.getElem?_eq_some_iff.1 hm).1, hm]
      · rw [List.getElem?_append_right (by omega), size] at h
        rw [List.getElem?_append_right (by omega)]
        obtain ⟨c, found, parent⟩ := ih h
        refine ⟨c, found, ?_⟩
        rcases parent with ⟨rfl, mem⟩ | ⟨j, m, rfl, hm, mem⟩
        · exact .inl ⟨rfl, List.mem_cons_of_mem n mem⟩
        · refine .inr ⟨n.size + j, m, congrArg some (Nat.add_assoc i n.size j), ?_, mem⟩
          rw [whole, Nat.add_right_comm, List.getElem?_cons_succ, List.getElem?_append_right (by omega),
            Nat.add_sub_cancel_left, hm]

/-- A position without parent is that of a root. -/
theorem exists_root {f : List Node} {i : Nat} (h : (parents f)[i]? = some none) :
    ∃ n ∈ f, (nodes f)[i]? = some n := by
  obtain ⟨n, found, ⟨-, mem⟩ | ⟨j, m, eq, -, -⟩⟩ := getElem?_parentsFrom h
  · exact ⟨n, mem, found⟩
  · cases eq

/-- Any other position is that of a child of the node at the position of its parent. -/
theorem exists_child {f : List Node} {i p : Nat} (h : (parents f)[i]? = some (some p)) :
    ∃ m n, (nodes f)[p]? = some m ∧ (nodes f)[i]? = some n ∧ n ∈ m.children := by
  obtain ⟨n, found, ⟨eq, -⟩ | ⟨j, m, eq, parent, mem⟩⟩ := getElem?_parentsFrom h
  · cases eq
  · rw [Option.some.inj eq, Nat.zero_add]
    exact ⟨m, n, parent, found, mem⟩

/-! ### One more line in front -/

/-- The parent of a line when a line is put in front of all: positions move up by one, and a root that is
deeper than the new line, and deeper than `base`, comes under it. -/
def reparent (base : Nat) (l : SourceLine) (p : Option Nat) (m : SourceLine) : Option Nat :=
  match p with
  | some p => some (p + 1)
  | none => if l.depth < m.depth ∧ base < m.depth then some 0 else none

theorem zipWith_reparent {base : Nat} {l : SourceLine} {f : List Node} {p q : Option Nat}
    (roots : ∀ n ∈ f, reparent base l p n.toLine = q) (i : Nat) :
    List.zipWith (reparent base l) (parentsFrom i p f) (lines f) = parentsFrom (i + 1) q f := by
  induction f using induction generalizing i p q with
  | nil => rfl
  | cons n ns ihc ih =>
    -- Under a root, every parent has a position already.
    have under := ihc (p := some i) (fun c _ => rfl) (i + 1)
    have behind := ih (fun m hm => roots m (List.mem_cons_of_mem n hm)) (i + n.size)
    have same : (parentsFrom (i + 1) (some i) n.children).length = (lines n.children).length :=
      length_parentsFrom _ _ _
    rw [parentsFrom_cons, parentsFrom_cons, lines_cons, List.zipWith_cons_cons, List.zipWith_append same,
      under, behind, roots n List.mem_cons_self, Nat.add_right_comm i 1 n.size]

/-- A line in front of a forest that is built becomes the parent of the roots that are deeper. -/
theorem parents_grow {base : Nat} {f : List Node} (nested : NestedFrom base f) (l : SourceLine) :
    parents (grow base l f) = none :: List.zipWith (reparent base l) (parents f) (lines f) := by
  generalize under : f.takeWhile (isUnder base l) = taken
  generalize behind : f.dropWhile (isUnder base l) = left
  have parts : f = taken ++ left := by rw [← under, ← behind, List.takeWhile_append_dropWhile]
  have deeper : ∀ n ∈ taken, reparent base l none n.toLine = some 0 := by
    intro n hn
    have deep := lt_depth_of_mem_takeWhile (under ▸ hn)
    exact if_pos ⟨deep.2, deep.1⟩
  have shallower : ∀ n ∈ left, reparent base l none n.toLine = none := by
    intro n hn
    have := nested.depth_le_of_mem_dropWhile (l := l) (behind ▸ hn)
    refine if_neg ?_
    rw [Node.depth_toLine]
    omega
  have same : (parentsFrom 0 none taken).length = (lines taken).length := length_parentsFrom _ _ _
  rw [grow, under, behind, parts, parents, parents, parentsFrom_append, lines_append,
    List.zipWith_append same, zipWith_reparent deeper, zipWith_reparent shallower, parentsFrom_cons,
    Node.children_ofLine, Node.size_eq, Node.children_ofLine]
  rw [Nat.zero_add, Nat.zero_add, Nat.zero_add, Nat.add_comm 1]

/-! ### The nearest shallower line -/

/-- The rule for the parent of the line at position `i`: none if the line is no deeper than `base` or no earlier
line is shallower, and otherwise the last earlier line that is shallower. -/
inductive Attached (base : Nat) (ls : List SourceLine) (i : Nat) (hi : i < ls.length) : Option Nat → Prop
  | root (closed : ls[i].depth ≤ base ∨ ∀ j (_ : j < i), ls[i].depth ≤ ls[j].depth) : Attached base ls i hi none
  | under (p : Nat) (before : p < i) (deep : base < ls[i].depth) (shallower : ls[p].depth < ls[i].depth)
      (last : ∀ j (_ : p < j ∧ j < i), ls[i].depth ≤ ls[j].depth) : Attached base ls i hi (some p)

namespace Attached

variable {base : Nat} {ls : List SourceLine} {i : Nat} {hi : i < ls.length} {p q : Option Nat}

/-- The rule leaves no choice. -/
theorem unique (hp : Attached base ls i hi p) (hq : Attached base ls i hi q) : p = q := by
  cases hp with
  | root closed =>
    cases hq with
    | root _ => rfl
    | under q before deep shallower _ =>
      have := closed.resolve_left (by omega) q before
      omega
  | under p before deep shallower last =>
    cases hq with
    | root closed =>
      have := closed.resolve_left (by omega) p before
      omega
    | under q before' _ shallower' last' =>
      -- Of two different positions, the later one contradicts that the earlier one is the last.
      rcases Nat.lt_trichotomy p q with lt | rfl | lt
      · have := last q ⟨lt, before'⟩
        omega
      · rfl
      · have := last' p ⟨lt, before⟩
        omega

/-- A line in front of all changes parents as it changes the rule. -/
theorem cons (h : Attached base ls i hi p) (l : SourceLine) :
    Attached base (l :: ls) (i + 1) (Nat.succ_lt_succ hi) (reparent base l p ls[i]) := by
  cases h with
  | root closed =>
    rw [reparent]
    by_cases under : l.depth < ls[i].depth ∧ base < ls[i].depth
    · rw [if_pos under]
      refine .under 0 (Nat.succ_pos i) under.2 under.1 fun j hj => ?_
      obtain ⟨k, rfl⟩ := Nat.exists_eq_succ_of_ne_zero (Nat.pos_iff_ne_zero.1 hj.1)
      exact closed.resolve_left (by omega) k (by omega)
    · rw [if_neg under]
      refine .root ?_
      by_cases flat : ls[i].depth ≤ base
      · exact .inl flat
      · refine .inr fun j hj => ?_
        cases j with
        | zero =>
          show ls[i].depth ≤ l.depth
          omega
        | succ k => exact closed.resolve_left flat k (by omega)
  | under p before deep shallower last =>
    refine .under (p + 1) (Nat.succ_lt_succ before) deep shallower fun j hj => ?_
    obtain ⟨k, rfl⟩ := Nat.exists_eq_succ_of_ne_zero (show j ≠ 0 by omega)
    exact last k (by omega)

end Attached

/-- In a forest that is built, parents follow the rule. -/
theorem attached_parents (base : Nat) (ls : List SourceLine) :
    ∀ i (hi : i < ls.length), ∃ p, (parents (ofLines base ls))[i]? = some p ∧ Attached base ls i hi p := by
  induction ls with
  | nil => exact fun i hi => absurd hi (Nat.not_lt_zero i)
  | cons l ls ih =>
    intro i hi
    rw [ofLines_cons, parents_grow (nestedFrom_ofLines base ls), lines_ofLines]
    cases i with
    | zero => exact ⟨none, rfl, .root (.inr fun j hj => absurd hj (Nat.not_lt_zero j))⟩
    | succ i =>
      have inside : i < ls.length := Nat.lt_of_succ_lt_succ hi
      obtain ⟨p, found, attached⟩ := ih i inside
      refine ⟨reparent base l p ls[i], ?_, attached.cons l⟩
      rw [List.getElem?_cons_succ, List.getElem?_zipWith, found, List.getElem?_eq_getElem inside]

theorem parents_eq_iff (base : Nat) (ls : List SourceLine) (i : Nat) (hi : i < ls.length) (p : Option Nat) :
    (parents (ofLines base ls))[i]? = some p ↔ Attached base ls i hi p := by
  obtain ⟨q, found, attached⟩ := attached_parents base ls i hi
  rw [found, Option.some_inj]
  constructor
  · rintro rfl
    exact attached
  · exact attached.unique

/-! ### Forests that are built -/

/-- The trees under a node of nested trees are nested. -/
theorem nestedTree_of_mem_nodes {f : List Node} (trees : ∀ n ∈ f, NestedTree n) : ∀ n ∈ nodes f, NestedTree n := by
  induction f using induction with
  | nil => simp
  | cons n ns ihc ih =>
    have first := trees n List.mem_cons_self
    intro m hm
    simp only [nodes_cons, List.cons_append, List.mem_cons, List.mem_append] at hm
    rcases hm with rfl | hm | hm
    · exact first
    · exact ihc (fun c hc => first.children.tree hc) m hm
    · exact ih (fun k hk => trees k (List.mem_cons_of_mem n hk)) m hm

/-- The forest lists the lines again, and arranges them by depth. -/
structure Arranges (base : Nat) (ls : List SourceLine) (f : List Node) : Prop where
  /-- In source order, the nodes are the lines, with text, depth, number and place. -/
  lines : lines f = ls
  /-- The trees have as many nodes as there are lines. -/
  sizes : (f.map Node.size).sum = ls.length
  /-- A position without parent is that of a root. -/
  root : ∀ i : Nat, (parents f)[i]? = some none → ∃ n ∈ f, (nodes f)[i]? = some n
  /-- Any other position is that of a child of the node at the position of its parent. -/
  child : ∀ i p : Nat, (parents f)[i]? = some (some p) →
    ∃ m n, (nodes f)[p]? = some m ∧ (nodes f)[i]? = some n ∧ n ∈ m.children
  /-- A line is a root if it is no deeper than `base` or no earlier line is shallower. -/
  roots : ∀ i (_ : i < ls.length), (parents f)[i]? = some none ↔
    ls[i].depth ≤ base ∨ ∀ j (_ : j < i), ls[i].depth ≤ ls[j].depth
  /-- Any other line stands under the last earlier line that is shallower. -/
  under : ∀ i (_ : i < ls.length) p, (parents f)[i]? = some (some p) ↔
    base < ls[i].depth ∧ ∃ _ : p < i, ls[p].depth < ls[i].depth ∧
      ∀ j (_ : p < j ∧ j < i), ls[i].depth ≤ ls[j].depth
  /-- Children are deeper than their parent. -/
  deeper : ∀ n ∈ nodes f, ∀ c ∈ n.children, n.depth < c.depth
  /-- No child is deeper than an earlier one. -/
  descending : ∀ n ∈ nodes f, n.children.Pairwise fun c d => d.depth ≤ c.depth

/-- Building a forest loses no line, keeps the order, and puts every line under the nearest earlier line that is
shallower. -/
theorem arranges_ofLines (base : Nat) (ls : List SourceLine) : Arranges base ls (ofLines base ls) := by
  have trees := nestedTree_of_mem_nodes (nestedFrom_ofLines base ls).trees
  refine {
    lines := lines_ofLines base ls
    sizes := ?_
    root := fun i => exists_root
    child := fun i p => exists_child
    roots := fun i hi => ?_
    under := fun i hi p => ?_
    deeper := fun n hn c hc => (trees n hn).lt_depth hc
    descending := fun n hn => ((nested_iff_pairwise _).1 (trees n hn).children).2 }
  · rw [← sizes_eq_sum, ← length_lines, lines_ofLines]
  · rw [parents_eq_iff base ls i hi]
    constructor
    · rintro (closed | _)
      exact closed
    · exact .root
  · rw [parents_eq_iff base ls i hi]
    constructor
    · rintro (_ | ⟨p, before, deep, shallower, last⟩)
      exact ⟨deep, before, shallower, last⟩
    · rintro ⟨deep, before, shallower, last⟩
      exact .under p before deep shallower last

/-- A line as deep as the base depth is a root even behind a shallower line, and levels may be skipped. -/
example : parents (ofLines 2 ([3, 5, 4, 1, 2, 6].map fun d => ⟨[], d, 0, ⟨0, 0⟩⟩))
    = [none, some 0, some 0, none, none, some 4] := by
  decide

end Forest

end BusinessClass
