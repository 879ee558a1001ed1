import BusinessClass.Outline.Building
import BusinessClass.Proofs.Outline.Nesting
import Mathlib.Data.List.Chain

/-!
# The loop over open nodes

The loop that builds an outline keeps a stack of open nodes. What it will have built in the end is known at
any time from the state of the loop and the forest of the lines that are still to come: each open node takes
the leading trees that belong under it, from the innermost node outwards. This forest is the invariant of
the loop.

* `Building.graft` is that forest for a stack, `Building.eventual` for a state of the loop.
* `Building.Fits`: each open node belongs under the one below it on the stack.
* `Building.closeWhile_spec`: closing nodes that nothing to come belongs under changes nothing.
* `Building.eventual_add` is one round of the loop, `Building.foldl_add_spec` the run over all lines.
* `Forest.build_eq_ofLines`: the loop builds the forest of the lines.
-/

namespace BusinessClass

open Forest (isUnder grow ofLines)

namespace Building

variable {base : Nat}

/-! ### What an open node becomes -/

/-- An open node in front of a forest takes the leading roots that belong under it. -/
def resume (base : Nat) (n : Node) (f : List Node) : List Node :=
  Node.ofLine n.toLine (n.children ++ f.takeWhile (isUnder base n.toLine))
    :: f.dropWhile (isUnder base n.toLine)

/-- What a stack of open nodes becomes in front of a forest. -/
def graft (base : Nat) : List Node → List Node → List Node
  | [], f => f
  | n :: stack, f => graft base stack (resume base n f)

/-- What the loop will have built, with `f` the forest of the lines to come. -/
def eventual (base : Nat) (b : Building) (f : List Node) : List Node := b.roots ++ graft base b.stack f

/-- A node that was just opened takes what the forest of its line and the later lines puts under it. -/
theorem resume_ofLine (l : SourceLine) (f : List Node) : resume base (Node.ofLine l []) f = grow base l f := rfl

/-- Nothing changes about a node that no tree to come belongs under. -/
theorem resume_of_not_isUnder {n : Node} {f : List Node} (h : ∀ m ∈ f.head?, isUnder base n.toLine m = false) :
    resume base n f = n :: f := by
  have taken := Forest.takeWhile_append_of_head [] f h
  have left := Forest.dropWhile_append_of_head [] f h
  rw [List.nil_append] at taken left
  rw [resume, taken, left, List.takeWhile_nil, List.dropWhile_nil, List.append_nil, List.nil_append,
    Node.ofLine_toLine]

/-- A node that belongs under the next one can as well be its last child already. -/
theorem resume_cons_of_isUnder {n parent : Node} (f : List Node) (h : isUnder base parent.toLine n = true) :
    resume base parent (n :: f) = resume base (parent.addChild n) f := by
  rw [resume, resume, List.takeWhile_cons_of_pos h, List.dropWhile_cons_of_pos h, Node.toLine_addChild,
    Node.children_addChild, List.append_assoc, List.singleton_append]

/-! ### Closing nodes -/

/-- Each open node belongs under the one below it on the stack. -/
def Fits (base : Nat) (b : Building) : Prop :=
  b.stack.IsChain fun n parent => isUnder base parent.toLine n = true

theorem fits_closeTop {b : Building} (fits : b.Fits base) : b.closeTop.Fits base := by
  obtain ⟨stack, roots⟩ := b
  match stack, fits with
  | [], fits => exact fits
  | [n], _ => exact List.isChain_nil
  | n :: parent :: stack, fits =>
    -- A node stands where it stood after it got another child.
    obtain ⟨under, rest⟩ := List.isChain_cons.1 fits.tail
    exact List.isChain_cons.2 ⟨under, rest⟩

/-- Closing a node that no tree to come belongs under does not change what will have been built. -/
theorem eventual_closeTop {n : Node} {stack roots f : List Node} (fits : Fits base ⟨n :: stack, roots⟩)
    (h : ∀ m ∈ f.head?, isUnder base n.toLine m = false) :
    eventual base (closeTop ⟨n :: stack, roots⟩) f = eventual base ⟨n :: stack, roots⟩ f := by
  cases stack with
  | nil =>
    show roots ++ [n] ++ f = roots ++ resume base n f
    rw [resume_of_not_isUnder h, List.append_assoc, List.singleton_append]
  | cons parent stack =>
    have under := (List.isChain_cons_cons.1 fits).1
    show roots ++ graft base stack (resume base (parent.addChild n) f)
      = roots ++ graft base stack (resume base parent (resume base n f))
    rw [resume_of_not_isUnder h, resume_cons_of_isUnder f under]

/-- What closing nodes from the innermost one on does, provided that nothing to come belongs under a node that
is closed: the stack is in order, its innermost node is one to stop at, and what will have been built is the
same. -/
theorem closeWhile_spec {p : Node → Bool} {b : Building} {f : List Node} (fits : b.Fits base)
    (h : ∀ n, p n = true → ∀ m ∈ f.head?, isUnder base n.toLine m = false) :
    (b.closeWhile p).Fits base ∧ (∀ n ∈ (b.closeWhile p).stack.head?, p n = false) ∧
      eventual base (b.closeWhile p) f = eventual base b f := by
  -- Each node that is closed is one step of the induction, and `eventual` is its invariant.
  fun_induction closeWhile p b with
  | case1 roots => exact ⟨fits, by simp, rfl⟩
  | case2 n stack roots hp ih =>
    obtain ⟨fits', top, same⟩ := ih (fits_closeTop fits)
    exact ⟨fits', top, same.trans (eventual_closeTop fits (h n hp))⟩
  | case3 n stack roots hp => exact ⟨fits, by simpa using hp, rfl⟩

theorem stack_closeAll (b : Building) : b.closeAll.stack = [] := by
  unfold closeAll
  fun_induction closeWhile (fun _ => true) b with
  | case1 roots => rfl
  | case2 n stack roots _ ih => exact ih
  | case3 n stack roots h => exact absurd rfl h

/-- Without lines to come, closing everything leaves what will have been built. -/
theorem roots_closeAll {b : Building} (fits : b.Fits base) : b.closeAll.roots = eventual base b [] := by
  have same := (closeWhile_spec (p := fun _ => true) (f := []) fits (by simp)).2.2
  rw [← same, ← closeAll, eventual, stack_closeAll, graft, List.append_nil]

/-! ### One round of the loop -/

theorem isUnder_ofLine_eq_true (n : Node) (l : SourceLine) (children : List Node) :
    isUnder base n.toLine (Node.ofLine l children) = true ↔ n.depth < l.depth ∧ base < l.depth := by
  rw [isUnder, Bool.and_eq_true, decide_eq_true_iff, decide_eq_true_iff]
  rfl

/-- In front of a line, every node that the line cannot stand under is closed. The line belongs under the node
that is then the innermost one, and what will have been built is the same. -/
theorem closeFor_spec {b : Building} (fits : b.Fits base) (l : SourceLine) (f : List Node) :
    (b.closeFor base l).Fits base ∧
      (∀ n ∈ (b.closeFor base l).stack.head?, isUnder base n.toLine (Node.ofLine l []) = true) ∧
      eventual base (b.closeFor base l) (grow base l f) = eventual base b (grow base l f) := by
  -- The next tree is the one of the line, so a node that the line cannot stand under takes nothing more.
  have rejects (n : Node) (h : ¬(n.depth < l.depth ∧ base < l.depth)) :
      ∀ m ∈ (grow base l f).head?, isUnder base n.toLine m = false := by
    intro m hm
    obtain rfl := Option.some.inj hm
    rwa [← Bool.not_eq_true, isUnder_ofLine_eq_true]
  by_cases hl : l.depth ≤ base
  · rw [closeFor, if_pos hl]
    obtain ⟨fits, -, same⟩ := closeWhile_spec (p := fun _ => true) fits fun n _ => rejects n (by omega)
    refine ⟨fits, fun n hn => ?_, same⟩
    rw [stack_closeAll] at hn
    cases hn
  · rw [closeFor, if_neg hl]
    obtain ⟨fits, top, same⟩ := closeWhile_spec (p := fun top => l.depth ≤ top.depth) fits
      fun n hn => rejects n (by rw [decide_eq_true_iff] at hn; omega)
    refine ⟨fits, fun n hn => ?_, same⟩
    have shallower := top n hn
    rw [decide_eq_false_iff_not] at shallower
    rw [isUnder_ofLine_eq_true]
    omega

/-- A round of the loop keeps the stack in order. -/
theorem fits_add {b : Building} (fits : b.Fits base) (l : SourceLine) : (b.add base l).Fits base := by
  obtain ⟨closed, top, -⟩ := closeFor_spec fits l []
  exact List.isChain_cons.2 ⟨top, closed⟩

/-- After a round of the loop, what will have been built is the same as with the line still to come. -/
theorem eventual_add {b : Building} (fits : b.Fits base) (l : SourceLine) (f : List Node) :
    eventual base (b.add base l) f = eventual base b (grow base l f) := by
  obtain ⟨-, -, same⟩ := closeFor_spec fits l f
  rw [← same]
  show (b.closeFor base l).roots ++ graft base (b.closeFor base l).stack (resume base (Node.ofLine l []) f) = _
  rw [resume_ofLine, eventual]

/-! ### The whole loop -/

/-- The run of the loop over some lines: the stack stays in order, and in the end the same has been built as
was to be expected before the lines. -/
theorem foldl_add_spec (ls : List SourceLine) {b : Building} (fits : b.Fits base) :
    (ls.foldl (add base) b).Fits base ∧
      eventual base (ls.foldl (add base) b) [] = eventual base b (ofLines base ls) := by
  induction ls generalizing b with
  | nil => exact ⟨fits, rfl⟩
  | cons l ls ih =>
    obtain ⟨fits', same⟩ := ih (fits_add fits l)
    refine ⟨fits', ?_⟩
    rw [List.foldl_cons, same, eventual_add fits, Forest.ofLines_cons]

end Building

namespace Forest

/-- The loop over a stack of open nodes builds the forest of the lines. -/
theorem build_eq_ofLines (base : Nat) (ls : List SourceLine) : build base ls = ofLines base ls := by
  have start : Building.Fits base ⟨[], []⟩ := List.isChain_nil
  obtain ⟨fits, same⟩ := Building.foldl_add_spec ls start
  rw [build, Building.roots_closeAll fits, same]
  rfl

end Forest

end BusinessClass
