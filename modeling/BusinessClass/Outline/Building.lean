import BusinessClass.Outline.Node

/-!
# Building an outline line by line

The forest of a list of lines can be built in one pass over the lines that keeps a stack of open nodes. A
line closes the open nodes that it cannot stand under and is then open itself; a node that is closed goes
under the node that is open below it, or becomes a root.

* `Building` is the stack and the roots so far, `Building.add` is one round of the loop.
* `Forest.build` is the whole loop. It makes the same forest as `Forest.ofLines`, which is a recursion on
  the lines from the last one to the first.
-/

namespace BusinessClass

namespace Node

/-- The node with one more child behind the others. -/
def addChild (parent n : Node) : Node := { parent with children := parent.children ++ [n] }

@[simp] theorem toLine_addChild (parent n : Node) : (parent.addChild n).toLine = parent.toLine := rfl

@[simp] theorem children_addChild (parent n : Node) :
    (parent.addChild n).children = parent.children ++ [n] := rfl

end Node

/-- An outline in the middle of being built. -/
structure Building where
  /-- The open nodes, the innermost one first. -/
  stack : List Node
  /-- The trees that are finished. -/
  roots : List Node

namespace Building

/-- Closes the innermost open node: it becomes the last child of the next one, or the last root. -/
def closeTop : Building → Building
  | ⟨[], roots⟩ => ⟨[], roots⟩
  | ⟨[n], roots⟩ => ⟨[], roots ++ [n]⟩
  | ⟨n :: parent :: stack, roots⟩ => ⟨parent.addChild n :: stack, roots⟩

theorem length_stack_closeTop (n : Node) (stack roots : List Node) :
    (closeTop ⟨n :: stack, roots⟩).stack.length = stack.length := by
  cases stack <;> rfl

/-- Closes open nodes from the innermost one on for as long as they satisfy `p`. -/
def closeWhile (p : Node → Bool) : Building → Building
  | ⟨[], roots⟩ => ⟨[], roots⟩
  | ⟨n :: stack, roots⟩ =>
    if p n then closeWhile p (closeTop ⟨n :: stack, roots⟩) else ⟨n :: stack, roots⟩
termination_by b => b.stack.length
decreasing_by
  rw [length_stack_closeTop]
  exact Nat.lt_succ_self _

/-- Closes every open node. -/
def closeAll (b : Building) : Building := b.closeWhile fun _ => true

/-- Closes what a line cannot stand under: everything if the line is at most at depth `base`, otherwise the
nodes that are not shallower than the line. -/
def closeFor (base : Nat) (l : SourceLine) (b : Building) : Building :=
  if l.depth ≤ base then b.closeAll else b.closeWhile fun top => l.depth ≤ top.depth

/-- Opens a node for a line. -/
def add (base : Nat) (b : Building) (l : SourceLine) : Building :=
  ⟨Node.ofLine l [] :: (b.closeFor base l).stack, (b.closeFor base l).roots⟩

end Building

namespace Forest

/-- The forest of a list of lines, built line by line. -/
def build (base : Nat) (ls : List SourceLine) : List Node :=
  (ls.foldl (Building.add base) ⟨[], []⟩).closeAll.roots

end Forest

end BusinessClass
