import BusinessClass.Source.Line

/-!
# Outline nodes

A node is a line together with the lines nested under it. Lists of nodes are forests.

* `Node.preorder` lists a node and everything under it in source order.
* `Forest.text` writes a forest as lines with one tab per level below a base depth.
* `Forest.ofLines` builds the forest of a list of source lines.
-/

namespace BusinessClass

/-- A line and the lines nested under it. -/
structure Node where
  /-- Content of the line. -/
  text : Text
  /-- Depth of the line. -/
  depth : Nat
  /-- Number of the line, counted from one. -/
  line : Nat
  /-- Where the content stands in the source. -/
  span : Span
  /-- The nested lines in source order. -/
  children : List Node
deriving Repr, Inhabited

namespace Node

/-- The node of a line with the given nodes under it. -/
def ofLine (l : SourceLine) (children : List Node) : Node :=
  ⟨l.text, l.depth, l.number, l.span, children⟩

/-- The line that a node stands for. -/
def toLine (n : Node) : SourceLine := ⟨n.text, n.depth, n.line, n.span⟩

@[simp] theorem toLine_ofLine (l : SourceLine) (children : List Node) :
    (ofLine l children).toLine = l := rfl

@[simp] theorem children_ofLine (l : SourceLine) (children : List Node) :
    (ofLine l children).children = children := rfl

/-- Whether nothing is nested under the node. -/
def isLeaf (n : Node) : Bool := n.children.isEmpty

/-- Whether the line is the given header, up to letter case and spacing. -/
def headerIs (n : Node) (header : Text) : Bool := Text.sameWords n.text header

mutual

/-- The number of nodes in a tree, its root included. -/
def size : Node → Nat
  | ⟨_, _, _, _, children⟩ => 1 + sizes children

/-- The number of nodes in a forest. -/
def sizes : List Node → Nat
  | [] => 0
  | n :: ns => n.size + sizes ns

end

mutual

/-- A node and everything under it in source order. -/
def preorder : Node → List Node
  | ⟨text, depth, line, span, children⟩ =>
    ⟨text, depth, line, span, children⟩ :: preorders children

/-- The nodes of a forest in source order. -/
def preorders : List Node → List Node
  | [] => []
  | n :: ns => n.preorder ++ preorders ns

end

theorem preorder_eq (n : Node) : n.preorder = n :: preorders n.children := by
  cases n; simp [preorder]

end Node

namespace Forest

/-- The nodes of a forest in source order. -/
def nodes (forest : List Node) : List Node := Node.preorders forest

@[simp] theorem nodes_nil : nodes [] = [] := by simp [nodes, Node.preorders]

@[simp] theorem nodes_cons (n : Node) (ns : List Node) :
    nodes (n :: ns) = n :: nodes n.children ++ nodes ns := by
  simp [nodes, Node.preorders, Node.preorder_eq]

theorem nodes_eq_flatMap (forest : List Node) : nodes forest = forest.flatMap Node.preorder := by
  induction forest with
  | nil => simp
  | cons n ns ih => rw [List.flatMap_cons, ← ih]; rfl

/-- The line of one node with a tab for each level below `base`. -/
def lineText (base : Nat) (n : Node) : Text := List.replicate (n.depth - base) '\t' ++ n.text

/-- The lines of a forest, one tab for each level below `base`. -/
def text (forest : List Node) (base : Nat) : Text :=
  Text.stack ((nodes forest).map (lineText base))

/-- The least depth of the roots, zero for the empty forest. -/
def minDepth (forest : List Node) : Nat := (forest.map Node.depth).min?.getD 0

/-! ### Building a forest -/

/-- Whether a root that follows a line belongs under it. -/
def isUnder (base : Nat) (l : SourceLine) (n : Node) : Bool := l.depth < n.depth && base < n.depth

/-- Puts a line in front of a forest: the leading roots that are deeper than the line, and deeper
than `base`, come under it. -/
def grow (base : Nat) (l : SourceLine) (forest : List Node) : List Node :=
  Node.ofLine l (forest.takeWhile (isUnder base l)) :: forest.dropWhile (isUnder base l)

/-- The forest of a list of lines: a line that is deeper than `base` stands under the nearest
earlier line that is shallower, if there is one. -/
def ofLines (base : Nat) (ls : List SourceLine) : List Node := ls.foldr (grow base) []

@[simp] theorem ofLines_nil (base : Nat) : ofLines base [] = [] := rfl

@[simp] theorem ofLines_cons (base : Nat) (l : SourceLine) (ls : List SourceLine) :
    ofLines base (l :: ls) = grow base l (ofLines base ls) := rfl

end Forest

namespace Node

/-- The lines under a node, one tab for each level below the first level under it. -/
def bodyText (n : Node) : Text := Forest.text n.children (n.depth + 1)

end Node

end BusinessClass
