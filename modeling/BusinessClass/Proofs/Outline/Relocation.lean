import BusinessClass.Proofs.Outline.Nesting

/-!
# Moving lines

A relocation says what becomes of the number, the place and the depth of a line. It leaves the text
alone, so lines, nodes and everything that is read from them can be moved.

* `Relocation.shift`, `Relocation.unspan`, `Relocation.unplace`, `Relocation.rebase` and
  `Relocation.erase` are the ones in use: deeper by so many levels; without place; without number and
  place; the same counted from another depth; and without depth as well.
* `ofLines_relocate`: moving lines moves their forest, if the order of depths stays.
* `text_relocate_shift`: text is written relative to a depth, so that shifting both changes nothing.
-/

namespace BusinessClass

/-- What becomes of numbers, places and depths. -/
structure Relocation where
  line : Nat → Nat
  span : Span → Span
  depth : Nat → Nat

namespace Relocation

/-- Deeper by so many levels. -/
def shift (k : Nat) : Relocation := ⟨id, id, (· + k)⟩

/-- Without number and place, and with depths counted from `base`. -/
def rebase (base : Nat) : Relocation := ⟨fun _ => 0, fun _ => ⟨0, 0⟩, (· - base)⟩

/-- Without number and place. -/
def unplace : Relocation := ⟨fun _ => 0, fun _ => ⟨0, 0⟩, id⟩

/-- Without place alone. -/
def unspan : Relocation := ⟨id, fun _ => ⟨0, 0⟩, id⟩

/-- Without number, place and depth. -/
def erase : Relocation := ⟨fun _ => 0, fun _ => ⟨0, 0⟩, fun _ => 0⟩

/-- One relocation after another. -/
def andThen (ρ σ : Relocation) : Relocation where
  line := σ.line ∘ ρ.line
  span := σ.span ∘ ρ.span
  depth := σ.depth ∘ ρ.depth

/-- All depths grow by the same number of levels. -/
def Shifts (ρ : Relocation) (k : Nat) : Prop := ∀ d, ρ.depth d = d + k

theorem shifts_shift (k : Nat) : (shift k).Shifts k := fun _ => rfl

theorem shifts_unplace : unplace.Shifts 0 := fun _ => rfl

theorem shifts_unspan : unspan.Shifts 0 := fun _ => rfl

@[simp] theorem depth_shift (k d : Nat) : (shift k).depth d = d + k := rfl

@[simp] theorem line_shift (k n : Nat) : (shift k).line n = n := rfl

@[simp] theorem span_shift (k : Nat) (s : Span) : (shift k).span s = s := rfl

end Relocation

variable (ρ σ : Relocation)

namespace SourceLine

/-- The line at another place. -/
def relocate (l : SourceLine) : SourceLine := ⟨l.text, ρ.depth l.depth, ρ.line l.number, ρ.span l.span⟩

@[simp] theorem text_relocate (l : SourceLine) : (l.relocate ρ).text = l.text := rfl

@[simp] theorem depth_relocate (l : SourceLine) : (l.relocate ρ).depth = ρ.depth l.depth := rfl

end SourceLine

namespace Node

mutual

/-- The node at another place, and everything under it. -/
def relocate : Node → Node
  | ⟨text, depth, line, span, children⟩ =>
    ⟨text, ρ.depth depth, ρ.line line, ρ.span span, relocateAll children⟩

/-- A forest at another place. -/
def relocateAll : List Node → List Node
  | [] => []
  | n :: ns => relocate n :: relocateAll ns

end

theorem relocateAll_eq_map (f : List Node) : relocateAll ρ f = f.map (relocate ρ) := by
  induction f with
  | nil => rfl
  | cons n ns ih => rw [relocateAll, ih, List.map_cons]

@[simp] theorem text_relocate (n : Node) : (n.relocate ρ).text = n.text := by cases n; rfl

@[simp] theorem depth_relocate (n : Node) : (n.relocate ρ).depth = ρ.depth n.depth := by
  cases n; rfl

@[simp] theorem line_relocate (n : Node) : (n.relocate ρ).line = ρ.line n.line := by cases n; rfl

@[simp] theorem span_relocate (n : Node) : (n.relocate ρ).span = ρ.span n.span := by cases n; rfl

@[simp] theorem children_relocate (n : Node) :
    (n.relocate ρ).children = n.children.map (relocate ρ) := by
  cases n; exact relocateAll_eq_map ρ _

@[simp] theorem toLine_relocate (n : Node) : (n.relocate ρ).toLine = n.toLine.relocate ρ := by
  cases n; rfl

@[simp] theorem isLeaf_relocate (n : Node) : (n.relocate ρ).isLeaf = n.isLeaf := by
  simp [isLeaf]

@[simp] theorem headerIs_relocate (n : Node) (header : Text) :
    (n.relocate ρ).headerIs header = n.headerIs header := by
  simp [headerIs]

theorem relocate_mk (text : Text) (depth line : Nat) (span : Span) (children : List Node) :
    (mk text depth line span children).relocate ρ
      = ⟨text, ρ.depth depth, ρ.line line, ρ.span span, children.map (relocate ρ)⟩ := by
  rw [relocate, relocateAll_eq_map]

@[simp] theorem ofLine_relocate (l : SourceLine) (children : List Node) :
    (ofLine l children).relocate ρ = ofLine (l.relocate ρ) (children.map (relocate ρ)) := by
  rw [ofLine, relocate_mk]; rfl

end Node

namespace Forest

/-- Two relocations one after the other are one. -/
theorem relocate_relocate (f : List Node) :
    (f.map (Node.relocate ρ)).map (Node.relocate σ) = f.map (Node.relocate (ρ.andThen σ)) := by
  induction f using induction with
  | nil => rfl
  | cons n ns ihc ih =>
    obtain ⟨text, depth, line, span, children⟩ := n
    rw [List.map_cons, List.map_cons, ih, List.map_cons, Node.relocate_mk, Node.relocate_mk, ihc,
      Node.relocate_mk]
    rfl

@[simp] theorem lines_relocate (f : List Node) :
    lines (f.map (Node.relocate ρ)) = (lines f).map (SourceLine.relocate ρ) := by
  induction f using induction with
  | nil => rfl
  | cons n ns ihc ih => simp [ihc, ih]

/-- Moving lines moves their forest, if the order of depths stays. -/
theorem ofLines_relocate {ls : List SourceLine}
    (mono : ∀ l ∈ ls, ∀ m ∈ ls, ρ.depth l.depth < ρ.depth m.depth ↔ l.depth < m.depth) :
    ofLines 0 (ls.map (SourceLine.relocate ρ)) = (ofLines 0 ls).map (Node.relocate ρ) := by
  induction ls with
  | nil => rfl
  | cons l ls ih =>
    -- The root that a line becomes takes the same roots under it, since depths compare as before.
    have under : ∀ n ∈ ofLines 0 ls,
        isUnder 0 (l.relocate ρ) (n.relocate ρ) = isUnder 0 l n := by
      intro n hn
      have := mono l List.mem_cons_self n.toLine
        (List.mem_cons_of_mem l (toLine_mem_of_mem_ofLines hn))
      simpa [isUnder_zero] using this
    have split : ∀ f : List Node, (∀ n ∈ f, isUnder 0 (l.relocate ρ) (n.relocate ρ) = isUnder 0 l n) →
        (f.map (Node.relocate ρ)).takeWhile (isUnder 0 (l.relocate ρ))
            = (f.takeWhile (isUnder 0 l)).map (Node.relocate ρ) ∧
          (f.map (Node.relocate ρ)).dropWhile (isUnder 0 (l.relocate ρ))
            = (f.dropWhile (isUnder 0 l)).map (Node.relocate ρ) := by
      intro f hf
      induction f with
      | nil => exact ⟨rfl, rfl⟩
      | cons n f ihf =>
        have hn := hf n List.mem_cons_self
        have := ihf fun m hm => hf m (List.mem_cons_of_mem n hm)
        by_cases h : isUnder 0 l n = true <;> simp_all
    obtain ⟨ht, hd⟩ := split _ under
    rw [List.map_cons, ofLines_cons, ofLines_cons, grow, grow,
      ih fun l' hl' m hm => mono l' (List.mem_cons_of_mem l hl') m (List.mem_cons_of_mem l hm),
      ht, hd, List.map_cons, Node.ofLine_relocate]

theorem ofLines_relocate_of_shifts {k : Nat} (h : ρ.Shifts k) (ls : List SourceLine) :
    ofLines 0 (ls.map (SourceLine.relocate ρ)) = (ofLines 0 ls).map (Node.relocate ρ) :=
  ofLines_relocate ρ fun l _ m _ => by rw [h, h]; omega

/-! ### Text of a moved forest -/

/-- A line with a tab for each level below `base`. -/
def lineOf (base : Nat) (l : SourceLine) : Text := List.replicate (l.depth - base) '\t' ++ l.text

theorem text_eq (f : List Node) (base : Nat) : text f base = Text.stack ((lines f).map (lineOf base)) := by
  simp only [text, lines, List.map_map]; rfl

/-- Text depends on depths relative to the base alone. -/
theorem text_relocate {f : List Node} {a b : Nat}
    (h : ∀ l ∈ lines f, ρ.depth l.depth - b = l.depth - a) :
    text (f.map (Node.relocate ρ)) b = text f a := by
  rw [text_eq, text_eq, lines_relocate, List.map_map]
  refine congrArg Text.stack (List.map_congr_left fun l hl => ?_)
  simp [lineOf, h l hl]

theorem text_relocate_shift {k : Nat} (h : ρ.Shifts k) (f : List Node) (b : Nat) :
    text (f.map (Node.relocate ρ)) (b + k) = text f b :=
  text_relocate ρ fun l _ => by rw [h]; omega

/-! ### The shallowest root -/

theorem minDepth_le {f : List Node} {n : Node} (h : n ∈ f) : minDepth f ≤ n.depth := by
  cases hm : (f.map Node.depth).min? with
  | none => simp_all
  | some d =>
    have := (List.min?_eq_some_iff.1 hm).2 n.depth (List.mem_map_of_mem h)
    simpa [minDepth, hm] using this

theorem exists_depth_eq_minDepth {f : List Node} (h : f ≠ []) : ∃ n ∈ f, n.depth = minDepth f := by
  cases hm : (f.map Node.depth).min? with
  | none => simp_all
  | some d =>
    obtain ⟨n, hn, hd⟩ := List.mem_map.1 (List.min?_eq_some_iff.1 hm).1
    exact ⟨n, hn, by simp [minDepth, hm, hd]⟩

theorem minDepth_eq {f : List Node} {d : Nat} (le : ∀ n ∈ f, d ≤ n.depth) (mem : ∃ n ∈ f, n.depth = d) :
    minDepth f = d := by
  obtain ⟨n, hn, rfl⟩ := mem
  obtain ⟨m, hm, hd⟩ := exists_depth_eq_minDepth (List.ne_nil_of_mem hn)
  exact Nat.le_antisymm (minDepth_le hn) (hd ▸ le m hm)

theorem minDepth_relocate_of_shifts {k : Nat} (h : ρ.Shifts k) {f : List Node} (ne : f ≠ []) :
    minDepth (f.map (Node.relocate ρ)) = minDepth f + k := by
  obtain ⟨n, hn, hd⟩ := exists_depth_eq_minDepth ne
  refine minDepth_eq (fun m hm => ?_) ⟨n.relocate ρ, List.mem_map_of_mem hn, ?_⟩
  · obtain ⟨m', hm', rfl⟩ := List.mem_map.1 hm
    rw [Node.depth_relocate, h]
    exact Nat.add_le_add_right (minDepth_le hm') k
  · rw [Node.depth_relocate, h, hd]

end Forest

end BusinessClass
