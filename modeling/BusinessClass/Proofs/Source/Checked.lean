import BusinessClass.Proofs.Source.Pieces
import BusinessClass.Proofs.Text.Checked
import Mathlib.Tactic.SplitIfs

/-!
# Lines cut by bytes

The lines of a source can be found by walking over its bytes: a line is cut out at each line feed and carriage return,
from where the line before ended. Each such cut is inside the source and between characters, because the bytes of the
two characters occur in no other one; and a line is no shorter than its parts. So the walk never fails.

* `Text.bytes`: the bytes of a text; `Text.ne_of_mem_utf8EncodeChar`: those of most characters end no line.
* `Checked.linesFrom` is the walk, `linesFrom_eq`: it finds the pieces of the source.
* `Checked.readLine` cuts the indentation off a line and measures it.
* `Checked.scan_eq`: with operations that may fail the lines of a source are read as without them.
-/

namespace BusinessClass

namespace Text

/-! ### Bytes -/

/-- The bytes of a text. -/
def bytes (t : Text) : List UInt8 := t.flatMap String.utf8EncodeChar

@[simp] theorem bytes_append (s t : Text) : bytes (s ++ t) = bytes s ++ bytes t := List.flatMap_append

@[simp] theorem bytes_cons (c : Char) (t : Text) : bytes (c :: t) = String.utf8EncodeChar c ++ bytes t :=
  List.flatMap_cons

@[simp] theorem length_bytes (t : Text) : (bytes t).length = byteSize t := by
  induction t with
  | nil => rfl
  | cons c t ih => rw [bytes_cons, List.length_append, String.length_utf8EncodeChar, ih, byteSize_cons]

/-- Only a character of one byte has a byte below 128, and then it is that byte. -/
theorem eq_of_mem_utf8EncodeChar {c : Char} {b : UInt8} (mem : b ∈ String.utf8EncodeChar c) (small : b.toNat < 128) :
    c.toNat = b.toNat := by
  rw [String.utf8EncodeChar] at mem
  split_ifs at mem with one two three
  · obtain rfl := List.mem_singleton.1 mem
    have : c.val.toNat < 256 := by omega
    rw [UInt8.toNat_ofNat', Nat.mod_eq_of_lt this]
    rfl
  all_goals
    simp only [List.mem_cons, List.not_mem_nil, or_false] at mem
    rcases mem with rfl | rfl | rfl | rfl <;> simp only [UInt8.toNat_ofNat'] at small <;> omega

/-- The bytes of a character that ends no line end no line either. -/
theorem ne_of_mem_utf8EncodeChar {c : Char} (feed : c ≠ '\n') (ret : c ≠ '\r') :
    ∀ b ∈ String.utf8EncodeChar c, b ≠ 10 ∧ b ≠ 13 := by
  intro b mem
  refine ⟨?_, ?_⟩
  · rintro rfl
    exact feed (Char.toNat_inj.1 (eq_of_mem_utf8EncodeChar mem (by decide)))
  · rintro rfl
    exact ret (Char.toNat_inj.1 (eq_of_mem_utf8EncodeChar mem (by decide)))

theorem bytes_eq_nil_iff {t : Text} : bytes t = [] ↔ t = [] := by
  rw [← List.length_eq_zero_iff, length_bytes]
  cases t with
  | nil => simp
  | cons c t =>
    have := c.utf8Size_pos
    rw [byteSize_cons]
    simp
    omega

/-- A text starts with the byte of a line feed exactly if it starts with a line feed. -/
theorem head?_bytes_eq_feed_iff {t : Text} : (bytes t).head? = some 10 ↔ t.head? = some '\n' := by
  cases t with
  | nil => simp [bytes]
  | cons c t =>
    obtain ⟨b, bs, eq⟩ := List.exists_cons_of_length_pos
      (show 0 < (String.utf8EncodeChar c).length by rw [String.length_utf8EncodeChar]; exact c.utf8Size_pos)
    rw [bytes_cons, eq, List.cons_append, List.head?_cons, List.head?_cons, Option.some.injEq, Option.some.injEq]
    constructor
    · rintro rfl
      exact Char.toNat_inj.1 (eq_of_mem_utf8EncodeChar (b := 10) (by rw [eq]; exact List.mem_cons_self) (by decide))
    · rintro rfl
      exact (List.cons.inj eq).1.symm

/-- The byte behind a text. -/
theorem getElem?_bytes_append (s t : Text) (k : Nat) : (bytes (s ++ t))[byteSize s + k]? = (bytes t)[k]? := by
  rw [bytes_append, List.getElem?_append_right (by rw [length_bytes]; exact Nat.le_add_right _ _), length_bytes,
    Nat.add_sub_cancel_left]

end Text

namespace Checked

open Text (slice? dropBytes? takeBytes?)

/-! ### The walk over the bytes -/

/-- The lines of a text with their offsets: `start` is where the line begins that the walk is in, `place` that of the
next byte. -/
def linesFrom (t : Text) (start place : Nat) : Option (List (Nat × Text)) :=
  if _h : place < t.bytes.length then do
    let byte ← t.bytes[place]?
    if byte = 10 then do
      let line ← slice? t ⟨start, place⟩
      let behind ← linesFrom t (place + 1) (place + 1)
      some ((start, line) :: behind)
    else if byte = 13 then do
      let line ← slice? t ⟨start, place⟩
      let next := if t.bytes[place + 1]? = some 10 then place + 2 else place + 1
      let behind ← linesFrom t next next
      some ((start, line) :: behind)
    else linesFrom t start (place + 1)
  else if start < t.bytes.length then do
    let line ← dropBytes? start t
    some [(start, line)]
  else some []
termination_by t.bytes.length - place
decreasing_by all_goals (try split) <;> omega

/-- Pieces with their offsets, the first at the given one. -/
def placed (offset : Nat) : List (Text × Text) → List (Nat × Text)
  | [] => []
  | (content, ending) :: rest => (offset, content) :: placed (offset + content.byteSize + ending.byteSize) rest

/-- Bytes that end no line are walked over. -/
theorem linesFrom_skip {t : Text} {start place : Nat} (n : Nat)
    (plain : ∀ k < n, ∃ b, t.bytes[place + k]? = some b ∧ b ≠ 10 ∧ b ≠ 13) :
    linesFrom t start place = linesFrom t start (place + n) := by
  induction n generalizing place with
  | zero => rfl
  | succ n ih =>
    obtain ⟨b, here, feed, ret⟩ := plain 0 (Nat.succ_pos n)
    rw [Nat.add_zero] at here
    have inside : place < t.bytes.length := (List.getElem?_eq_some_iff.1 here).1
    have step : linesFrom t start place = linesFrom t start (place + 1) := by
      rw [linesFrom, dif_pos inside, here]
      simp [feed, ret]
    have behind : ∀ k < n, ∃ b, t.bytes[place + 1 + k]? = some b ∧ b ≠ 10 ∧ b ≠ 13 := fun k hk => by
      have := plain (k + 1) (Nat.succ_lt_succ hk)
      rwa [show place + (k + 1) = place + 1 + k by omega] at this
    rw [step, ih behind, show place + 1 + n = place + (n + 1) by omega]

/-- A text without line endings is walked over. -/
theorem linesFrom_plain {w : Text} (plain : '\n' ∉ w ∧ '\r' ∉ w) (s u : Text) (start : Nat) :
    linesFrom (s ++ (w ++ u)) start s.byteSize = linesFrom (s ++ (w ++ u)) start (s ++ w).byteSize := by
  rw [Text.byteSize_append]
  refine linesFrom_skip w.byteSize fun k hk => ?_
  rw [← Text.length_bytes] at hk
  refine ⟨w.bytes[k], ?_, ?_⟩
  · rw [Text.getElem?_bytes_append, Text.bytes_append, List.getElem?_append_left hk, List.getElem?_eq_getElem hk]
  · obtain ⟨c, hc, mem⟩ := List.mem_flatMap.1 (List.getElem_mem hk)
    exact Text.ne_of_mem_utf8EncodeChar (ne_of_mem_of_not_mem hc plain.1) (ne_of_mem_of_not_mem hc plain.2) _ mem

/-- At the end of a text without line endings the walk stops; what it walked over is a line if it is not empty. -/
theorem linesFrom_end (s w : Text) :
    linesFrom (s ++ w) s.byteSize (s ++ w).byteSize = some (if w = [] then [] else [(s.byteSize, w)]) := by
  rw [linesFrom, dif_neg (by rw [Text.length_bytes]; exact Nat.lt_irrefl _), Text.length_bytes, Text.byteSize_append]
  by_cases empty : w = []
  · rw [if_neg (by simp [empty]), if_pos empty]
  · have pos : 0 < w.byteSize := by
      rw [← Text.length_bytes]
      exact List.length_pos_iff.2 (mt Text.bytes_eq_nil_iff.1 empty)
    rw [if_pos (Nat.lt_add_of_pos_right pos), Text.dropBytes?_append, if_neg empty]
    rfl

/-- At a line ending the line in front of it is cut off, and the walk goes on behind it. -/
theorem linesFrom_ending {s w ending u : Text}
    (ends : ending = ['\n'] ∨ ending = ['\r', '\n'] ∨ ending = ['\r'] ∧ u.head? ≠ some '\n') :
    linesFrom (s ++ (w ++ (ending ++ u))) s.byteSize (s ++ w).byteSize
      = (linesFrom (s ++ (w ++ (ending ++ u))) (s ++ w ++ ending).byteSize (s ++ w ++ ending).byteSize).map
          ((s.byteSize, w) :: ·) := by
  generalize whole : s ++ (w ++ (ending ++ u)) = t
  have byte (k : Nat) : t.bytes[(s ++ w).byteSize + k]? = (ending ++ u).bytes[k]? := by
    rw [← whole, ← List.append_assoc]
    exact Text.getElem?_bytes_append _ _ _
  have line : slice? t ⟨s.byteSize, (s ++ w).byteSize⟩ = some w := by
    rw [← whole, Text.byteSize_append]
    exact Text.slice?_append _ _ _
  have inside : (s ++ w).byteSize < t.bytes.length := by
    have pos : 0 < ending.byteSize := by rcases ends with rfl | rfl | ⟨rfl, -⟩ <;> decide
    rw [Text.length_bytes, ← whole]
    simp only [Text.byteSize_append]
    omega
  rw [linesFrom, dif_pos inside, Text.byteSize_append _ ending, Option.map_eq_bind]
  -- The walk looks at one byte, and behind a carriage return at the next.
  rcases ends with rfl | rfl | ⟨rfl, alone⟩
  · have here : t.bytes[(s ++ w).byteSize]? = some 10 := byte 0
    simp only [here, line, Option.bind_eq_bind, Option.bind_some, if_pos]
    rfl
  · have here : t.bytes[(s ++ w).byteSize]? = some 13 := byte 0
    have next : t.bytes[(s ++ w).byteSize + 1]? = some 10 := byte 1
    simp only [here, next, line, Option.bind_eq_bind, Option.bind_some, if_pos]
    rfl
  · have here : t.bytes[(s ++ w).byteSize]? = some 13 := byte 0
    have next : t.bytes[(s ++ w).byteSize + 1]? ≠ some 10 := by
      rw [byte 1]
      exact fun feed => alone (Text.head?_bytes_eq_feed_iff.1 (by rw [List.head?_eq_getElem?]; exact feed))
    simp only [here, line, if_neg next, Option.bind_eq_bind, Option.bind_some, if_pos]
    rfl

/-- The walk finds the pieces of what is in front of it. -/
theorem linesFrom_eq {ps : List (Text × Text)} (cut : Source.Cut ps) (s : Text) :
    linesFrom (s ++ Source.flatten ps) s.byteSize s.byteSize = some (placed s.byteSize ps) := by
  induction cut generalizing s with
  | nil =>
    have := linesFrom_end s []
    rw [List.append_nil, if_pos rfl] at this
    rw [Source.flatten_nil, List.append_nil, this]
    rfl
  | @last content plain ne_nil =>
    have shape : s ++ Source.flatten [(content, [])] = s ++ (content ++ []) := by simp
    rw [shape, linesFrom_plain plain, List.append_nil, linesFrom_end, if_neg ne_nil]
    rfl
  | @line content ending ps plain ends _ ih =>
    have shape : s ++ Source.flatten ((content, ending) :: ps) = s ++ (content ++ (ending ++ Source.flatten ps)) := by
      simp
    -- What the walk has passed is all in front of it, and is left free for the pieces behind.
    have behind := ih (s ++ content ++ ending)
    rw [List.append_assoc, List.append_assoc] at behind
    rw [shape, linesFrom_plain plain, linesFrom_ending ends, behind, Text.byteSize_append, Text.byteSize_append]
    rfl

/-! ### Physical lines -/

/-- The physical lines of a source: a byte order mark in front is cut off, and what the walk over the rest finds is
numbered. -/
def physicalLines (source : Text) : Option (List PhysicalLine) := do
  let mark := if source.head? = some Source.byteOrderMark then Source.byteOrderMark.utf8Size else 0
  let body ← dropBytes? mark source
  let found ← linesFrom body 0 0
  some (found.mapIdx fun i l => ⟨l.2, i + 1, l.1 + mark⟩)

theorem mapIdx_placed (number mark offset : Nat) (ps : List (Text × Text)) :
    (placed offset ps).mapIdx (fun i l => (⟨l.2, i + number, l.1 + mark⟩ : PhysicalLine))
      = Source.locate number (mark + offset) ps := by
  induction ps generalizing number offset with
  | nil => rfl
  | cons p ps ih =>
    have number_succ (i : Nat) : i + 1 + number = i + (number + 1) := by omega
    have offset_succ : mark + (offset + p.1.byteSize + p.2.byteSize) = mark + offset + p.1.byteSize + p.2.byteSize := by
      omega
    rw [placed, List.mapIdx_cons, Source.locate, Nat.zero_add, Nat.add_comm offset mark, ← offset_succ, ← ih]
    simp only [number_succ]

/-- The walk finds the physical lines of a source. -/
theorem physicalLines_eq (source : Text) : physicalLines source = some (Source.physicalLines source) := by
  obtain ⟨mark, rest, rfl, marked, lines_eq⟩ := Source.exists_physicalLines_eq source
  have size : (if (mark ++ rest).head? = some Source.byteOrderMark then Source.byteOrderMark.utf8Size else 0)
      = mark.byteSize := by
    rcases marked with ⟨rfl, noMark⟩ | rfl
    · exact if_neg noMark
    · rfl
  have found : linesFrom rest 0 0 = some (placed 0 (Source.pieces rest)) := by
    have := linesFrom_eq (Source.cut_pieces rest) []
    rwa [Source.flatten_pieces] at this
  rw [lines_eq, physicalLines, size]
  simp only [Text.dropBytes?_append, found, Option.bind_eq_bind, Option.bind_some, mapIdx_placed, Nat.add_zero]

/-! ### Indentation -/

/-- The depth of so many tabs followed by so many spaces. Without tabs a part of a level counts as a level. -/
def depth (width tabs spaces : Nat) : Option (Except IndentError Nat) :=
  if tabs = 0 then do
    let whole ← div? spaces width
    let rest ← mod? spaces width
    some (.ok (if 0 < rest then whole + 1 else whole))
  else do
    let rest ← mod? spaces width
    if rest ≠ 0 then some (.error (.partialLevel spaces))
    else do
      let whole ← div? spaces width
      some (.ok (tabs + whole))

/-- Rounding up adds one to the whole part of a quotient that leaves a rest. -/
theorem add_sub_one_div {width : Nat} (pos : 0 < width) (spaces : Nat) :
    (spaces + width - 1) / width = if 0 < spaces % width then spaces / width + 1 else spaces / width := by
  have whole := Nat.div_add_mod' spaces width
  have rest := Nat.mod_lt spaces pos
  have next (n : Nat) : (n + 1) * width = n * width + width := Nat.succ_mul n width
  split_ifs with partly
  · refine Nat.div_eq_of_lt_le ?_ ?_
    · rw [next]
      omega
    · rw [next, next]
      omega
  · refine Nat.div_eq_of_lt_le ?_ ?_
    · omega
    · rw [next]
      omega

theorem depth_eq {width : Nat} (pos : 0 < width) (tabs spaces : Nat) :
    depth width tabs spaces = some (Indent.depth width tabs spaces) := by
  rw [depth, Indent.depth, div?_of_pos pos, mod?_of_pos pos]
  simp only [Option.bind_eq_bind, Option.bind_some, add_sub_one_div pos]
  split_ifs <;> first | rfl | contradiction

/-- The depth that leading blanks stand for. -/
def measure (leading : Text) (width : Nat) : Option (Except IndentError Nat) :=
  match Indent.count 0 0 leading with
  | .ok (tabs, spaces) => depth (max width 1) tabs spaces
  | .error e => some (.error e)

theorem measure_eq (leading : Text) (width : Nat) : measure leading width = some (Indent.measure leading width) := by
  rw [measure, Indent.measure]
  cases Indent.count 0 0 leading with
  | ok counted => exact depth_eq (Nat.le_max_right width 1) _ _
  | error e => rfl

/-! ### Reading a line -/

/-- What a physical line says: its indentation is what the content leaves of the line. -/
def readLine (o : Options) (l : PhysicalLine) : Option (Option (Except MalformedLine SourceLine)) :=
  if l.content.isEmpty || o.isComment l.content then some none
  else do
    let size ← sub? l.body.byteSize l.content.byteSize
    let leading ← takeBytes? size l.body
    let span : Span := ⟨l.offset + size, l.offset + l.body.byteSize⟩
    match ← measure leading o.levelWidth with
    | .ok depth => some (some (.ok ⟨l.content, depth, l.number, span⟩))
    | .error e => some (some (.error ⟨e, l.number, span⟩))

/-- The content of a line is never longer than the line, and the indentation is cut off between characters. -/
theorem readLine_eq (o : Options) (l : PhysicalLine) : readLine o l = some (l.read o) := by
  have size : sub? l.body.byteSize l.content.byteSize = some l.indent.byteSize := by
    rw [l.byteSize_body, sub?_of_le (Nat.le_add_left _ _), Nat.add_sub_cancel]
  have leading : takeBytes? l.indent.byteSize l.body = some l.indent := by
    have := Text.takeBytes?_append l.indent l.content
    rwa [PhysicalLine.indent, PhysicalLine.content, Text.indent_append_trimStart] at this
  rw [readLine, PhysicalLine.read]
  split_ifs
  · rfl
  · simp only [size, leading, measure_eq, Option.bind_eq_bind, Option.bind_some]
    cases Indent.measure l.indent o.levelWidth <;> rfl

/-- What the lines of a source say, in order. -/
def scan (o : Options) (source : Text) : Option (List (Except MalformedLine SourceLine)) := do
  let ls ← physicalLines source
  let said ← ls.mapM (readLine o)
  some (said.filterMap id)

/-- The lines of a source are read without any operation that fails. -/
theorem scan_eq (o : Options) (source : Text) : scan o source = some (Source.scan o source) := by
  have said (ls : List PhysicalLine) : ls.mapM (readLine o) = some (ls.map (PhysicalLine.read o)) := by
    rw [funext (readLine_eq o)]
    exact List.mapM_pure
  simp only [scan, physicalLines_eq, said, Option.bind_eq_bind, Option.bind_some, List.filterMap_map]
  rfl

end Checked

end BusinessClass
