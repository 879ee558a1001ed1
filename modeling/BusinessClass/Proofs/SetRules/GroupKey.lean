import BusinessClass.Proofs.Text.Name
import BusinessClass.SetRules.Group
import Mathlib.Tactic.SplitIfs

/-!
# Group keys and their headers

The header of a group is `Set Rules` behind a key, in any letter case and spacing. The key that is read from it has a
header of its own, which matches the one it was read from and is read as that key again.

* `GroupKey.IsProper` says which keys headers stand for.
* `ofHeader?_eq_some_iff` and `ofWords?_eq_some`: what a header consists of, and which words stand in front of
  `Set Rules`.
* `words_header` and `ofHeader?_header`: the header of a proper key is read as that key.
* `ofHeader?_canonical`: every key that is read is proper, and its header matches what it was read from.
-/

namespace BusinessClass

namespace GroupKey

/-- The keys that headers stand for: the segments of a path are identifiers without dots, there is at least one, and
the path does not read `empty` in any letter case. -/
def IsProper : GroupKey → Prop
  | .empty => True
  | .general => True
  | .path segments => segments ≠ [] ∧ (∀ s ∈ segments, s.IsIdentifier ∧ '.' ∉ s) ∧
      Text.sameLetters (dotted segments) "empty".toList = false

/-! ### What a header consists of -/

theorem ofHeader?_eq_some_iff {text : Text} {key : GroupKey} : ofHeader? text = some key ↔
    ∃ front set rules, text.words = front ++ [set, rules] ∧ Text.sameLetters set "set".toList = true ∧
      Text.sameLetters rules "rules".toList = true ∧ ofWords? front = some key := by
  rw [ofHeader?]
  generalize text.words = words
  obtain ⟨back, rfl⟩ : ∃ back, words = back.reverse := ⟨words.reverse, words.reverse_reverse.symm⟩
  rw [List.reverse_reverse]
  constructor
  · intro h
    split at h
    · rename_i rules set front
      split at h
      · rename_i same
        obtain ⟨hset, hrules⟩ := (Bool.and_eq_true _ _).mp same
        exact ⟨front.reverse, set, rules, by simp, hset, hrules, h⟩
      · cases h
    · cases h
  · rintro ⟨front, set, rules, eq, hset, hrules, key_eq⟩
    obtain rfl : back = rules :: set :: front.reverse := by
      rw [← back.reverse_reverse, eq]
      simp
    simp only [hset, hrules, Bool.and_true, if_true, List.reverse_reverse, key_eq]

/-- The words in front of `Set Rules` are none, `Empty`, or a path. -/
theorem ofWords?_eq_some {front : List Text} {key : GroupKey} (h : ofWords? front = some key) :
    (front = [] ∧ key = .general) ∨
      (∃ word, front = [word] ∧ Text.sameLetters word "empty".toList = true ∧ key = .empty) ∨
      ∃ word, front = [word] ∧ Text.sameLetters word "empty".toList = false ∧
        word.segments.all Text.isPlainName = true ∧ key = .path word.segments := by
  unfold ofWords? at h
  split at h
  · exact .inl ⟨rfl, (Option.some.inj h).symm⟩
  · rename_i word
    split_ifs at h with empty plain
    · exact .inr (.inl ⟨word, rfl, empty, (Option.some.inj h).symm⟩)
    · exact .inr (.inr ⟨word, rfl, by simpa using empty, plain, (Option.some.inj h).symm⟩)
  · cases h

/-! ### The header of a key -/

/-- The words of the header in front of `Set Rules`. -/
def lead : GroupKey → List Text
  | .empty => ["Empty".toList]
  | .general => []
  | .path segments => [dotted segments]

theorem header_eq_unwords (key : GroupKey) : key.header = Text.unwords (key.lead ++ ["Set".toList, "Rules".toList]) := by
  cases key with
  | empty => rfl
  | general => rfl
  | path segments =>
    rw [lead, List.singleton_append, Text.unwords_cons]
    rfl

section Path

variable {segments : List Text} (proper : IsProper (.path segments))

include proper

theorem segments_dotted : (dotted segments).segments = segments :=
  Text.split_intercalate proper.1 fun s hs => (proper.2.1 s hs).2

/-- A path with its dots is a chain of names. -/
theorem isDottedName_dotted : (dotted segments).isDottedName = true := by
  rw [Text.isDottedName, segments_dotted proper, List.all_eq_true]
  exact fun s hs => (proper.2.1 s hs).1.isName

end Path

theorem isWord_of_mem_lead {key : GroupKey} (proper : key.IsProper) : ∀ w ∈ key.lead, w.IsWord := by
  cases key with
  | empty => decide
  | general => simp [lead]
  | path segments => simpa [lead] using Text.isWord_of_isDottedName (isDottedName_dotted proper)

theorem words_header {key : GroupKey} (proper : key.IsProper) :
    key.header.words = key.lead ++ ["Set".toList, "Rules".toList] := by
  rw [header_eq_unwords]
  refine Text.words_unwords fun w hw => ?_
  rcases List.mem_append.1 hw with hw | hw
  · exact isWord_of_mem_lead proper w hw
  · exact (by decide : ∀ w ∈ ["Set".toList, "Rules".toList], Text.IsWord w) w hw

theorem ofWords?_lead {key : GroupKey} (proper : key.IsProper) : ofWords? key.lead = some key := by
  cases key with
  | empty => decide
  | general => rfl
  | path segments =>
    have plain : segments.all Text.isPlainName = true :=
      List.all_eq_true.2 fun s hs => Text.isPlainName_iff.2 (proper.2.1 s hs).1
    rw [lead, ofWords?, proper.2.2, segments_dotted proper, plain]
    rfl

/-- The header of a key is read as that key. -/
theorem ofHeader?_header {key : GroupKey} (proper : key.IsProper) : ofHeader? key.header = some key :=
  ofHeader?_eq_some_iff.2 ⟨key.lead, _, _, words_header proper, by decide, by decide, ofWords?_lead proper⟩

/-! ### Keys that were read -/

theorem dotted_segments (word : Text) : dotted word.segments = word := Text.intercalate_split '.' word

theorem isProper_of_ofWords? {front : List Text} {key : GroupKey} (h : ofWords? front = some key) : key.IsProper := by
  rcases ofWords?_eq_some h with ⟨-, rfl⟩ | ⟨word, -, -, rfl⟩ | ⟨word, -, notEmpty, plain, rfl⟩
  · trivial
  · trivial
  · refine ⟨Text.split_ne_nil _ word, fun s hs => ⟨?_, fun dot => ?_⟩, ?_⟩
    · exact Text.isPlainName_iff.1 (List.all_eq_true.1 plain s hs)
    · simpa using (Text.mem_split s hs '.' dot).1
    · rwa [dotted_segments]

/-- The words in front are those of the key's own header, up to letter case. -/
theorem lower_lead_of_ofWords? {front : List Text} {key : GroupKey} (h : ofWords? front = some key) :
    key.lead.map Text.lower = front.map Text.lower := by
  rcases ofWords?_eq_some h with ⟨rfl, rfl⟩ | ⟨word, rfl, empty, rfl⟩ | ⟨word, rfl, -, -, rfl⟩
  · rfl
  · rw [lead, List.map_singleton, List.map_singleton, beq_iff_eq.1 empty]
    decide
  · rw [lead, dotted_segments]

theorem isProper_of_ofHeader? {text : Text} {key : GroupKey} (h : ofHeader? text = some key) : key.IsProper := by
  obtain ⟨front, set, rules, -, -, -, key_eq⟩ := ofHeader?_eq_some_iff.1 h
  exact isProper_of_ofWords? key_eq

/-- The path in the header of a group is written there as one word, a dotted name. -/
theorem exists_word_of_path {text : Text} {segments : List Text} (h : ofHeader? text = some (.path segments)) :
    ∃ word set rules, text.words = [word, set, rules] ∧ name (.path segments) = word ∧ word.isDottedName = true := by
  have dotted := isDottedName_dotted (isProper_of_ofHeader? h)
  obtain ⟨front, set, rules, words, -, -, key⟩ := ofHeader?_eq_some_iff.1 h
  rcases ofWords?_eq_some key with ⟨-, other⟩ | ⟨_, -, -, other⟩ | ⟨word, rfl, -, -, path⟩
  · cases other
  · cases other
  · cases path
    rw [dotted_segments] at dotted
    exact ⟨word, set, rules, words, dotted_segments word, dotted⟩

/-- What a key is read from matches its header. -/
theorem sameWords_header {text : Text} {key : GroupKey} (h : ofHeader? text = some key) :
    Text.sameWords text key.header = true := by
  obtain ⟨front, set, rules, words, hset, hrules, key_eq⟩ := ofHeader?_eq_some_iff.1 h
  have ends : [set, rules].map Text.lower = ["Set".toList, "Rules".toList].map Text.lower := by
    rw [List.map_cons, List.map_singleton, beq_iff_eq.1 hset, beq_iff_eq.1 hrules]
    decide
  rw [Text.sameWords, words, words_header (isProper_of_ofHeader? h), List.map_append, List.map_append,
    lower_lead_of_ofWords? key_eq, ends]
  exact beq_self_eq_true _

/-- **Group keys have one canonical header.** A key that is read from a header is read again from its own header, which
matches the first one; the segments of its path are identifiers without dots, at least one, and they do not spell the
word for the group without selection. All keys of this kind are read from their headers. -/
theorem ofHeader?_canonical :
    (∀ text key, ofHeader? text = some key →
      ofHeader? key.header = some key ∧ Text.sameWords text key.header = true ∧ key.IsProper) ∧
    ∀ key, IsProper key → ofHeader? key.header = some key := by
  refine ⟨fun text key h => ?_, fun key proper => ofHeader?_header proper⟩
  have proper := isProper_of_ofHeader? h
  exact ⟨ofHeader?_header proper, sameWords_header h, proper⟩

/-- A path may read `set` and hold letters of any script; the word for the group without selection is no path. -/
theorem ofHeader?_canonical_wide :
    let text := " Set\tSET\u00a0 rules".toList
    let key := GroupKey.path ["Größe".toList, "_2".toList]
    ofHeader? text = some (.path ["Set".toList]) ∧
      (ofHeader? "Set Set Rules".toList = some (.path ["Set".toList]) ∧ Text.sameWords text "Set Set Rules".toList = true ∧
        IsProper (.path ["Set".toList])) ∧
      ofHeader? "EMPTY  set rules".toList = some .empty ∧ Text.sameWords "EMPTY  set rules".toList (header .empty) = true ∧
      key.IsProper ∧ ofHeader? key.header = some key := by
  intro text key
  have set : ofHeader? text = some (.path ["Set".toList]) := by decide
  have empty : ofHeader? "EMPTY  set rules".toList = some .empty := by decide
  have proper : key.IsProper := by
    refine ⟨by decide, List.forall_mem_cons.2 ⟨⟨?_, by decide⟩, List.forall_mem_singleton.2 ⟨?_, by decide⟩⟩, by decide⟩
    · exact Text.isPlainName_iff.1 (by decide)
    · exact Text.isPlainName_iff.1 (by decide)
  exact ⟨set, ofHeader?_canonical.1 _ _ set, empty, (ofHeader?_canonical.1 _ _ empty).2.1, proper,
    ofHeader?_canonical.2 _ proper⟩

end GroupKey

end BusinessClass
