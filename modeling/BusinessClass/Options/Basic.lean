import BusinessClass.Text.Basic

/-!
# Reading options

What a reader of class sources may be told: how wide an indentation level is, what starts a
comment, how deep Set Rules groups may nest, which further phrases are qualifiers, how sets among
local fields are classified, and under which name diagnostics are filed.
-/

namespace BusinessClass

/-- How a declaration of type `Set` among local fields is classified. -/
inductive LocalSetRule
  /-- It stays a field. -/
  | asField
  /-- It becomes a set definition. -/
  | asSetDefinition
deriving DecidableEq, Repr

/-- The options of one reading. -/
structure Options where
  /-- Number of leading spaces that make one indentation level. -/
  tabWidth : Nat := 4
  /-- A line whose content starts with this marker is a comment; the empty marker starts none. -/
  commentMarker : Text := "//".toList
  /-- Deepest allowed nesting of Set Rules groups. -/
  maxDepth : Option Nat := none
  /-- Further qualifier phrases, such as `upper case`. -/
  extraQualifiers : List Text := []
  /-- What becomes of sets among local fields; nothing changes without a rule. -/
  localSetRule : Option LocalSetRule := none
  /-- The name that every diagnostic is filed under. -/
  sourceName : Option Text := none
deriving DecidableEq, Repr

namespace Options

/-- Spaces per level, never less than one. -/
def levelWidth (o : Options) : Nat := max o.tabWidth 1

/-- Whether a line with this content is a comment. -/
def isComment (o : Options) (content : Text) : Bool :=
  !o.commentMarker.isEmpty && o.commentMarker.isPrefixOf content

/-- Whether a Set Rules group may stand at this nesting level, counted from one. -/
def admitsLevel (o : Options) (level : Nat) : Bool :=
  match o.maxDepth with
  | none => true
  | some limit => level ≤ limit

/-- Whether sets among local fields become set definitions. -/
def definesLocalSets (o : Options) : Bool := o.localSetRule == some .asSetDefinition

/-- The options with another name for diagnostics. -/
def withSourceName (o : Options) (name : Text) : Options := { o with sourceName := some name }

/-- The options with a bound on the nesting of Set Rules groups. -/
def withMaxDepth (o : Options) (limit : Nat) : Options := { o with maxDepth := some limit }

/-- The options with a rule for sets among local fields. -/
def withLocalSetRule (o : Options) (rule : LocalSetRule) : Options :=
  { o with localSetRule := some rule }

end Options

end BusinessClass
