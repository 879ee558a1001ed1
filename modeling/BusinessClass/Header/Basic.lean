import BusinessClass.Header.Qualifier
import BusinessClass.Options.Basic

/-!
# Declaration headers

A declaration starts with a header line: typed as `Name is [a|an] Type qualifiers`, or bare with a
name alone.

* `Header.recognize` reads a typed header. The type is the shortest text after `is` and the article
  behind which only qualifiers follow.
* `Header.bare?` reads a bare header, `Header.ofText` either of them.
* `Qualifier.line?` reads a line that holds qualifiers alone.
* `Header.render` writes a header line.
-/

namespace BusinessClass

/-- The article after `is`. -/
inductive Article
  | a
  | an
deriving DecidableEq, Repr

/-- The article as written. -/
def Article.text : Article → Text
  | .a => "a".toList
  | .an => "an".toList

/-- The header of a declaration. -/
structure Header where
  /-- The declared name. -/
  name : Text
  /-- The article after `is`, if one is written. -/
  article : Option Article
  /-- The type as written; a bare header has none. -/
  typeName : Option Text
  /-- The qualifiers with single spaces, those of the header line first. -/
  qualifiers : List Text
  /-- Number of the header line. -/
  line : Nat
  /-- Where the header line stands in the source. -/
  span : Span
deriving DecidableEq, Repr

/-- Why a line is no typed header. -/
inductive HeaderError
  /-- It does not start with a name and `is`. -/
  | continuation
  /-- Nothing follows `is` and the article. -/
  | missingType
  /-- A quote after `is` is never closed. -/
  | unterminatedString
deriving DecidableEq, Repr

namespace HeaderError

/-- The reason in words. -/
def message : HeaderError → Text
  | .continuation =>
    "no `<Name> is a <Type>` shape; likely continuation or free-text content".toList
  | .missingType => "`is` is not followed by a type name".toList
  | .unterminatedString => "unterminated string literal".toList

end HeaderError

/-- The further qualifier phrases that the options give; a phrase without words is none. -/
def Options.phrases (o : Options) : List Phrase := o.extraQualifiers.filterMap Phrase.ofText?

namespace Header

/-- Takes the article from the front of a token list. -/
def takeArticle : List Lexeme → Option Article × List Lexeme
  | [] => (none, [])
  | l :: ls =>
    if l.token = .word "a".toList then (some .a, ls)
    else if l.token = .word "an".toList then (some .an, ls)
    else (none, l :: ls)

/-- Parts a token list where the first run of qualifiers that reaches its end begins. -/
def splitQualifiers (extra : List Phrase) : List Lexeme → List Lexeme × List Text
  | [] => ([], [])
  | l :: ls =>
    match Qualifier.all? extra (Lexeme.tokens (l :: ls)) with
    | some qs => ([], qs)
    | none =>
      let (before, qs) := splitQualifiers extra ls
      (l :: before, qs)

/-- What follows `is` in a typed header: article, type and qualifiers. -/
def recognizeType (extra : List Phrase) (ls : List Lexeme) :
    Except HeaderError (Option Article × Text × List Text) :=
  -- a quote that is never closed is a mark, which would pass for a type below
  if Token.mark '"' ∈ Lexeme.tokens ls then .error .unterminatedString
  else match takeArticle ls with
    | (_, []) => .error .missingType
    | (article, l :: rest) =>
      let (more, qualifiers) := splitQualifiers extra rest
      .ok (article, Lexeme.verbatim (l :: more), qualifiers)

/-- Reads a typed header: a name, `is`, a type and qualifiers. -/
def recognize (extra : List Phrase) (text : Text) (line : Nat) (span : Span) :
    Except HeaderError Header :=
  match Lexeme.ofText text with
  | ⟨_, .word name⟩ :: ⟨_, .word is⟩ :: rest =>
    if is = "is".toList then
      match recognizeType extra rest with
      | .ok (article, typeName, qualifiers) =>
        .ok ⟨name, article, some typeName, qualifiers, line, span⟩
      | .error e => .error e
    else .error .continuation
  | _ => .error .continuation

/-- Reads a bare header: a dotted name alone. -/
def bare? (text : Text) (line : Nat) (span : Span) : Option Header :=
  if text.isDottedName then some ⟨text, none, none, [], line, span⟩ else none

/-- Reads a typed header, or else a bare one; the error is that of the typed reading. -/
def ofText (extra : List Phrase) (text : Text) (line : Nat) (span : Span) :
    Except HeaderError Header :=
  match recognize extra text line span with
  | .ok header => .ok header
  | .error e =>
    match bare? text line span with
    | some header => .ok header
    | none => .error e

/-- The header line: a bare header is its name, a typed one ends with its qualifiers. -/
def render (h : Header) : Text :=
  match h.typeName with
  | none => h.name
  | some typeName =>
    let article := match h.article with
      | none => []
      | some article => [article.text]
    Text.unwords ([h.name, "is".toList] ++ article ++ typeName :: h.qualifiers)

/-- Whether the header has the qualifier. -/
def hasQualifier (h : Header) (q : Text) : Bool := h.qualifiers.contains q

/-- The header with further qualifiers behind its own. -/
def addQualifiers (h : Header) (qs : List Text) : Header :=
  { h with qualifiers := h.qualifiers ++ qs }

end Header

namespace Qualifier

/-- The qualifiers of a line that holds at least one and nothing else. -/
def line? (extra : List Phrase) (text : Text) : Option (List Text) :=
  match Lexeme.ofText text with
  | [] => none
  | ls => all? extra (Lexeme.tokens ls)

end Qualifier

end BusinessClass
