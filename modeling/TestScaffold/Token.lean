import TestScaffold.Text.Place
import TestScaffold.Vocabulary

/-!
# Tokens

What a text consists of once comments, blanks and directives are set aside. The contents of literals are not
kept: only the place they take matters.

* `TokenKind.name?` gives the name a token can stand for: identifiers, and contextual keywords by their spelling.
* `TokenKind.description` is how a problem report names the token it met.
-/

namespace TestScaffold

/-- The sort of a literal. -/
inductive LiteralKind
  | string
  | char
  | number
  deriving DecidableEq, Repr

/-- The sort of a token, with what distinguishes it from others of its sort. -/
inductive TokenKind
  | keyword (word : Keyword)
  | punctuation (mark : Punctuation)
  | identifier (name : String)
  | literal (kind : LiteralKind)
  /-- Any other single character, such as an operator sign. -/
  | symbol (sign : Char)
  | endOfText
  deriving DecidableEq, Repr

/-- A token and the place it takes in its text. -/
structure Token where
  kind : TokenKind
  span : Span
  deriving DecidableEq, Repr

namespace TokenKind

/-- The keyword a token is, if it is one. -/
def keyword? : TokenKind → Option Keyword
  | keyword k => some k
  | _ => none

/-- The punctuation mark a token is, if it is one. -/
def punctuation? : TokenKind → Option Punctuation
  | punctuation p => some p
  | _ => none

/-- The name a token can stand for: an identifier's own, and the spelling of a contextual keyword. -/
def name? : TokenKind → Option String
  | identifier name => some name
  | keyword k => if k.isContextual then some k.spelling else none
  | _ => none

/-- Whether the token opens a group that is skipped as a unit. Angle brackets do not: outside type arguments they
are comparisons. -/
def opensGroup : TokenKind → Bool
  | punctuation .leftParen | punctuation .leftBracket | punctuation .leftBrace => true
  | _ => false

/-- How a problem report names the token. -/
def description : TokenKind → String
  | keyword k => s!"'{k.spelling}'"
  | punctuation p => s!"'{p.spelling}'"
  | identifier name => s!"identifier '{name}'"
  | literal _ => "literal"
  | symbol c => s!"'{c}'"
  | endOfText => "end of file"

@[simp] theorem name?_identifier (name : String) : (identifier name).name? = some name := rfl

theorem name?_keyword_of_isContextual {k : Keyword} (h : k.isContextual = true) :
    (keyword k).name? = some k.spelling := by simp [name?, h]

end TokenKind

end TestScaffold
