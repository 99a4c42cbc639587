/-!
# Words and marks

The reserved words that decide the shape of a declaration, and the marks that structure it. Statement and expression
words are left out on purpose: bodies are skipped, never read, so such words are plain identifiers here. Any other
character outside a word, number or literal is an opaque symbol.

* `Keyword.ofSpelling?` inverts `Keyword.spelling` (`ofSpelling?_spelling`, `spelling_of_ofSpelling?`), and
  spellings are distinct (`spelling_injective`).
* `Keyword.isContextual` marks the words that are reserved in some positions only and serve as names elsewhere.
* `Punctuation.ofSpelling?` inverts `Punctuation.spelling`.
* `Punctuation.closer?` pairs an opening delimiter with the one that ends its group.
-/

namespace TestScaffold

/-! ## Keywords -/

/-- A reserved word of the scanned language. -/
inductive Keyword
  | namespaceKw | usingKw | classKw | structKw | recordKw | interfaceKw | enumKw | delegateKw | eventKw
  | operatorKw | implicitKw | explicitKw | thisKw | whereKw
  | publicKw | privateKw | protectedKw | internalKw | fileKw
  | staticKw | abstractKw | sealedKw | partialKw | virtualKw | overrideKw | asyncKw | externKw | unsafeKw
  | readonlyKw | newKw | constKw | volatileKw | requiredKw
  deriving DecidableEq, Repr

namespace Keyword

/-- What a keyword does in a declaration. -/
inductive Category
  /-- The word introduces a declaration or a directive. -/
  | declaration
  /-- The word says who may use the declaration. -/
  | access
  /-- The word is any other modifier. -/
  | modifier
  deriving DecidableEq, Repr

/-- Every keyword, in the order of the vocabulary listing. -/
def all : List Keyword :=
  [namespaceKw, usingKw, classKw, structKw, recordKw, interfaceKw, enumKw, delegateKw, eventKw,
    operatorKw, implicitKw, explicitKw, thisKw, whereKw,
    publicKw, privateKw, protectedKw, internalKw, fileKw,
    staticKw, abstractKw, sealedKw, partialKw, virtualKw, overrideKw, asyncKw, externKw, unsafeKw,
    readonlyKw, newKw, constKw, volatileKw, requiredKw]

/-- The keyword as it is written. -/
def spelling : Keyword → String
  | namespaceKw => "namespace"
  | usingKw => "using"
  | classKw => "class"
  | structKw => "struct"
  | recordKw => "record"
  | interfaceKw => "interface"
  | enumKw => "enum"
  | delegateKw => "delegate"
  | eventKw => "event"
  | operatorKw => "operator"
  | implicitKw => "implicit"
  | explicitKw => "explicit"
  | thisKw => "this"
  | whereKw => "where"
  | publicKw => "public"
  | privateKw => "private"
  | protectedKw => "protected"
  | internalKw => "internal"
  | fileKw => "file"
  | staticKw => "static"
  | abstractKw => "abstract"
  | sealedKw => "sealed"
  | partialKw => "partial"
  | virtualKw => "virtual"
  | overrideKw => "override"
  | asyncKw => "async"
  | externKw => "extern"
  | unsafeKw => "unsafe"
  | readonlyKw => "readonly"
  | newKw => "new"
  | constKw => "const"
  | volatileKw => "volatile"
  | requiredKw => "required"

/-- The group a keyword belongs to. -/
def category : Keyword → Category
  | namespaceKw | usingKw | classKw | structKw | recordKw | interfaceKw | enumKw | delegateKw | eventKw
  | operatorKw | implicitKw | explicitKw | thisKw | whereKw => .declaration
  | publicKw | privateKw | protectedKw | internalKw | fileKw => .access
  | staticKw | abstractKw | sealedKw | partialKw | virtualKw | overrideKw | asyncKw | externKw | unsafeKw
  | readonlyKw | newKw | constKw | volatileKw | requiredKw => .modifier

/-- Contextual keywords are reserved in some positions only; everywhere else they are identifiers. -/
def isContextual : Keyword → Bool
  | recordKw | whereKw | fileKw | partialKw | asyncKw | requiredKw => true
  | _ => false

/-- Modifiers are the words that may stand in front of a declaration. -/
def isModifier (k : Keyword) : Bool := k.category != .declaration

/-- The keyword spelled `s`, if there is one; letter case matters. -/
def ofSpelling? (s : String) : Option Keyword := all.find? fun k => k.spelling == s

theorem mem_all (k : Keyword) : k ∈ all := by cases k <;> decide

@[simp] theorem ofSpelling?_spelling (k : Keyword) : ofSpelling? k.spelling = some k := by
  cases k <;> rfl

theorem spelling_of_ofSpelling? {s : String} {k : Keyword} (h : ofSpelling? s = some k) :
    k.spelling = s := by
  simpa using List.find?_some h

theorem spelling_injective {a b : Keyword} (h : a.spelling = b.spelling) : a = b := by
  have ha := ofSpelling?_spelling a
  rw [h, ofSpelling?_spelling] at ha
  exact (Option.some.inj ha).symm

end Keyword

/-! ## Punctuation -/

/-- A punctuation mark of the scanned language. -/
inductive Punctuation
  | comma | colon | semicolon
  | dot
  | fatArrow | equals | tilde | question
  | leftParen | rightParen | leftBracket | rightBracket | leftBrace | rightBrace | leftAngle | rightAngle
  deriving DecidableEq, Repr

namespace Punctuation

/-- What a punctuation mark is for. -/
inductive Category
  /-- Parentheses, brackets, braces and angle brackets. -/
  | delimiter
  /-- Marks between the items of a list. -/
  | separator
  /-- The dot of member access. -/
  | access
  /-- Marks that decide what kind of member a head introduces. -/
  | marker
  deriving DecidableEq, Repr

/-- Every punctuation mark, in the order of the vocabulary listing. -/
def all : List Punctuation :=
  [comma, colon, semicolon, dot, fatArrow, equals, tilde, question,
    leftParen, rightParen, leftBracket, rightBracket, leftBrace, rightBrace, leftAngle, rightAngle]

/-- The mark as it is written. -/
def spelling : Punctuation → String
  | comma => ","
  | colon => ":"
  | semicolon => ";"
  | dot => "."
  | fatArrow => "=>"
  | equals => "="
  | tilde => "~"
  | question => "?"
  | leftParen => "("
  | rightParen => ")"
  | leftBracket => "["
  | rightBracket => "]"
  | leftBrace => "\x7b"
  | rightBrace => "\x7d"
  | leftAngle => "<"
  | rightAngle => ">"

/-- The group a mark belongs to. -/
def category : Punctuation → Category
  | comma | colon | semicolon => .separator
  | dot => .access
  | fatArrow | equals | tilde | question => .marker
  | leftParen | rightParen | leftBracket | rightBracket | leftBrace | rightBrace | leftAngle | rightAngle =>
    .delimiter

/-- The delimiter that ends a group begun by this one, for the four opening delimiters. -/
def closer? : Punctuation → Option Punctuation
  | leftParen => some rightParen
  | leftBracket => some rightBracket
  | leftBrace => some rightBrace
  | leftAngle => some rightAngle
  | _ => none

/-- The mark spelled `s`, if there is one. -/
def ofSpelling? (s : String) : Option Punctuation := all.find? fun p => p.spelling == s

/-- The one-character mark `c`, if there is one. -/
def ofChar? (c : Char) : Option Punctuation := ofSpelling? (String.singleton c)

@[simp] theorem ofSpelling?_spelling (p : Punctuation) : ofSpelling? p.spelling = some p := by
  cases p <;> rfl

theorem spelling_of_ofSpelling? {s : String} {p : Punctuation} (h : ofSpelling? s = some p) :
    p.spelling = s := by
  simpa using List.find?_some h

end Punctuation

end TestScaffold
