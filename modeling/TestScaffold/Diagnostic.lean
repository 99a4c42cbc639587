import TestScaffold.Declaration
import TestScaffold.Text.Place
import TestScaffold.Token

/-!
# Diagnostics

A `Fault` is the cause of a rejected text; a `Diagnostic` is its report: phase, wording, place and an optional
hint. Every report of the scanner and of the declaration reader is a fault put at a span. A diagnostic can be shown with
the line it is about: file, line and column, the line itself, and carets below the place.

* `Fault.message`, `Fault.hint?`: the wording, in one place.
* `Diagnostic.text`: the report in one line.
* `Excerpt.at?` finds line, column and quoted line of a byte offset; it fails only inside a character.
* `Diagnostic.render?` writes the whole report.
-/

namespace TestScaffold

/-! ## Reports -/

/-- The step that rejected a text. -/
inductive Phase
  /-- The text could not be cut into tokens. -/
  | lexical
  /-- The tokens do not form declarations. -/
  | grammar
  deriving DecidableEq, Repr

/-- The title of a phase's reports. -/
def Phase.label : Phase → String
  | lexical => "lexical error"
  | grammar => "syntax error"

/-- A report on a rejected text. -/
structure Diagnostic where
  phase : Phase
  message : String
  span : Span
  hint : Option String
  deriving DecidableEq, Repr

/-- The report in one line. -/
def Diagnostic.text (d : Diagnostic) : String := s!"{d.phase.label}: {d.message}"

/-- What a declaration reader was looking for when it met another token. -/
inductive Expectation
  | declaration
  | typeName (kind : TypeKind)
  | typeBody
  | namespaceName
  | nameAfterDot
  | namespaceBody
  | member
  | methodBody
  | semicolon
  deriving DecidableEq, Repr

/-- The wording of an expectation. -/
def Expectation.message : Expectation → String
  | declaration => "expected namespace or type declaration"
  | typeName kind => s!"expected {kind.label} name"
  | typeBody => "expected '\x7b' to open the type body"
  | namespaceName => "expected namespace name"
  | nameAfterDot => "expected identifier after '.'"
  | namespaceBody => "expected '\x7b' or ';' after namespace name"
  | member => "expected member declaration"
  | methodBody => "expected method body or ';'"
  | semicolon => "expected ';'"

/-- Why a text was rejected. -/
inductive Fault
  | unterminatedString
  | unterminatedChar
  | unterminatedComment
  /-- A closing brace with no body to close. -/
  | strayBrace
  /-- A body below the deepest level that is read. -/
  | nestedTooDeeply
  /-- A namespace ended by `;` below the top level. -/
  | misplacedFileNamespace
  /-- A group or body that the text ends in. -/
  | unclosed (opener closer : Punctuation)
  /-- A closing delimiter that does not fit the innermost open one. -/
  | mismatched (found closer : Punctuation)
  /-- A group was to begin at a token that opens none. -/
  | noOpener (found : TokenKind)
  /-- A member head that names nothing. -/
  | missingMemberName
  | expected (what : Expectation) (found : TokenKind)
  deriving DecidableEq, Repr

namespace Fault

/-- The step that finds the fault. -/
def phase : Fault → Phase
  | unterminatedString | unterminatedChar | unterminatedComment => .lexical
  | _ => .grammar

/-- The wording of the fault. -/
def message : Fault → String
  | unterminatedString => "unterminated string literal"
  | unterminatedChar => "unterminated char literal"
  | unterminatedComment => "unterminated block comment"
  | strayBrace => "unexpected '\x7d'"
  | nestedTooDeeply => "declarations are nested too deeply"
  | misplacedFileNamespace => "file-scoped namespace must be declared at the top level"
  | unclosed opener _ => s!"unclosed '{opener.spelling}'"
  | mismatched found closer => s!"mismatched '{found.spelling}', expected '{closer.spelling}'"
  | noOpener found => s!"expected an opening delimiter, found {found.description}"
  | missingMemberName => "expected member name"
  | expected what found => s!"{what.message}, found {found.description}"

/-- Advice on mending the fault, where there is any. -/
def hint? : Fault → Option String
  | unterminatedString => some "close the string with a matching '\"'"
  | misplacedFileNamespace => some "use a block-bodied namespace `namespace Name \x7b ... \x7d` here"
  | unclosed _ closer => some s!"add a matching '{closer.spelling}'"
  | _ => none

/-- The report of the fault at a place. -/
def report (f : Fault) (span : Span) : Diagnostic := ⟨f.phase, f.message, span, f.hint?⟩

@[simp] theorem report_span (f : Fault) (s : Span) : (f.report s).span = s := rfl

end Fault

/-! ## Excerpts -/

/-- The surroundings of a place: its line number, its column and the text of its line. Lines and columns count
from one, and columns count characters. -/
structure Excerpt where
  line : Nat
  column : Nat
  text : List Char
  deriving DecidableEq, Repr

namespace Excerpt

/-- The part of a text after its last line break. -/
def lastLine (cs : List Char) : List Char := (cs.reverse.takeWhile (· != '\n')).reverse

/-- The text without the carriage returns at its end. -/
def dropReturns (cs : List Char) : List Char := (cs.reverse.dropWhile (· == '\r')).reverse

/-- The surroundings of the byte offset `offset`. Offsets past the end count as the end; an offset inside a
character has no surroundings. -/
def at? (source : List Char) (offset : Nat) : Option Excerpt :=
  (Text.splitAtByte? offset source).map fun (before, after) =>
    let indent := lastLine before
    { line := before.count '\n' + 1
      column := indent.length + 1
      text := dropReturns (indent ++ after.takeWhile (· != '\n')) }

/-- The number of carets below the line: as many as the span has bytes, as far as the line's bytes go, and at
least one. -/
def caretCount (e : Excerpt) (span : Span) : Nat :=
  max 1 (min span.length (Text.byteLength e.text - (e.column - 1)))

/-- A text made of `n` copies of `c`. -/
def run (n : Nat) (c : Char) : String := String.ofList (List.replicate n c)

/-- The report of a diagnostic with its excerpt. -/
def render (e : Excerpt) (file : String) (d : Diagnostic) : String :=
  let number := toString e.line
  let margin := run number.length ' '
  let heading := s!"{d.text}\n  --> {file}:{number}:{e.column}\n"
  let quoted := s!"  {margin} |\n  {number} | {String.ofList e.text}\n"
  let indent := run (e.column - 1) ' '
  let carets := run (e.caretCount d.span) '^'
  let underline := s!"  {margin} | {indent}{carets}\n"
  let advice := match d.hint with
    | some hint => s!"  = hint: {hint}\n"
    | none => ""
  heading ++ quoted ++ underline ++ advice

end Excerpt

/-- The report of a diagnostic on `source`, with the line it is about. Fails if the diagnostic starts inside a
character, which no diagnostic of `source` itself does. -/
def Diagnostic.render? (d : Diagnostic) (file : String) (source : String) : Option String :=
  (Excerpt.at? source.toList d.span.start).map fun e => e.render file d

end TestScaffold
