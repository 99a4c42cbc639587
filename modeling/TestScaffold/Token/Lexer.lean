import TestScaffold.Text.Character
import TestScaffold.Token.Literal

/-!
# From text to tokens

A text is cut from left to right into lexemes: tokens, faults, and stretches that stand for nothing (comments and
directives). Blanks separate lexemes. If any fault is found the tokens are withheld and every fault is reported.

* `lex`: the tokens of a text, the last of which marks its end, or all of its lexical faults.
* `length_lexeme_lt`: each lexeme passes at least one character.
-/

namespace TestScaffold

open Text (Cursor)

/-- What one step of the scanner reads. -/
inductive Reading
  /-- A comment or a directive. -/
  | nothing
  | token (kind : TokenKind)
  | problem (report : Diagnostic)
  deriving DecidableEq, Repr

/-- A stretch of text read in one step: what it stands for, where it ends, and whether the text after it still
counts as the beginning of a line. -/
structure Lexeme where
  reading : Reading
  next : Cursor
  atLineStart : Bool := false
  deriving DecidableEq, Repr

namespace Lexeme

/-! ## Comments and directives -/

/-- Whether `c` does not end a line. -/
def staysOnLine (c : Char) : Bool := c != '\n'

/-- Everything up to the end of the line, which stands for nothing. -/
def restOfLine (offset : Nat) (cs : List Char) : Lexeme := ⟨.nothing, Cursor.skipWhile staysOnLine offset cs, false⟩

/-- The place after the end of a block comment, if it has an end. -/
def afterComment? : Nat → List Char → Option Cursor
  | _, [] => none
  | offset, c :: cs =>
    if c == '*' && cs.head? == some '/' then some ⟨offset + 2, cs.tail⟩
    else afterComment? (offset + c.utf8Size) cs

/-- A block comment whose contents begin at `offset`. It does not change whether a line is beginning; the report
on an open one marks its two opening characters. -/
def blockComment (lineStart : Bool) (start offset : Nat) (cs : List Char) : Lexeme :=
  match afterComment? offset cs with
  | some next => ⟨.nothing, next, lineStart⟩
  | none =>
    ⟨.problem (Fault.unterminatedComment.report ⟨start, start + 2⟩), ⟨offset + Text.byteLength cs, []⟩, lineStart⟩

/-! ## Words, numbers and literals -/

/-- The name made of the identifier characters at the front of `cs`, put after `front`. -/
def nameOf (front cs : List Char) : String := String.ofList (front ++ cs.takeWhile Text.isIdentifierPart)

/-- A word, which is a keyword if it is spelled like one. -/
def word (offset : Nat) (first : Char) (cs : List Char) : Lexeme :=
  let name := nameOf [first] cs
  let kind := match Keyword.ofSpelling? name with
    | some k => .keyword k
    | none => .identifier name
  ⟨.token kind, Cursor.skipWhile Text.isIdentifierPart offset cs, false⟩

/-- A name behind an `@`, which is never a keyword. -/
def verbatimName (offset : Nat) (cs : List Char) : Lexeme :=
  ⟨.token (.identifier (nameOf [] cs)), Cursor.skipWhile Text.isIdentifierPart offset cs, false⟩

/-- Whether a number goes on with `c`. A point belongs to it only in front of a digit, so a member of a number can
be named. -/
def continuesNumber (c : Char) (next : List Char) : Bool :=
  c.isAlphanum || c == '_' || (c == '.' && next.head?.any Char.isDigit)

/-- The end of a number: digits, separators, a fraction, an exponent and suffixes in any mixture. -/
def afterNumber : Nat → List Char → Cursor
  | offset, [] => ⟨offset, []⟩
  | offset, c :: cs =>
    if continuesNumber c cs then afterNumber (offset + c.utf8Size) cs else ⟨offset, c :: cs⟩

/-- A string or character literal that starts at `start`, read from `offset` on. -/
def literal (kind : LiteralKind) (start : Nat) (mode : Literal.Mode) (offset : Nat) (cs : List Char) : Lexeme :=
  match Literal.scanFrom start mode offset cs with
  | .closed next => ⟨.token (.literal kind), next, false⟩
  | .broken problem next => ⟨.problem problem, next, false⟩

/-! ## One lexeme -/

/-- A single mark, or a character of no meaning. -/
def mark (offset : Nat) (c : Char) (cs : List Char) : Lexeme :=
  let kind := match Punctuation.ofChar? c with
    | some p => .punctuation p
    | none => .symbol c
  ⟨.token kind, ⟨offset, cs⟩, false⟩

/-- What starts with `/` at `start`: a comment, or the sign itself. -/
def fromSlash (lineStart : Bool) (start : Nat) (cs : List Char) : Lexeme :=
  match cs with
  | '/' :: _ => restOfLine (start + 1) cs
  | '*' :: rest => blockComment lineStart start (start + 2) rest
  | _ => mark (start + 1) '/' cs

/-- What starts with `@` at `start`: a verbatim string, a verbatim name, or the sign itself. -/
def fromAt (start : Nat) (cs : List Char) : Lexeme :=
  match cs with
  | '"' :: _ => literal .string start (.opening true false) (start + 1) cs
  | '$' :: '"' :: rest => literal .string start (.opening true true) (start + 2) ('"' :: rest)
  | c :: _ => if Text.isIdentifierStart c then verbatimName (start + 1) cs else mark (start + 1) '@' cs
  | [] => mark (start + 1) '@' cs

/-- What starts with `$` at `start`: an interpolated string behind any number of `$` and at most one `@`. Without
a quote behind them the signs read so far are one symbol. -/
def fromDollar (start : Nat) (cs : List Char) : Lexeme :=
  let signs := Cursor.skipWhile (· == '$') (start + 1) cs
  match signs.rest with
  | '"' :: _ => literal .string start (.opening false true) signs.offset signs.rest
  | '@' :: '"' :: rest => literal .string start (.opening true true) (signs.offset + 1) ('"' :: rest)
  | '@' :: rest => ⟨.token (.symbol '$'), ⟨signs.offset + 1, rest⟩, false⟩
  | rest => ⟨.token (.symbol '$'), ⟨signs.offset, rest⟩, false⟩

/-- What starts with `=` at `start`: an arrow, or the sign itself. -/
def fromEquals (start : Nat) (cs : List Char) : Lexeme :=
  match cs with
  | '>' :: rest => ⟨.token (.punctuation .fatArrow), ⟨start + 2, rest⟩, false⟩
  | _ => mark (start + 1) '=' cs

/-- The lexeme that starts with the character `c` at `start`, which is not blank; `cs` is what follows `c`. A
directive is recognised only where a line begins. -/
def read (lineStart : Bool) (start : Nat) (c : Char) (cs : List Char) : Lexeme :=
  match c with
  | '#' => if lineStart then restOfLine (start + 1) cs else mark (start + 1) c cs
  | '/' => fromSlash lineStart start cs
  | '"' => literal .string start (.opening false false) start (c :: cs)
  | '\'' => literal .char start .charText (start + 1) cs
  | '@' => fromAt start cs
  | '$' => fromDollar start cs
  | '=' => fromEquals start cs
  | _ =>
    let after := start + c.utf8Size
    if c.isDigit then ⟨.token (.literal .number), afterNumber after cs, false⟩
    else if Text.isIdentifierStart c then word after c cs
    else mark after c cs

/-! ## Every lexeme passes its first character -/

theorem reads_afterComment? {offset : Nat} {cs : List Char} {next : Cursor}
    (h : afterComment? offset cs = some next) : ∃ r, Cursor.Reads ⟨offset, cs⟩ next r := by
  fun_induction afterComment? offset cs with
  | case1 => simp at h
  | case2 offset c cs hc =>
    simp only [Bool.and_eq_true, beq_iff_eq, List.head?_eq_some_iff] at hc
    obtain ⟨rfl, ys, rfl⟩ := hc
    cases h
    exact ⟨['*', '/'], rfl, rfl⟩
  | case3 offset c cs _ ih =>
    obtain ⟨r, hr⟩ := ih h
    exact ⟨c :: r, hr.cons⟩

theorem reads_blockComment (lineStart : Bool) (start offset : Nat) (cs : List Char) :
    ∃ r, Cursor.Reads ⟨offset, cs⟩ (blockComment lineStart start offset cs).next r := by
  unfold blockComment
  cases h : afterComment? offset cs with
  | some next => exact reads_afterComment? h
  | none => exact ⟨cs, by simp, rfl⟩

theorem reads_afterNumber (offset : Nat) (cs : List Char) :
    ∃ r, Cursor.Reads ⟨offset, cs⟩ (afterNumber offset cs) r := by
  fun_induction afterNumber offset cs with
  | case1 => exact ⟨[], .refl _⟩
  | case2 offset c cs _ ih =>
    obtain ⟨r, hr⟩ := ih
    exact ⟨c :: r, hr.cons⟩
  | case3 => exact ⟨[], .refl _⟩

theorem literal_next (kind : LiteralKind) (start : Nat) (mode : Literal.Mode) (offset : Nat) (cs : List Char) :
    (literal kind start mode offset cs).next = (Literal.scanFrom start mode offset cs).next := by
  unfold literal
  cases Literal.scanFrom start mode offset cs <;> rfl

theorem reads_literal (kind : LiteralKind) (start : Nat) (mode : Literal.Mode) (offset : Nat) (cs : List Char) :
    ∃ r, Cursor.Reads ⟨offset, cs⟩ (literal kind start mode offset cs).next r := by
  rw [literal_next]
  exact Literal.reads_scan _ _ _

theorem reads_literal_quote (start : Nat) (verbatim interpolated : Bool) (c : Char) (cs : List Char) :
    ∃ r, Cursor.Reads ⟨start, c :: cs⟩
      (literal .string start (.opening verbatim interpolated) start (c :: cs)).next (c :: r) := by
  rw [literal_next]
  obtain ⟨r, h⟩ := Literal.reads_scan [Literal.Frame.ofQuote start verbatim interpolated cs]
    (start + c.utf8Size) cs
  exact ⟨r, h.cons⟩

theorem reads_fromSlash (lineStart : Bool) (start : Nat) (cs : List Char) :
    ∃ r, Cursor.Reads ⟨start + 1, cs⟩ (fromSlash lineStart start cs).next r := by
  unfold fromSlash
  split
  · exact ⟨_, Cursor.reads_skipWhile _ _ _⟩
  · next rest =>
    obtain ⟨r, h⟩ := reads_blockComment lineStart start (start + 2) rest
    exact ⟨'*' :: r, h.cons⟩
  · exact ⟨[], .refl _⟩

theorem reads_fromAt (start : Nat) (cs : List Char) :
    ∃ r, Cursor.Reads ⟨start + 1, cs⟩ (fromAt start cs).next r := by
  unfold fromAt
  split
  · exact reads_literal _ _ _ _ _
  · next rest =>
    obtain ⟨r, h⟩ := reads_literal .string start (.opening true true) (start + 2) ('"' :: rest)
    exact ⟨'$' :: r, h.cons⟩
  · split
    · exact ⟨_, Cursor.reads_skipWhile _ _ _⟩
    · exact ⟨[], .refl _⟩
  · exact ⟨[], .refl _⟩

theorem reads_fromDollar (start : Nat) (cs : List Char) :
    ∃ r, Cursor.Reads ⟨start + 1, cs⟩ (fromDollar start cs).next r := by
  have signs := Cursor.reads_skipWhile (· == '$') (start + 1) cs
  unfold fromDollar
  generalize Cursor.skipWhile (· == '$') (start + 1) cs = c at signs
  obtain ⟨offset, rest⟩ := c
  simp only
  split
  · obtain ⟨r, h⟩ := reads_literal .string start (.opening false true) offset _
    exact ⟨_, signs.trans h⟩
  · next rest =>
    obtain ⟨r, h⟩ := reads_literal .string start (.opening true true) (offset + 1) ('"' :: rest)
    exact ⟨_, signs.trans (Cursor.Reads.cons (c := '@') h)⟩
  · exact ⟨_, signs.trans (Cursor.Reads.cons (c := '@') (.refl _))⟩
  · exact ⟨_, signs⟩

theorem reads_fromEquals (start : Nat) (cs : List Char) :
    ∃ r, Cursor.Reads ⟨start + 1, cs⟩ (fromEquals start cs).next r := by
  unfold fromEquals
  split
  · exact ⟨['>'], (Cursor.Reads.refl _).cons⟩
  · exact ⟨[], .refl _⟩

/-- A lexeme passes its first character, and then any number of others. -/
theorem reads_read (lineStart : Bool) (start : Nat) (c : Char) (cs : List Char) :
    ∃ r, Cursor.Reads ⟨start, c :: cs⟩ (read lineStart start c cs).next (c :: r) := by
  have first {next : Cursor} (h : ∃ r, Cursor.Reads ⟨start + c.utf8Size, cs⟩ next r) :
      ∃ r, Cursor.Reads ⟨start, c :: cs⟩ next (c :: r) :=
    let ⟨r, hr⟩ := h
    ⟨r, hr.cons⟩
  unfold read
  split
  · split
    · exact first ⟨_, Cursor.reads_skipWhile _ _ _⟩
    · exact first ⟨[], .refl _⟩
  · exact first (reads_fromSlash _ _ _)
  · exact reads_literal_quote _ _ _ _ _
  · exact first (reads_literal _ _ _ _ _)
  · exact first (reads_fromAt _ _)
  · exact first (reads_fromDollar _ _)
  · exact first (reads_fromEquals _ _)
  · simp only
    split
    · exact first (reads_afterNumber _ _)
    · split
      · exact first ⟨_, Cursor.reads_skipWhile _ _ _⟩
      · exact first ⟨[], .refl _⟩

theorem length_read_le (lineStart : Bool) (start : Nat) (c : Char) (cs : List Char) :
    (read lineStart start c cs).next.rest.length ≤ cs.length := by
  obtain ⟨r, h⟩ := reads_read lineStart start c cs
  have := congrArg List.length h.rest_eq
  simp at this
  omega

end Lexeme

/-! ## The whole text -/

/-- What has been read of a text so far. -/
structure Lexing where
  tokens : Array Token := #[]
  problems : Array Diagnostic := #[]
  deriving DecidableEq, Repr

/-- Takes up a lexeme that starts at `start`. -/
def Lexing.add (l : Lexing) (start : Nat) (x : Lexeme) : Lexing :=
  match x.reading with
  | .nothing => l
  | .token kind => { l with tokens := l.tokens.push ⟨kind, ⟨start, x.next.offset⟩⟩ }
  | .problem report => { l with problems := l.problems.push report }

/-- Reads a text from `offset` on, and marks its end with a token of its own. -/
def Lexing.run (l : Lexing) (lineStart : Bool) (offset : Nat) (cs : List Char) : Lexing :=
  match cs with
  | [] => { l with tokens := l.tokens.push ⟨.endOfText, ⟨offset, offset⟩⟩ }
  | c :: rest =>
    if Text.isBlank c then l.run (lineStart || c == '\n') (offset + c.utf8Size) rest
    else
      let x := Lexeme.read lineStart offset c rest
      (l.add offset x).run x.atLineStart x.next.offset x.next.rest
termination_by cs.length
decreasing_by
  · simp
  · have := Lexeme.length_read_le lineStart offset c rest
    simp only [List.length_cons]
    omega

/-- The place where the text proper begins: behind a byte-order mark, if there is one. -/
def textStart (source : List Char) : Cursor :=
  match source with
  | '\ufeff' :: rest => ⟨3, rest⟩
  | cs => ⟨0, cs⟩

/-- The tokens of a text, or all of its lexical faults in the order of the text. -/
def lex (source : String) : Except (List Diagnostic) (List Token) :=
  let start := textStart source.toList
  let l := Lexing.run {} true start.offset start.rest
  if l.problems.isEmpty then .ok l.tokens.toList else .error l.problems.toList

end TestScaffold
