import TestScaffold.Diagnostic

/-!
# Reading a list of tokens

The end of a text is the first end token of its list; behind the last token of any list the end is taken to
stand as well, so a reader never runs dry. A `Step` is one piece of reading: a value or the fault that stopped it,
and in both cases the tokens that are left.

* `Step.andThen` chains pieces of reading; what a chain leaves is an end piece of what it was given
  (`rest_andThen_suffix`).
-/

namespace TestScaffold

namespace Token

/-- The token that stands behind the last one. -/
def final : Token := ⟨.endOfText, .zero⟩

/-- The token at the front. -/
def front : List Token → Token
  | [] => final
  | t :: _ => t

/-- The token after the front one; a single token is followed by itself. -/
def second : List Token → Token
  | _ :: t :: _ => t
  | ts => front ts

/-- Whether the text ends here. -/
def atEnd (ts : List Token) : Bool := (front ts).kind == .endOfText

/-- Whether the front token is the mark `p`. -/
def atMark (p : Punctuation) (ts : List Token) : Bool := (front ts).kind == .punctuation p

/-- Whether the front token is the keyword `k`. -/
def atKeyword (k : Keyword) (ts : List Token) : Bool := (front ts).kind == .keyword k

/-- Whether the front token is the plain identifier `name`. -/
def atIdentifier (name : String) (ts : List Token) : Bool := (front ts).kind == .identifier name

/-- Whether the enclosing list of declarations ends here: at a closing brace or at the end of the text. -/
def atBodyEnd (ts : List Token) : Bool := atEnd ts || atMark .rightBrace ts

/-- The tokens behind the mark `p`, if it stands here; otherwise the tokens as they are. -/
def skipMark (p : Punctuation) (ts : List Token) : List Token := if atMark p ts then ts.tail else ts

theorem skipMark_suffix (p : Punctuation) (ts : List Token) : skipMark p ts <:+ ts := by
  unfold skipMark
  split
  · exact List.tail_suffix ts
  · exact List.suffix_refl ts

theorem length_tail_lt {ts : List Token} (h : ¬ atEnd ts = true) : ts.tail.length < ts.length := by
  cases ts with
  | nil => exact absurd rfl h
  | cons t ts => simp

theorem not_atEnd_of_not_atBodyEnd {ts : List Token} (h : ¬ atBodyEnd ts = true) : ¬ atEnd ts = true := by
  simp_all [atBodyEnd]

theorem not_atEnd_of_atMark {p : Punctuation} {ts : List Token} (h : atMark p ts = true) :
    ¬ atEnd ts = true := by
  simp_all [atMark, atEnd]

theorem not_atEnd_of_atKeyword {k : Keyword} {ts : List Token} (h : atKeyword k ts = true) :
    ¬ atEnd ts = true := by
  simp_all [atKeyword, atEnd]

end Token

/-- One piece of reading. -/
structure Step (α : Type) where
  result : Except Diagnostic α
  rest : List Token

namespace Step

/-- Reading that yields `a`. -/
def done {α : Type} (a : α) (rest : List Token) : Step α := ⟨.ok a, rest⟩

/-- Reading that stops with a fault at a place. -/
def fail {α : Type} (f : Fault) (span : Span) (rest : List Token) : Step α := ⟨.error (f.report span), rest⟩

/-- Reading that stops because something else was expected than the front token. -/
def failExpecting {α : Type} (what : Expectation) (ts : List Token) : Step α :=
  fail (.expected what (Token.front ts).kind) (Token.front ts).span ts

/-- Goes on reading where a piece of reading succeeded. -/
def andThen {α β : Type} (s : Step α) (next : α → List Token → Step β) : Step β :=
  match s.result with
  | .ok a => next a s.rest
  | .error d => ⟨.error d, s.rest⟩

/-- Reads a name, which may be a contextual keyword. -/
def name (what : Expectation) (ts : List Token) : Step String :=
  match (Token.front ts).kind.name? with
  | some n => done n ts.tail
  | none => failExpecting what ts

@[simp] theorem rest_done {α : Type} (a : α) (ts : List Token) : (done a ts).rest = ts := rfl

@[simp] theorem rest_fail {α : Type} (f : Fault) (s : Span) (ts : List Token) :
    (fail f s ts : Step α).rest = ts := rfl

@[simp] theorem rest_failExpecting {α : Type} (what : Expectation) (ts : List Token) :
    (failExpecting what ts : Step α).rest = ts := rfl

theorem rest_andThen_suffix {α β : Type} {s : Step α} {next : α → List Token → Step β} {ts : List Token}
    (hs : s.rest <:+ ts) (hn : ∀ a us, (next a us).rest <:+ us) : (s.andThen next).rest <:+ ts := by
  unfold andThen
  cases s.result with
  | ok a => exact (hn a s.rest).trans hs
  | error d => exact hs

theorem length_rest_andThen_lt {α β : Type} {s : Step α} {next : α → List Token → Step β} {n : Nat}
    (hs : s.rest.length < n) (hn : ∀ a us, (next a us).rest <:+ us) : (s.andThen next).rest.length < n :=
  Nat.lt_of_le_of_lt (rest_andThen_suffix (List.suffix_refl _) hn).length_le hs

theorem rest_name_suffix (what : Expectation) (ts : List Token) : (name what ts).rest <:+ ts := by
  unfold name
  split
  · exact List.tail_suffix ts
  · exact List.suffix_refl ts

theorem andThen_eq_ok {α β : Type} {s : Step α} {next : α → List Token → Step β} {b : β}
    (h : (s.andThen next).result = .ok b) :
    ∃ a, s.result = .ok a ∧ s.andThen next = next a s.rest := by
  unfold andThen at h ⊢
  cases hs : s.result with
  | ok a => exact ⟨a, rfl, rfl⟩
  | error d => simp [hs] at h

end Step

end TestScaffold
