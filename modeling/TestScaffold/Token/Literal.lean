import TestScaffold.Diagnostic
import TestScaffold.Text.Place

/-!
# String and character literals

Only the extent of a literal is found; its contents are passed over, so quotes and braces inside it mean nothing
outside. A literal can hold others: an interpolated string has holes, a hole holds code, and code holds strings
again. The scanner therefore is a machine with a stack of frames, one per literal or hole that is open, and reads
one character at a time.

* `scan_append`: a stack is worked off from the top; what lies below does not change how the top ends.
* `reads_scan`: a scan passes a stretch of the text, whether the literal is closed or not.
-/

namespace TestScaffold.Literal

open Text (Cursor)

/-- What an open literal expects next. -/
inductive Mode
  /-- The opening quote of a string. -/
  | opening (verbatim interpolated : Bool)
  /-- The contents of a string. -/
  | text (verbatim interpolated : Bool)
  /-- The rest of the three or more quotes that open a raw string; `quotes` have been read. -/
  | rawOpening (quotes : Nat)
  /-- The contents of a raw string opened by `quotes` quotes, after a run of `run` quotes. -/
  | rawText (quotes run : Nat)
  /-- The code in a hole of an interpolated string, or in a pair of braces inside it. -/
  | hole
  /-- The contents of a character literal. -/
  | charText
  /-- The second half of an escape, which may be any character. -/
  | escaped (kind : LiteralKind)
  deriving DecidableEq, Repr

/-- An open literal: where it starts, and what it expects. A hole starts where its string does. -/
structure Frame where
  start : Nat
  mode : Mode
  deriving DecidableEq, Repr

/-- What a scan ends in, with the place it stopped at. -/
inductive Ending
  /-- The literal is complete. -/
  | closed (next : Cursor)
  /-- The literal breaks off at the end of its line or of the text. -/
  | broken (problem : Diagnostic) (next : Cursor)
  deriving DecidableEq, Repr

/-- Where the scan stopped. -/
def Ending.next : Ending → Cursor
  | closed next => next
  | broken _ next => next

namespace Frame

/-- What is wrong when the frame breaks off. -/
def fault (f : Frame) : Fault :=
  match f.mode with
  | .charText | .escaped .char => .unterminatedChar
  | _ => .unterminatedString

/-- The frame for a string whose opening quote has just been read, given what follows. Two more quotes make it a
raw string; verbatim strings are never raw. -/
def ofQuote (start : Nat) (verbatim interpolated : Bool) (next : List Char) : Frame :=
  ⟨start, if !verbatim && ['"', '"'].isPrefixOf next then .rawOpening 1 else .text verbatim interpolated⟩

/-- Reads the contents of a string. -/
def stepText (f : Frame) (verbatim interpolated : Bool) (c : Char) (next : List Char) :
    Option (List Frame) :=
  let escape : Frame := ⟨f.start, .escaped .string⟩
  match c with
  | '\\' => some (if verbatim then [f] else [escape, f])
  | '"' => some (if verbatim && next.head? == some '"' then [escape, f] else [])
  | '{' =>
    some (if !interpolated then [f] else if next.head? == some '{' then [escape, f]
      else [⟨f.start, .hole⟩, f])
  | '\n' => if verbatim then some [f] else none
  | _ => some [f]

/-- Reads the code in a hole, where strings and character literals may begin. -/
def stepHole (f : Frame) (offset : Nat) (c : Char) (next : List Char) : List Frame :=
  match c with
  | '{' => [f, f]
  | '}' => []
  | '"' => [ofQuote offset false false next, f]
  | '@' => if next.head? == some '"' then [⟨offset, .opening true false⟩, f] else [f]
  | '$' => if next.head? == some '"' then [⟨offset, .opening false true⟩, f] else [f]
  | '\'' => [⟨offset, .charText⟩, f]
  | _ => [f]

/-- Reads the contents of a character literal. -/
def stepChar (f : Frame) (c : Char) : Option (List Frame) :=
  match c with
  | '\\' => some [⟨f.start, .escaped .char⟩, f]
  | '\'' => some []
  | '\n' => none
  | _ => some [f]

/-- Reads the character `c` at `offset`, seeing what follows it: the frames that take the place of this one, or
nothing if the literal breaks off here. -/
def step (f : Frame) (offset : Nat) (c : Char) (next : List Char) : Option (List Frame) :=
  match f.mode with
  | .opening verbatim interpolated => some [ofQuote f.start verbatim interpolated next]
  | .text verbatim interpolated => f.stepText verbatim interpolated c next
  | .rawOpening quotes =>
    some [⟨f.start, if c == '"' then .rawOpening (quotes + 1) else .rawText quotes 0⟩]
  | .rawText quotes run =>
    if c != '"' then some [⟨f.start, .rawText quotes 0⟩]
    else if run + 1 < quotes || next.head? == some '"' then some [⟨f.start, .rawText quotes (run + 1)⟩]
    else some []
  | .hole => some (f.stepHole offset c next)
  | .charText => f.stepChar c
  | .escaped _ => some []

end Frame

/-- Reads until every frame of the stack is closed. -/
def scan : List Frame → Nat → List Char → Ending
  | [], offset, cs => .closed ⟨offset, cs⟩
  | f :: _, offset, [] => .broken (f.fault.report ⟨f.start, offset⟩) ⟨offset, []⟩
  | f :: fs, offset, c :: cs =>
    let after := offset + c.utf8Size
    match f.step offset c cs with
    | some gs => scan (gs ++ fs) after cs
    | none => .broken (f.fault.report ⟨f.start, after⟩) ⟨after, cs⟩

/-- The literal that starts at `start` in the given mode, of which the characters `cs` from `offset` on are still
to be read. -/
def scanFrom (start : Nat) (mode : Mode) (offset : Nat) (cs : List Char) : Ending :=
  scan [⟨start, mode⟩] offset cs

@[simp] theorem scan_nil (offset : Nat) (cs : List Char) : scan [] offset cs = .closed ⟨offset, cs⟩ := by
  cases cs <;> rfl

/-- A stack is worked off from the top: the lower part goes on where the upper part closed, and is not reached if
the upper part breaks off. -/
theorem scan_append (fs gs : List Frame) (offset : Nat) (cs : List Char) :
    scan (fs ++ gs) offset cs =
      match scan fs offset cs with
      | .closed next => scan gs next.offset next.rest
      | .broken problem next => .broken problem next := by
  induction cs generalizing fs offset with
  | nil =>
    cases fs with
    | nil => simp
    | cons f fs => rfl
  | cons c cs ih =>
    cases fs with
    | nil => simp
    | cons f fs =>
      simp only [List.cons_append, scan]
      cases f.step offset c cs with
      | none => rfl
      | some hs => simpa using ih (hs ++ fs) _

theorem reads_scan (fs : List Frame) (offset : Nat) (cs : List Char) :
    ∃ read, Cursor.Reads ⟨offset, cs⟩ (scan fs offset cs).next read := by
  induction cs generalizing fs offset with
  | nil =>
    cases fs with
    | nil => exact ⟨[], .refl _⟩
    | cons f fs => exact ⟨[], .refl _⟩
  | cons c cs ih =>
    cases fs with
    | nil => exact ⟨[], .refl _⟩
    | cons f fs =>
      simp only [scan]
      cases f.step offset c cs with
      | none => exact ⟨[c], (Cursor.Reads.refl _).cons⟩
      | some hs =>
        obtain ⟨read, h⟩ := ih (hs ++ fs) (offset + c.utf8Size)
        exact ⟨c :: read, h.cons⟩

end TestScaffold.Literal
