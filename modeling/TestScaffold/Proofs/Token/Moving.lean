import TestScaffold.Token.Stream

/-!
# Moving tokens

Tokens may be moved to other offsets, as long as their order and the beginning of the text stay. What is read at the
front of a row of tokens does not change then, only the places it names.

Results:
* `Span.moved_merge`: spans are merged before or after they are moved.
* `Step.andThen_moved`: a chain of reading moves with the tokens if each of its pieces does.
-/

namespace TestScaffold

/-- A way to move offsets that keeps their order and the beginning of the text. -/
structure Move where
  offset : Nat → Nat
  offset_le : ∀ {a b : Nat}, a ≤ b → offset a ≤ offset b
  offset_zero : offset 0 = 0

/-- Moves everything to the beginning of the text. -/
def Move.collapse : Move := ⟨fun _ => 0, fun _ => Nat.le_refl 0, rfl⟩

/-- Moves everything `n` bytes back; what stands before that is moved to the beginning. -/
def Move.back (n : Nat) : Move := ⟨(· - n), fun h => Nat.sub_le_sub_right h n, Nat.zero_sub n⟩

variable (g : Move)

/-! ## Spans, tokens and reports -/

namespace Span

/-- The span at its new place. -/
def moved (s : Span) : Span := ⟨g.offset s.start, g.offset s.stop⟩

@[simp] theorem moved_start (s : Span) : (s.moved g).start = g.offset s.start := rfl

@[simp] theorem moved_stop (s : Span) : (s.moved g).stop = g.offset s.stop := rfl

@[simp] theorem moved_zero : zero.moved g = zero := by simp [moved, zero, g.offset_zero]

@[simp] theorem moved_merge (a b : Span) : (a.merge b).moved g = (a.moved g).merge (b.moved g) := by
  have hmin (m n : Nat) : g.offset (min m n) = min (g.offset m) (g.offset n) := by
    rcases Nat.le_total m n with h | h
    · rw [Nat.min_eq_left h, Nat.min_eq_left (g.offset_le h)]
    · rw [Nat.min_eq_right h, Nat.min_eq_right (g.offset_le h)]
  have hmax (m n : Nat) : g.offset (max m n) = max (g.offset m) (g.offset n) := by
    rcases Nat.le_total m n with h | h
    · rw [Nat.max_eq_right h, Nat.max_eq_right (g.offset_le h)]
    · rw [Nat.max_eq_left h, Nat.max_eq_left (g.offset_le h)]
  simp [moved, merge, hmin, hmax]

end Span

/-- The token at its new place. -/
def Token.moved (t : Token) : Token := ⟨t.kind, t.span.moved g⟩

/-- The report with its new place. -/
def Diagnostic.moved (d : Diagnostic) : Diagnostic := { d with span := d.span.moved g }

theorem Fault.moved_report (f : Fault) (s : Span) : (f.report s).moved g = f.report (s.moved g) := rfl

/-! ## Looking at tokens -/

namespace Token

variable (ts : List Token)

@[simp] theorem kind_moved (t : Token) : (t.moved g).kind = t.kind := rfl

@[simp] theorem span_moved (t : Token) : (t.moved g).span = t.span.moved g := rfl

@[simp] theorem front_moved : front (ts.map (moved g)) = (front ts).moved g := by
  cases ts with
  | nil => simp [front, final, moved]
  | cons t ts => rfl

@[simp] theorem second_moved : second (ts.map (moved g)) = (second ts).moved g := by
  rcases ts with _ | ⟨t, _ | ⟨u, us⟩⟩
  · exact front_moved g []
  · rfl
  · rfl

@[simp] theorem atEnd_moved : atEnd (ts.map (moved g)) = atEnd ts := by
  simp [atEnd]

@[simp] theorem atMark_moved (p : Punctuation) : atMark p (ts.map (moved g)) = atMark p ts := by
  simp [atMark]

@[simp] theorem atKeyword_moved (k : Keyword) : atKeyword k (ts.map (moved g)) = atKeyword k ts := by
  simp [atKeyword]

@[simp] theorem atIdentifier_moved (name : String) : atIdentifier name (ts.map (moved g)) = atIdentifier name ts := by
  simp [atIdentifier]

@[simp] theorem atBodyEnd_moved : atBodyEnd (ts.map (moved g)) = atBodyEnd ts := by
  simp [atBodyEnd]

@[simp] theorem skipMark_moved (p : Punctuation) : skipMark p (ts.map (moved g)) = (skipMark p ts).map (moved g) := by
  unfold skipMark
  rw [atMark_moved]
  split <;> simp [List.map_tail]

end Token

/-! ## Pieces of reading -/

/-- A piece of reading moved; `f` moves what it yields. -/
def Step.moved {α : Type} (f : α → α) (s : Step α) : Step α :=
  ⟨(s.result.map f).mapError (Diagnostic.moved g), s.rest.map (Token.moved g)⟩

namespace Step

variable {α β : Type} (f : α → α)

@[simp] theorem rest_moved (s : Step α) : (s.moved g f).rest = s.rest.map (Token.moved g) := rfl

theorem moved_done (a : α) (ts : List Token) : (done a ts).moved g f = done (f a) (ts.map (Token.moved g)) := rfl

theorem moved_fail (fault : Fault) (span : Span) (ts : List Token) :
    (fail fault span ts : Step α).moved g f = fail fault (span.moved g) (ts.map (Token.moved g)) := rfl

theorem moved_failExpecting (what : Expectation) (ts : List Token) :
    (failExpecting what ts : Step α).moved g f = failExpecting what (ts.map (Token.moved g)) := by
  simp [failExpecting, moved_fail]

theorem result_moved_ok {s : Step α} {a : α} (h : s.result = .ok a) : (s.moved g f).result = .ok (f a) := by
  simp only [moved, h]
  rfl

theorem result_moved_error {s : Step α} {d : Diagnostic} (h : s.result = .error d) :
    (s.moved g f).result = .error (d.moved g) := by
  simp only [moved, h]
  rfl

/-- A chain of reading moves with the tokens if each of its pieces does. -/
theorem andThen_moved {g : Move} {f : α → α} {f' : β → β} {s : Step α} {next : α → List Token → Step β}
    {next' : α → List Token → Step β}
    (h : ∀ a us, next' (f a) (us.map (Token.moved g)) = (next a us).moved g f') :
    (s.moved g f).andThen next' = (s.andThen next).moved g f' := by
  unfold andThen
  cases hs : s.result with
  | ok a =>
    rw [result_moved_ok g f hs]
    exact h a s.rest
  | error d =>
    rw [result_moved_error g f hs]
    rfl

theorem name_moved (what : Expectation) (ts : List Token) :
    name what (ts.map (Token.moved g)) = (name what ts).moved g id := by
  unfold name
  rw [Token.front_moved, Token.kind_moved]
  cases (Token.front ts).kind.name? with
  | some n => simp [moved_done, List.map_tail]
  | none => rw [moved_failExpecting]

end Step

end TestScaffold
