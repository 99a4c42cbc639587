/-!
# Places in a text

Places in a text are counted in bytes of its UTF-8 form, while the text itself is handled as characters. A span is a
stretch of text by its byte offsets; `stop` may lie below `start`, and such a span is empty. A cursor is a place together
with what follows it.

* `Span.merge` is the smallest span that covers both of its arguments.
* `byteLength` is the size of a list of characters (`byteLength_append`).
* `splitAtByte?` cuts a text at a byte offset: nothing is lost (`splitAtByte?_append`), and the first part has
  exactly the size asked for, or is the whole text (`splitAtByte?_byteLength`).
* `Cursor.Reads a b read`: going from `a` to `b` passes exactly the characters `read`. It is reflexive and
  transitive (`Reads.refl`, `Reads.trans`), so what each scanner passes adds up to what the whole reading passes.
* `Cursor.skipWhile` passes the longest run of characters of a class.
-/

namespace TestScaffold

/-! ## Spans -/

/-- A stretch of text: the byte offset of its first byte and the offset just after its last one. -/
structure Span where
  start : Nat
  stop : Nat
  deriving DecidableEq, Repr, Inhabited

namespace Span

/-- The empty span at the beginning of a text. -/
def zero : Span := ⟨0, 0⟩

/-- The span from the earlier start to the later end. -/
def merge (a b : Span) : Span := ⟨min a.start b.start, max a.stop b.stop⟩

/-- The number of bytes covered; a reversed span covers none. -/
def length (s : Span) : Nat := s.stop - s.start

/-- Whether no byte is covered. -/
def isEmpty (s : Span) : Bool := s.length == 0

@[simp] theorem merge_start (a b : Span) : (a.merge b).start = min a.start b.start := rfl

@[simp] theorem merge_stop (a b : Span) : (a.merge b).stop = max a.stop b.stop := rfl

@[simp] theorem merge_self (a : Span) : a.merge a = a := by simp [merge]

end Span

end TestScaffold

namespace TestScaffold.Text

/-! ## Byte offsets -/

/-- The number of bytes of a list of characters. -/
def byteLength : List Char → Nat
  | [] => 0
  | c :: cs => c.utf8Size + byteLength cs

/-- Cuts a text at a byte offset. An offset past the end cuts at the end; one inside a character cuts nowhere. -/
def splitAtByte? : Nat → List Char → Option (List Char × List Char)
  | 0, cs => some ([], cs)
  | _ + 1, [] => some ([], [])
  | n + 1, c :: cs =>
    if c.utf8Size ≤ n + 1 then
      (splitAtByte? (n + 1 - c.utf8Size) cs).map fun parts => (c :: parts.1, parts.2)
    else none

@[simp] theorem byteLength_nil : byteLength [] = 0 := rfl

@[simp] theorem byteLength_cons (c : Char) (cs : List Char) :
    byteLength (c :: cs) = c.utf8Size + byteLength cs := rfl

@[simp] theorem byteLength_append (a b : List Char) :
    byteLength (a ++ b) = byteLength a + byteLength b := by
  induction a with
  | nil => simp
  | cons c cs ih => simp [ih, Nat.add_assoc]

theorem splitAtByte?_append {n : Nat} {cs a b : List Char} (h : splitAtByte? n cs = some (a, b)) :
    a ++ b = cs := by
  fun_induction splitAtByte? n cs generalizing a b with
  | case1 => simp at h; simp [← h.1, h.2]
  | case2 => simp at h; simp [h.1, h.2]
  | case3 n c cs _ ih =>
    obtain ⟨p, hp, he⟩ := Option.map_eq_some_iff.1 h
    cases he
    simpa using ih hp
  | case4 => simp at h

theorem splitAtByte?_byteLength {n : Nat} {cs a b : List Char} (h : splitAtByte? n cs = some (a, b)) :
    byteLength a = min n (byteLength cs) := by
  fun_induction splitAtByte? n cs generalizing a b with
  | case1 => simp at h; simp [h.1]
  | case2 => simp at h; simp [h.1]
  | case3 n c cs _ ih =>
    obtain ⟨p, hp, he⟩ := Option.map_eq_some_iff.1 h
    cases he
    simp only [byteLength_cons, ih hp]
    omega
  | case4 => simp at h

/-! ## Cursors -/

/-- A place in a text: its byte offset and the characters from there on. -/
structure Cursor where
  offset : Nat
  rest : List Char
  deriving DecidableEq, Repr

namespace Cursor

/-- Going from `a` to `b` passes the characters `read`. -/
structure Reads (a b : Cursor) (read : List Char) : Prop where
  rest_eq : a.rest = read ++ b.rest
  offset_eq : b.offset = a.offset + byteLength read

/-- The place after the longest run of characters that satisfy `p`. -/
def skipWhile (p : Char → Bool) (offset : Nat) (cs : List Char) : Cursor :=
  ⟨offset + byteLength (cs.takeWhile p), cs.dropWhile p⟩

theorem Reads.refl (a : Cursor) : Reads a a [] := ⟨by simp, by simp⟩

theorem Reads.trans {a b c : Cursor} {r s : List Char} (h : Reads a b r) (k : Reads b c s) :
    Reads a c (r ++ s) :=
  ⟨by rw [h.rest_eq, k.rest_eq, List.append_assoc],
    by rw [k.offset_eq, h.offset_eq, byteLength_append, Nat.add_assoc]⟩

theorem Reads.cons {o : Nat} {c : Char} {cs : List Char} {b : Cursor} {r : List Char}
    (h : Reads ⟨o + c.utf8Size, cs⟩ b r) : Reads ⟨o, c :: cs⟩ b (c :: r) := by
  obtain ⟨hr, ho⟩ := h
  simp only at hr ho
  exact ⟨by simp [hr], by simp only [byteLength_cons]; omega⟩

theorem reads_skipWhile (p : Char → Bool) (offset : Nat) (cs : List Char) :
    Reads ⟨offset, cs⟩ (skipWhile p offset cs) (cs.takeWhile p) :=
  ⟨by simp [skipWhile], rfl⟩

end Cursor

end TestScaffold.Text
