import TestScaffold.Proofs.Text.Characters
import TestScaffold.Token.Lexer

/-!
# Words of a text

Whatever a text holds, a token that may stand for a name has the form of one. This is true of words that are spelled
like keywords, and of names behind an `@`, which lose the sign.

Results:
* `Lexeme.named_read`: a lexeme that may stand for a name has its form.
* `isIdentifier_of_lex`: so does every token of a text.
-/

namespace TestScaffold

open Text (IsIdentifier isIdentifierPart isIdentifierStart)

namespace Lexeme

/-- If the lexeme may stand for a name, the name has the form of one. -/
def Named (x : Lexeme) : Prop :=
  ∀ kind n, x.reading = .token kind → kind.name? = some n → IsIdentifier n.toList

theorem named_of_name?_eq_none {kind : TokenKind} (h : kind.name? = none) (next : Text.Cursor) (atLineStart : Bool) :
    Named ⟨.token kind, next, atLineStart⟩ := by
  rintro k n ⟨rfl⟩ hn
  rw [h] at hn
  cases hn

theorem named_nothing (next : Text.Cursor) (atLineStart : Bool) : Named ⟨.nothing, next, atLineStart⟩ := by
  rintro k n ⟨⟩

theorem named_problem (report : Diagnostic) (next : Text.Cursor) (atLineStart : Bool) :
    Named ⟨.problem report, next, atLineStart⟩ := by
  rintro k n ⟨⟩

theorem nameOf_isIdentifier {front cs : List Char}
    (h : IsIdentifier (front ++ cs.takeWhile isIdentifierPart)) : IsIdentifier (nameOf front cs).toList := by
  rw [nameOf, String.toList_ofList]
  exact h

theorem named_word {c : Char} (hc : isIdentifierStart c = true) (offset : Nat) (cs : List Char) :
    Named (word offset c cs) := by
  have hform : IsIdentifier (nameOf [c] cs).toList := by
    refine nameOf_isIdentifier ⟨c, cs.takeWhile isIdentifierPart, rfl, hc, ?_⟩
    intro d hd
    exact List.all_eq_true.mp List.all_takeWhile d hd
  intro kind n hkind hn
  unfold word at hkind
  cases hk : Keyword.ofSpelling? (nameOf [c] cs) with
  | none =>
    simp only [hk] at hkind
    cases hkind
    cases hn
    exact hform
  | some k =>
    simp only [hk] at hkind
    cases hkind
    have hname : k.spelling = n := by
      simp only [TokenKind.name?] at hn
      split at hn
      · exact Option.some.inj hn
      · cases hn
    rw [← hname, Keyword.spelling_of_ofSpelling? hk]
    exact hform

theorem named_verbatimName {c : Char} (hc : isIdentifierStart c = true) (offset : Nat) (cs : List Char) :
    Named (verbatimName offset (c :: cs)) := by
  rintro kind n ⟨rfl⟩ hn
  cases hn
  refine nameOf_isIdentifier ⟨c, cs.takeWhile isIdentifierPart, ?_, hc, ?_⟩
  · simp [Text.isIdentifierPart_of_start hc]
  · intro d hd
    exact List.all_eq_true.mp List.all_takeWhile d hd

theorem named_mark (offset : Nat) (c : Char) (cs : List Char) : Named (mark offset c cs) := by
  unfold mark
  cases Punctuation.ofChar? c with
  | some p => exact named_of_name?_eq_none rfl _ _
  | none => exact named_of_name?_eq_none rfl _ _

theorem named_literal (kind : LiteralKind) (start : Nat) (mode : Literal.Mode) (offset : Nat) (cs : List Char) :
    Named (literal kind start mode offset cs) := by
  unfold literal
  cases Literal.scanFrom start mode offset cs with
  | closed next => exact named_of_name?_eq_none rfl _ _
  | broken report next => exact named_problem report _ _

theorem named_fromSlash (lineStart : Bool) (start : Nat) (cs : List Char) : Named (fromSlash lineStart start cs) := by
  unfold fromSlash
  split
  · exact named_nothing _ _
  · unfold blockComment
    split
    · exact named_nothing _ _
    · exact named_problem _ _ _
  · exact named_mark _ _ _

theorem named_fromAt (start : Nat) (cs : List Char) : Named (fromAt start cs) := by
  unfold fromAt
  split
  · exact named_literal _ _ _ _ _
  · exact named_literal _ _ _ _ _
  · split
    · next h => exact named_verbatimName h _ _
    · exact named_mark _ _ _
  · exact named_mark _ _ _

theorem named_fromDollar (start : Nat) (cs : List Char) : Named (fromDollar start cs) := by
  unfold fromDollar
  simp only
  split
  · exact named_literal _ _ _ _ _
  · exact named_literal _ _ _ _ _
  · exact named_of_name?_eq_none rfl _ _
  · exact named_of_name?_eq_none rfl _ _

theorem named_fromEquals (start : Nat) (cs : List Char) : Named (fromEquals start cs) := by
  unfold fromEquals
  split
  · exact named_of_name?_eq_none rfl _ _
  · exact named_mark _ _ _

/-- A lexeme that may stand for a name has the form of one. -/
theorem named_read (lineStart : Bool) (start : Nat) (c : Char) (cs : List Char) :
    Named (read lineStart start c cs) := by
  unfold read
  split
  · split
    · exact named_nothing _ _
    · exact named_mark _ _ _
  · exact named_fromSlash _ _ _
  · exact named_literal _ _ _ _ _
  · exact named_literal _ _ _ _ _
  · exact named_fromAt _ _
  · exact named_fromDollar _ _
  · exact named_fromEquals _ _
  · simp only
    split
    · exact named_of_name?_eq_none rfl _ _
    · split
      · next h => exact named_word h _ _
      · exact named_mark _ _ _

end Lexeme

/-- Every token read so far that may stand for a name has the form of one. -/
def Lexing.Named (l : Lexing) : Prop := ∀ t ∈ l.tokens, ∀ n, t.kind.name? = some n → IsIdentifier n.toList

theorem Lexing.Named.push {l : Lexing} (h : l.Named) {t : Token}
    (ht : ∀ n, t.kind.name? = some n → IsIdentifier n.toList) : Named { l with tokens := l.tokens.push t } := by
  intro u hu
  rcases Array.mem_push.mp hu with hu | rfl
  · exact h u hu
  · exact ht

theorem Lexing.named_run {l : Lexing} (h : l.Named) (lineStart : Bool) (offset : Nat) (cs : List Char) :
    (l.run lineStart offset cs).Named := by
  fun_induction Lexing.run l lineStart offset cs with
  | case1 l lineStart offset => exact h.push (by rintro n ⟨⟩)
  | case2 l lineStart offset c rest _ ih => exact ih h
  | case3 l lineStart offset c rest _ x ih =>
    apply ih
    have hx := Lexeme.named_read lineStart offset c rest
    unfold Lexing.add
    split
    · exact h
    · next kind hkind => exact h.push fun n hn => hx kind n hkind hn
    · exact h

/-- Every token of a text that may stand for a name has the form of one. -/
theorem isIdentifier_of_lex {source : String} {ts : List Token} (h : lex source = .ok ts) :
    ∀ t ∈ ts, ∀ n, t.kind.name? = some n → IsIdentifier n.toList := by
  have hempty : ({} : Lexing).Named := by simp [Lexing.Named]
  have hrun := Lexing.named_run hempty true (textStart source.toList).offset (textStart source.toList).rest
  unfold lex at h
  simp only at h
  split at h
  · cases h
    intro t ht
    exact hrun t (Array.mem_def.mpr ht)
  · cases h

end TestScaffold
