import TestScaffold.Proofs.Text.Characters
import TestScaffold.Token.Lexer

/-!
# How tokens are spelled

Words, marks and string literals with one fixed content, with blanks between them: the part of the language that
generated text is made of. A text that is put together from their spellings is cut into exactly these tokens, and the
content of its literals stands between quotes nowhere else.

Results:
* `Spells`: how a row of tokens is spelled.
* `lex_of_spells`: the text that spells some tokens is cut into them.
* `occurrences_of_spells`: the quoted content occurs once per literal.
-/

namespace TestScaffold

open Text (IsIdentifier isBlank isIdentifierPart isIdentifierStart ne_of_isIdentifierPart signs)

/-- What a word is: a keyword if it is spelled like one, and a name otherwise. -/
def TokenKind.ofWord (name : String) : TokenKind :=
  match Keyword.ofSpelling? name with
  | some k => .keyword k
  | none => .identifier name

/-- Whether a word is a keyword that never serves as a name. -/
def Reserved (name : String) : Prop := ∃ k : Keyword, k.spelling = name ∧ k.isContextual = false

instance (name : String) : Decidable (Reserved name) :=
  decidable_of_iff (∃ k ∈ Keyword.all, k.spelling = name ∧ k.isContextual = false)
    ⟨fun ⟨k, _, h⟩ => ⟨k, h⟩, fun ⟨k, h⟩ => ⟨k, k.mem_all, h⟩⟩

namespace TokenKind

theorem name?_ofWord {name : String} (h : ¬ Reserved name) : (ofWord name).name? = some name := by
  unfold ofWord
  cases hk : Keyword.ofSpelling? name with
  | none => rfl
  | some k =>
    have hspelling := Keyword.spelling_of_ofSpelling? hk
    have hcontextual : k.isContextual = true := by
      cases hc : k.isContextual with
      | true => rfl
      | false => exact absurd ⟨k, hspelling, hc⟩ h
    rw [← hspelling]
    exact name?_keyword_of_isContextual hcontextual

theorem ofWord_ne_punctuation (name : String) (p : Punctuation) : ofWord name ≠ .punctuation p := by
  unfold ofWord
  split <;> simp

theorem ofWord_ne_literal (name : String) (kind : LiteralKind) : ofWord name ≠ .literal kind := by
  unfold ofWord
  split <;> simp

theorem name?_ofWord_of_reserved {name : String} (h : Reserved name) : (ofWord name).name? = none := by
  obtain ⟨k, rfl, hk⟩ := h
  simp [ofWord, name?, hk]

end TokenKind

/-- Whether a word may end in front of `cs`. -/
def Ends (cs : List Char) : Prop := ∀ c ∈ cs.head?, isIdentifierPart c = false

/-- How tokens are spelled, where every literal is a string that holds `content`. Words end where they have to, and
no word begins right behind a literal. -/
inductive Spells (content : List Char) : List Char → List TokenKind → Prop
  | nil : Spells content [] []
  | blank {c : Char} {cs : List Char} {ks : List TokenKind} (hc : isBlank c = true) (rest : Spells content cs ks) :
    Spells content (c :: cs) ks
  | word (name : String) {cs : List Char} {ks : List TokenKind} (hn : IsIdentifier name.toList) (he : Ends cs)
    (rest : Spells content cs ks) : Spells content (name.toList ++ cs) (.ofWord name :: ks)
  /-- The two marks that share their first character are left out. -/
  | mark {p : Punctuation} {cs : List Char} {ks : List TokenKind} (hp : p ≠ .equals ∧ p ≠ .fatArrow)
    (rest : Spells content cs ks) : Spells content (p.spelling.toList ++ cs) (.punctuation p :: ks)
  | literal {cs : List Char} {ks : List TokenKind} (he : Ends cs) (rest : Spells content cs ks) :
    Spells content ('"' :: (content ++ '"' :: cs)) (.literal .string :: ks)

/-! ## Putting spellings together -/

theorem ends_nil : Ends [] := by simp [Ends]

theorem ends_cons {c : Char} (h : isIdentifierPart c = false) (cs : List Char) : Ends (c :: cs) := by
  simpa [Ends] using h

theorem Ends.append {cs ds : List Char} (h : Ends cs) (k : Ends ds) : Ends (cs ++ ds) := by
  cases cs with
  | nil => exact k
  | cons c cs => simpa [Ends] using h

namespace Spells

variable {content cs ds : List Char} {ks ls : List TokenKind}

/-- Spellings may stand one after the other where the first one may end. -/
theorem append (h : Spells content cs ks) (k : Spells content ds ls) (he : Ends ds) :
    Spells content (cs ++ ds) (ks ++ ls) := by
  induction h with
  | nil => exact k
  | blank hc _ ih => exact .blank hc ih
  | word name hn he' _ ih =>
    rw [List.append_assoc]
    exact .word name hn (he'.append he) ih
  | mark hp _ ih =>
    rw [List.append_assoc]
    exact .mark hp ih
  | literal he' _ ih =>
    rw [List.cons_append, List.append_assoc, List.cons_append]
    exact .literal (he'.append he) ih

theorem blanks {bs : List Char} (hb : ∀ c ∈ bs, isBlank c = true) (h : Spells content cs ks) :
    Spells content (bs ++ cs) ks := by
  induction bs with
  | nil => exact h
  | cons b bs ih =>
    exact .blank (hb b List.mem_cons_self) (ih fun c hc => hb c (List.mem_cons_of_mem b hc))

end Spells

/-! ## Reading one token -/

namespace Lexeme

/-- A word is read up to its end. -/
theorem read_word {name : String} {c : Char} {w cs : List Char} (hname : name.toList = c :: w)
    (hc : isIdentifierStart c = true) (hw : ∀ d ∈ w, isIdentifierPart d = true) (he : Ends cs) (lineStart : Bool)
    (start : Nat) : ∃ stop, read lineStart start c (w ++ cs) = ⟨.token (.ofWord name), ⟨stop, cs⟩, false⟩ := by
  have hpart := Text.isIdentifierPart_of_start hc
  have hsigns : ∀ d ∈ signs, c ≠ d := fun d hd => ne_of_isIdentifierPart hpart hd
  have hread : read lineStart start c (w ++ cs) = word (start + c.utf8Size) c (w ++ cs) := by
    unfold read
    split
    · exact absurd rfl (hsigns '#' (by decide))
    · exact absurd rfl (hsigns '/' (by decide))
    · exact absurd rfl (hsigns '"' (by decide))
    · exact absurd rfl (hsigns '\'' (by decide))
    · exact absurd rfl (hsigns '@' (by decide))
    · exact absurd rfl (hsigns '$' (by decide))
    · exact absurd rfl (hsigns '=' (by decide))
    · simp only [Text.not_isDigit_of_isIdentifierStart hc, hc, Bool.false_eq_true, if_false, if_true]
  have hstop : cs.takeWhile isIdentifierPart = [] ∧ cs.dropWhile isIdentifierPart = cs := by
    cases cs with
    | nil => exact ⟨rfl, rfl⟩
    | cons d cs =>
      have hd : isIdentifierPart d = false := he d rfl
      simp [hd]
  have hword : nameOf [c] (w ++ cs) = name := by
    rw [nameOf, List.takeWhile_append_of_pos hw, hstop.1, List.append_nil, List.singleton_append, ← hname,
      String.ofList_toList]
  refine ⟨start + c.utf8Size + Text.byteLength ((w ++ cs).takeWhile isIdentifierPart), ?_⟩
  rw [hread, word, hword, Text.Cursor.skipWhile, List.dropWhile_append_of_pos hw, hstop.2]
  rfl

/-- A mark is one character, which nothing that follows changes. -/
theorem read_mark {p : Punctuation} (hp : p ≠ .equals ∧ p ≠ .fatArrow) : ∃ c, p.spelling.toList = [c] ∧
    isBlank c = false ∧ c ≠ '"' ∧ ∀ lineStart start cs, ∃ stop,
      read lineStart start c cs = ⟨.token (.punctuation p), ⟨stop, cs⟩, false⟩ := by
  have hstart {c : Char} (hc : c ∈ signs) : isIdentifierStart c = false := by
    cases h : isIdentifierStart c with
    | false => rfl
    | true => exact absurd rfl (ne_of_isIdentifierPart (Text.isIdentifierPart_of_start h) hc)
  have hmark {c : Char} (hc : c ∈ signs) (hspelling : Punctuation.ofChar? c = some p)
      (hread : ∀ lineStart start cs, read lineStart start c cs =
        if c.isDigit then ⟨.token (.literal .number), afterNumber (start + c.utf8Size) cs, false⟩
        else if isIdentifierStart c then word (start + c.utf8Size) c cs
        else mark (start + c.utf8Size) c cs) (hdigit : c.isDigit = false) (lineStart : Bool) (start : Nat)
      (cs : List Char) : ∃ stop, read lineStart start c cs = ⟨.token (.punctuation p), ⟨stop, cs⟩, false⟩ := by
    refine ⟨start + c.utf8Size, ?_⟩
    rw [hread, hdigit, hstart hc, mark, hspelling]
    rfl
  cases p with
  | equals => exact absurd rfl hp.1
  | fatArrow => exact absurd rfl hp.2
  | _ => exact ⟨_, rfl, by decide, by decide, hmark (by decide) (by decide) (fun _ _ _ => rfl) (by decide)⟩

end Lexeme

/-- Plain characters of a string are passed up to its closing quote. -/
theorem Literal.scan_text {content : List Char} (hc : ∀ c ∈ content, isIdentifierPart c = true) (start offset : Nat)
    (cs : List Char) :
    ∃ stop, scan [⟨start, .text false false⟩] offset (content ++ '"' :: cs) = .closed ⟨stop, cs⟩ := by
  induction content generalizing offset with
  | nil => exact ⟨offset + '"'.utf8Size, by simp [scan, Frame.step, Frame.stepText]⟩
  | cons c content ih =>
    have hpart := hc c List.mem_cons_self
    have hstep (next : List Char) : Frame.step ⟨start, .text false false⟩ offset c next
        = some [⟨start, .text false false⟩] := by
      unfold Frame.step Frame.stepText
      simp only
      split
      · exact absurd rfl (ne_of_isIdentifierPart hpart (by decide : '\\' ∈ signs))
      · exact absurd rfl (ne_of_isIdentifierPart hpart (by decide : '"' ∈ signs))
      · exact absurd rfl (ne_of_isIdentifierPart hpart (by decide : '\x7b' ∈ signs))
      · exact absurd rfl (ne_of_isIdentifierPart hpart (by decide : '\n' ∈ signs))
      · rfl
    obtain ⟨stop, hstop⟩ := ih (fun d hd => hc d (List.mem_cons_of_mem c hd)) (offset + c.utf8Size)
    refine ⟨stop, ?_⟩
    rw [List.cons_append, scan, hstep]
    exact hstop

/-- A string literal is read up to its closing quote. -/
theorem Lexeme.read_literal {content : List Char} (hc : IsIdentifier content) (lineStart : Bool) (start : Nat)
    (cs : List Char) : ∃ stop, read lineStart start '"' (content ++ '"' :: cs)
      = ⟨.token (.literal .string), ⟨stop, cs⟩, false⟩ := by
  obtain ⟨d, ds, rfl, hd, -⟩ := id hc
  have hquote : d ≠ '"' := ne_of_isIdentifierPart (Text.isIdentifierPart_of_start hd) (by decide)
  have hframe : Literal.Frame.ofQuote start false false (d :: ds ++ '"' :: cs) = ⟨start, .text false false⟩ := by
    simp [Literal.Frame.ofQuote, List.isPrefixOf, hquote.symm]
  obtain ⟨stop, hstop⟩ := Literal.scan_text hc.isIdentifierPart start (start + '"'.utf8Size) cs
  have hscan : Literal.scanFrom start (.opening false false) start ('"' :: (d :: ds ++ '"' :: cs))
      = .closed ⟨stop, cs⟩ := by
    rw [Literal.scanFrom, Literal.scan, Literal.Frame.step]
    simp only [hframe]
    exact hstop
  refine ⟨stop, ?_⟩
  rw [read, literal, hscan]

/-! ## Reading all tokens -/

theorem Lexing.run_of_read {l : Lexing} {lineStart : Bool} {offset stop : Nat} {c : Char} {cs rest : List Char}
    {k : TokenKind} (hc : isBlank c = false)
    (h : Lexeme.read lineStart offset c cs = ⟨.token k, ⟨stop, rest⟩, false⟩) :
    l.run lineStart offset (c :: cs) =
      ({ l with tokens := l.tokens.push ⟨k, ⟨offset, stop⟩⟩ } : Lexing).run false stop rest := by
  rw [Lexing.run, hc, h]
  rfl

/-- A text that spells some tokens is cut into them, wherever it stands. -/
theorem Lexing.run_of_spells {content : List Char} (hc : IsIdentifier content) {cs : List Char}
    {ks : List TokenKind} (h : Spells content cs ks) (l : Lexing) (lineStart : Bool) (offset : Nat) :
    ∃ ts : List Token, ts.map Token.kind = ks ++ [.endOfText] ∧
      l.run lineStart offset cs = { l with tokens := l.tokens ++ ts.toArray } := by
  have token {l : Lexing} {t : Token} {ts : List Token} : ({ l with tokens := l.tokens.push t ++ ts.toArray } : Lexing)
      = { l with tokens := l.tokens ++ (t :: ts).toArray } := by simp
  induction h generalizing l lineStart offset with
  | nil =>
    refine ⟨[⟨.endOfText, ⟨offset, offset⟩⟩], rfl, ?_⟩
    rw [Lexing.run]
    simp
  | @blank c cs ks hb _ ih =>
    obtain ⟨ts, hts, hrun⟩ := ih l (lineStart || c == '\n') (offset + c.utf8Size)
    refine ⟨ts, hts, ?_⟩
    rw [Lexing.run, hb, if_pos rfl, hrun]
  | @word name cs ks hn he _ ih =>
    obtain ⟨c, w, hname, hstart, hw⟩ := hn
    have hblank := Text.isBlank_of_isIdentifierPart (Text.isIdentifierPart_of_start hstart)
    obtain ⟨stop, hread⟩ := Lexeme.read_word hname hstart hw he lineStart offset
    obtain ⟨ts, hts, hrun⟩ := ih { l with tokens := l.tokens.push ⟨.ofWord name, ⟨offset, stop⟩⟩ } false stop
    refine ⟨⟨.ofWord name, ⟨offset, stop⟩⟩ :: ts, by simp [hts], ?_⟩
    rw [hname, List.cons_append, Lexing.run_of_read hblank hread, hrun, token]
  | @mark p cs ks hp _ ih =>
    obtain ⟨c, hspelling, hblank, -, hmark⟩ := Lexeme.read_mark hp
    obtain ⟨stop, hread⟩ := hmark lineStart offset cs
    obtain ⟨ts, hts, hrun⟩ := ih { l with tokens := l.tokens.push ⟨.punctuation p, ⟨offset, stop⟩⟩ } false stop
    refine ⟨⟨.punctuation p, ⟨offset, stop⟩⟩ :: ts, by simp [hts], ?_⟩
    rw [hspelling, List.singleton_append, Lexing.run_of_read hblank hread, hrun, token]
  | @literal cs ks _ _ ih =>
    obtain ⟨stop, hread⟩ := Lexeme.read_literal hc lineStart offset cs
    obtain ⟨ts, hts, hrun⟩ := ih { l with tokens := l.tokens.push ⟨.literal .string, ⟨offset, stop⟩⟩ } false stop
    refine ⟨⟨.literal .string, ⟨offset, stop⟩⟩ :: ts, by simp [hts], ?_⟩
    rw [Lexing.run_of_read (by decide) hread, hrun, token]

/-- The text proper begins at once where no byte-order mark stands in front. -/
theorem textStart_eq {cs : List Char} (h : cs.head? ≠ some '\ufeff') : textStart cs = ⟨0, cs⟩ := by
  unfold textStart
  split
  · next rest => simp at h
  · rfl

/-- A text that spells some tokens is cut into them. -/
theorem lex_of_spells {content : List Char} (hc : IsIdentifier content) {source : String} {ks : List TokenKind}
    (h : Spells content source.toList ks) (hmark : source.toList.head? ≠ some '\ufeff') :
    ∃ ts, lex source = .ok ts ∧ ts.map Token.kind = ks ++ [.endOfText] := by
  obtain ⟨ts, hts, hrun⟩ := Lexing.run_of_spells hc h {} true 0
  refine ⟨ts, ?_, hts⟩
  rw [lex, textStart_eq hmark, hrun]
  simp

/-! ## The content of literals -/

/-- At how many places of a text a pattern begins. -/
def occurrences (pattern : List Char) : List Char → Nat
  | [] => 0
  | c :: cs => (if pattern.isPrefixOf (c :: cs) then 1 else 0) + occurrences pattern cs

theorem occurrences_append {pattern w : List Char} (hw : ∀ c ∈ w, c ≠ '"') (cs : List Char) :
    occurrences ('"' :: pattern) (w ++ cs) = occurrences ('"' :: pattern) cs := by
  induction w with
  | nil => rfl
  | cons c w ih =>
    have hne : '"' ≠ c := (hw c List.mem_cons_self).symm
    have hprefix : ('"' :: pattern).isPrefixOf (c :: (w ++ cs)) = false := by simp [List.isPrefixOf, hne]
    rw [List.cons_append, occurrences, hprefix, ih fun d hd => hw d (List.mem_cons_of_mem c hd)]
    simp

/-- What stands in the literals occurs between quotes once for each of them, and nowhere else. -/
theorem occurrences_of_spells {content : List Char} (hc : IsIdentifier content) {cs : List Char}
    {ks : List TokenKind} (h : Spells content cs ks) :
    occurrences ('"' :: (content ++ ['"'])) cs = ks.count (.literal .string) := by
  have hquotes {w : List Char} (hw : IsIdentifier w) : ∀ c ∈ w, c ≠ '"' :=
    fun c hcw => ne_of_isIdentifierPart (hw.isIdentifierPart c hcw) (by decide)
  induction h with
  | nil => rfl
  | @blank c cs ks hb _ ih =>
    have hne : c ≠ '"' := by
      rintro rfl
      exact absurd hb (by decide)
    have hskip := @occurrences_append (content ++ ['"']) [c] (by simpa using hne) cs
    exact hskip.trans ih
  | @word name cs ks hn he _ ih =>
    rw [occurrences_append (hquotes hn), ih, List.count_cons_of_ne (TokenKind.ofWord_ne_literal name .string)]
  | @mark p cs ks hp _ ih =>
    obtain ⟨c, hspelling, -, hne, -⟩ := Lexeme.read_mark hp
    rw [hspelling, occurrences_append (by simpa using hne), ih, List.count_cons_of_ne (by simp)]
  | @literal cs ks he _ ih =>
    -- The closing quote does not begin another occurrence, since no word stands right behind it.
    have hclose : ('"' :: (content ++ ['"'])).isPrefixOf ('"' :: cs) = false := by
      obtain ⟨d, ds, rfl, hd, -⟩ := hc
      cases cs with
      | nil => simp [List.isPrefixOf]
      | cons e cs =>
        have hde : d ≠ e := by
          rintro rfl
          have hend := he d rfl
          rw [Text.isIdentifierPart_of_start hd] at hend
          cases hend
        simp [List.isPrefixOf, hde]
    have hopen : ('"' :: (content ++ ['"'])).isPrefixOf ('"' :: (content ++ '"' :: cs)) = true := by
      rw [List.isPrefixOf_iff_prefix]
      exact ⟨cs, by simp⟩
    rw [occurrences, hopen, occurrences_append (hquotes hc), occurrences, hclose, ih, List.count_cons_self]
    simp [Nat.add_comm]

end TestScaffold
