import TestScaffold.Proofs.Token.Extent
import TestScaffold.Proofs.Token.Spelling

/-!
# How a text is cut into tokens

Each token has a spelling of its own, and it ends where it does because of the one or two characters behind it. The
relation `Cuts` says both; it is what the scanner does, and it does not mention offsets.

Results:
* `Cuts`: which texts are cut off as one token in front of which others.
* `cutOff_of_read`, `Cuts.read`: the scanner reads a token exactly where the relation cuts one off.
* `Cuts.elsewhere`: a token stays one token when its surroundings change harmlessly.
-/

namespace TestScaffold

open Text (Cursor IsIdentifier byteLength isBlank isIdentifierPart isIdentifierStart signs)
open Lexeme (continuesNumber afterNumber)

/-! ## The relation -/

/-- The signs in front of the opening quote of a string, and what they make of it. -/
inductive StringSigns : List Char → (verbatim interpolated : Bool) → Prop
  | plain : StringSigns [] false false
  | verbatim : StringSigns ['@'] true false
  | verbatimFirst : StringSigns ['@', '$'] true true
  | dollars (n : Nat) : StringSigns (List.replicate (n + 1) '$') false true
  | dollarsFirst (n : Nat) : StringSigns (List.replicate (n + 1) '$' ++ ['@']) true true

/-- What stands in front of the first quote. -/
def signsOf (w : List Char) : List Char := w.takeWhile (· ≠ '"')

/-- What a single character is that begins nothing longer: a mark, or a character of no meaning. -/
def TokenKind.ofSign (c : Char) : TokenKind :=
  match Punctuation.ofChar? c with
  | some p => .punctuation p
  | none => .symbol c

/-- The characters of `text` all go on with a number, and what stands behind them does not. -/
def NumberEnds : (text rest : List Char) → Prop
  | [], rest => ∀ c cs, rest = c :: cs → continuesNumber c cs = false
  | c :: cs, rest => continuesNumber c (cs ++ rest) = true ∧ NumberEnds cs rest

/-- In front of `rest`, the characters of `text` are cut off as one token. Only a `#` is looked at differently where a
line begins. -/
inductive Cuts : (lineStart : Bool) → TokenKind → (text rest : List Char) → Prop
  | word {lineStart : Bool} {rest : List Char} (name : String) (hn : IsIdentifier name.toList) (he : Ends rest) :
    Cuts lineStart (.ofWord name) name.toList rest
  | verbatimName {lineStart : Bool} {rest : List Char} (name : String) (hn : IsIdentifier name.toList)
    (he : Ends rest) : Cuts lineStart (.identifier name) ('@' :: name.toList) rest
  | number {lineStart : Bool} {c : Char} {cs rest : List Char} (hc : c.isDigit = true) (he : NumberEnds cs rest) :
    Cuts lineStart (.literal .number) (c :: cs) rest
  | char {lineStart : Bool} {cs rest : List Char} (h : Literal.Closes [.charText] cs rest) :
    Cuts lineStart (.literal .char) ('\'' :: cs) rest
  | string {lineStart verbatim interpolated : Bool} {signs cs rest : List Char}
    (hs : StringSigns signs verbatim interpolated)
    (h : Literal.Closes [.opening verbatim interpolated] ('"' :: cs) rest) :
    Cuts lineStart (.literal .string) (signs ++ '"' :: cs) rest
  | arrow {lineStart : Bool} {rest : List Char} : Cuts lineStart (.punctuation .fatArrow) ['=', '>'] rest
  | equals {lineStart : Bool} {rest : List Char} (hr : rest.head? ≠ some '>') :
    Cuts lineStart (.punctuation .equals) ['='] rest
  | slash {lineStart : Bool} {rest : List Char} (hr : rest.head? ≠ some '/' ∧ rest.head? ≠ some '*') :
    Cuts lineStart (.symbol '/') ['/'] rest
  | hash {rest : List Char} : Cuts false (.symbol '#') ['#'] rest
  | atSign {lineStart : Bool} {rest : List Char} (hq : rest.head? ≠ some '"') (hd : rest.take 2 ≠ ['$', '"'])
    (hi : ∀ c ∈ rest.head?, isIdentifierStart c = false) : Cuts lineStart (.symbol '@') ['@'] rest
  | dollars {lineStart : Bool} {rest : List Char} (n : Nat)
    (hr : rest.head? ≠ some '$' ∧ rest.head? ≠ some '"' ∧ rest.head? ≠ some '@') :
    Cuts lineStart (.symbol '$') (List.replicate (n + 1) '$') rest
  | dollarsAt {lineStart : Bool} {rest : List Char} (n : Nat) (hr : rest.head? ≠ some '"') :
    Cuts lineStart (.symbol '$') (List.replicate (n + 1) '$' ++ ['@']) rest
  | sign {lineStart : Bool} {c : Char} {rest : List Char} (hb : isBlank c = false) (hd : c.isDigit = false)
    (hi : isIdentifierStart c = false) (hc : c ∉ ['#', '/', '"', '\'', '@', '$', '=']) :
    Cuts lineStart (.ofSign c) [c] rest

namespace StringSigns

variable {signs cs : List Char} {verbatim interpolated : Bool}

theorem eq_or_eq (h : StringSigns signs verbatim interpolated) : ∀ c ∈ signs, c = '@' ∨ c = '$' := by
  cases h <;> simp_all [or_imp]

/-- The signs of a string are those in front of its first quote. -/
theorem signsOf_append (h : StringSigns signs verbatim interpolated) (cs : List Char) :
    signsOf (signs ++ '"' :: cs) = signs ∧ (signs ++ '"' :: cs).dropWhile (· ≠ '"') = '"' :: cs := by
  have hall : ∀ c ∈ signs, decide (c ≠ '"') = true := by
    intro c hc
    rcases h.eq_or_eq c hc with rfl | rfl <;> rfl
  rw [signsOf, List.takeWhile_append_of_pos hall, List.dropWhile_append_of_pos hall]
  simp

/-- An `@` makes a string verbatim, and a `$` makes it interpolated. -/
theorem eq_mem (h : StringSigns signs verbatim interpolated) :
    verbatim = decide ('@' ∈ signs) ∧ interpolated = decide ('$' ∈ signs) := by
  cases h <;> simp [List.mem_replicate]

end StringSigns

theorem TokenKind.ofSign_ne_literal (c : Char) (kind : LiteralKind) : ofSign c ≠ .literal kind := by
  unfold ofSign
  split <;> simp

/-- A character literal goes up to the quote that closes it. -/
theorem Cuts.exists_char {lineStart : Bool} {text rest : List Char} (h : Cuts lineStart (.literal .char) text rest) :
    ∃ cs, text = '\'' :: cs ∧ Literal.Closes [.charText] cs rest := by
  generalize hk : TokenKind.literal .char = k at h
  cases h with
  | word name => exact absurd hk.symm (TokenKind.ofWord_ne_literal name .char)
  | sign => exact absurd hk.symm (TokenKind.ofSign_ne_literal _ .char)
  | char h => exact ⟨_, rfl, h⟩
  | _ => cases hk

/-- A string has its signs, and goes up to the quote that closes it. -/
theorem Cuts.exists_string {lineStart : Bool} {text rest : List Char}
    (h : Cuts lineStart (.literal .string) text rest) : ∃ signs verbatim interpolated cs,
      text = signs ++ '"' :: cs ∧ StringSigns signs verbatim interpolated ∧
        Literal.Closes [.opening verbatim interpolated] ('"' :: cs) rest := by
  generalize hk : TokenKind.literal .string = k at h
  cases h with
  | word name => exact absurd hk.symm (TokenKind.ofWord_ne_literal name .string)
  | sign => exact absurd hk.symm (TokenKind.ofSign_ne_literal _ .string)
  | string hs h => exact ⟨_, _, _, _, rfl, hs, h⟩
  | _ => cases hk

/-! ## What the scanner reads is cut off -/

theorem numberEnds_of_afterNumber {offset : Nat} {cs : List Char} {next : Cursor}
    (h : afterNumber offset cs = next) : ∃ w, cs = w ++ next.rest ∧ NumberEnds w next.rest := by
  fun_induction afterNumber offset cs with
  | case1 offset =>
    subst h
    exact ⟨[], rfl, by simp [NumberEnds]⟩
  | case2 offset c cs hc ih =>
    obtain ⟨w, hw, he⟩ := ih h
    refine ⟨c :: w, by rw [hw, List.cons_append], ?_, he⟩
    rwa [← hw]
  | case3 offset c cs hc =>
    subst h
    refine ⟨[], rfl, ?_⟩
    rintro d ds hcs
    cases hcs
    simpa using hc

theorem closes_of_literal {kind : LiteralKind} {start : Nat} {mode : Literal.Mode} {offset : Nat} {cs : List Char}
    {k : TokenKind} {next : Cursor} {b : Bool}
    (h : Lexeme.literal kind start mode offset cs = ⟨.token k, next, b⟩) :
    k = .literal kind ∧ b = false ∧ ∃ w, cs = w ++ next.rest ∧ Literal.Closes [mode] w next.rest := by
  unfold Lexeme.literal at h
  cases hs : Literal.scanFrom start mode offset cs with
  | broken report stop =>
    rw [hs] at h
    cases h
  | closed stop =>
    rw [hs] at h
    cases h
    obtain ⟨w, hw⟩ := Literal.reads_scan [⟨start, mode⟩] offset cs
    have hscan : Literal.scan [⟨start, mode⟩] offset cs = .closed next := hs
    rw [hscan] at hw
    have hcs : cs = w ++ next.rest := hw.rest_eq
    rw [hcs] at hscan
    exact ⟨rfl, rfl, w, hcs, Literal.closes_of_scan hscan rfl⟩

/-- A string that is closed begins with the quote it was read from. -/
theorem exists_quote_of_closes {mode : Literal.Mode} {cs w rest : List Char} (hcs : '"' :: cs = w ++ rest)
    (h : Literal.Closes [mode] w rest) : ∃ v, w = '"' :: v := by
  cases w with
  | nil => cases h.eq_nil
  | cons c w =>
    rw [List.cons_append] at hcs
    cases hcs
    exact ⟨w, rfl⟩

theorem eq_of_mark {offset : Nat} {c : Char} {cs : List Char} {k : TokenKind} {next : Cursor} {b : Bool}
    (h : Lexeme.mark offset c cs = ⟨.token k, next, b⟩) : k = .ofSign c ∧ b = false ∧ next.rest = cs := by
  unfold Lexeme.mark at h
  cases h
  exact ⟨rfl, rfl, rfl⟩

/-- The token that begins with `c` and goes on in `cs` is cut off where `next` stands. -/
def CutOff (lineStart : Bool) (c : Char) (cs : List Char) (k : TokenKind) (next : Cursor) (b : Bool) : Prop :=
  b = false ∧ ∃ w, cs = w ++ next.rest ∧ Cuts lineStart k (c :: w) next.rest

variable {ls : Bool} {start offset : Nat} {c : Char} {cs : List Char} {k : TokenKind} {next : Cursor} {b : Bool}

theorem ends_dropWhile (cs : List Char) : Ends (cs.dropWhile isIdentifierPart) := by
  intro d hd
  have hnot := List.head?_dropWhile_not isIdentifierPart cs
  rw [Option.mem_def.mp hd] at hnot
  simpa using hnot

theorem cutOff_word (hc : isIdentifierStart c = true)
    (h : Lexeme.word offset c cs = ⟨.token k, next, b⟩) : CutOff ls c cs k next b := by
  unfold Lexeme.word at h
  cases h
  have hcs : cs = cs.takeWhile isIdentifierPart ++ cs.dropWhile isIdentifierPart := List.takeWhile_append_dropWhile.symm
  refine ⟨rfl, cs.takeWhile isIdentifierPart, hcs, ?_⟩
  have hname : (Lexeme.nameOf [c] cs).toList = c :: cs.takeWhile isIdentifierPart := by
    simp [Lexeme.nameOf]
  have hform : IsIdentifier (Lexeme.nameOf [c] cs).toList := by
    rw [hname]
    exact ⟨c, _, rfl, hc, fun d hd => List.all_eq_true.mp List.all_takeWhile d hd⟩
  rw [← hname]
  exact .word _ hform (ends_dropWhile cs)

theorem cutOff_verbatimName (hc : isIdentifierStart c = true)
    (h : Lexeme.verbatimName offset (c :: cs) = ⟨.token k, next, b⟩) : CutOff ls '@' (c :: cs) k next b := by
  unfold Lexeme.verbatimName at h
  cases h
  have hcs : c :: cs = (c :: cs).takeWhile isIdentifierPart ++ (c :: cs).dropWhile isIdentifierPart :=
    List.takeWhile_append_dropWhile.symm
  refine ⟨rfl, (c :: cs).takeWhile isIdentifierPart, hcs, ?_⟩
  have hname : (Lexeme.nameOf [] (c :: cs)).toList = (c :: cs).takeWhile isIdentifierPart := by
    simp [Lexeme.nameOf]
  have hform : IsIdentifier (Lexeme.nameOf [] (c :: cs)).toList := by
    rw [hname, List.takeWhile_cons_of_pos (Text.isIdentifierPart_of_start hc)]
    exact ⟨c, _, rfl, hc, fun d hd => List.all_eq_true.mp List.all_takeWhile d hd⟩
  rw [← hname]
  exact .verbatimName _ hform (ends_dropWhile (c :: cs))

/-- A string that is read from its opening quote on, behind its signs. -/
theorem cutOff_string {verbatim interpolated : Bool} {ss more : List Char} (hs : StringSigns ss verbatim interpolated)
    (hcs : c :: cs = ss ++ '"' :: more)
    (h : Lexeme.literal .string start (.opening verbatim interpolated) offset ('"' :: more) = ⟨.token k, next, b⟩) :
    CutOff ls c cs k next b := by
  obtain ⟨rfl, rfl, w, hw, hclosed⟩ := closes_of_literal h
  obtain ⟨v, rfl⟩ := exists_quote_of_closes hw hclosed
  rw [hw] at hcs
  cases ss with
  | nil =>
    cases hcs
    exact ⟨rfl, v, rfl, .string hs hclosed⟩
  | cons d ss =>
    cases hcs
    exact ⟨rfl, ss ++ '"' :: v, by simp, .string hs hclosed⟩

theorem cutOff_fromSlash (h : Lexeme.fromSlash ls start cs = ⟨.token k, next, b⟩) : CutOff ls '/' cs k next b := by
  unfold Lexeme.fromSlash at h
  split at h
  · cases h
  · unfold Lexeme.blockComment at h
    split at h <;> cases h
  · next hslash hstar =>
    obtain ⟨rfl, rfl, hrest⟩ := eq_of_mark h
    refine ⟨rfl, [], hrest.symm, ?_⟩
    have hkind : TokenKind.ofSign '/' = .symbol '/' := rfl
    rw [hkind, hrest]
    refine .slash ⟨fun hh => ?_, fun hh => ?_⟩
    · obtain ⟨ds, hds⟩ := List.head?_eq_some_iff.mp hh
      exact hslash ds hds
    · obtain ⟨ds, hds⟩ := List.head?_eq_some_iff.mp hh
      exact hstar ds hds

theorem cutOff_fromEquals (h : Lexeme.fromEquals start cs = ⟨.token k, next, b⟩) : CutOff ls '=' cs k next b := by
  unfold Lexeme.fromEquals at h
  split at h
  · cases h
    exact ⟨rfl, ['>'], rfl, .arrow⟩
  · next harrow =>
    obtain ⟨rfl, rfl, hrest⟩ := eq_of_mark h
    refine ⟨rfl, [], hrest.symm, ?_⟩
    have hkind : TokenKind.ofSign '=' = .punctuation .equals := rfl
    rw [hkind, hrest]
    refine .equals fun hh => ?_
    obtain ⟨ds, hds⟩ := List.head?_eq_some_iff.mp hh
    exact harrow ds hds

theorem cutOff_fromAt (h : Lexeme.fromAt start cs = ⟨.token k, next, b⟩) : CutOff ls '@' cs k next b := by
  unfold Lexeme.fromAt at h
  have hkind : TokenKind.ofSign '@' = .symbol '@' := rfl
  split at h
  · next more => exact cutOff_string .verbatim rfl h
  · next more => exact cutOff_string .verbatimFirst rfl h
  · next d ds hquote hdollar =>
    split at h
    · next hd => exact cutOff_verbatimName hd h
    · next hd =>
      obtain ⟨rfl, rfl, hrest⟩ := eq_of_mark h
      refine ⟨rfl, [], hrest.symm, ?_⟩
      rw [hkind, hrest]
      refine .atSign ?_ ?_ (by simpa using hd)
      · rintro ⟨rfl⟩
        exact hquote rfl
      · intro htake
        obtain ⟨rfl, es, rfl⟩ : d = '$' ∧ ∃ es, ds = '"' :: es := by
          cases ds with
          | nil => simp at htake
          | cons e es => simpa using htake
        exact hdollar es rfl rfl
  · obtain ⟨rfl, rfl, hrest⟩ := eq_of_mark h
    refine ⟨rfl, [], hrest.symm, ?_⟩
    rw [hkind, hrest]
    exact .atSign (by simp) (by simp) (by simp)

theorem takeWhile_dollars (cs : List Char) : ∃ n, cs.takeWhile (· == '$') = List.replicate n '$' :=
  ⟨_, List.eq_replicate_of_mem fun d hd => by simpa using List.all_eq_true.mp List.all_takeWhile d hd⟩

theorem cutOff_fromDollar (h : Lexeme.fromDollar start cs = ⟨.token k, next, b⟩) : CutOff ls '$' cs k next b := by
  have hcs : cs = cs.takeWhile (· == '$') ++ cs.dropWhile (· == '$') := List.takeWhile_append_dropWhile.symm
  obtain ⟨n, hn⟩ := takeWhile_dollars cs
  have hnot := List.head?_dropWhile_not (· == '$') cs
  rw [hn] at hcs
  unfold Lexeme.fromDollar at h
  simp only [Cursor.skipWhile] at h
  generalize cs.dropWhile (· == '$') = rest at hcs hnot h
  split at h
  · next more => exact cutOff_string (.dollars n) (congrArg ('$' :: ·) hcs) h
  · next more => exact cutOff_string (.dollarsFirst n) (by simp [hcs, List.replicate_succ]) h
  · next more hquote =>
    cases h
    refine ⟨rfl, List.replicate n '$' ++ ['@'], by simp [hcs], .dollarsAt n fun hh => ?_⟩
    obtain ⟨ds, rfl⟩ := List.head?_eq_some_iff.mp hh
    exact hquote ds rfl
  · next hquote _ hat =>
    cases h
    refine ⟨rfl, List.replicate n '$', hcs, .dollars n ⟨fun hh => ?_, fun hh => ?_, fun hh => ?_⟩⟩
    · simp [hh] at hnot
    · obtain ⟨ds, rfl⟩ := List.head?_eq_some_iff.mp hh
      exact hquote ds rfl
    · obtain ⟨ds, rfl⟩ := List.head?_eq_some_iff.mp hh
      exact hat ds rfl

/-- What the scanner reads as one token is cut off as that token. -/
theorem cutOff_of_read (hb : isBlank c = false) (h : Lexeme.read ls start c cs = ⟨.token k, next, b⟩) :
    CutOff ls c cs k next b := by
  unfold Lexeme.read at h
  split at h
  · split at h
    · cases h
    · next hls =>
      obtain ⟨rfl, rfl, hrest⟩ := eq_of_mark h
      obtain rfl : ls = false := by simpa using hls
      have hkind : TokenKind.ofSign '#' = .symbol '#' := rfl
      refine ⟨rfl, [], hrest.symm, ?_⟩
      rw [hkind]
      exact .hash
  · exact cutOff_fromSlash h
  · exact cutOff_string .plain rfl h
  · obtain ⟨rfl, rfl, w, hw, hclosed⟩ := closes_of_literal h
    exact ⟨rfl, w, hw, .char hclosed⟩
  · exact cutOff_fromAt h
  · exact cutOff_fromDollar h
  · exact cutOff_fromEquals h
  · next hhash hslash hquote happ hat hdollar heq =>
    simp only at h
    split at h
    · next hd =>
      cases h
      obtain ⟨w, hw, he⟩ := @numberEnds_of_afterNumber (start + c.utf8Size) cs _ rfl
      exact ⟨rfl, w, hw, .number hd he⟩
    · next hd =>
      split at h
      · next hi => exact cutOff_word hi h
      · next hi =>
        obtain ⟨rfl, rfl, hrest⟩ := eq_of_mark h
        refine ⟨rfl, [], hrest.symm, .sign hb (by simpa using hd) (by simpa using hi) ?_⟩
        simp only [List.mem_cons, List.not_mem_nil, or_false, not_or]
        exact ⟨hhash, hslash, hquote, happ, hat, hdollar, heq⟩

/-! ## What is cut off is read -/

theorem Literal.Closes.literal {mode : Literal.Mode} {w rest : List Char} (h : Literal.Closes [mode] w rest)
    (kind : LiteralKind) (start offset : Nat) : ∃ stop,
    Lexeme.literal kind start mode offset (w ++ rest) = ⟨.token (.literal kind), ⟨stop, rest⟩, false⟩ := by
  have hscan : Literal.scanFrom start mode offset (w ++ rest) = _ := h [⟨start, mode⟩] rfl offset
  exact ⟨offset + byteLength w, by rw [Lexeme.literal, hscan]⟩

theorem NumberEnds.afterNumber {w rest : List Char} (h : NumberEnds w rest) (offset : Nat) :
    ∃ stop, Lexeme.afterNumber offset (w ++ rest) = ⟨stop, rest⟩ := by
  induction w generalizing offset with
  | nil =>
    refine ⟨offset, ?_⟩
    cases rest with
    | nil => rfl
    | cons c cs =>
      have hc : continuesNumber c cs = false := h c cs rfl
      simp [Lexeme.afterNumber, hc]
  | cons c w ih =>
    obtain ⟨hc, he⟩ := h
    obtain ⟨stop, hstop⟩ := ih he (offset + c.utf8Size)
    refine ⟨stop, ?_⟩
    rw [List.cons_append, Lexeme.afterNumber, hc, if_pos rfl, hstop]

/-- The signs in a row that stand at the front of `cs`. -/
theorem skipWhile_dollars (offset n : Nat) {cs : List Char} (h : cs.head? ≠ some '$') :
    Cursor.skipWhile (· == '$') offset (List.replicate n '$' ++ cs) =
      ⟨offset + byteLength (List.replicate n '$'), cs⟩ := by
  have htake : cs.takeWhile (· == '$') = [] ∧ cs.dropWhile (· == '$') = cs := by
    cases cs with
    | nil => exact ⟨rfl, rfl⟩
    | cons d ds =>
      have hd : ¬ d = '$' := by simpa using h
      simp [hd]
  have hall : ∀ d ∈ List.replicate n '$', (d == '$') = true := by simp
  rw [Cursor.skipWhile, List.takeWhile_append_of_pos hall, List.dropWhile_append_of_pos hall, htake.1, htake.2,
    List.append_nil]

/-- What is read behind a row of dollar signs that begins at `start` and ends at `offset`. -/
def Lexeme.behindDollars (start offset : Nat) (cs : List Char) : Lexeme :=
  match cs with
  | '"' :: _ => literal .string start (.opening false true) offset cs
  | '@' :: '"' :: rest => literal .string start (.opening true true) (offset + 1) ('"' :: rest)
  | '@' :: rest => ⟨.token (.symbol '$'), ⟨offset + 1, rest⟩, false⟩
  | rest => ⟨.token (.symbol '$'), ⟨offset, rest⟩, false⟩

/-- A row of dollar signs is read to the end of the row first. -/
theorem fromDollar_replicate (start n : Nat) (cs : List Char) (h : cs.head? ≠ some '$') : ∃ offset,
    Lexeme.fromDollar start (List.replicate n '$' ++ cs) = Lexeme.behindDollars start offset cs := by
  refine ⟨start + 1 + byteLength (List.replicate n '$'), ?_⟩
  rw [Lexeme.fromDollar, skipWhile_dollars (start + 1) n h]
  rfl

theorem read_digit (hc : c.isDigit = true) :
    Lexeme.read ls start c cs = ⟨.token (.literal .number), afterNumber (start + c.utf8Size) cs, false⟩ := by
  unfold Lexeme.read
  split <;> first | rfl | cases hc | simp [hc]

/-- A character that begins nothing longer is read as itself. -/
theorem read_sign (hd : c.isDigit = false) (hi : isIdentifierStart c = false)
    (hc : c ∉ ['#', '/', '"', '\'', '@', '$', '=']) :
    Lexeme.read ls start c cs = ⟨.token (.ofSign c), ⟨start + c.utf8Size, cs⟩, false⟩ := by
  unfold Lexeme.read
  split
  case h_8 =>
    simp only [hd, hi, Bool.false_eq_true, if_false]
    rfl
  all_goals simp at hc

/-- A string is read behind its signs. -/
theorem read_string {verbatim interpolated : Bool} {ss w rest : List Char} (hs : StringSigns ss verbatim interpolated)
    (h : Literal.Closes [.opening verbatim interpolated] ('"' :: w) rest) :
    ∃ d v, ss ++ '"' :: w = d :: v ∧ isBlank d = false ∧ ∀ start, ∃ stop,
      Lexeme.read ls start d (v ++ rest) = ⟨.token (.literal .string), ⟨stop, rest⟩, false⟩ := by
  cases hs with
  | plain => exact ⟨'"', w, rfl, by decide, fun start => h.literal _ start start⟩
  | verbatim => exact ⟨'@', '"' :: w, rfl, by decide, fun start => h.literal _ start (start + 1)⟩
  | verbatimFirst => exact ⟨'@', '$' :: '"' :: w, rfl, by decide, fun start => h.literal _ start (start + 2)⟩
  | dollars n =>
    refine ⟨'$', List.replicate n '$' ++ '"' :: w, rfl, by decide, fun start => ?_⟩
    obtain ⟨offset, hread⟩ := fromDollar_replicate start n ('"' :: (w ++ rest)) (by simp)
    obtain ⟨stop, hstop⟩ := h.literal .string start offset
    refine ⟨stop, ?_⟩
    rw [List.append_assoc, List.cons_append]
    exact hread.trans hstop
  | dollarsFirst n =>
    refine ⟨'$', List.replicate n '$' ++ '@' :: '"' :: w, by simp [List.replicate_succ], by decide, fun start => ?_⟩
    obtain ⟨offset, hread⟩ := fromDollar_replicate start n ('@' :: '"' :: (w ++ rest)) (by simp)
    obtain ⟨stop, hstop⟩ := h.literal .string start (offset + 1)
    refine ⟨stop, ?_⟩
    rw [List.append_assoc, List.cons_append, List.cons_append]
    exact hread.trans hstop

/-- A name behind an `@` is read up to its end. -/
theorem read_verbatimName {name : String} (hn : IsIdentifier name.toList) {rest : List Char} (he : Ends rest)
    (start : Nat) : ∃ stop,
    Lexeme.read ls start '@' (name.toList ++ rest) = ⟨.token (.identifier name), ⟨stop, rest⟩, false⟩ := by
  obtain ⟨c, w, hname, hc, hw⟩ := id hn
  have hpart := Text.isIdentifierPart_of_start hc
  have hquote : c ≠ '"' := Text.ne_of_isIdentifierPart hpart (by decide)
  have hdollar : c ≠ '$' := Text.ne_of_isIdentifierPart hpart (by decide)
  have hread : Lexeme.read ls start '@' (c :: w ++ rest) = Lexeme.verbatimName (start + 1) (c :: w ++ rest) := by
    simp [Lexeme.read, Lexeme.fromAt, hdollar, hc]
  have hall : ∀ d ∈ c :: w, isIdentifierPart d = true := by simpa [hpart] using hw
  have hstop : rest.takeWhile isIdentifierPart = [] ∧ rest.dropWhile isIdentifierPart = rest := by
    cases rest with
    | nil => exact ⟨rfl, rfl⟩
    | cons d ds =>
      have hd : isIdentifierPart d = false := he d rfl
      simp [hd]
  refine ⟨start + 1 + byteLength (c :: w), ?_⟩
  rw [hname, hread, Lexeme.verbatimName, Lexeme.nameOf, Cursor.skipWhile, List.takeWhile_append_of_pos hall,
    List.dropWhile_append_of_pos hall, hstop.1, hstop.2, List.append_nil, List.nil_append, ← hname,
    String.ofList_toList]

theorem fromEquals_sign (h : cs.head? ≠ some '>') :
    Lexeme.fromEquals start cs = ⟨.token (.punctuation .equals), ⟨start + 1, cs⟩, false⟩ := by
  cases cs with
  | nil => rfl
  | cons d ds =>
    have hd : d ≠ '>' := by simpa using h
    simp [Lexeme.fromEquals, hd, Lexeme.mark]
    rfl

theorem fromSlash_sign (h : cs.head? ≠ some '/' ∧ cs.head? ≠ some '*') :
    Lexeme.fromSlash ls start cs = ⟨.token (.symbol '/'), ⟨start + 1, cs⟩, false⟩ := by
  cases cs with
  | nil => rfl
  | cons d ds =>
    have hd : d ≠ '/' ∧ d ≠ '*' := by simpa using h
    simp [Lexeme.fromSlash, hd, Lexeme.mark]
    rfl

theorem fromAt_sign (hq : cs.head? ≠ some '"') (hd : cs.take 2 ≠ ['$', '"'])
    (hi : ∀ c ∈ cs.head?, isIdentifierStart c = false) :
    Lexeme.fromAt start cs = ⟨.token (.symbol '@'), ⟨start + 1, cs⟩, false⟩ := by
  cases cs with
  | nil => rfl
  | cons d ds =>
    have hquote : d ≠ '"' := by simpa using hq
    have hstart : isIdentifierStart d = false := hi d rfl
    have hdollar : ∀ es, d = '$' → ds ≠ '"' :: es := by
      rintro es rfl rfl
      exact hd rfl
    simp [Lexeme.fromAt, hstart, Lexeme.mark]
    rfl

/-- What is cut off as one token is read as one. -/
theorem Cuts.read {text rest : List Char} (h : Cuts ls k text rest) : ∃ c w, text = c :: w ∧ isBlank c = false ∧
    ∀ start, ∃ stop, Lexeme.read ls start c (w ++ rest) = ⟨.token k, ⟨stop, rest⟩, false⟩ := by
  cases h with
  | word name hn he =>
    obtain ⟨c, w, hname, hc, hw⟩ := hn
    have hblank := Text.isBlank_of_isIdentifierPart (Text.isIdentifierPart_of_start hc)
    exact ⟨c, w, hname, hblank, Lexeme.read_word hname hc hw he _⟩
  | verbatimName name hn he => exact ⟨'@', name.toList, rfl, by decide, read_verbatimName hn he⟩
  | number hc he =>
    have hblank := Text.isBlank_of_isIdentifierPart (Text.isIdentifierPart_of_isDigit hc)
    refine ⟨_, _, rfl, hblank, fun start => ?_⟩
    obtain ⟨stop, hstop⟩ := he.afterNumber (start + _)
    exact ⟨stop, by rw [read_digit hc, hstop]⟩
  | char hclosed => exact ⟨'\'', _, rfl, by decide, fun start => hclosed.literal _ start (start + 1)⟩
  | string hs hclosed => exact read_string hs hclosed
  | arrow => exact ⟨'=', ['>'], rfl, by decide, fun start => ⟨start + 2, rfl⟩⟩
  | equals hr => exact ⟨'=', [], rfl, by decide, fun start => ⟨start + 1, fromEquals_sign hr⟩⟩
  | slash hr => exact ⟨'/', [], rfl, by decide, fun start => ⟨start + 1, fromSlash_sign hr⟩⟩
  | hash => exact ⟨'#', [], rfl, by decide, fun start => ⟨start + 1, rfl⟩⟩
  | atSign hq hd hi => exact ⟨'@', [], rfl, by decide, fun start => ⟨start + 1, fromAt_sign hq hd hi⟩⟩
  | dollars n hr =>
    refine ⟨'$', List.replicate n '$', rfl, by decide, fun start => ?_⟩
    obtain ⟨offset, hread⟩ := fromDollar_replicate start n rest hr.1
    refine ⟨offset, hread.trans ?_⟩
    cases rest with
    | nil => rfl
    | cons d ds => simp_all [Lexeme.behindDollars]
  | dollarsAt n hr =>
    refine ⟨'$', List.replicate n '$' ++ ['@'], rfl, by decide, fun start => ?_⟩
    obtain ⟨offset, hread⟩ := fromDollar_replicate start n ('@' :: rest) (by simp)
    refine ⟨offset + 1, ?_⟩
    rw [List.append_assoc]
    refine hread.trans ?_
    cases rest with
    | nil => rfl
    | cons d ds => simp_all [Lexeme.behindDollars]
  | sign hb hd hi hc => exact ⟨_, [], rfl, hb, fun start => ⟨_, read_sign hd hi hc⟩⟩

/-! ## Another continuation -/

/-- A space, a line break or the carriage return in front of one, and the marks that end a declaration: no token goes on
with one of these. -/
def freshSigns : List Char := [' ', '\n', '\r', ';', ']', '\x7d']

/-- Whether nothing that stands in front of `rest` goes on with it: it is empty, or it begins with a space, at the end of
a line, or with a mark that ends a declaration. -/
def Fresh (rest : List Char) : Prop := ∀ c ∈ rest.head?, c ∈ freshSigns

/-- The characters that something fresh begins with go on with no word and with no number. -/
theorem not_goesOn_of_mem {c : Char} (hc : c ∈ freshSigns) :
    isIdentifierPart c = false ∧ isIdentifierStart c = false ∧ c.isAlphanum = false ∧ c ≠ '_' ∧ c ≠ '.' := by
  simp only [freshSigns, List.mem_cons, List.not_mem_nil, or_false] at hc
  rcases hc with rfl | rfl | rfl | rfl | rfl | rfl <;> decide +kernel

/-- Whether `rest'` may take the place of `rest` behind a token. No token looks at more than two characters: these are
the same ones, or the first of them that is not is fresh. -/
inductive TakesPlace : (rest rest' : List Char) → Prop
  | alike {rest rest' : List Char} (h : rest'.take 2 = rest.take 2) : TakesPlace rest rest'
  | fresh {rest rest' : List Char} (h : Fresh rest') : TakesPlace rest rest'
  | freshBehind {c : Char} {rest rest' : List Char} (h : Fresh rest') : TakesPlace (c :: rest) (c :: rest')

theorem head?_take_two (rest : List Char) : (rest.take 2).head? = rest.head? := by
  cases rest <;> rfl

theorem head?_of_take_two {rest rest' : List Char} (h : rest'.take 2 = rest.take 2) : rest'.head? = rest.head? := by
  rw [← head?_take_two, h, head?_take_two]

theorem Fresh.head?_ne {rest : List Char} (h : Fresh rest) {c : Char} (hc : c ∉ freshSigns) :
    rest.head? ≠ some c :=
  fun hhead => hc (h c hhead)

/-- The first character is the same one, or a fresh one. -/
theorem TakesPlace.head? {rest rest' : List Char} (hr : TakesPlace rest rest') :
    rest'.head? = rest.head? ∨ Fresh rest' := by
  cases hr with
  | alike h => exact .inl (head?_of_take_two h)
  | fresh h => exact .inr h
  | freshBehind h => exact .inl rfl

/-- A sign that does not stand behind a token does not stand behind it later either. -/
theorem TakesPlace.head?_ne {rest rest' : List Char} (hr : TakesPlace rest rest') {c : Char}
    (hc : c ∉ freshSigns) (h : rest.head? ≠ some c) : rest'.head? ≠ some c := by
  rcases hr.head? with hr | hr
  · rwa [hr]
  · exact hr.head?_ne hc

theorem TakesPlace.mayFollow {rest rest' : List Char} (hr : TakesPlace rest rest') : Literal.MayFollow rest rest' :=
  hr.head?.imp id fun hr => hr.head?_ne (by decide)

theorem TakesPlace.ends {rest rest' : List Char} (hr : TakesPlace rest rest') (h : Ends rest) : Ends rest' := by
  rcases hr.head? with hr | hr
  · unfold Ends
    rwa [hr]
  · exact fun c hc => (not_goesOn_of_mem (hr c hc)).1

/-- No name begins behind a sign where none began. -/
theorem TakesPlace.not_isIdentifierStart {rest rest' : List Char} (hr : TakesPlace rest rest')
    (h : ∀ c ∈ rest.head?, isIdentifierStart c = false) : ∀ c ∈ rest'.head?, isIdentifierStart c = false := by
  rcases hr.head? with hr | hr
  · rwa [hr]
  · exact fun c hc => (not_goesOn_of_mem (hr c hc)).2.1

/-- Nothing fresh is the digit that a point needs behind it in a number. -/
theorem Fresh.not_continuesNumber {c : Char} {rest rest' : List Char} (hr : Fresh rest')
    (h : continuesNumber c rest = false) : continuesNumber c rest' = false := by
  have hdigit : rest'.head?.any Char.isDigit = false := by
    cases rest' with
    | nil => rfl
    | cons d ds =>
      have halpha := (not_goesOn_of_mem (hr d rfl)).2.2.1
      have hd : d.isAlpha = false ∧ d.isDigit = false := by simpa [Char.isAlphanum] using halpha
      simpa using hd.2
  simp only [continuesNumber, Bool.or_eq_false_iff] at h ⊢
  exact ⟨h.1, by rw [hdigit, Bool.and_false]⟩

theorem TakesPlace.not_continuesNumber {rest rest' : List Char} (hr : TakesPlace rest rest')
    (h : NumberEnds [] rest) : NumberEnds [] rest' := by
  rintro c cs rfl
  cases hr with
  | alike hr =>
    cases rest with
    | nil => cases hr
    | cons d ds =>
      have htake : c = d ∧ cs.take 1 = ds.take 1 := by simpa using hr
      have hhead : cs.head? = ds.head? := by simpa [List.head?_eq_getElem?] using congrArg List.head? htake.2
      have hd : continuesNumber d ds = false := h d ds rfl
      rw [htake.1, continuesNumber, hhead]
      exact hd
  | fresh hr =>
    obtain ⟨-, -, halpha, hunder, hpoint⟩ := not_goesOn_of_mem (hr c rfl)
    simp [continuesNumber, halpha, hunder, hpoint]
  | @freshBehind _ rest _ hr => exact hr.not_continuesNumber (h c rest rfl)

/-- A point at the end of a number is followed by a digit, which then belongs to the number. -/
theorem not_point_of_numberEnds {c : Char} {rest : List Char} (hc : continuesNumber c rest = true)
    (h : NumberEnds [] rest) : c.isAlphanum = true ∨ c = '_' := by
  simp only [continuesNumber, Bool.or_eq_true, Bool.and_eq_true, beq_iff_eq] at hc
  rcases hc with hc | ⟨-, hdigit⟩
  · exact hc
  · cases rest with
    | nil => cases hdigit
    | cons d ds =>
      have hd : continuesNumber d ds = false := h d ds rfl
      have hdigit : d.isDigit = true := by simpa using hdigit
      simp [continuesNumber, Char.isAlphanum, hdigit] at hd

theorem NumberEnds.in_front_of {text rest rest' : List Char} (h : NumberEnds text rest) (hr : TakesPlace rest rest') :
    NumberEnds text rest' := by
  induction text with
  | nil => exact hr.not_continuesNumber h
  | cons c text ih =>
    obtain ⟨hc, he⟩ := h
    refine ⟨?_, ih he⟩
    cases text with
    | cons d text => simpa [continuesNumber] using hc
    | nil =>
      have hpart := not_point_of_numberEnds hc he
      simp only [continuesNumber, Bool.or_eq_true, beq_iff_eq]
      exact .inl hpart

/-- One token stays one token when its surroundings change in a way that no token looks at. -/
theorem Cuts.elsewhere {text rest rest' : List Char} {ls' : Bool} (h : Cuts ls k text rest)
    (hr : TakesPlace rest rest') (hl : k = .symbol '#' → ls' = false) : Cuts ls' k text rest' := by
  cases h with
  | word name hn he => exact .word name hn (hr.ends he)
  | verbatimName name hn he => exact .verbatimName name hn (hr.ends he)
  | number hc he => exact .number hc (he.in_front_of hr)
  | char h => exact .char (h.in_front_of hr.mayFollow)
  | string hs h => exact .string hs (h.in_front_of hr.mayFollow)
  | arrow => exact .arrow
  | equals h => exact .equals (hr.head?_ne (by decide) h)
  | slash h => exact .slash ⟨hr.head?_ne (by decide) h.1, hr.head?_ne (by decide) h.2⟩
  | hash =>
    obtain rfl := hl rfl
    exact .hash
  | atSign hq hd hi =>
    refine .atSign (hr.head?_ne (by decide) hq) (fun htake => ?_) (hr.not_isIdentifierStart hi)
    cases hr with
    | alike hr => exact hd (hr.symm.trans htake)
    | fresh hr =>
      have hhead : rest'.head? = some '$' := by rw [← head?_take_two, htake]; rfl
      exact hr.head?_ne (by decide) hhead
    | @freshBehind c rest rest' hr =>
      have hhead : rest'.head? = some '"' := by
        cases rest' <;> simp_all
      exact hr.head?_ne (by decide) hhead
  | dollars n h =>
    exact .dollars n ⟨hr.head?_ne (by decide) h.1, hr.head?_ne (by decide) h.2.1, hr.head?_ne (by decide) h.2.2⟩
  | dollarsAt n h => exact .dollarsAt n (hr.head?_ne (by decide) h)
  | sign hb hd hi hc => exact .sign hb hd hi hc

end TestScaffold
