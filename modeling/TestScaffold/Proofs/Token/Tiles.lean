import TestScaffold.Proofs.Token.Cutting

/-!
# A text laid out in tiles

A text falls into tiles: tokens with their spelling, and gaps that stand for nothing. Laying out is a relation on the
characters alone. Offsets only come in when the tokens are read off the tiles.

Results:
* `Tiled`: in which rows of tiles every tile ends where the scanner ends it.
* `exists_tiled`: a text that is read without a fault is laid out in tiles.
* `run_of_tiled`: a text that is laid out in tiles is read as the tokens among them.
* `lex_eq_ok_iff`: so the texts that are read are those that are laid out in tiles.
-/

namespace TestScaffold

open Text (Cursor byteLength isBlank)

/-- A piece of a text: a token with its spelling, or a gap. -/
inductive Tile
  | token (kind : TokenKind) (text : List Char)
  | gap (text : List Char)
  deriving DecidableEq, Repr

namespace Tile

/-- The characters of a tile. -/
def text : Tile → List Char
  | token _ w => w
  | gap w => w

/-- The characters of a row of tiles. -/
def textOf (tiles : List Tile) : List Char := tiles.flatMap text

/-- The tokens among the tiles of a text that stands at `offset`. -/
def tokens : (offset : Nat) → List Tile → List Token
  | _, [] => []
  | offset, token k w :: tiles => ⟨k, ⟨offset, offset + byteLength w⟩⟩ :: tokens (offset + byteLength w) tiles
  | offset, gap w :: tiles => tokens (offset + byteLength w) tiles

/-- The tokens among the tiles, and the one that marks the end of the text. -/
def stream (offset : Nat) (tiles : List Tile) : List Token :=
  let stop := offset + byteLength (textOf tiles)
  tokens offset tiles ++ [⟨.endOfText, ⟨stop, stop⟩⟩]

@[simp] theorem textOf_nil : textOf [] = [] := rfl

@[simp] theorem textOf_cons (t : Tile) (tiles : List Tile) : textOf (t :: tiles) = t.text ++ textOf tiles := rfl

@[simp] theorem textOf_append (xs ys : List Tile) : textOf (xs ++ ys) = textOf xs ++ textOf ys := List.flatMap_append

theorem tokens_append (offset : Nat) (xs ys : List Tile) :
    tokens offset (xs ++ ys) = tokens offset xs ++ tokens (offset + byteLength (textOf xs)) ys := by
  induction xs generalizing offset with
  | nil => simp [tokens]
  | cons t xs ih =>
    cases t <;> simp [tokens, text, ih, Nat.add_assoc]

end Tile

/-! ## Gaps -/

/-- From `/*` up to the first `*/`. -/
def ClosedComment (w : List Char) : Prop := ∃ v, ¬ ['*', '/'] <:+: v ∧ w = '/' :: '*' :: (v ++ ['*', '/'])

/-- Where `rest` stands behind it, `w` is the rest of a line. -/
def EndsLine (w rest : List Char) : Prop := (∀ c ∈ w, c ≠ '\n') ∧ ∀ c ∈ rest.head?, c = '\n'

/-- In front of `rest`, a stretch of text stands for nothing; `after` tells whether a line begins behind it. -/
inductive Gap : (lineStart : Bool) → (text rest : List Char) → (after : Bool) → Prop
  | blank {lineStart : Bool} {c : Char} {rest : List Char} (hc : isBlank c = true) :
    Gap lineStart [c] rest (lineStart || c == '\n')
  | lineComment {lineStart : Bool} {w rest : List Char} (hw : EndsLine w rest) :
    Gap lineStart ('/' :: '/' :: w) rest false
  | directive {w rest : List Char} (hw : EndsLine w rest) : Gap true ('#' :: w) rest false
  | blockComment {lineStart : Bool} {w rest : List Char} (hw : ClosedComment w) : Gap lineStart w rest lineStart

/-- Every tile of a row ends where the scanner ends it, from a place on where a line begins or does not. -/
inductive Tiled : (lineStart : Bool) → List Tile → Prop
  | nil {lineStart : Bool} : Tiled lineStart []
  | token {lineStart : Bool} {k : TokenKind} {w : List Char} {tiles : List Tile}
    (h : Cuts lineStart k w (Tile.textOf tiles)) (rest : Tiled false tiles) : Tiled lineStart (.token k w :: tiles)
  | gap {lineStart after : Bool} {w : List Char} {tiles : List Tile} (h : Gap lineStart w (Tile.textOf tiles) after)
    (rest : Tiled after tiles) : Tiled lineStart (.gap w :: tiles)

variable {ls : Bool} {start offset : Nat} {c : Char} {cs : List Char} {next : Cursor} {b : Bool}

/-! ## Reading gaps -/

theorem endsLine_of_restOfLine (h : Lexeme.restOfLine offset cs = ⟨.nothing, next, b⟩) :
    b = false ∧ ∃ w, cs = w ++ next.rest ∧ EndsLine w next.rest := by
  unfold Lexeme.restOfLine Cursor.skipWhile at h
  cases h
  refine ⟨rfl, cs.takeWhile Lexeme.staysOnLine, List.takeWhile_append_dropWhile.symm, ?_, ?_⟩
  · intro c hc
    simpa [Lexeme.staysOnLine] using List.all_eq_true.mp List.all_takeWhile c hc
  · intro c hc
    have hnot := List.head?_dropWhile_not Lexeme.staysOnLine cs
    rw [Option.mem_def.mp hc] at hnot
    simpa [Lexeme.staysOnLine] using hnot

/-- The rest of a line is passed as a whole. -/
theorem EndsLine.restOfLine {w rest : List Char} (h : EndsLine w rest) (offset : Nat) :
    ∃ stop, Lexeme.restOfLine offset (w ++ rest) = ⟨.nothing, ⟨stop, rest⟩, false⟩ := by
  obtain ⟨hw, hr⟩ := h
  have hall : ∀ c ∈ w, Lexeme.staysOnLine c = true := by simpa [Lexeme.staysOnLine] using hw
  have hdrop : rest.dropWhile Lexeme.staysOnLine = rest := by
    cases rest with
    | nil => rfl
    | cons d ds =>
      obtain rfl : d = '\n' := hr d rfl
      simp [Lexeme.staysOnLine]
  exact ⟨_, by rw [Lexeme.restOfLine, Cursor.skipWhile, List.dropWhile_append_of_pos hall, hdrop]⟩

/-- What stands in front of the end of a block comment. -/
theorem exists_afterComment? (h : Lexeme.afterComment? offset cs = some next) :
    ∃ v, ¬ ['*', '/'] <:+: v ∧ cs = v ++ '*' :: '/' :: next.rest := by
  fun_induction Lexeme.afterComment? offset cs with
  | case1 => cases h
  | case2 offset c cs hc =>
    simp only [Bool.and_eq_true, beq_iff_eq, List.head?_eq_some_iff] at hc
    obtain ⟨rfl, ds, rfl⟩ := hc
    cases h
    exact ⟨[], by simp, rfl⟩
  | case3 offset c cs hc ih =>
    obtain ⟨v, hv, rfl⟩ := ih h
    refine ⟨c :: v, ?_, rfl⟩
    rw [List.infix_cons_iff, not_or]
    refine ⟨fun hpre => hc ?_, hv⟩
    cases v with
    | nil => simp [List.cons_prefix_cons] at hpre
    | cons d v =>
      rw [List.cons_prefix_cons, List.cons_prefix_cons] at hpre
      simp [← hpre.1, ← hpre.2.1]

/-- The first end of a block comment is where it ends. -/
theorem afterComment?_append {v : List Char} (hv : ¬ ['*', '/'] <:+: v) (rest : List Char) (offset : Nat) :
    ∃ stop, Lexeme.afterComment? offset (v ++ '*' :: '/' :: rest) = some ⟨stop, rest⟩ := by
  induction v generalizing offset with
  | nil => exact ⟨offset + 2, rfl⟩
  | cons c v ih =>
    rw [List.infix_cons_iff, not_or] at hv
    obtain ⟨stop, hstop⟩ := ih hv.2 (offset + c.utf8Size)
    refine ⟨stop, ?_⟩
    have hc : (c == '*' && (v ++ '*' :: '/' :: rest).head? == some '/') = false := by
      cases v with
      | nil => simp
      | cons d v =>
        have hpre : ¬ (c = '*' ∧ d = '/') := by simpa [List.cons_prefix_cons, eq_comm] using hv.1
        simpa using hpre
    rw [List.cons_append, Lexeme.afterComment?, hc, if_neg Bool.false_ne_true, hstop]

theorem literal_reading_ne {kind : LiteralKind} {mode : Literal.Mode} :
    (Lexeme.literal kind start mode offset cs).reading ≠ .nothing := by
  unfold Lexeme.literal
  split <;> simp

/-- Only what begins with a `#` or a slash may stand for nothing. -/
theorem eq_of_reading_nothing (h : (Lexeme.read ls start c cs).reading = .nothing) : c = '#' ∨ c = '/' := by
  unfold Lexeme.read at h
  split at h
  · exact .inl rfl
  · exact .inr rfl
  · exact absurd h literal_reading_ne
  · exact absurd h literal_reading_ne
  · unfold Lexeme.fromAt at h
    split at h
    · exact absurd h literal_reading_ne
    · exact absurd h literal_reading_ne
    · split at h <;> cases h
    · cases h
  · unfold Lexeme.fromDollar at h
    simp only at h
    split at h
    · exact absurd h literal_reading_ne
    · exact absurd h literal_reading_ne
    · cases h
    · cases h
  · unfold Lexeme.fromEquals at h
    split at h <;> cases h
  · simp only at h
    split at h
    · cases h
    · split at h <;> cases h

/-- What is read as nothing is a gap. -/
theorem gap_of_read (h : Lexeme.read ls start c cs = ⟨.nothing, next, b⟩) :
    ∃ w, cs = w ++ next.rest ∧ Gap ls (c :: w) next.rest b := by
  rcases eq_of_reading_nothing (by rw [h]) with rfl | rfl
  · cases ls with
    | false => cases h
    | true =>
      obtain ⟨rfl, w, hw, hline⟩ := endsLine_of_restOfLine h
      exact ⟨w, hw, .directive hline⟩
  · have hslash : Lexeme.fromSlash ls start cs = ⟨.nothing, next, b⟩ := h
    unfold Lexeme.fromSlash at hslash
    split at hslash
    · obtain ⟨rfl, w, hw, hline⟩ := endsLine_of_restOfLine hslash
      cases w with
      | nil =>
        have hhead := hline.2 '/' (by rw [← hw.trans (List.nil_append _)]; rfl)
        cases hhead
      | cons d w =>
        cases hw
        refine ⟨'/' :: w, rfl, .lineComment ⟨fun c hc => ?_, hline.2⟩⟩
        exact hline.1 c (List.mem_cons_of_mem _ hc)
    · next more =>
      unfold Lexeme.blockComment at hslash
      split at hslash
      · next stop hstop =>
        cases hslash
        obtain ⟨v, hv, rfl⟩ := exists_afterComment? hstop
        exact ⟨'*' :: (v ++ ['*', '/']), by simp, .blockComment ⟨v, hv, rfl⟩⟩
      · cases hslash
    · cases hslash

/-- A gap is a blank, or it is read as nothing. -/
theorem Gap.read {w rest : List Char} (h : Gap ls w rest b) :
    (∃ c, w = [c] ∧ isBlank c = true ∧ b = (ls || c == '\n')) ∨
    ∃ c v, w = c :: v ∧ isBlank c = false ∧ ∀ start, ∃ stop,
      Lexeme.read ls start c (v ++ rest) = ⟨.nothing, ⟨stop, rest⟩, b⟩ := by
  cases h with
  | blank hc => exact .inl ⟨_, rfl, hc, rfl⟩
  | @lineComment _ w _ hw =>
    refine .inr ⟨'/', '/' :: w, rfl, by decide, fun start => ?_⟩
    have hline : EndsLine ('/' :: w) rest := by
      refine ⟨?_, hw.2⟩
      simpa using hw.1
    exact hline.restOfLine (start + 1)
  | directive hw => exact .inr ⟨'#', _, rfl, by decide, fun start => hw.restOfLine (start + 1)⟩
  | blockComment hw =>
    obtain ⟨v, hv, rfl⟩ := hw
    refine .inr ⟨'/', '*' :: (v ++ ['*', '/']), rfl, by decide, fun start => ?_⟩
    obtain ⟨stop, hstop⟩ := afterComment?_append hv rest (start + 2)
    refine ⟨stop, ?_⟩
    simp [Lexeme.read, Lexeme.fromSlash, Lexeme.blockComment, hstop]

/-! ## Reading all tiles -/

/-- The end of a lexeme is told by its characters. -/
theorem stop_of_read {w rest : List Char} {r : Reading} {stop : Nat}
    (h : Lexeme.read ls start c (w ++ rest) = ⟨r, ⟨stop, rest⟩, b⟩) : stop = start + byteLength (c :: w) := by
  obtain ⟨v, hv⟩ := Lexeme.reads_read ls start c (w ++ rest)
  rw [h] at hv
  have hrest : c :: (w ++ rest) = c :: v ++ rest := hv.rest_eq
  obtain rfl : w = v := by simpa using hrest
  exact hv.offset_eq

theorem problems_size_le (l : Lexing) (ls : Bool) (offset : Nat) (cs : List Char) :
    l.problems.size ≤ (l.run ls offset cs).problems.size := by
  fun_induction Lexing.run l ls offset cs with
  | case1 l ls offset => simp
  | case2 l ls offset c rest _ ih => exact ih
  | case3 l ls offset c rest _ x ih =>
    refine Nat.le_trans ?_ ih
    unfold Lexing.add
    split <;> simp

/-- A text that is read without a new fault is laid out in tiles. -/
theorem exists_tiled {l : Lexing} (h : (l.run ls offset cs).problems.size ≤ l.problems.size) :
    ∃ tiles, Tile.textOf tiles = cs ∧ Tiled ls tiles := by
  fun_induction Lexing.run l ls offset cs with
  | case1 l ls offset => exact ⟨[], rfl, .nil⟩
  | case2 l ls offset c rest hc ih =>
    obtain ⟨tiles, rfl, ht⟩ := ih h
    exact ⟨.gap [c] :: tiles, rfl, .gap (.blank hc) ht⟩
  | case3 l ls offset c rest hc x ih =>
    have hmore := problems_size_le (l.add offset x) x.atLineStart x.next.offset x.next.rest
    have hblank : isBlank c = false := by simpa using hc
    have hx : Lexeme.read ls offset c rest = x := rfl
    clear_value x
    obtain ⟨reading, next, b⟩ := x
    cases reading with
    | nothing =>
      obtain ⟨w, rfl, hgap⟩ := gap_of_read hx
      obtain ⟨tiles, htiles, ht⟩ := ih h
      rw [← htiles] at hgap ⊢
      exact ⟨.gap (c :: w) :: tiles, rfl, .gap hgap ht⟩
    | token k =>
      obtain ⟨rfl, w, rfl, hcut⟩ := cutOff_of_read hblank hx
      obtain ⟨tiles, htiles, ht⟩ := ih h
      rw [← htiles] at hcut ⊢
      exact ⟨.token k (c :: w) :: tiles, rfl, .token hcut ht⟩
    | problem report =>
      simp only [Lexing.add, Array.size_push] at hmore h
      omega

/-- A text that is laid out in tiles is read as the tokens among them. -/
theorem run_of_tiled {tiles : List Tile} (h : Tiled ls tiles) (l : Lexing) (offset : Nat) :
    l.run ls offset (Tile.textOf tiles) = { l with tokens := l.tokens ++ (Tile.stream offset tiles).toArray } := by
  induction h generalizing l offset with
  | nil =>
    rw [Tile.textOf_nil, Lexing.run]
    simp [Tile.stream, Tile.tokens]
  | @token ls k w tiles hcut _ ih =>
    obtain ⟨c, v, rfl, hblank, hread⟩ := hcut.read
    obtain ⟨stop, hstop⟩ := hread offset
    obtain rfl := stop_of_read hstop
    rw [Tile.textOf_cons, Tile.text, List.cons_append, Lexing.run_of_read hblank hstop, ih]
    simp [Tile.stream, Tile.tokens, Tile.text, Nat.add_assoc]
  | @gap ls after w tiles hgap _ ih =>
    rcases hgap.read with ⟨c, rfl, hblank, rfl⟩ | ⟨c, v, rfl, hblank, hread⟩
    · rw [Tile.textOf_cons, Tile.text, List.singleton_append, Lexing.run, hblank, if_pos rfl, ih]
      simp [Tile.stream, Tile.tokens, Tile.text, Nat.add_assoc]
    · obtain ⟨stop, hstop⟩ := hread offset
      obtain rfl := stop_of_read hstop
      rw [Tile.textOf_cons, Tile.text, List.cons_append, Lexing.run, hblank, if_neg Bool.false_ne_true]
      simp only [hstop, Lexing.add]
      rw [ih]
      simp [Tile.stream, Tile.tokens, Tile.text, Nat.add_assoc]

/-- What is cut off at the front of a text is its first tile. -/
theorem Tiled.exists_cons {tiles : List Tile} (h : Tiled ls tiles) {k : TokenKind} {w rest : List Char}
    (hcut : Cuts ls k w rest) (htext : Tile.textOf tiles = w ++ rest) :
    ∃ more, tiles = .token k w :: more ∧ Tile.textOf more = rest ∧ Tiled false more := by
  obtain ⟨c, v, rfl, hblank, hread⟩ := hcut.read
  obtain ⟨stop, hstop⟩ := hread 0
  cases h with
  | nil => cases htext
  | @token _ k' w' more hcut' hmore =>
    obtain ⟨c', v', rfl, -, hread'⟩ := hcut'.read
    obtain ⟨stop', hstop'⟩ := hread' 0
    obtain ⟨rfl, htail⟩ : c' = c ∧ v' ++ Tile.textOf more = v ++ rest := List.cons.inj htext
    rw [htail, hstop] at hstop'
    obtain ⟨rfl, hrest⟩ : k = k' ∧ rest = Tile.textOf more := by simp_all
    rw [hrest] at htail
    obtain rfl := List.append_cancel_right htail
    exact ⟨more, rfl, hrest.symm, hmore⟩
  | @gap _ _ _ more hgap hmore =>
    rcases hgap.read with ⟨c', rfl, hc', -⟩ | ⟨c', v', rfl, -, hread'⟩
    · obtain ⟨rfl, -⟩ := List.cons.inj htext
      rw [hc'] at hblank
      cases hblank
    · obtain ⟨stop', hstop'⟩ := hread' 0
      obtain ⟨rfl, htail⟩ : c' = c ∧ v' ++ Tile.textOf more = v ++ rest := List.cons.inj htext
      rw [htail, hstop] at hstop'
      cases hstop'

/-! ## Whole texts -/

/-- Only a byte-order mark may stand in front of the text proper. -/
theorem exists_textStart (cs : List Char) : ∃ mark rest, (mark = [] ∨ mark = ['\ufeff']) ∧ cs = mark ++ rest ∧
    textStart cs = ⟨byteLength mark, rest⟩ := by
  unfold textStart
  split
  · next rest => exact ⟨['\ufeff'], rest, .inr rfl, rfl, rfl⟩
  · exact ⟨[], cs, .inl rfl, rfl, rfl⟩

/-- A text is read where what stands behind its byte-order mark is laid out in tiles. -/
theorem lex_eq_ok_iff {source : String} {ts : List Token} : lex source = .ok ts ↔ ∃ tiles,
    (textStart source.toList).rest = Tile.textOf tiles ∧ Tiled true tiles ∧
      ts = Tile.stream (textStart source.toList).offset tiles := by
  constructor
  · intro h
    unfold lex at h
    simp only at h
    split at h
    · next hproblems =>
      cases h
      have hsize : (Lexing.run {} true (textStart source.toList).offset
          (textStart source.toList).rest).problems.size ≤ ({} : Lexing).problems.size := by simpa using hproblems
      obtain ⟨tiles, htiles, ht⟩ := exists_tiled hsize
      refine ⟨tiles, htiles.symm, ht, ?_⟩
      rw [← htiles, run_of_tiled ht]
      simp
    · cases h
  · rintro ⟨tiles, htiles, ht, rfl⟩
    unfold lex
    simp only
    rw [htiles, run_of_tiled ht]
    simp

/-- A text whose tokens are read is laid out in tiles, behind a byte-order mark if there is one. -/
theorem exists_tiles_of_lex {source : String} {ts : List Token} (h : lex source = .ok ts) : ∃ mark tiles,
    (mark = [] ∨ mark = ['\ufeff']) ∧ source.toList = mark ++ Tile.textOf tiles ∧ Tiled true tiles ∧
      ts = Tile.stream (byteLength mark) tiles := by
  obtain ⟨mark, rest, hmark, hsource, hstart⟩ := exists_textStart source.toList
  obtain ⟨tiles, hrest, ht, hts⟩ := lex_eq_ok_iff.mp h
  rw [hstart] at hrest hts
  exact ⟨mark, tiles, hmark, by rw [hsource, ← hrest], ht, hts⟩

/-- A text that is laid out in tiles is read as the tokens among them, unless it begins with a byte-order mark. -/
theorem lex_of_tiled {tiles : List Tile} (h : Tiled true tiles)
    (hmark : (Tile.textOf tiles).head? ≠ some '\ufeff') :
    lex (String.ofList (Tile.textOf tiles)) = .ok (Tile.stream 0 tiles) := by
  have hstart : textStart (String.ofList (Tile.textOf tiles)).toList = ⟨0, Tile.textOf tiles⟩ := by
    rw [String.toList_ofList, textStart_eq hmark]
  exact lex_eq_ok_iff.mpr ⟨tiles, by rw [hstart], h, by rw [hstart]⟩

/-- A text that is cut off as one token at the front of another is the first token there. -/
theorem exists_cons_of_lex {source : String} {ts : List Token} (h : lex source = .ok ts) {k : TokenKind}
    {w rest : List Char} (hsource : source.toList = w ++ rest) (hcut : Cuts true k w rest) (hmark : w.head? ≠ some '\ufeff') :
    ∃ more, ts = ⟨k, ⟨0, byteLength w⟩⟩ :: more := by
  obtain ⟨tiles, htiles, ht, rfl⟩ := lex_eq_ok_iff.mp h
  have hstart : textStart source.toList = ⟨0, w ++ rest⟩ := by
    obtain ⟨c, v, rfl, -⟩ := hcut.read
    rw [hsource, textStart_eq (by simpa using hmark)]
  rw [hstart] at htiles ⊢
  obtain ⟨more, rfl, -, -⟩ := ht.exists_cons hcut htiles.symm
  exact ⟨_, by simp [Tile.stream, Tile.tokens]; rfl⟩

end TestScaffold
