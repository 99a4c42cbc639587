import TestScaffold.Proofs.Token.Cutout

/-!
# Two texts with a line break between them

Behind a line break a text is cut into tokens as it is at the beginning, and in front of one as it is at the end. Two
texts with a line break between them therefore hold the tokens of both.

Results:
* `Tiled.join`: tiles stay tiles in front of a line break, and behind it.
* `lex_join`: the tokens of the second text follow those of the first, moved behind it.
-/

namespace TestScaffold

open Text (byteLength)

variable {ls : Bool}

/-! ## Tiles on both sides of a line break -/

/-- A line break at the end of a text changes nothing in front of it. -/
theorem takesPlace_newline (rest more : List Char) : TakesPlace rest (rest ++ '\n' :: more) := by
  have hfresh : Fresh ('\n' :: more) := by simp [Fresh, freshSigns]
  rcases rest with _ | ⟨c, _ | ⟨d, rest⟩⟩
  · exact .fresh hfresh
  · exact .freshBehind hfresh
  · exact .alike rfl

theorem EndsLine.before_newline {w rest : List Char} (h : EndsLine w rest) (more : List Char) :
    EndsLine w (rest ++ '\n' :: more) := by
  refine ⟨h.1, fun c hc => ?_⟩
  cases rest with
  | nil => exact (Option.some.inj hc).symm
  | cons d rest => exact h.2 c hc

theorem Gap.before_newline {after : Bool} {w rest : List Char} (h : Gap ls w rest after) (more : List Char) :
    Gap ls w (rest ++ '\n' :: more) after := by
  cases h with
  | blank hc => exact .blank hc
  | lineComment hw => exact .lineComment (hw.before_newline more)
  | directive hw => exact .directive (hw.before_newline more)
  | blockComment hw => exact .blockComment hw

/-- Tiles stay tiles in front of a line break, and so do those that begin a text behind it. -/
theorem Tiled.join {tiles more : List Tile} (h : Tiled ls tiles) (hmore : Tiled true more) :
    Tiled ls (tiles ++ .gap ['\n'] :: more) := by
  have htext (tiles : List Tile) :
      Tile.textOf (tiles ++ .gap ['\n'] :: more) = Tile.textOf tiles ++ '\n' :: Tile.textOf more := by
    simp [Tile.text]
  induction h with
  | @nil ls =>
    have hgap : Gap ls ['\n'] (Tile.textOf more) (ls || '\n' == '\n') := .blank (by decide)
    exact .gap hgap (by simpa using hmore)
  | @token ls k w tiles hcut _ ih =>
    have hplace := htext tiles ▸ takesPlace_newline (Tile.textOf tiles) (Tile.textOf more)
    exact .token (hcut.elsewhere hplace hcut.not_lineStart_of_hash) ih
  | @gap ls after w tiles hgap _ ih => exact .gap (htext tiles ▸ hgap.before_newline (Tile.textOf more)) ih

/-! ## Their tokens -/

namespace Tile

theorem stream_append (offset : Nat) (xs ys : List Tile) :
    stream offset (xs ++ ys) = tokens offset xs ++ stream (offset + byteLength (textOf xs)) ys := by
  simp [stream, tokens_append, Nat.add_assoc]

theorem stream_moved (n offset : Nat) (tiles : List Tile) :
    (stream (n + offset) tiles).map (Token.moved (.back n)) = stream offset tiles := by
  have hstop : n + offset + byteLength (textOf tiles) - n = offset + byteLength (textOf tiles) := by omega
  rw [stream, List.map_append, tokens_moved]
  simp [stream, Token.moved, Span.moved, Move.back, hstop]

theorem le_start_of_mem_stream {tiles : List Tile} {offset : Nat} {t : Token} (h : t ∈ stream offset tiles) :
    offset ≤ t.span.start := by
  rcases List.mem_append.mp h with h | h
  · exact le_start_of_mem_tokens h
  · obtain rfl := List.mem_singleton.mp h
    exact Nat.le_add_right offset _

end Tile

/-- What stands behind a text does not change whether it begins with a byte-order mark. -/
theorem textStart_join (cs more : List Char) :
    textStart (cs ++ '\n' :: more) = ⟨(textStart cs).offset, (textStart cs).rest ++ '\n' :: more⟩ := by
  cases cs with
  | nil => rfl
  | cons c cs =>
    by_cases hc : c = '\ufeff'
    · subst hc
      rfl
    · rw [textStart_eq (by simpa using hc), textStart_eq (by simpa using hc)]

/-- Two texts with a line break between them are read as the tokens of the first one up to its end, and those of the
second one, moved behind the line break. -/
theorem lex_join {first second : String} {ts us : List Token} (hfirst : lex first = .ok ts)
    (hsecond : lex second = .ok us) (hmark : second.toList.head? ≠ some '\ufeff') : ∃ before after,
      ts = before ++ [Token.endOf first.toList] ∧ (∀ t ∈ before, t.kind ≠ .endOfText) ∧
        lex (first ++ "\n" ++ second) = .ok (before ++ after) ∧
          after.map (Token.moved (.back (byteLength first.toList + 1))) = us ∧
            ∀ t ∈ after, byteLength first.toList + 1 ≤ t.span.start := by
  obtain ⟨mark, rest, -, hall, hstart⟩ := exists_textStart first.toList
  obtain ⟨tiles, htiles, ht, rfl⟩ := lex_eq_ok_iff.mp hfirst
  obtain ⟨more, hmore, hm, rfl⟩ := lex_eq_ok_iff.mp hsecond
  have hmore : second.toList = Tile.textOf more := by rw [← hmore, textStart_eq hmark]
  have htiles : rest = Tile.textOf tiles := by rw [← htiles, hstart]
  have hsource : first.toList = mark ++ Tile.textOf tiles := by rw [hall, htiles]
  have hoffset : byteLength first.toList = byteLength mark + byteLength (Tile.textOf tiles) := by
    rw [hsource, Text.byteLength_append]
  have hjoined : textStart (first ++ "\n" ++ second).toList =
      ⟨byteLength mark, Tile.textOf (tiles ++ .gap ['\n'] :: more)⟩ := by
    have htext : (first ++ "\n" ++ second).toList = first.toList ++ '\n' :: second.toList := by simp
    rw [htext, textStart_join, hstart, htiles, hmore]
    simp [Tile.text]
  refine ⟨Tile.tokens (byteLength mark) tiles, Tile.stream (byteLength first.toList + 1) more, ?_,
    fun t h => (ht.covers mark h).1, ?_, ?_, fun t h => Tile.le_start_of_mem_stream h⟩
  · rw [hstart]
    exact Tile.stream_eq_concat hsource
  · refine lex_eq_ok_iff.mpr ⟨_, by rw [hjoined], ht.join hm, ?_⟩
    have hsize : '\n'.utf8Size = 1 := rfl
    rw [hjoined, Tile.stream_append, hoffset]
    simp [Tile.stream, Tile.tokens, Tile.text, Nat.add_assoc, hsize]
  · rw [textStart_eq hmark]
    exact Tile.stream_moved _ 0 more

end TestScaffold
