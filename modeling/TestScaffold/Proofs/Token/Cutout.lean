import TestScaffold.Proofs.Token.Moving
import TestScaffold.Proofs.Token.Range
import TestScaffold.Proofs.Token.Respacing

/-!
# Part of a text on its own

The stretch that neighbouring tokens take is a piece of the text. Where it ends with a mark that ends a declaration,
and does not begin with a sign of no meaning, it is read on its own as the same tokens.

Results:
* `exists_covers_extent`: the stretch of a row of tokens is a piece of the text.
* `Tiled.cut`: tiles stay tiles where the text is cut off behind the end of a declaration.
* `exists_lex_extent`: such a piece is read as the tokens that take it, moved to its beginning.
-/

namespace TestScaffold

open Text (byteLength)
open Token (front back extent)

/-! ## Tiles of a row of tokens -/

namespace Tile

theorem tokens_concat (offset : Nat) (m : List Tile) (k : TokenKind) (w : List Char) :
    tokens offset (m ++ [.token k w]) = tokens offset m ++
      [⟨k, ⟨offset + byteLength (textOf m), offset + byteLength (textOf m) + byteLength w⟩⟩] := by
  rw [tokens_append]
  rfl

/-- A row of tokens is read off a row of tiles, from the tile of its first token to the tile of its last one. -/
theorem exists_infix {tiles : List Tile} {offset : Nat} {before core after : List Token}
    (h : tokens offset tiles = before ++ core ++ after) (hne : core ≠ []) : ∃ a mid b, tiles = a ++ mid ++ b ∧
      tokens (offset + byteLength (textOf a)) mid = core ∧ (∃ w m, mid = .token (front core).kind w :: m) ∧
      ∃ w m, mid = m ++ [.token (back core).kind w] := by
  obtain ⟨init, last, rfl, hback⟩ := Token.exists_concat_back hne
  have hlast : tokens offset tiles = (before ++ init) ++ last :: after := by simpa using h
  obtain ⟨a', w', b, rfl, htokens, hspan, -⟩ := exists_split hlast
  -- The tiles up to the last token are cut once more, in front of the first one.
  obtain ⟨first, more, hcore⟩ : ∃ first more, init ++ [last] = first :: more := List.exists_cons_of_ne_nil hne
  have hall : tokens offset (a' ++ [.token last.kind w']) = before ++ first :: more := by
    rw [← hcore, tokens_concat, htokens, ← hspan, List.append_assoc]
  obtain ⟨a, w, m, hsplit, -, hfirst, hmore⟩ := exists_split hall
  obtain ⟨m', z, hm⟩ : ∃ m' z, Tile.token first.kind w :: m = m' ++ [z] :=
    ⟨_, _, (List.dropLast_concat_getLast (List.cons_ne_nil _ m)).symm⟩
  have hz : .token last.kind w' = z := by
    rw [hm, ← List.append_assoc] at hsplit
    exact List.singleton_inj.mp (List.append_inj_right' hsplit rfl)
  refine ⟨a, .token first.kind w :: m, b, ?_, ?_, ⟨w, m, by rw [hcore, front]⟩, w', m', ?_⟩
  · rw [← hsplit, List.append_assoc, List.singleton_append]
  · rw [hcore, ← hmore]
    obtain ⟨kind, span⟩ := first
    simp only at hfirst
    rw [hfirst, tokens]
  · rw [hback, hz, hm]

/-- Tiles that begin and end with a token take the stretch of their tokens. -/
theorem extent_tokens {mid : List Tile} {k k' : TokenKind} (offset : Nat) (hfirst : ∃ w m, mid = .token k w :: m)
    (hlast : ∃ w m, mid = m ++ [.token k' w]) :
    extent (tokens offset mid) = ⟨offset, offset + byteLength (textOf mid)⟩ := by
  obtain ⟨w, m, hm⟩ := hfirst
  obtain ⟨w', m', hm'⟩ := hlast
  have hfront : (front (tokens offset mid)).span.start = offset := by rw [hm]; rfl
  have hback : (back (tokens offset mid)).span.stop = offset + byteLength (textOf mid) := by
    rw [hm', tokens_concat, Token.back_concat]
    simp [text, Nat.add_assoc]
  rw [extent, hfront, hback]

theorem tokens_moved (n offset : Nat) (tiles : List Tile) :
    (tokens (n + offset) tiles).map (Token.moved (.back n)) = tokens offset tiles := by
  induction tiles generalizing offset with
  | nil => rfl
  | cons x tiles ih =>
    have hmore := ih (offset + byteLength x.text)
    rw [← Nat.add_assoc] at hmore
    cases x with
    | gap w => exact hmore
    | token k w =>
      have hstart : n + offset - n = offset := by omega
      have hstop : n + offset + byteLength w - n = offset + byteLength w := by omega
      have htoken : Token.moved (.back n) ⟨k, ⟨n + offset, n + offset + byteLength w⟩⟩
          = ⟨k, ⟨offset, offset + byteLength w⟩⟩ := by
        simp only [Token.moved, Span.moved, Move.back, hstart, hstop]
      exact congrArg₂ List.cons htoken hmore

end Tile

/-! ## Cutting a text off -/

variable {ls : Bool}

/-- The tiles of a row end with a mark behind which nothing looks. -/
def EndsFresh (tiles : List Tile) : Prop :=
  ∃ m k c, tiles = m ++ [.token k [c]] ∧ c ∈ freshSigns

theorem EndsFresh.tail {x y : Tile} {tiles : List Tile} (h : EndsFresh (x :: y :: tiles)) : EndsFresh (y :: tiles) := by
  obtain ⟨m, k, c, hm, hc⟩ := h
  cases m with
  | nil => cases hm
  | cons z m => exact ⟨m, k, c, (List.cons.inj hm).2, hc⟩

/-- The text in front of a mark that ends a row looks the same whether anything stands behind the mark or not. -/
theorem EndsFresh.takesPlace {tiles : List Tile} (h : EndsFresh tiles) (more : List Tile) :
    TakesPlace (Tile.textOf (tiles ++ more)) (Tile.textOf tiles) := by
  obtain ⟨m, k, c, rfl, hc⟩ := h
  have htext : Tile.textOf (m ++ [.token k [c]]) = Tile.textOf m ++ [c] := by simp [Tile.text]
  rw [Tile.textOf_append (m ++ _), htext]
  cases Tile.textOf m with
  | nil =>
    refine .fresh fun d hd => ?_
    obtain rfl : c = d := by simpa using hd
    exact hc
  | cons d ds =>
    have hlength : 2 ≤ (d :: ds ++ [c]).length := by simp
    exact .alike (List.take_append_of_le_length hlength).symm

theorem EndsFresh.head?_eq {tiles : List Tile} (h : EndsFresh tiles) (more : List Tile) :
    (Tile.textOf tiles).head? = (Tile.textOf (tiles ++ more)).head? := by
  obtain ⟨m, k, c, rfl, -⟩ := h
  cases hm : Tile.textOf m <;> simp [Tile.text, hm]

theorem Cuts.not_lineStart_of_hash {k : TokenKind} {w rest : List Char} (h : Cuts ls k w rest)
    (hk : k = .symbol '#') : ls = false := by
  cases ls with
  | false => rfl
  | true => exact absurd (hk ▸ h) (not_cuts_hash w rest)

theorem Gap.in_front_of {after : Bool} {w rest rest' : List Char} (h : Gap ls w rest after)
    (hr : rest'.head? = rest.head?) : Gap ls w rest' after := by
  cases h with
  | blank hc => exact .blank hc
  | lineComment hw => exact .lineComment ⟨hw.1, hr ▸ hw.2⟩
  | directive hw => exact .directive ⟨hw.1, hr ▸ hw.2⟩
  | blockComment hw => exact .blockComment hw

/-- Tiles stay tiles where the text is cut off behind the end of a declaration. -/
theorem Tiled.cut {tiles more : List Tile} (h : Tiled ls (tiles ++ more)) (he : EndsFresh tiles) : Tiled ls tiles := by
  induction tiles generalizing ls with
  | nil => exact .nil
  | cons x tiles ih =>
    cases tiles with
    | nil =>
      cases h with
      | token hcut _ => exact .token (hcut.elsewhere (.fresh (by simp [Fresh])) hcut.not_lineStart_of_hash) .nil
      | gap _ _ =>
        obtain ⟨m, k, c, hm, -⟩ := he
        rcases m with _ | ⟨y, _ | ⟨z, m⟩⟩ <;> cases hm
    | cons y tiles =>
      have hend := he.tail
      cases h with
      | token hcut hrest =>
        exact .token (hcut.elsewhere (hend.takesPlace more) hcut.not_lineStart_of_hash) (ih hrest hend)
      | gap hgap hrest => exact .gap (hgap.in_front_of (hend.head?_eq more)) (ih hrest hend)

/-- Only a byte-order mark that is read as a sign of no meaning begins with one. -/
theorem Cuts.eq_symbol_of_mark {k : TokenKind} {w rest : List Char} (h : Cuts ls k ('\ufeff' :: w) rest) :
    k = .symbol '\ufeff' := by
  obtain ⟨c, v, hw, -, hread⟩ := h.read
  cases hw
  obtain ⟨stop, hstop⟩ := hread 0
  rw [read_sign (by decide) (by decide +kernel) (by decide)] at hstop
  have hkind : TokenKind.ofSign '\ufeff' = .symbol '\ufeff' := by decide
  rw [hkind] at hstop
  exact (Reading.token.inj (congrArg Lexeme.reading hstop)).symm

/-! ## Reading a piece of a text -/

/-- Where the tokens of a text are told apart from the one at its end, so are those behind a row of them. -/
theorem exists_append_endOf {source : List Char} {ts us before core after : List Token}
    (hts : ts = us ++ [Token.endOf source]) (hcore : ts = before ++ core ++ after) (hne : core ≠ [])
    (hend : ∀ t ∈ core, t.kind ≠ .endOfText) : ∃ more, us = before ++ core ++ more := by
  rcases List.eq_nil_or_concat after with rfl | ⟨more, t, rfl⟩
  · obtain ⟨init, last, rfl, -⟩ := Token.exists_concat_back hne
    rw [List.append_nil, hts, ← List.append_assoc] at hcore
    have hlast : Token.endOf source = last := List.singleton_inj.mp (List.append_inj_right' hcore rfl)
    exact absurd (by rw [← hlast]; rfl) (hend last (List.mem_append_right init (List.mem_singleton_self last)))
  · rw [hts, List.concat_eq_append, ← List.append_assoc] at hcore
    exact ⟨more, List.append_inj_left' hcore rfl⟩

variable {source : String} {ts before core after : List Token}

/-- The tiles of a row of tokens of a text, and the stretch they take. -/
theorem exists_tiles_of_row (h : lex source = .ok ts) (hts : ts = before ++ core ++ after) (hne : core ≠ [])
    (hend : ∀ t ∈ core, t.kind ≠ .endOfText) : ∃ ls mid more, Tiled ls (mid ++ more) ∧
      (extent core).Covers source.toList (Tile.textOf mid) ∧ core.map (Token.moved (.back (extent core).start)) =
        Tile.tokens 0 mid ∧ (∃ w m, mid = .token (front core).kind w :: m) ∧
      ∃ w m, mid = m ++ [.token (back core).kind w] := by
  obtain ⟨mark, tiles, -, hsource, ht, hstream⟩ := exists_tiles_of_lex h
  have hall := hstream.trans (Tile.stream_eq_concat hsource)
  obtain ⟨after', hus⟩ := exists_append_endOf hall hts hne hend
  obtain ⟨a, mid, b, rfl, rfl, hfirst, hlast⟩ := Tile.exists_infix hus hne
  obtain ⟨ls, hlater⟩ := ht.drop a (mid ++ b) (List.append_assoc a mid b)
  have hextent := Tile.extent_tokens (byteLength mark + byteLength (Tile.textOf a)) hfirst hlast
  refine ⟨ls, mid, b, hlater, ⟨mark ++ Tile.textOf a, Tile.textOf b, by simp [hsource], by simp [hextent]⟩, ?_,
    hfirst, hlast⟩
  rw [hextent]
  exact Tile.tokens_moved _ 0 mid

/-- The stretch that neighbouring tokens take is a piece of the text. -/
theorem exists_covers_extent (h : lex source = .ok ts) (hts : ts = before ++ core ++ after) (hne : core ≠ [])
    (hend : ∀ t ∈ core, t.kind ≠ .endOfText) : ∃ w, (extent core).Covers source.toList w := by
  obtain ⟨ls, mid, more, -, hcovers, -⟩ := exists_tiles_of_row h hts hne hend
  exact ⟨_, hcovers⟩

/-- The marks that end a declaration. -/
def Punctuation.endsDeclaration (p : Punctuation) : Prop := p ∈ [.semicolon, .rightBracket, .rightBrace]

/-- The piece of a text that some tokens take is read as these tokens, moved to its beginning, where they begin with a
word and end with a mark that ends a declaration. -/
theorem exists_lex_extent (h : lex source = .ok ts) (hts : ts = before ++ core ++ after) (hne : core ≠ [])
    (hend : ∀ t ∈ core, t.kind ≠ .endOfText) (hfirst : ∀ c, (front core).kind ≠ .symbol c)
    {p : Punctuation} (hlast : (back core).kind = .punctuation p) (hp : p.endsDeclaration) :
    ∃ w, (extent core).Covers source.toList w ∧ lex (String.ofList w) =
      .ok (core.map (Token.moved (.back (extent core).start)) ++ [Token.endOf w]) := by
  obtain ⟨ls, mid, more, hlater, hcovers, htokens, ⟨w, m, hm⟩, w', m', hm'⟩ := exists_tiles_of_row h hts hne hend
  have hfresh : EndsFresh mid := by
    rw [hm', List.append_assoc] at hlater
    obtain ⟨ls', hback⟩ := hlater.drop m' _ rfl
    cases hback with
    | token hcut _ =>
      have hspelled := hcut.spelled
      rw [hlast] at hspelled
      obtain ⟨c, hc, hw'⟩ : ∃ c, c ∈ freshSigns ∧ p.spelling.toList = [c] := by
        unfold Punctuation.endsDeclaration at hp
        simp only [List.mem_cons, List.not_mem_nil, or_false] at hp
        rcases hp with rfl | rfl | rfl <;> exact ⟨_, by decide, rfl⟩
      exact ⟨m', (back core).kind, c, by rw [hm', ← hw', ← hspelled], hc⟩
  obtain ⟨hmid, v, d, htext⟩ : Tiled true mid ∧ ∃ v d, Tile.textOf mid = d :: v ∧ d ≠ '\ufeff' := by
    have hcut := hlater.cut hfresh
    rw [hm] at hcut ⊢
    cases hcut with
    | token hcut hrest =>
      obtain ⟨d, v, rfl, -⟩ := hcut.read
      have hbegins : Cuts true _ (d :: v) _ := hcut.elsewhere (.alike rfl) fun hk => absurd hk (hfirst '#')
      refine ⟨.token hbegins hrest, v ++ Tile.textOf m, d, rfl, ?_⟩
      rintro rfl
      exact hfirst _ hcut.eq_symbol_of_mark
  refine ⟨_, hcovers, ?_⟩
  rw [lex_of_tiled hmid (by simpa [htext.1] using htext.2), htokens]
  simp [Tile.stream, Token.endOf]

end TestScaffold
