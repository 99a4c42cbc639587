import TestScaffold.Proofs.Token.Faults
import TestScaffold.Proofs.Token.Range
import TestScaffold.Proofs.Token.Tiles

/-!
# The tokens of a text tile it

Every character of a text belongs to exactly one token or to a gap. Tokens cover their own spelling, they follow one
another in the order of the text, and a gap is a byte-order mark at the front, a blank, a comment or a directive. A
directive begins its line, where closed block comments in front of it do not count.

Results:
* `Cuts.spelled`: a token is spelled as its kind says.
* `trivia_of_tiled`: what the gaps of a text consist of.
* `tiling_of_lex`: the tokens of a text that is read without a fault tile it.
-/

namespace TestScaffold

open Text (byteLength isBlank)

/-! ## What tokens and gaps consist of -/

/-- A span covers the characters `w` of a text. -/
def Span.Covers (s : Span) (source w : List Char) : Prop :=
  ∃ before after, source = before ++ w ++ after ∧ s = ⟨byteLength before, byteLength before + byteLength w⟩

/-- How tokens of a kind are spelled; a literal may hold anything. -/
def TokenKind.Spelled : TokenKind → List Char → Prop
  | keyword k, w => w = k.spelling.toList
  | punctuation p, w => w = p.spelling.toList
  | identifier name, w => w = name.toList ∨ w = '@' :: name.toList
  | literal _, _ => True
  | symbol c, w => w = [c] ∨
    c = '$' ∧ ∃ n, w = List.replicate (n + 1) '$' ∨ w = List.replicate (n + 1) '$' ++ ['@']
  | endOfText, w => w = []

/-- Only blanks. -/
def Blanks (w : List Char) : Prop := ∀ c ∈ w, isBlank c = true

/-- Only blanks, or a closed block comment. -/
def BlanksOrComment (w : List Char) : Prop := Blanks w ∨ ClosedComment w

/-- Whether a line begins behind the tiles `before`, where gaps that are `skipped` may stand in front: at the front of
the text, behind its byte-order mark or behind a line break that stands in no comment. -/
def BeginsLine (skipped : List Char → Prop) (before : List Tile) : Prop :=
  ∃ a b, before = a ++ b ∧ (a = [] ∨ a = [.gap ['\ufeff']] ∨ a.getLast? = some (.gap ['\n'])) ∧
    ∀ t ∈ b, ∃ w, t = .gap w ∧ skipped w

/-- What a gap behind the tiles `before` and in front of `after` may consist of. -/
inductive Trivia (skipped : List Char → Prop) (before : List Tile) : (text after : List Char) → Prop
  | mark {after : List Char} (hb : before = []) : Trivia skipped before ['\ufeff'] after
  | blank {c : Char} {after : List Char} (hc : isBlank c = true) : Trivia skipped before [c] after
  | lineComment {w after : List Char} (hw : EndsLine w after) : Trivia skipped before ('/' :: '/' :: w) after
  | blockComment {w after : List Char} (hw : ClosedComment w) : Trivia skipped before w after
  | directive {w after : List Char} (hw : EndsLine w after) (hb : BeginsLine skipped before) :
    Trivia skipped before ('#' :: w) after

/-- The token that marks the end of a text. -/
def Token.endOf (source : List Char) : Token := ⟨.endOfText, ⟨byteLength source, byteLength source⟩⟩

theorem Tile.stream_eq_concat {source mark : List Char} {tiles : List Tile} (h : source = mark ++ textOf tiles) :
    stream (byteLength mark) tiles = tokens (byteLength mark) tiles ++ [Token.endOf source] := by
  rw [stream, Token.endOf, h, Text.byteLength_append]

/-- The tokens `ts` tile a text up to its end, where gaps that are `skipped` may stand on a line in front of a
directive. -/
structure Tiling (skipped : List Char → Prop) (source : List Char) (ts : List Token) : Prop where
  covers : ∀ t ∈ ts, t.kind ≠ .endOfText ∧ t.span.start < t.span.stop ∧
    ∃ w, t.span.Covers source w ∧ t.kind.Spelled w
  ordered : (ts ++ [Token.endOf source]).Pairwise fun t u => t.span.stop ≤ u.span.start
  gaps : ∃ tiles, Tile.textOf tiles = source ∧ Tile.tokens 0 tiles = ts ∧
    ∀ a w b, tiles = a ++ .gap w :: b → Trivia skipped a w (Tile.textOf b)

/-- A span covers one stretch of a text. -/
theorem Span.Covers.unique {s : Span} {source w w' : List Char} (h : s.Covers source w) (h' : s.Covers source w') :
    w = w' := by
  obtain ⟨before, after, rfl, rfl⟩ := h
  obtain ⟨before', after', hsource, hspan⟩ := h'
  obtain ⟨hstart, hstop⟩ := Span.mk.inj hspan
  have hsize : byteLength w = byteLength w' := by omega
  have hfront := Text.splitAtByte?_append_right before (w ++ after)
  rw [← List.append_assoc, hsource, hstart, List.append_assoc, Text.splitAtByte?_append_right] at hfront
  obtain ⟨-, hback⟩ := Prod.mk.inj (Option.some.inj hfront)
  have hword := Text.splitAtByte?_append_right w after
  rw [← hback, hsize, Text.splitAtByte?_append_right] at hword
  exact (Prod.mk.inj (Option.some.inj hword)).1.symm

/-! ## Spelling -/

theorem TokenKind.spelled_ofWord (name : String) : (ofWord name).Spelled name.toList := by
  unfold ofWord
  cases h : Keyword.ofSpelling? name with
  | none => exact .inl rfl
  | some k => exact congrArg String.toList (Keyword.spelling_of_ofSpelling? h).symm

theorem TokenKind.spelled_ofSign (c : Char) : (ofSign c).Spelled [c] := by
  unfold ofSign
  cases h : Punctuation.ofChar? c with
  | none => exact .inl rfl
  | some p =>
    have hspelling : p.spelling = String.singleton c := Punctuation.spelling_of_ofSpelling? h
    simp [Spelled, hspelling]

variable {ls : Bool} {k : TokenKind} {w rest : List Char}

/-- What is cut off as a token is spelled like one. -/
theorem Cuts.spelled (h : Cuts ls k w rest) : k.Spelled w := by
  cases h with
  | word name => exact TokenKind.spelled_ofWord name
  | verbatimName name => exact .inr rfl
  | number => trivial
  | char => trivial
  | string => trivial
  | arrow => rfl
  | equals => rfl
  | slash => exact .inl rfl
  | hash => exact .inl rfl
  | atSign => exact .inl rfl
  | dollars n => exact .inr ⟨rfl, n, .inl rfl⟩
  | dollarsAt n => exact .inr ⟨rfl, n, .inr rfl⟩
  | sign => exact TokenKind.spelled_ofSign _

/-- No token that is cut off marks the end of the text. -/
theorem Cuts.ne_endOfText (h : Cuts ls k w rest) : k ≠ .endOfText := by
  rintro rfl
  obtain ⟨c, v, rfl, -⟩ := h.read
  exact List.cons_ne_nil c v h.spelled

theorem Cuts.byteLength_pos (h : Cuts ls k w rest) : 0 < byteLength w := by
  obtain ⟨c, v, rfl, -⟩ := h.read
  have hsize := c.utf8Size_pos
  simp only [Text.byteLength_cons]
  omega

/-! ## Where tokens stand -/

/-- A token is read off a tile. The tokens in front of it and behind it are those of the tiles there. -/
theorem Tile.exists_split {tiles : List Tile} {offset : Nat} {xs ys : List Token} {t : Token}
    (h : tokens offset tiles = xs ++ t :: ys) : ∃ a w b, tiles = a ++ .token t.kind w :: b ∧ tokens offset a = xs ∧
      t.span = ⟨offset + byteLength (textOf a), offset + byteLength (textOf a) + byteLength w⟩ ∧
      tokens (offset + byteLength (textOf a) + byteLength w) b = ys := by
  induction tiles generalizing offset xs with
  | nil => simp [tokens] at h
  | cons x tiles ih =>
    cases x with
    | gap v =>
      obtain ⟨a, w, b, rfl, rfl, hspan, hys⟩ := ih h
      exact ⟨.gap v :: a, w, b, rfl, rfl, by simp [hspan, text, Nat.add_assoc],
        by simpa [text, Nat.add_assoc] using hys⟩
    | token k v =>
      cases xs with
      | nil =>
        cases h
        exact ⟨[], v, tiles, rfl, rfl, rfl, rfl⟩
      | cons x xs =>
        obtain ⟨rfl, hmore⟩ := List.cons.inj h
        obtain ⟨a, w, b, rfl, rfl, hspan, hys⟩ := ih hmore
        exact ⟨.token k v :: a, w, b, rfl, rfl, by simp [hspan, text, Nat.add_assoc],
          by simpa [text, Nat.add_assoc] using hys⟩

/-- A token covers the characters of its tile. -/
theorem Tile.exists_of_mem_tokens {tiles : List Tile} {offset : Nat} {t : Token} (h : t ∈ tokens offset tiles) :
    ∃ a w b, tiles = a ++ .token t.kind w :: b ∧
      t.span = ⟨offset + byteLength (textOf a), offset + byteLength (textOf a) + byteLength w⟩ := by
  obtain ⟨xs, ys, hxs⟩ := List.append_of_mem h
  obtain ⟨a, w, b, htiles, -, hspan, -⟩ := exists_split hxs
  exact ⟨a, w, b, htiles, hspan⟩

theorem Tile.le_start_of_mem_tokens {tiles : List Tile} {offset : Nat} {t : Token} (h : t ∈ tokens offset tiles) :
    offset ≤ t.span.start := by
  obtain ⟨a, w, b, -, hspan⟩ := exists_of_mem_tokens h
  simp [hspan]

/-- Tokens follow one another in the order of the text. -/
theorem Tile.pairwise_tokens (offset : Nat) (tiles : List Tile) :
    (tokens offset tiles).Pairwise fun t u => t.span.stop ≤ u.span.start := by
  induction tiles generalizing offset with
  | nil => exact .nil
  | cons x tiles ih =>
    cases x with
    | gap w => exact ih _
    | token k w => exact .cons (fun t ht => le_start_of_mem_tokens ht) (ih _)

theorem Tiled.drop {tiles : List Tile} (h : Tiled ls tiles) : ∀ a b, tiles = a ++ b → ∃ ls', Tiled ls' b := by
  intro a b htiles
  subst htiles
  induction a generalizing ls with
  | nil => exact ⟨ls, h⟩
  | cons x a ih =>
    cases h with
    | token _ hrest => exact ih hrest
    | gap _ hrest => exact ih hrest

/-- A token covers what is cut off as it. -/
theorem Tiled.exists_cuts {tiles : List Tile} (h : Tiled ls tiles) (before : List Char) {t : Token}
    (ht : t ∈ Tile.tokens (byteLength before) tiles) : ∃ ls' w rest,
      t.span.Covers (before ++ Tile.textOf tiles) w ∧ Cuts ls' t.kind w rest := by
  obtain ⟨a, w, b, rfl, hspan⟩ := Tile.exists_of_mem_tokens ht
  obtain ⟨ls', hlater⟩ := h.drop a _ rfl
  cases hlater with
  | token hcut _ =>
    exact ⟨ls', w, _, ⟨before ++ Tile.textOf a, Tile.textOf b, by simp [Tile.text], by simp [hspan]⟩, hcut⟩

/-- A token takes a stretch that is not empty, and it is spelled there as its kind says. -/
theorem Tiled.covers {tiles : List Tile} (h : Tiled ls tiles) (before : List Char) {t : Token}
    (ht : t ∈ Tile.tokens (byteLength before) tiles) : t.kind ≠ .endOfText ∧ t.span.start < t.span.stop ∧
      ∃ w, t.span.Covers (before ++ Tile.textOf tiles) w ∧ t.kind.Spelled w := by
  obtain ⟨ls', w, rest, hcovers, hcut⟩ := h.exists_cuts before ht
  have hpos := hcut.byteLength_pos
  obtain ⟨a, b, hsource, hspan⟩ := id hcovers
  exact ⟨hcut.ne_endOfText, by rw [hspan]; exact Nat.lt_add_of_pos_right hpos, w, hcovers, hcut.spelled⟩

/-- Also the token that marks the end of the text follows the others. -/
theorem Tile.ordered_stream (offset : Nat) (tiles : List Tile) : Token.Ordered (stream offset tiles) := by
  constructor
  · intro t ht
    rcases List.mem_append.mp ht with ht | ht
    · obtain ⟨a, w, b, -, hspan⟩ := exists_of_mem_tokens ht
      simp [hspan]
    · obtain rfl := List.mem_singleton.mp ht
      exact Nat.le_refl _
  · refine List.pairwise_append.mpr ⟨pairwise_tokens offset tiles, List.pairwise_singleton _ _, fun t ht u hu => ?_⟩
    obtain rfl := List.mem_singleton.mp hu
    obtain ⟨a, w, b, rfl, hspan⟩ := exists_of_mem_tokens ht
    simp only [hspan, textOf_append, textOf_cons, text, Text.byteLength_append]
    omega

/-! ## What gaps consist of -/

theorem BeginsLine.append {skipped : List Char → Prop} {before : List Tile} {w : List Char}
    (h : BeginsLine skipped before) (hw : skipped w) : BeginsLine skipped (before ++ [.gap w]) := by
  obtain ⟨a, b, rfl, ha, hb⟩ := h
  refine ⟨a, b ++ [.gap w], List.append_assoc a b _, ha, fun t ht => ?_⟩
  rcases List.mem_append.mp ht with ht | ht
  · exact hb t ht
  · exact ⟨w, List.mem_singleton.mp ht, hw⟩

/-- Where a line begins behind a gap, it began in front of it, or the gap is the line break. -/
theorem Gap.beginsLine {before : List Tile} {after : Bool} (h : Gap ls w rest after)
    (hb : ls = true → BeginsLine BlanksOrComment before) (ha : after = true) :
    BeginsLine BlanksOrComment (before ++ [.gap w]) := by
  cases h with
  | @blank _ c _ hc =>
    by_cases hls : ls = true
    · exact (hb hls).append (.inl (by simpa [Blanks] using hc))
    · obtain rfl : c = '\n' := by simpa [hls] using ha
      exact ⟨before ++ [.gap ['\n']], [], by simp, by simp, by simp⟩
  | lineComment => cases ha
  | directive => cases ha
  | blockComment hw => exact (hb ha).append (.inr hw)

/-- What the gaps of a text consist of. -/
theorem trivia_of_tiled {tiles : List Tile} (h : Tiled ls tiles) (before : List Tile)
    (hb : ls = true → BeginsLine BlanksOrComment before) (a : List Tile) (w : List Char) (b : List Tile)
    (htiles : tiles = a ++ .gap w :: b) : Trivia BlanksOrComment (before ++ a) w (Tile.textOf b) := by
  induction h generalizing before a with
  | nil => simp at htiles
  | @token ls k v tiles _ _ ih =>
    cases a with
    | nil => cases htiles
    | cons x a =>
      cases htiles
      have hmore := ih (before ++ [.token k v]) (fun hls => by cases hls) a rfl
      simpa using hmore
  | @gap ls after v tiles hgap _ ih =>
    cases a with
    | cons x a =>
      cases htiles
      have hmore := ih (before ++ [.gap v]) (hgap.beginsLine hb) a rfl
      simpa using hmore
    | nil =>
      cases htiles
      rw [List.append_nil]
      cases hgap with
      | blank hc => exact .blank hc
      | lineComment hw => exact .lineComment hw
      | directive hw => exact .directive hw (hb rfl)
      | blockComment hw => exact .blockComment hw

/-! ## The tiling -/

/-- The tiles of a text behind its byte-order mark, with the mark as a tile of its own. -/
theorem exists_tiles {mark : List Char} {tiles : List Tile} (hmark : mark = [] ∨ mark = ['\ufeff'])
    (h : Tiled true tiles) : ∃ front : List Tile, Tile.textOf front = mark ∧ Tile.tokens 0 front = [] ∧
      ∀ a w b, front ++ tiles = a ++ .gap w :: b → Trivia BlanksOrComment a w (Tile.textOf b) := by
  rcases hmark with rfl | rfl
  · refine ⟨[], rfl, rfl, fun a w b htiles => ?_⟩
    exact trivia_of_tiled h [] (fun _ => ⟨[], [], rfl, .inl rfl, by simp⟩) a w b htiles
  · refine ⟨[.gap ['\ufeff']], rfl, rfl, fun a w b htiles => ?_⟩
    cases a with
    | nil =>
      cases htiles
      exact .mark rfl
    | cons x a =>
      cases htiles
      exact trivia_of_tiled h [.gap ['\ufeff']] (fun _ => ⟨_, [], rfl, .inr (.inl rfl), by simp⟩) a w b rfl

/-- Only the token at the end of a text takes no characters. -/
theorem start_lt_stop_of_lex {source : String} {ts : List Token} (h : lex source = .ok ts) {t : Token} (ht : t ∈ ts)
    (hend : t.kind ≠ .endOfText) : t.span.start < t.span.stop := by
  obtain ⟨mark, tiles, -, -, hall, rfl⟩ := exists_tiles_of_lex h
  rcases List.mem_append.mp ht with ht | ht
  · exact (hall.covers mark ht).2.1
  · obtain rfl := List.mem_singleton.mp ht
    exact absurd rfl hend

/-- Every other token of a text covers what is cut off as it. -/
theorem exists_cuts_of_lex {source : String} {ts : List Token} (h : lex source = .ok ts) {t : Token} (ht : t ∈ ts)
    (hend : t.kind ≠ .endOfText) : ∃ ls w rest, t.span.Covers source.toList w ∧ Cuts ls t.kind w rest := by
  obtain ⟨mark, tiles, -, hsource, hall, rfl⟩ := exists_tiles_of_lex h
  rcases List.mem_append.mp ht with ht | ht
  · rw [hsource]
    exact hall.exists_cuts mark ht
  · obtain rfl := List.mem_singleton.mp ht
    exact absurd rfl hend

/-- The tokens of a text follow one another. -/
theorem ordered_of_lex {source : String} {ts : List Token} (h : lex source = .ok ts) : Token.Ordered ts := by
  obtain ⟨mark, tiles, -, -, -, rfl⟩ := exists_tiles_of_lex h
  exact Tile.ordered_stream _ tiles

/-- The tokens of a text that is read without a fault tile it, and the last one marks its end. -/
theorem tiling_of_lex {source : String} {ts : List Token} (h : lex source = .ok ts) :
    ∃ us, ts = us ++ [Token.endOf source.toList] ∧ Tiling BlanksOrComment source.toList us := by
  obtain ⟨mark, tiles, hmark, hsource, ht, rfl⟩ := exists_tiles_of_lex h
  obtain ⟨front, rfl, hfront, hgaps⟩ := exists_tiles hmark ht
  have hcovers (t : Token) (h : t ∈ Tile.tokens (byteLength (Tile.textOf front)) tiles) := ht.covers _ h
  rw [← hsource] at hcovers
  have hordered := Tile.ordered_stream (byteLength (Tile.textOf front)) tiles
  have hstream := Tile.stream_eq_concat hsource
  refine ⟨_, hstream, hcovers, hstream ▸ hordered.pairwise, front ++ tiles, by simp [hsource], ?_, hgaps⟩
  rw [Tile.tokens_append, hfront, List.nil_append, Nat.zero_add]

/-- A directive, and a name that is written with a sign in front. -/
theorem tiling_of_lex_sample :
    lex "#if\n@x" = .ok [⟨.identifier "x", ⟨4, 6⟩⟩, ⟨.endOfText, ⟨6, 6⟩⟩] ∧
      ∃ us, [⟨.identifier "x", ⟨4, 6⟩⟩, ⟨.endOfText, ⟨6, 6⟩⟩] = us ++ [Token.endOf "#if\n@x".toList] ∧
        Tiling BlanksOrComment "#if\n@x".toList us := by
  have hname : Tiled true [.token (.identifier "x") ['@', 'x']] :=
    .token (.verbatimName "x" (by decide +kernel) ends_nil) .nil
  have htiled : Tiled true [.gap ['#', 'i', 'f'], .gap ['\n'], .token (.identifier "x") ['@', 'x']] :=
    .gap (.directive ⟨by simp, by simp [Tile.text]⟩) (.gap (.blank (by decide)) hname)
  have hlex := lex_of_tiled htiled (by decide)
  exact ⟨hlex, tiling_of_lex hlex⟩

/-- Where no token is among them, the first tile is a gap. -/
theorem Tile.exists_gap_cons {tiles : List Tile} {offset : Nat} (h : tokens offset tiles = [])
    (hne : textOf tiles ≠ []) : ∃ w more, tiles = .gap w :: more := by
  cases tiles with
  | nil => exact absurd rfl hne
  | cons x more =>
    cases x with
    | token k w => cases h
    | gap w => exact ⟨w, more, rfl⟩

theorem Trivia.eq_comment {skipped : List Char → Prop} {before : List Tile} {w after : List Char}
    (h : Trivia skipped before w after) (htext : w ++ after = ['/', '*', '*', '/', '#', 'x']) :
    w = ['/', '*', '*', '/'] ∧ after = ['#', 'x'] := by
  cases h with
  | mark => cases htext
  | blank hc =>
    cases htext
    cases hc
  | lineComment => cases htext
  | directive => cases htext
  | blockComment hw =>
    obtain ⟨v, hv, rfl⟩ := hw
    have hend : v ++ '*' :: '/' :: after = ['*', '/', '#', 'x'] := by simpa using htext
    rcases v with _ | ⟨c, _ | ⟨d, v⟩⟩
    · cases hend
      exact ⟨rfl, rfl⟩
    · cases hend
    · obtain ⟨rfl, rfl, -⟩ : c = '*' ∧ d = '/' ∧ v ++ '*' :: '/' :: after = ['#', 'x'] := by simpa using hend
      exact absurd ⟨[], v, rfl⟩ hv

theorem not_trivia_directive {w after : List Char} (htext : w ++ after = ['#', 'x']) :
    ¬ Trivia Blanks [.gap ['/', '*', '*', '/']] w after := by
  intro h
  cases h with
  | mark hb => cases hb
  | blank hc =>
    cases htext
    cases hc
  | lineComment => cases htext
  | blockComment hw =>
    obtain ⟨v, -, rfl⟩ := hw
    cases htext
  | directive _ hb =>
    obtain ⟨a, b, hab, ha, hskipped⟩ := hb
    rcases a with _ | ⟨x, _ | ⟨y, a⟩⟩
    · obtain rfl : b = [.gap ['/', '*', '*', '/']] := hab.symm
      obtain ⟨w, hw, hblank⟩ := hskipped _ (List.mem_singleton_self _)
      cases hw
      exact absurd (hblank '/' (by decide)) (by decide)
    · cases hab
      rcases ha with ha | ha | ha <;> cases ha
    · cases hab

/-- A closed block comment does not keep a directive from beginning its line, though it is not blank. -/
theorem not_tiling_directiveBehindComment : ¬ ∀ (source : String) (ts : List Token), lex source = .ok ts →
    ∃ us, ts = us ++ [Token.endOf source.toList] ∧ Tiling Blanks source.toList us := by
  intro hall
  have htiled : Tiled true [.gap ['/', '*', '*', '/'], .gap ['#', 'x']] :=
    .gap (.blockComment ⟨[], by decide, rfl⟩) (.gap (.directive ⟨by simp, by simp⟩) .nil)
  obtain ⟨us, hus, htiling⟩ := hall _ _ (lex_of_tiled htiled (by decide))
  obtain rfl : us = [] := by
    have hlength := congrArg List.length hus
    exact List.eq_nil_of_length_eq_zero (by simpa [Tile.stream, Tile.tokens] using hlength.symm)
  obtain ⟨tiles, htext, htokens, hgaps⟩ := htiling.gaps
  -- Only the comment may be the first gap, and then only the directive the second one.
  have htext : Tile.textOf tiles = ['/', '*', '*', '/', '#', 'x'] := htext
  obtain ⟨w, more, rfl⟩ := Tile.exists_gap_cons htokens (by simp [htext])
  obtain ⟨rfl, hmore⟩ := (hgaps [] w more rfl).eq_comment htext
  have htokens : Tile.tokens (0 + byteLength ['/', '*', '*', '/']) more = [] := htokens
  obtain ⟨v, rest, rfl⟩ := Tile.exists_gap_cons htokens (by simp [hmore])
  exact not_trivia_directive hmore (hgaps [_] v rest rfl)

end TestScaffold
