import Mathlib.Data.List.Forall2
import TestScaffold.Proofs.Token.Tiling

/-!
# Only the tokens of a text matter

The spellings of the tokens of a text may be set apart anew, by a space and then any spaces and closed block comments
in front of each. The new text is read as the same tokens, so what stands between tokens never changes what is read.

Results:
* `Tiled.head_ne_hash`: the first token of a text is never a `#`.
* `tiled_respaced`: the spellings of a text that is laid out in tiles, set apart anew, are laid out in tiles.
* `lex_respaced`: a text that is set apart anew is read as tokens of the same kinds.
-/

namespace TestScaffold

open Text (byteLength)

/-- What is put in front of a token: a space, and then spaces and closed block comments in any order. -/
structure Separator where
  pieces : List (List Char)
  closed : ∀ p ∈ pieces, p = [' '] ∨ ClosedComment p

/-- The gaps a separator consists of. -/
def Separator.gaps (s : Separator) : List Tile := .gap [' '] :: s.pieces.map .gap

/-- The spellings of the tokens among some tiles. -/
def Tile.spellings : List Tile → List (List Char)
  | [] => []
  | token _ w :: tiles => w :: spellings tiles
  | gap _ :: tiles => spellings tiles

/-- Tokens set apart anew, each one behind a separator of its own and with its own spelling. -/
def respaced : List Separator → List Token → List (List Char) → List Tile
  | s :: seps, t :: ts, w :: ws => s.gaps ++ .token t.kind w :: respaced seps ts ws
  | _, _, _ => []

/-! ## Tokens and their spellings -/

/-- Every token covers its own spelling. -/
theorem Tile.forall₂_covers (before : List Char) (tiles : List Tile) :
    List.Forall₂ (fun t w => t.span.Covers (before ++ textOf tiles) w) (tokens (byteLength before) tiles)
      (spellings tiles) := by
  induction tiles generalizing before with
  | nil => exact .nil
  | cons x tiles ih =>
    have hmore := ih (before ++ x.text)
    rw [Text.byteLength_append, List.append_assoc, ← textOf_cons] at hmore
    cases x with
    | gap w => exact hmore
    | token k w => exact .cons ⟨before, textOf tiles, by simp [text], rfl⟩ hmore

theorem Tile.length_spellings (offset : Nat) (tiles : List Tile) :
    (spellings tiles).length = (tokens offset tiles).length := by
  induction tiles generalizing offset with
  | nil => rfl
  | cons x tiles ih =>
    have hmore := ih (offset + byteLength x.text)
    cases x with
    | gap w => exact hmore
    | token k w => exact congrArg Nat.succ hmore

theorem Separator.tokens_gaps_append (s : Separator) (offset : Nat) (tiles : List Tile) :
    Tile.tokens offset (s.gaps ++ tiles) = Tile.tokens (offset + byteLength (Tile.textOf s.gaps)) tiles := by
  have hgaps (ps : List (List Char)) (offset : Nat) : Tile.tokens offset (ps.map .gap) = [] := by
    induction ps generalizing offset with
    | nil => rfl
    | cons p ps ih => exact ih (offset + byteLength p)
  rw [Tile.tokens_append, gaps, ← List.map_cons, hgaps, List.nil_append]

theorem Separator.spellings_gaps_append (s : Separator) (tiles : List Tile) :
    Tile.spellings (s.gaps ++ tiles) = Tile.spellings tiles := by
  have hgaps (ps : List (List Char)) : Tile.spellings (ps.map .gap ++ tiles) = Tile.spellings tiles := by
    induction ps with
    | nil => rfl
    | cons p ps ih => exact ih
  exact hgaps ([' '] :: s.pieces)

/-- What is set apart anew holds the tokens and the spellings it was made of. -/
theorem tokens_respaced {seps : List Separator} {ts : List Token} {ws : List (List Char)}
    (hs : seps.length = ts.length) (hw : ws.length = ts.length) (offset : Nat) :
    (Tile.tokens offset (respaced seps ts ws)).map Token.kind = ts.map Token.kind ∧
      Tile.spellings (respaced seps ts ws) = ws := by
  induction ts generalizing seps ws offset with
  | nil =>
    obtain rfl := List.eq_nil_of_length_eq_zero hs
    obtain rfl := List.eq_nil_of_length_eq_zero hw
    exact ⟨rfl, rfl⟩
  | cons t ts ih =>
    obtain ⟨s, seps, rfl⟩ := List.exists_cons_of_length_eq_add_one hs
    obtain ⟨w, ws, rfl⟩ := List.exists_cons_of_length_eq_add_one hw
    obtain ⟨hkinds, hspellings⟩ := ih (Nat.succ.inj hs) (Nat.succ.inj hw)
      (offset + byteLength (Tile.textOf s.gaps) + byteLength w)
    rw [respaced, s.tokens_gaps_append, s.spellings_gaps_append]
    simp [Tile.tokens, Tile.spellings, hkinds, hspellings]

/-! ## What is set apart anew is laid out in tiles -/

variable {ls : Bool}

/-- Where a line begins, a `#` begins a directive. -/
theorem not_cuts_hash (w rest : List Char) : ¬ Cuts true (.symbol '#') w rest := by
  intro h
  obtain ⟨c, v, rfl, -, hread⟩ := h.read
  obtain ⟨stop, hstop⟩ := hread 0
  rcases h.spelled with hw | ⟨hc, -⟩
  · cases hw
    cases hstop
  · cases hc

/-- Where no token stands in front, a line is beginning, or the line has been passed to its end. -/
theorem Tiled.head_ne_hash {tiles : List Tile} (h : Tiled ls tiles)
    (hl : ls = true ∨ ∀ c ∈ (Tile.textOf tiles).head?, c = '\n') (offset : Nat) :
    ∀ t ∈ (Tile.tokens offset tiles).head?, t.kind ≠ .symbol '#' := by
  induction h generalizing offset with
  | nil => simp [Tile.tokens]
  | @token ls k w tiles hcut _ _ =>
    rintro t ⟨⟩ rfl
    rcases hl with rfl | hl
    · exact not_cuts_hash w _ hcut
    · obtain ⟨c, v, rfl, hblank, -⟩ := hcut.read
      obtain rfl : c = '\n' := hl c rfl
      cases hblank
  | @gap ls after w tiles hgap _ ih =>
    refine ih ?_ (offset + byteLength w)
    cases hgap with
    | @blank _ c _ hc =>
      rcases hl with rfl | hl
      · exact .inl rfl
      · obtain rfl : c = '\n' := hl c rfl
        exact .inl (by simp)
    | lineComment hw => exact .inr hw.2
    | directive hw => exact .inr hw.2
    | blockComment hw =>
      rcases hl with rfl | hl
      · exact .inl rfl
      · obtain ⟨v, -, rfl⟩ := hw
        cases hl '/' rfl

theorem Separator.tiled_append (s : Separator) {tiles : List Tile} (h : Tiled ls tiles) :
    Tiled ls (s.gaps ++ tiles) := by
  have hpieces (ps : List (List Char)) (hps : ∀ p ∈ ps, p = [' '] ∨ ClosedComment p) :
      Tiled ls (ps.map .gap ++ tiles) := by
    induction ps with
    | nil => exact h
    | cons p ps ih =>
      have hmore := ih fun q hq => hps q (List.mem_cons_of_mem p hq)
      rcases hps p List.mem_cons_self with rfl | hp
      · have hblank : Gap ls [' '] (Tile.textOf (ps.map .gap ++ tiles)) (ls || ' ' == '\n') := .blank (by decide)
        rw [show (' ' == '\n') = false from rfl, Bool.or_false] at hblank
        exact .gap hblank hmore
      · exact .gap (.blockComment hp) hmore
  have hall : ∀ p ∈ [' '] :: s.pieces, p = [' '] ∨ ClosedComment p := by
    simpa using s.closed
  exact hpieces ([' '] :: s.pieces) hall

/-- Behind a token that is set apart anew comes a space, or nothing. -/
theorem head?_textOf_respaced (seps : List Separator) (ts : List Token) (ws : List (List Char)) :
    ∀ c ∈ (Tile.textOf (respaced seps ts ws)).head?, c = ' ' := by
  unfold respaced
  split
  · simp [Separator.gaps, Tile.text, eq_comm]
  · simp

/-- The spellings of a text that is laid out in tiles are laid out in tiles again when they are set apart anew. -/
theorem tiled_respaced {tiles : List Tile} (h : Tiled ls tiles) {ls' : Bool} {offset : Nat} (seps : List Separator)
    (hl : ls' = true → ∀ t ∈ (Tile.tokens offset tiles).head?, t.kind ≠ .symbol '#') :
    Tiled ls' (respaced seps (Tile.tokens offset tiles) (Tile.spellings tiles)) := by
  induction h generalizing ls' offset seps with
  | nil =>
    have hnil : respaced seps (Tile.tokens offset []) (Tile.spellings []) = [] := by cases seps <;> rfl
    rw [hnil]
    exact .nil
  | @token ls k w tiles hcut _ ih =>
    cases seps with
    | nil => exact .nil
    | cons s seps =>
      refine s.tiled_append (.token (hcut.elsewhere (.fresh ?_) ?_) (ih seps (by simp)))
      · intro c hc
        obtain rfl := head?_textOf_respaced _ _ _ c hc
        decide
      · rintro rfl
        cases ls' with
        | false => rfl
        | true => exact absurd rfl (hl rfl _ rfl)
  | gap _ _ ih => exact ih seps hl

/-- The spellings of the tokens of a text, set apart anew, are read as tokens of the same kinds. -/
theorem lex_respaced {source : String} {ts : List Token} (h : lex source = .ok ts) :
    ∃ us ws, ts = us ++ [Token.endOf source.toList] ∧ List.Forall₂ (fun t w => t.span.Covers source.toList w) us ws ∧
      ∀ seps : List Separator, seps.length = us.length →
        lex (String.ofList (Tile.textOf (respaced seps us ws))) = .ok (Tile.stream 0 (respaced seps us ws)) ∧
        (Tile.tokens 0 (respaced seps us ws)).map Token.kind = us.map Token.kind ∧
        List.Forall₂ (fun t w => t.span.Covers (Tile.textOf (respaced seps us ws)) w)
          (Tile.tokens 0 (respaced seps us ws)) ws := by
  obtain ⟨mark, tiles, -, hsource, ht, rfl⟩ := exists_tiles_of_lex h
  refine ⟨Tile.tokens (byteLength mark) tiles, Tile.spellings tiles, Tile.stream_eq_concat hsource, ?_, ?_⟩
  · rw [hsource]
    exact Tile.forall₂_covers mark tiles
  · intro seps hseps
    have htiled := @tiled_respaced true tiles ht true (byteLength mark) seps fun _ =>
      ht.head_ne_hash (.inl rfl) (byteLength mark)
    obtain ⟨hkinds, hspellings⟩ := tokens_respaced hseps (Tile.length_spellings _ tiles) 0
    have hcovers := Tile.forall₂_covers [] (respaced seps (Tile.tokens (byteLength mark) tiles) (Tile.spellings tiles))
    rw [hspellings] at hcovers
    refine ⟨lex_of_tiled htiled fun hmark => ?_, hkinds, hcovers⟩
    cases head?_textOf_respaced _ _ _ _ hmark

/-- A sign that would begin a directive on a line of its own, and one that could go on as an arrow. -/
theorem lex_respaced_sample :
    lex "@a=#" = .ok [⟨.identifier "a", ⟨0, 2⟩⟩, ⟨.punctuation .equals, ⟨2, 3⟩⟩, ⟨.symbol '#', ⟨3, 4⟩⟩,
      ⟨.endOfText, ⟨4, 4⟩⟩] ∧
    ∃ us ws,
      [⟨.identifier "a", ⟨0, 2⟩⟩, ⟨.punctuation .equals, ⟨2, 3⟩⟩, ⟨.symbol '#', ⟨3, 4⟩⟩, ⟨.endOfText, ⟨4, 4⟩⟩] =
        us ++ [Token.endOf "@a=#".toList] ∧
      List.Forall₂ (fun t w => t.span.Covers "@a=#".toList w) us ws ∧
      ∀ seps : List Separator, seps.length = us.length →
        lex (String.ofList (Tile.textOf (respaced seps us ws))) = .ok (Tile.stream 0 (respaced seps us ws)) ∧
        (Tile.tokens 0 (respaced seps us ws)).map Token.kind = us.map Token.kind ∧
        List.Forall₂ (fun t w => t.span.Covers (Tile.textOf (respaced seps us ws)) w)
          (Tile.tokens 0 (respaced seps us ws)) ws := by
  have hsigns : Tiled false [.token (.punctuation .equals) ['='], .token (.symbol '#') ['#']] :=
    .token (.equals (by decide)) (.token .hash .nil)
  have htiled : Tiled true
      [.token (.identifier "a") ['@', 'a'], .token (.punctuation .equals) ['='], .token (.symbol '#') ['#']] :=
    .token (.verbatimName "a" (by decide +kernel) (ends_cons (by decide +kernel) _)) hsigns
  have hlex := lex_of_tiled htiled (by decide)
  exact ⟨hlex, lex_respaced hlex⟩

end TestScaffold
