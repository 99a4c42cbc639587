import TestScaffold.Diagnostic
import TestScaffold.Token.Lexer

/-!
# Where lexical faults are reported

Tokens and lexical faults are put at stretches of their text that begin and end between two characters. A fault in a
literal is put at the innermost open literal, which may have begun inside a hole of another one.

Results:
* `Span.Fits`: stretches of a text that begin and end between two of its characters.
* `Diagnostic.exists_render?`: a report at such a stretch can be shown with its line.
* `Literal.fits_of_scan`: reports on open literals, however deep these stand in one another.
* `fits_of_lex`, `fits_of_lex_error`: the tokens of a text, and its lexical faults.
-/

namespace TestScaffold

open Text (Cursor byteLength splitAtByte?)

/-! ## Places -/

/-- Whether the byte offset `n` stands between two characters of a text, or at one of its ends. -/
def Text.IsPlace (source : List Char) (n : Nat) : Prop :=
  ∃ before after, source = before ++ after ∧ n = byteLength before

/-- A stretch of a text, which does not cut its characters. -/
structure Span.Fits (source : List Char) (s : Span) : Prop where
  start_le_stop : s.start ≤ s.stop
  stop_le : s.stop ≤ byteLength source
  start_place : Text.IsPlace source s.start
  stop_place : Text.IsPlace source s.stop

open Text (IsPlace)

theorem Text.IsPlace.le {source : List Char} {n : Nat} (h : IsPlace source n) : n ≤ byteLength source := by
  obtain ⟨before, after, rfl, rfl⟩ := h
  rw [Text.byteLength_append]
  exact Nat.le_add_right _ _

theorem Span.fits {source : List Char} {start stop : Nat} (hstart : IsPlace source start) (hstop : IsPlace source stop)
    (hle : start ≤ stop) : Fits source ⟨start, stop⟩ := ⟨hle, hstop.le, hstart, hstop⟩

theorem Span.fits_zero (source : List Char) : Fits source .zero :=
  Span.fits ⟨[], source, rfl, rfl⟩ ⟨[], source, rfl, rfl⟩ (Nat.le_refl 0)

theorem Span.Fits.merge {source : List Char} {a b : Span} (ha : a.Fits source) (hb : b.Fits source) :
    (a.merge b).Fits source := by
  refine Span.fits ?_ ?_ ?_
  · rcases Nat.le_total a.start b.start with h | h
    · rw [Nat.min_eq_left h]
      exact ha.start_place
    · rw [Nat.min_eq_right h]
      exact hb.start_place
  · rcases Nat.le_total a.stop b.stop with h | h
    · rw [Nat.max_eq_right h]
      exact hb.stop_place
    · rw [Nat.max_eq_left h]
      exact ha.stop_place
  · have := ha.start_le_stop
    have := hb.start_le_stop
    omega

/-! ## Showing a report -/

/-- A text can be cut at each of its places. -/
theorem Text.splitAtByte?_append_right (before after : List Char) :
    splitAtByte? (byteLength before) (before ++ after) = some (before, after) := by
  induction before with
  | nil => cases after <;> rfl
  | cons c before ih =>
    have hpos := c.utf8Size_pos
    obtain ⟨n, hn⟩ : ∃ n, c.utf8Size + byteLength before = n + 1 :=
      ⟨c.utf8Size + byteLength before - 1, by omega⟩
    rw [byteLength_cons, hn, List.cons_append, splitAtByte?, if_pos (by omega)]
    rw [show n + 1 - c.utf8Size = byteLength before by omega, ih]
    rfl

/-- A report that fits its text can be shown with the line it is about. -/
theorem Diagnostic.exists_render? {d : Diagnostic} {source : String} (h : d.span.Fits source.toList) (file : String) :
    ∃ text, d.render? file source = some text := by
  obtain ⟨before, after, hsource, hstart⟩ := h.start_place
  have hcut : splitAtByte? d.span.start source.toList = some (before, after) := by
    rw [hstart, hsource, Text.splitAtByte?_append_right]
  simp [Diagnostic.render?, Excerpt.at?, hcut]

/-! ## Lexemes -/

/-- Whether a cursor stands in a text. -/
def Text.Cursor.StandsIn (source : List Char) (c : Cursor) : Prop := ∃ before, Cursor.Reads ⟨0, source⟩ c before

namespace Text.Cursor.StandsIn

variable {source : List Char} {a b : Cursor} {r : List Char}

theorem reads (h : a.StandsIn source) (hr : Cursor.Reads a b r) : b.StandsIn source :=
  let ⟨_, hbefore⟩ := h
  ⟨_, hbefore.trans hr⟩

theorem cons {offset : Nat} {c : Char} {cs : List Char} (h : StandsIn source ⟨offset, c :: cs⟩) :
    StandsIn source ⟨offset + c.utf8Size, cs⟩ := h.reads (Cursor.Reads.refl _).cons

theorem isPlace (h : a.StandsIn source) : IsPlace source a.offset := by
  obtain ⟨before, hrest, hoffset⟩ := h
  exact ⟨before, a.rest, hrest, by simpa using hoffset⟩

end Text.Cursor.StandsIn

namespace Literal

/-- A frame that is put on the stack starts where the frame below it does, or at the character that is read. -/
theorem Frame.start_of_step {f g : Frame} {offset : Nat} {c : Char} {next : List Char} {gs : List Frame}
    (h : f.step offset c next = some gs) (hg : g ∈ gs) : g.start = f.start ∨ g.start = offset := by
  -- Every frame that a step yields is built from one of the two offsets.
  unfold step stepText stepHole stepChar ofQuote at h
  grind

/-- Where every open literal starts at a place of the text, so does the report on the innermost one. -/
theorem fits_of_scan {source : List Char} {fs : List Frame} {offset : Nat} {cs : List Char} {d : Diagnostic}
    {next : Cursor} (hat : Cursor.StandsIn source ⟨offset, cs⟩)
    (hfs : ∀ f ∈ fs, IsPlace source f.start ∧ f.start ≤ offset) (h : scan fs offset cs = .broken d next) :
    d.span.Fits source := by
  induction cs generalizing fs offset with
  | nil =>
    cases fs with
    | nil => cases h
    | cons f fs =>
      cases h
      obtain ⟨hstart, hle⟩ := hfs f List.mem_cons_self
      exact Span.fits hstart hat.isPlace hle
  | cons c cs ih =>
    cases fs with
    | nil => cases h
    | cons f fs =>
      obtain ⟨hstart, hle⟩ := hfs f List.mem_cons_self
      have hafter : offset ≤ offset + c.utf8Size := Nat.le_add_right _ _
      unfold scan at h
      simp only at h
      split at h
      · next gs hstep =>
        refine ih hat.cons (fun g hg => ?_) h
        rcases List.mem_append.mp hg with hg | hg
        · rcases f.start_of_step hstep hg with heq | heq
          · rw [heq]
            exact ⟨hstart, Nat.le_trans hle hafter⟩
          · rw [heq]
            exact ⟨hat.isPlace, hafter⟩
        · obtain ⟨hplace, hbound⟩ := hfs g (List.mem_cons_of_mem f hg)
          exact ⟨hplace, Nat.le_trans hbound hafter⟩
      · cases h
        exact Span.fits hstart hat.cons.isPlace (Nat.le_trans hle hafter)

end Literal

namespace Lexeme

variable {source : List Char} {ls : Bool} {start offset : Nat} {c : Char} {cs : List Char} {d : Diagnostic}

theorem fits_of_literal {kind : LiteralKind} {mode : Literal.Mode} (hat : Cursor.StandsIn source ⟨offset, cs⟩)
    (hstart : IsPlace source start) (hle : start ≤ offset)
    (h : (literal kind start mode offset cs).reading = .problem d) : d.span.Fits source := by
  unfold literal at h
  split at h
  · cases h
  · next problem next hscan =>
    cases h
    exact Literal.fits_of_scan hat (by simpa using ⟨hstart, hle⟩) hscan

/-- A report on a lexeme fits the text. -/
theorem fits_of_read (hat : Cursor.StandsIn source ⟨start, c :: cs⟩)
    (h : (read ls start c cs).reading = .problem d) : d.span.Fits source := by
  have hplace : IsPlace source start := hat.isPlace
  unfold read at h
  split at h
  · split at h <;> cases h
  · unfold fromSlash at h
    split at h
    · cases h
    · next rest =>
      unfold blockComment at h
      split at h
      · cases h
      · cases h
        have hsigns : Cursor.StandsIn source ⟨start + 2, rest⟩ := hat.cons.cons
        exact Span.fits hplace hsigns.isPlace (Nat.le_add_right _ _)
    · cases h
  · exact fits_of_literal hat hplace (Nat.le_refl _) h
  · exact fits_of_literal hat.cons hplace (Nat.le_succ _) h
  · unfold fromAt at h
    split at h
    · exact fits_of_literal hat.cons hplace (Nat.le_succ _) h
    · next rest =>
      have hsigns : Cursor.StandsIn source ⟨start + 2, '"' :: rest⟩ := hat.cons.cons
      exact fits_of_literal hsigns hplace (Nat.le_add_right _ _) h
    · split at h <;> cases h
    · cases h
  · have hsigns := hat.cons.reads (Cursor.reads_skipWhile (· == '$') (start + 1) cs)
    have hle : start ≤ (Cursor.skipWhile (· == '$') (start + 1) cs).offset := by
      simp only [Cursor.skipWhile]
      omega
    unfold fromDollar at h
    simp only at h
    generalize Cursor.skipWhile (· == '$') (start + 1) cs = signs at h hsigns hle
    obtain ⟨offset, rest⟩ := signs
    simp only at h hle
    split at h
    · exact fits_of_literal hsigns hplace hle h
    · exact fits_of_literal hsigns.cons hplace (Nat.le_succ_of_le hle) h
    · cases h
    · cases h
  · unfold fromEquals at h
    split at h <;> cases h
  · simp only at h
    split at h
    · cases h
    · split at h <;> cases h

end Lexeme

/-! ## The whole text -/

/-- Whether everything that has been read of a text fits it. -/
structure Lexing.Fits (source : List Char) (l : Lexing) : Prop where
  tokens : ∀ t ∈ l.tokens.toList, t.span.Fits source
  problems : ∀ d ∈ l.problems.toList, d.span.Fits source

namespace Lexing.Fits

variable {source : List Char}

/-- A lexeme is put where it stands. -/
theorem add {l : Lexing} (h : l.Fits source) {ls : Bool} {start : Nat} {c : Char} {cs : List Char}
    (hat : Cursor.StandsIn source ⟨start, c :: cs⟩) : (l.add start (Lexeme.read ls start c cs)).Fits source := by
  obtain ⟨r, hr⟩ := Lexeme.reads_read ls start c cs
  unfold Lexing.add
  split
  · exact h
  · refine ⟨fun t ht => ?_, h.problems⟩
    rcases List.mem_append.mp (Array.toList_push ▸ ht) with ht | ht
    · exact h.tokens t ht
    · rw [List.mem_singleton.mp ht]
      exact Span.fits hat.isPlace (hat.reads hr).isPlace (by simp [hr.offset_eq])
  · next d hd =>
    refine ⟨h.tokens, fun e he => ?_⟩
    rcases List.mem_append.mp (Array.toList_push ▸ he) with he | he
    · exact h.problems e he
    · rw [List.mem_singleton.mp he]
      exact Lexeme.fits_of_read hat hd

theorem run {l : Lexing} (h : l.Fits source) {ls : Bool} {offset : Nat} {cs : List Char}
    (hat : Cursor.StandsIn source ⟨offset, cs⟩) : (l.run ls offset cs).Fits source := by
  fun_induction Lexing.run l ls offset cs with
  | case1 l ls offset =>
    refine ⟨fun t ht => ?_, h.problems⟩
    rcases List.mem_append.mp (Array.toList_push ▸ ht) with ht | ht
    · exact h.tokens t ht
    · rw [List.mem_singleton.mp ht]
      exact Span.fits hat.isPlace hat.isPlace (Nat.le_refl _)
  | case2 l ls offset c rest _ ih => exact ih h hat.cons
  | case3 l ls offset c rest _ x ih =>
    obtain ⟨r, hr⟩ := Lexeme.reads_read ls offset c rest
    exact ih (h.add hat) (hat.reads hr)

end Lexing.Fits

/-- Everything that is read of a text fits it. -/
theorem fits_run_textStart (source : List Char) :
    (Lexing.run {} true (textStart source).offset (textStart source).rest).Fits source := by
  have hat : (textStart source).StandsIn source := by
    unfold textStart
    split
    · next rest => exact ⟨['\ufeff'], rfl, rfl⟩
    · exact ⟨[], rfl, rfl⟩
  exact Lexing.Fits.run ⟨by simp, by simp⟩ hat

/-- The tokens of a text fit it. -/
theorem fits_of_lex {source : String} {ts : List Token} (h : lex source = .ok ts) :
    ∀ t ∈ ts, t.span.Fits source.toList := by
  unfold lex at h
  simp only at h
  split at h
  · cases h
    exact (fits_run_textStart source.toList).tokens
  · cases h

/-- The lexical faults of a text fit it. -/
theorem fits_of_lex_error {source : String} {ds : List Diagnostic} (h : lex source = .error ds) :
    ∀ d ∈ ds, d.span.Fits source.toList := by
  unfold lex at h
  simp only at h
  split at h
  · cases h
  · cases h
    exact (fits_run_textStart source.toList).problems

end TestScaffold
