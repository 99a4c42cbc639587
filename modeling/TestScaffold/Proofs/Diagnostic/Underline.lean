import Mathlib.Data.List.Infix
import TestScaffold.Proofs.Diagnostic.Position
import TestScaffold.Proofs.Reading.Faults

/-!
# Carets below a line

The carets of a report are counted in bytes, from a column that is counted in characters. On a line of characters of one
byte there is one caret for each character of the report's stretch that stands on the line; where characters have more
bytes there can be more carets than that, and never fewer.

Results:
* `Excerpt.covered`: the characters of a stretch that stand on the quoted line.
* `Excerpt.caretCount_eq`, `Excerpt.caretCount_eq_of_le`: how many carets there are, in general and for a stretch that
  ends on the line.
* `Diagnostic.underlined_of_ofSource_error`: the carets of any report on a rejected text.
* `Diagnostic.not_underlined_openString`: a report with more carets than characters.
-/

namespace TestScaffold

open Text (byteLength)

/-- Every character has one byte. -/
def Text.OneByteEach (cs : List Char) : Prop := ∀ c ∈ cs, c.utf8Size = 1

namespace Text

theorem length_le_byteLength (cs : List Char) : cs.length ≤ byteLength cs := by
  induction cs with
  | nil => exact Nat.le_refl 0
  | cons c cs ih =>
    have hpos := c.utf8Size_pos
    rw [List.length_cons, byteLength_cons]
    omega

theorem OneByteEach.byteLength_eq {cs : List Char} (h : OneByteEach cs) : byteLength cs = cs.length := by
  induction cs with
  | nil => rfl
  | cons c cs ih =>
    have hc : c.utf8Size = 1 := h c List.mem_cons_self
    rw [List.length_cons, byteLength_cons, hc, ih fun d hd => h d (List.mem_cons_of_mem c hd), Nat.add_comm]

theorem OneByteEach.of_sublist {cs ds : List Char} (h : OneByteEach ds) (hs : cs.Sublist ds) : OneByteEach cs :=
  fun c hc => h c (hs.subset hc)

end Text

/-- What a stretch of a text covers, and what stands in front of it and behind it. -/
structure Span.Covering (source before stretch after : List Char) (s : Span) : Prop where
  source_eq : source = before ++ (stretch ++ after)
  start_eq : byteLength before = s.start
  length_eq : byteLength stretch = s.length

/-- A stretch that cuts no characters covers some. -/
theorem Span.Fits.exists_covering {source : List Char} {s : Span} (h : s.Fits source) :
    ∃ before stretch after, s.Covering source before stretch after := by
  obtain ⟨before, rest, hsource, hstart⟩ := h.start_place
  obtain ⟨front, after, hsource', hstop⟩ := h.stop_place
  have hle : byteLength before ≤ byteLength front := by
    rw [← hstart, ← hstop]
    exact h.start_le_stop
  obtain ⟨stretch, rfl⟩ := Text.exists_append_of_byteLength_le hsource hsource' hle
  rw [List.append_assoc] at hsource'
  refine ⟨before, stretch, after, hsource', hstart.symm, ?_⟩
  rw [Text.byteLength_append] at hstop
  rw [Span.length]
  omega

/-! ## Counting carets -/

namespace Excerpt

/-- The characters of a stretch of `n` characters that stand on the quoted line. -/
def covered (e : Excerpt) (n : Nat) : List Char := (e.text.drop (e.column - 1)).take n

variable {e : Excerpt} {s : Span} {source before stretch after : List Char}

/-- The quoted line goes on with what stands behind the place. -/
theorem prefix_drop_text (hs : s.Covering source before stretch after) (he : at? source s.start = some e) :
    e.text.drop (e.column - 1) <+: stretch ++ after := by
  have hcut : Text.splitAtByte? s.start source = some (before, stretch ++ after) := by
    rw [hs.source_eq, ← hs.start_eq, Text.splitAtByte?_append_right]
  simp only [at?, hcut, Option.map_some, Option.some.injEq] at he
  subst he
  have hreturns : dropReturns (lastLine before ++ (stretch ++ after).takeWhile (· != '\n')) <+:
      lastLine before ++ (stretch ++ after).takeWhile (· != '\n') := List.rdropWhile_prefix _ _
  have hline : dropReturns (lastLine before ++ (stretch ++ after).takeWhile (· != '\n')) <+:
      lastLine before ++ (stretch ++ after) :=
    hreturns.trans ((List.prefix_append_right_inj _).mpr (List.takeWhile_prefix _))
  have hdrop := hline.drop (lastLine before).length
  rwa [List.drop_left] at hdrop

/-- A stretch that ends on the quoted line has all its characters there. -/
theorem covered_eq_stretch (hs : s.Covering source before stretch after) (he : at? source s.start = some e)
    (hends : stretch.length ≤ (e.text.drop (e.column - 1)).length) : e.covered stretch.length = stretch := by
  have hprefix : stretch <+: e.text.drop (e.column - 1) :=
    List.prefix_of_prefix_length_le (List.prefix_append stretch after) (prefix_drop_text hs he) hends
  exact (List.prefix_iff_eq_take.mp hprefix).symm

/-- Where something is left of the line behind the place, as many bytes are left as are counted, or fewer. -/
theorem byteLength_drop_le (e : Excerpt) :
    byteLength (e.text.drop (e.column - 1)) ≤ byteLength e.text - (e.column - 1) := by
  have hsplit : byteLength (e.text.take (e.column - 1)) + byteLength (e.text.drop (e.column - 1)) =
      byteLength e.text := by
    rw [← Text.byteLength_append, List.take_append_drop]
  by_cases hshort : e.text.length ≤ e.column - 1
  · rw [List.drop_of_length_le hshort]
    exact Nat.zero_le _
  · have hindent := Text.length_le_byteLength (e.text.take (e.column - 1))
    rw [List.length_take] at hindent
    omega

/-- There is a caret for every character of the stretch on the quoted line. -/
theorem length_covered_le_caretCount (hs : s.Covering source before stretch after) :
    max 1 (e.covered stretch.length).length ≤ e.caretCount s := by
  have hstretch := Text.length_le_byteLength stretch
  have hline := Text.length_le_byteLength (e.text.drop (e.column - 1))
  have hleft := e.byteLength_drop_le
  have hlength := hs.length_eq
  rw [covered, List.length_take, caretCount]
  omega

/-- A stretch that ends on the quoted line has a caret for every byte. -/
theorem caretCount_eq_of_le (hs : s.Covering source before stretch after) (he : at? source s.start = some e)
    (hends : stretch.length ≤ (e.text.drop (e.column - 1)).length) : e.caretCount s = max 1 (byteLength stretch) := by
  have hprefix : stretch <+: e.text.drop (e.column - 1) :=
    List.prefix_of_prefix_length_le (List.prefix_append stretch after) (prefix_drop_text hs he) hends
  obtain ⟨rest, hrest⟩ := hprefix
  have hleft := e.byteLength_drop_le
  rw [← hrest, Text.byteLength_append] at hleft
  have hlength := hs.length_eq
  rw [caretCount]
  omega

/-- Where every character up to the end of the stretch has one byte, there are no more carets than characters. -/
theorem caretCount_eq_of_oneByteEach (hs : s.Covering source before stretch after)
    (he : at? source s.start = some e) (hbytes : Text.OneByteEach (e.text.take (e.column - 1 + stretch.length))) :
    e.caretCount s = max 1 (e.covered stretch.length).length := by
  by_cases hends : stretch.length ≤ (e.text.drop (e.column - 1)).length
  · have hcovered := covered_eq_stretch hs he hends
    have hstretch : Text.OneByteEach stretch := by
      rw [← hcovered, covered, List.take_drop]
      exact hbytes.of_sublist (List.drop_sublist _ _)
    rw [caretCount_eq_of_le hs he hends, hcovered, hstretch.byteLength_eq]
  · rw [List.length_drop] at hends
    rw [List.take_of_length_le (by omega)] at hbytes
    have hstretch := Text.length_le_byteLength stretch
    have hlength := hs.length_eq
    rw [caretCount, hbytes.byteLength_eq, covered, List.length_take, List.length_drop]
    omega

end Excerpt

namespace Diagnostic

/-! ## Reports on a rejected text -/

theorem fits_of_ofSource_error {source : String} {ds : List Diagnostic}
    (h : DeclarationTree.ofSource source = .error ds) {d : Diagnostic} (hd : d ∈ ds) : d.span.Fits source.toList := by
  unfold DeclarationTree.ofSource at h
  cases hlex : lex source with
  | error es =>
    rw [hlex] at h
    obtain rfl : es = ds := Except.error.inj h
    exact fits_of_lex_error hlex d hd
  | ok ts =>
    rw [hlex] at h
    exact DeclarationTree.reportsAt_of_ofTokens_error ⟨Span.fits_zero _, Span.Fits.merge⟩ (fits_of_lex hlex) h d hd

/-- How the report of a stretch is underlined on the line that is quoted in it. The carets are as many as the stretch
has bytes, as far as the line's bytes go when as many of them are passed over as characters stand in front. -/
structure Underlined (d : Diagnostic) (file source : String) (e : Excerpt) (stretch : List Char) (carets : Nat) :
    Prop where
  at?_eq : Excerpt.at? source.toList d.span.start = some e
  render?_eq : d.render? file source =
    some (String.join ((d.rows file e.line e.column e.text carets).map (· ++ "\n")))
  covering : ∃ before after, d.span.Covering source.toList before stretch after
  carets_eq : carets = max 1 (min (byteLength stretch) (byteLength e.text - (e.column - 1)))
  /-- No character of the stretch on the line is without a caret. -/
  le_carets : max 1 (e.covered stretch.length).length ≤ carets
  /-- A stretch that ends on the line has all its characters there, and a caret for every byte of them. -/
  of_ends : stretch.length ≤ (e.text.drop (e.column - 1)).length →
    e.covered stretch.length = stretch ∧ carets = max 1 (byteLength stretch)
  /-- Where every character up to the end of the stretch has one byte, each has one caret. -/
  of_oneByteEach : Text.OneByteEach (e.text.take (e.column - 1 + stretch.length)) →
    carets = max 1 (e.covered stretch.length).length

/-- Every report on a rejected text is underlined: below each character of its stretch on the quoted line, and no
further where characters have one byte. -/
theorem underlined_of_ofSource_error {source : String} {ds : List Diagnostic}
    (h : DeclarationTree.ofSource source = .error ds) {d : Diagnostic} (hd : d ∈ ds) (file : String) :
    ∃ e stretch carets, d.Underlined file source e stretch carets := by
  have hfits : d.span.Fits source.toList := fits_of_ofSource_error h hd
  obtain ⟨before, stretch, after, hs⟩ := hfits.exists_covering
  obtain ⟨text, htext⟩ := exists_render? hfits file
  obtain ⟨e, he, rfl⟩ := render?_eq_some_iff.mp htext
  refine ⟨e, stretch, e.caretCount d.span, he, htext, ⟨before, after, hs⟩, ?_, ?_, ?_, ?_⟩
  · rw [hs.length_eq, Excerpt.caretCount]
  · exact Excerpt.length_covered_le_caretCount hs
  · exact fun hends => ⟨Excerpt.covered_eq_stretch hs he hends, Excerpt.caretCount_eq_of_le hs he hends⟩
  · exact Excerpt.caretCount_eq_of_oneByteEach hs he

/-- A string that is left open behind two letters of two bytes. -/
def openString : String := "\"\u00e9\u00e9"

theorem eq_error_of_map {ε α : Type} {x : Except ε α} {e : ε} (h : (x.map fun _ => ()) = .error e) :
    x = .error e := by
  cases x with
  | error d => exact congrArg Except.error (Except.error.inj h)
  | ok a => cases h

theorem ofSource_openString :
    DeclarationTree.ofSource openString = .error [Fault.unterminatedString.report ⟨0, 5⟩] :=
  eq_error_of_map (by decide +kernel)

theorem underlined_openString : DeclarationTree.ofSource openString =
      .error [Fault.unterminatedString.report ⟨0, 5⟩] ∧
    Fault.unterminatedString.report ⟨0, 5⟩ ∈ [Fault.unterminatedString.report ⟨0, 5⟩] ∧
    ∃ e stretch carets, (Fault.unterminatedString.report ⟨0, 5⟩).Underlined "A.cs" openString e stretch carets :=
  have hd := List.mem_singleton_self (Fault.unterminatedString.report ⟨0, 5⟩)
  ⟨ofSource_openString, hd, underlined_of_ofSource_error ofSource_openString hd "A.cs"⟩

/-- Three characters on one line can get five carets. -/
theorem not_underlined_openString : ¬ ∀ source ds d file, DeclarationTree.ofSource source = .error ds → d ∈ ds →
    ∃ e before stretch after, Excerpt.at? source.toList d.span.start = some e ∧
      d.span.Covering source.toList before stretch after ∧
      d.render? file source = some (String.join
        ((d.rows file e.line e.column e.text (max 1 (e.covered stretch.length).length)).map (· ++ "\n"))) := by
  intro hall
  obtain ⟨e, before, stretch, after, he, hs, hrender⟩ :=
    hall openString _ _ "A.cs" ofSource_openString (List.mem_singleton_self _)
  obtain ⟨hsource, hstart, hlength⟩ := hs
  -- The report begins with the text and has as many bytes, so it covers the text.
  obtain rfl : before = [] := Text.eq_nil_of_byteLength_eq_zero hstart
  have hbytes := congrArg byteLength hsource
  rw [List.nil_append, Text.byteLength_append, hlength] at hbytes
  obtain rfl : after = [] := Text.eq_nil_of_byteLength_eq_zero (Nat.add_left_cancel hbytes).symm
  rw [List.nil_append, List.append_nil] at hsource
  subst hsource
  have he' : Excerpt.at? openString.toList 0 = some ⟨1, 1, openString.toList⟩ := by decide +kernel
  obtain rfl := Option.some.inj (he.symm.trans he')
  revert hrender
  decide +kernel

end Diagnostic

end TestScaffold
