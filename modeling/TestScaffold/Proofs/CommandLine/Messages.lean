import Mathlib.Data.List.TakeWhile
import TestScaffold.CommandLine.Response
import TestScaffold.Proofs.Reading.Faults

/-!
# What error messages are made of

A message loses the blanks at its end before it is written. What stands in front of a text that shows something is not
touched by this, so the heading of a message can be told apart from what it heads. Every report on a rejected text, and
every line about an error, shows something.

Results:
* `Text.Shows.trim_append`: blanks are taken away behind a text that shows something, whatever stands in front of it.
* `Response.stderr_failure_append`: the message of a failure under a heading.
* `exists_reportText?`: the reports on a rejected text can be written out, and show something.
-/

namespace TestScaffold

/-! ## Texts that are not all blank -/

namespace Text

/-- Whether some character of a text is not blank. -/
def Shows (s : String) : Prop := ∃ c ∈ s.toList, isBlank c = false

namespace Shows

variable {s : String}

theorem append_left (h : Shows s) (t : String) : Shows (t ++ s) := by
  obtain ⟨c, hc, hblank⟩ := h
  exact ⟨c, by simp [hc], hblank⟩

theorem append_right (h : Shows s) (t : String) : Shows (s ++ t) := by
  obtain ⟨c, hc, hblank⟩ := h
  exact ⟨c, by simp [hc], hblank⟩

theorem join {texts : List String} (hmem : s ∈ texts) (h : Shows s) : Shows (String.join texts) := by
  obtain ⟨c, hc, hblank⟩ := h
  refine ⟨c, ?_, hblank⟩
  rw [String.toList_join]
  exact List.mem_flatMap.mpr ⟨s, hmem, hc⟩

/-- The blanks in front of the first character that is not blank are not the whole text. -/
theorem dropWhile_ne_nil (h : Shows s) : s.toList.reverse.dropWhile isBlank ≠ [] := by
  obtain ⟨c, hc, hblank⟩ := h
  intro hnil
  have hall := List.dropWhile_eq_nil_iff.mp hnil c (List.mem_reverse.mpr hc)
  rw [hblank] at hall
  cases hall

theorem trim_ne_empty (h : Shows s) : trimBlanksRight s ≠ "" := by
  intro hempty
  refine h.dropWhile_ne_nil ?_
  rw [trimBlanksRight, String.ofList_eq_empty_iff, List.reverse_eq_nil_iff] at hempty
  exact hempty

/-- Blanks are taken away behind a text that shows something, whatever stands in front of it. -/
theorem trim_append (h : Shows s) (t : String) : trimBlanksRight (t ++ s) = t ++ trimBlanksRight s := by
  have hne : (s.toList.reverse.dropWhile isBlank).isEmpty = false := by simpa using h.dropWhile_ne_nil
  rw [trimBlanksRight, String.toList_append, List.reverse_append, List.dropWhile_append, hne, if_neg Bool.false_ne_true,
    List.reverse_append, List.reverse_reverse, String.ofList_append, String.ofList_toList, trimBlanksRight]

end Shows

end Text

open Text (Shows)

/-! ## Many texts in a row -/

/-- Where each of some items can be written out, so can they all. -/
theorem mapM_eq_some_map {α : Type} {write? : α → Option String} {write : α → String} {items : List α}
    (h : ∀ a ∈ items, write? a = some (write a)) : items.mapM write? = some (items.map write) := by
  induction items with
  | nil => rfl
  | cons a items ih =>
    have ha := h a List.mem_cons_self
    have hitems := ih fun b hb => h b (List.mem_cons_of_mem a hb)
    simp [ha, hitems]

/-! ## Reports -/

theorem Phase.shows_label (p : Phase) : Shows p.label := by
  cases p
  · exact ⟨'l', by decide, by decide⟩
  · exact ⟨'s', by decide, by decide⟩

theorem Diagnostic.shows_text (d : Diagnostic) : Shows d.text :=
  (d.phase.shows_label.append_right ": ").append_right d.message

/-- A report says what it is about. -/
theorem Excerpt.shows_render (e : Excerpt) (file : String) (d : Diagnostic) : Shows (e.render file d) := by
  obtain ⟨c, hc, hblank⟩ := d.shows_text
  refine ⟨c, ?_, hblank⟩
  have hchar : c ∈ (toString d.text).toList := hc
  simp [Excerpt.render, hchar]

namespace DeclarationTree

variable {source : String} {reports : List Diagnostic}

/-- A text is rejected for what cannot be cut into tokens, or for what its tokens do not declare. -/
theorem ofSource_eq_error_iff : ofSource source = .error reports ↔
    lex source = .error reports ∨ ∃ ts, lex source = .ok ts ∧ ofTokens ts = .error reports := by
  unfold ofSource
  cases lex source with
  | error ds => simp [bind, Except.bind]
  | ok ts => simp [bind, Except.bind]

theorem ne_nil_of_lex_error (h : lex source = .error reports) : reports ≠ [] := by
  unfold lex at h
  simp only at h
  split at h
  · cases h
  · next hproblems =>
    cases h
    simpa using hproblems

theorem ne_nil_of_ofTokens_error {ts : List Token} (h : ofTokens ts = .error reports) : reports ≠ [] := by
  unfold ofTokens readDeclarations at h
  simp only at h
  split at h
  · cases h
  · next hproblems =>
    cases h
    simpa using hproblems

/-- A rejected text is reported on. -/
theorem ne_nil_of_ofSource_error (h : ofSource source = .error reports) : reports ≠ [] := by
  obtain hlex | ⟨ts, -, hread⟩ := ofSource_eq_error_iff.mp h
  · exact ne_nil_of_lex_error hlex
  · exact ne_nil_of_ofTokens_error hread

/-- Every report on a rejected text can be written out with its line. -/
theorem exists_render?_of_ofSource_error (h : ofSource source = .error reports) (path : String) :
    ∀ d ∈ reports, ∃ text, d.render? path source = some text ∧ Shows text := by
  intro d hd
  have hfits : d.span.Fits source.toList := by
    obtain hlex | ⟨ts, hlex, hread⟩ := ofSource_eq_error_iff.mp h
    · exact fits_of_lex_error hlex d hd
    · exact reportsAt_of_ofTokens_error ⟨Span.fits_zero _, Span.Fits.merge⟩ (fits_of_lex hlex) hread d hd
  obtain ⟨text, htext⟩ := Diagnostic.exists_render? hfits path
  obtain ⟨e, -, rfl⟩ := Option.map_eq_some_iff.mp htext
  exact ⟨_, htext, e.shows_render path d⟩

end DeclarationTree

namespace CommandLine

/-- The reports on a rejected text can be written out, and show something. -/
theorem exists_reportText? {source : String} {reports : List Diagnostic}
    (h : DeclarationTree.ofSource source = .error reports) (path : String) :
    ∃ text, reportText? path source reports = some text ∧ Shows text := by
  have hwritten := DeclarationTree.exists_render?_of_ofSource_error h path
  have hall : ∀ d ∈ reports, d.render? path source = some ((d.render? path source).getD "") := by
    intro d hd
    obtain ⟨text, htext, -⟩ := hwritten d hd
    rw [htext, Option.getD_some]
  obtain ⟨d, hd⟩ := List.exists_mem_of_ne_nil _ (DeclarationTree.ne_nil_of_ofSource_error h)
  refine ⟨_, by rw [reportText?, mapM_eq_some_map hall, Option.map_some], Shows.join (List.mem_map_of_mem hd) ?_⟩
  obtain ⟨text, htext, hshows⟩ := hwritten d hd
  rw [htext]
  exact hshows

namespace Response

/-! ## Lines about errors, and headings -/

/-- Errors are told one after the other. -/
theorem join_errorLine (errors : List GenerationError) :
    String.join (errors.map fun e => errorLines [e]) = errorLines errors := by
  simp [errorLines]

theorem shows_errorLine (e : GenerationError) : Shows (errorLines [e]) := by
  have hchar : 'e' ∈ (toString "error: ").toList := by decide
  exact ⟨'e', by simp [errorLines, hchar], by decide⟩

/-- The message of a failure under a heading is the heading and the message. -/
theorem stderr_failure_append {s : String} (h : Shows s) (heading stdout stdout' : String) :
    (failure (Text.trimBlanksRight (heading ++ s)) stdout).stderr =
      heading ++ (failure (Text.trimBlanksRight s) stdout').stderr := by
  have hne := h.trim_ne_empty
  have hne' := (h.append_left heading).trim_ne_empty
  unfold failure
  simp only [String.isEmpty_iff, hne, hne', if_false]
  rw [h.trim_append, String.append_assoc]

end Response

end CommandLine

end TestScaffold
