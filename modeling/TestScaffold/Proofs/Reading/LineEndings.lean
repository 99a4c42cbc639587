import TestScaffold.Proofs.TestUnit.Namespaces
import TestScaffold.Proofs.Token.LineEndings

/-!
# The ends of lines

What a text declares does not depend on how its lines end, with one exception. A backslash in a literal takes the next
character with it, whatever it is: at the end of a line it takes the line break, but of a carriage return and a line
break only the former. So the literal breaks off, as it does at every other line break, only where the lines end in two
characters.

Results:
* `DeclarationTree.ofSource_returned`: with its carriage returns, a text is accepted if it is without them and has no
  escape at the end of a line, and then the two trees are the same but for places.
* `DeclarationTree.not_ofSource_returned_escape`: the exception is one.
-/

namespace TestScaffold.DeclarationTree

open Written (bare)

/-- A text declares what its tokens declare. -/
theorem ofSource_eq_ok_iff_ofTokens {source : String} {tree : DeclarationTree} :
    ofSource source = .ok tree ↔ ∃ ts, lex source = .ok ts ∧ ofTokens ts = .ok tree := by
  simp only [ofSource_eq_ok_iff, ofTokens_eq_ok_iff]
  constructor
  · rintro ⟨ts, d, hlex, hread, rfl⟩
    exact ⟨ts, hlex, d, hread, rfl⟩
  · rintro ⟨ts, hlex, d, hread, rfl⟩
    exact ⟨ts, d, hlex, hread, rfl⟩

/-- Only the kinds of its tokens say whether a text is accepted. -/
theorem exists_ofSource_iff {source : String} : (∃ tree, ofSource source = .ok tree) ↔
    ∃ ks, (∃ ts, lex source = .ok ts ∧ ts.map Token.kind = ks) ∧ ∃ d, readDeclarations (bare ks) = .ok d := by
  simp only [ofSource_eq_ok_iff_ofTokens]
  constructor
  · rintro ⟨tree, ts, hlex, htree⟩
    exact ⟨_, ⟨ts, hlex, rfl⟩, Written.exists_ofTokens_iff.mp ⟨tree, htree⟩⟩
  · rintro ⟨_, ⟨ts, hlex, rfl⟩, hread⟩
    obtain ⟨tree, htree⟩ := Written.exists_ofTokens_iff.mpr hread
    exact ⟨tree, ts, hlex, htree⟩

/-- How its lines end makes no difference to what a text declares: with its carriage returns it is accepted if it is
without them, unless a literal has an escape at the end of a line, and the two trees are the same but for places. -/
theorem ofSource_returned (source : String) :
    ((∃ tree, ofSource (returned source) = .ok tree) ↔
      (∃ tree, ofSource source = .ok tree) ∧ ¬ EscapesLineBreak source) ∧
    ∀ tree tree', ofSource source = .ok tree → ofSource (returned source) = .ok tree' →
      tree'.unplaced = tree.unplaced := by
  constructor
  · simp only [exists_ofSource_iff, exists_lex_returned_iff]
    constructor
    · rintro ⟨ks, ⟨hlex, hnot⟩, hread⟩
      exact ⟨⟨ks, hlex, hread⟩, hnot⟩
    · rintro ⟨⟨ks, hlex, hread⟩, hnot⟩
      exact ⟨ks, ⟨hlex, hnot⟩, hread⟩
  · intro tree tree' h h'
    obtain ⟨ts, hlex, htree⟩ := ofSource_eq_ok_iff_ofTokens.mp h
    obtain ⟨us, hlex', htree'⟩ := ofSource_eq_ok_iff_ofTokens.mp h'
    obtain ⟨⟨ts', hts, hkinds⟩, -⟩ := (exists_lex_returned_iff source _).mp ⟨us, hlex', rfl⟩
    obtain rfl := Except.ok.inj (hlex.symm.trans hts)
    obtain ⟨d, hd⟩ := Written.exists_ofTokens_iff.mp ⟨tree, htree⟩
    exact Written.unplaced_eq htree' htree (hkinds ▸ hd) hd

/-- A directive and a comment, each on a line of its own, in front of a class. -/
def linedSource : String := "#if\n// \x7b\nclass A \x7b \x7d\n"

theorem ofSource_returned_lined : ∃ tree tree', ofSource linedSource = .ok tree ∧
    ofSource (returned linedSource) = .ok tree' ∧ tree'.unplaced = tree.unplaced := by
  obtain ⟨tree, h⟩ := @exists_eq_ok _ _ (ofSource linedSource) (by decide +kernel)
  obtain ⟨tree', h'⟩ := @exists_eq_ok _ _ (ofSource (returned linedSource)) (by decide +kernel)
  exact ⟨tree, tree', h, h', (ofSource_returned linedSource).2 tree tree' h h'⟩

/-- A character literal with an escape at the end of a line is closed on the next line where a line break is one
character, and is broken off by the line break where there are two. -/
theorem not_ofSource_returned_escape : ¬ ∀ source, '\r' ∉ source.toList →
    ((∃ tree, ofSource source = .ok tree) ↔ ∃ tree, ofSource (returned source) = .ok tree) := by
  intro hall
  have hends := hall "class A \x7b char c = '\\\n'; \x7d" (by decide)
  obtain ⟨tree, h⟩ := hends.mp (@exists_eq_ok _ _ _ (by decide +kernel))
  have hrefused : (ofSource (returned "class A \x7b char c = '\\\n'; \x7d")).isOk = false := by decide +kernel
  rw [h] at hrefused
  cases hrefused

end TestScaffold.DeclarationTree
