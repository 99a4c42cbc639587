import TestScaffold.Proofs.Reading.Places
import TestScaffold.Proofs.Reading.Spans

/-!
# A declaration as a text of its own

The text of a namespace or a type, wherever it stands in a tree that was read, is a text that declares the same, moved
to the beginning.

Results:
* `Declaration.Placed.exists_ofSource`: its text is read as the declaration alone.
* `DeclarationTree.subtree_of_ofSource`: so its tree is the subtree at its node.
-/

namespace TestScaffold

open Text (byteLength)
open Token (front back)

theorem exists_endsDeclaration {ts : List Token} (h : Token.Ended ts) :
    ∃ p, (back ts).kind = .punctuation p ∧ p.endsDeclaration := by
  rcases h with (h | h) | h
  · exact ⟨_, h, by simp [Punctuation.endsDeclaration]⟩
  · exact ⟨_, h, by simp [Punctuation.endsDeclaration]⟩
  · exact ⟨_, h, by simp [Punctuation.endsDeclaration]⟩

/-- The text of a namespace or a type declares it and nothing else. -/
theorem Declaration.Placed.exists_ofSource {source : String} {ts : List Token} {d : Declaration} (h : d.Placed ts)
    (hlex : lex source = .ok ts) (hd : d.kind.standsAlone = true) : ∃ w, d.span.Covers source.toList w ∧
      DeclarationTree.ofSource (String.ofList w) = .ok (DeclarationTree.ofDeclaration
        ⟨.unit, "", [], ⟨0, byteLength w⟩, [d.moved (.back d.span.start)]⟩) := by
  have hordered := ordered_of_lex hlex
  obtain ⟨before, attributes, head, body, foot, after, rfl, -, fills, -, -⟩ := h
  have hne := fills.ended.ne_nil
  have hspan := fills.span hordered.right.right.left
  generalize head ++ (body ++ foot) = own at *
  have hts : before ++ (attributes ++ (own ++ after)) = (before ++ attributes) ++ own ++ after := by simp
  have hfirst (c : Char) : (front own).kind ≠ .symbol c := by
    rcases fills.begins hd with ⟨k, hk⟩ | hk <;> simp [hk]
  obtain ⟨p, hlast, hp⟩ := exists_endsDeclaration fills.ended
  obtain ⟨w, hcovers, hown⟩ := exists_lex_extent hlex hts hne fills.inside hfirst hlast hp
  refine ⟨w, hspan ▸ hcovers, ?_⟩
  rw [← hspan] at hown
  -- The tokens of the piece are those of the declaration in front of an end of the text, all of them moved.
  have hend : Token.endOf w = Token.moved (.back d.span.start) ⟨.endOfText, ⟨d.span.stop, d.span.stop⟩⟩ := by
    obtain ⟨b, a, -, hplace⟩ := hcovers
    simp [Token.endOf, Token.moved, Span.moved, Move.back, hspan, hplace]
  have htext : (Span.zero.merge ⟨d.span.stop, d.span.stop⟩).moved (.back d.span.start) = ⟨0, byteLength w⟩ := by
    obtain ⟨b, a, -, hplace⟩ := hcovers
    simp [Span.zero, Span.merge, Span.moved, Move.back, hspan, hplace]
  have halone := @readDeclarations_alone d _ own _ fills hd [⟨.endOfText, ⟨d.span.stop, d.span.stop⟩⟩] rfl
  have hmoved := readDeclarations_moved (.back d.span.start) (own ++ [⟨.endOfText, ⟨d.span.stop, d.span.stop⟩⟩])
  rw [halone, List.map_append, List.map_singleton, ← hend] at hmoved
  have hread : readDeclarations (own.map (Token.moved (.back d.span.start)) ++ [Token.endOf w]) =
      .ok ⟨.unit, "", [], ⟨0, byteLength w⟩, [d.moved (.back d.span.start)]⟩ := by
    rw [hmoved, ← htext]
    rfl
  unfold DeclarationTree.ofSource DeclarationTree.ofTokens
  rw [hown]
  exact congrArg (Except.map DeclarationTree.ofDeclaration) hread

namespace DeclarationTree

/-- A namespace or a type of a tree that was read stands in a piece of the text that is a text of its own. The tree of
this text has one node below its root, with the same subtree moved to the beginning. -/
theorem subtree_of_ofSource {source : String} {t : DeclarationTree} (h : ofSource source = .ok t) {id : Nat} {n : Node}
    (hn : t.get? id = some n) (hk : n.kind = .namespaceBlock ∨ ∃ kind, n.kind = .type kind) : ∃ w d alone,
    n.span.Covers source.toList w ∧ ofSource (String.ofList w) = .ok alone ∧
      alone.nodes.toList = ⟨.unit, "", [], ⟨0, byteLength w⟩, none, #[1]⟩ ::
        (d.moved (.back n.span.start)).nodes (some 0) 1 ∧
          t.Represents n.parent id d := by
  obtain ⟨ts, root, used, rest, hlex, rfl, hts, hlaid, hunit, -⟩ := exists_laidOut h
  have hid : id ≠ 0 := by
    rintro rfl
    obtain rfl := Option.some.inj (hn.symm.trans (represents_ofDeclaration root).get?)
    have hkind : (nodeOf none 0 root).kind = .unit := hunit
    rw [hkind] at hk
    rcases hk with hk | ⟨kind, hk⟩ <;> cases hk
  obtain ⟨p, q, outer, d, -, -, -, hplaced, hrepresents, rfl⟩ := exists_placed hts hlaid hn hid
  have hd : d.kind.standsAlone = true := by
    have hk : d.kind = .namespaceBlock ∨ ∃ kind, d.kind = .type kind := hk
    rcases hk with hk | ⟨kind, hk⟩ <;> rw [hk] <;> rfl
  obtain ⟨w, hcovers, halone⟩ := hplaced.exists_ofSource hlex hd
  refine ⟨w, d, _, hcovers, halone, ?_, hrepresents⟩
  rw [nodes_ofDeclaration, Declaration.nodes, Declaration.nodesAll, Declaration.nodesAll, List.append_nil]
  rfl

/-- The class inside a namespace, whose text leaves its attribute list and the semicolon behind it aside. -/
theorem subtree_of_ofSource_sample : ∃ t n, ofSource "namespace N; [y] class A \x7b int x; \x7d;" = .ok t ∧
    t.get? 2 = some n ∧ n.kind = .type .classType ∧ n.span = ⟨17, 35⟩ ∧ ∃ w d alone,
      n.span.Covers "namespace N; [y] class A \x7b int x; \x7d;".toList w ∧ ofSource (String.ofList w) = .ok alone ∧
        alone.nodes.toList = ⟨.unit, "", [], ⟨0, byteLength w⟩, none, #[1]⟩ ::
          (d.moved (.back n.span.start)).nodes (some 0) 1 ∧ t.Represents n.parent 2 d := by
  have hread : (ofSource "namespace N; [y] class A \x7b int x; \x7d;").toOption.bind (·.get? 2) =
      some ⟨.type .classType, "A", [], ⟨17, 35⟩, some 1, #[3]⟩ := by decide +kernel
  cases h : ofSource "namespace N; [y] class A \x7b int x; \x7d;" with
  | error ds =>
    rw [h] at hread
    cases hread
  | ok t =>
    rw [h] at hread
    have hn : t.get? 2 = some ⟨.type .classType, "A", [], ⟨17, 35⟩, some 1, #[3]⟩ := hread
    exact ⟨t, _, rfl, hn, rfl, rfl, subtree_of_ofSource h hn (.inr ⟨.classType, rfl⟩)⟩

end DeclarationTree

end TestScaffold
