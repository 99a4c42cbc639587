import TestScaffold.Declaration.Reader
import TestScaffold.Proofs.Declaration.Nested
import TestScaffold.Proofs.Reading.Laying
import TestScaffold.Proofs.Token.Cutout

/-!
# Where the nodes of a tree lie

The span of a node begins with the first token of its declaration behind the attribute lists, and ends with the last
one. Spans therefore lie inside one another as their nodes do, and follow one another as these do.

Results:
* `DeclarationTree.SpansNest`: where the nodes of a tree lie in the text.
* `DeclarationTree.spansNest_of_ofSource`: so do those of every tree that is read.
-/

namespace TestScaffold

open Text (byteLength)
open Token (front extent atEnd atMark Ordered Opens AttributeLists)

/-- A node stands for what is read as one item behind `before`, and its span is the stretch of the tokens that follow
the attribute lists of this item, its modifiers first. -/
def Node.Begins (n : Node) (ts : List Token) : Prop := ∃ before attributes own after,
  ts = before ++ (attributes ++ (own ++ after)) ∧ (before = [] ∨ Opens before) ∧
    (∃ inner scope owner d, (Reader.item inner scope owner (attributes ++ (own ++ after))).result =
      .ok { declarations := #[d] } ∧ d.heading n.parent = n.heading) ∧
      AttributeLists (attributes.map Token.kind) ∧ ¬ atMark .leftBracket own = true ∧
        (Reader.modifiers own).1 = n.modifiers ∧ own ≠ [] ∧ n.span = extent own

namespace DeclarationTree

/-- The spans of a tree that was read from the tokens `ts` of a text: pieces of the text that nest and follow one
another like the nodes. -/
structure SpansNest (source : String) (ts : List Token) (t : DeclarationTree) : Prop where
  root : ∃ root, t.get? 0 = some root ∧ root.span = ⟨0, byteLength source.toList⟩
  start_lt_stop : ∀ id n, t.get? id = some n → id ≠ 0 → n.span.start < n.span.stop
  covers : ∀ id n, t.get? id = some n → ∃ w, n.span.Covers source.toList w
  within : ∀ id n, t.get? id = some n → id ≠ 0 →
    ∃ p outer, n.parent = some p ∧ t.get? p = some outer ∧ n.span.Within outer.span
  pairwise : ∀ id, (t.children id).Pairwise fun i j =>
    ∃ m n, t.get? i = some m ∧ t.get? j = some n ∧ m.span.stop ≤ n.span.start
  begins : ∀ id n, t.get? id = some n → id ≠ 0 → n.Begins ts

end DeclarationTree

/-! ## Declarations of a text -/

namespace LaidOut

variable {ts used rest : List Token} {root d : Declaration}

theorem placed_of_mem_children (h : LaidOut rest used root.children) (hts : ts = used ++ rest)
    (hd : d ∈ root.children) : d.Placed ts := by
  have hall : ts = [] ++ (used ++ rest) := hts
  exact h.placed hall (.inl rfl) hd

/-- What is declared in a text whose declarations are laid out stands among its tokens. -/
theorem placed_of_under (h : LaidOut rest used root.children) (hts : ts = used ++ rest) (hd : root.Under d) :
    d = root ∨ d.Placed ts := by
  induction hd with
  | refl => exact .inl rfl
  | child _ hd ih =>
    rcases ih with rfl | hplaced
    · exact .inr (h.placed_of_mem_children hts hd)
    · exact .inr (hplaced.of_mem_children hd)

end LaidOut

/-- A declaration takes a piece of its text that is not empty. -/
theorem Declaration.Placed.covers {source : String} {ts : List Token} {d : Declaration} (h : d.Placed ts)
    (hlex : lex source = .ok ts) : d.span.start < d.span.stop ∧ ∃ w, d.span.Covers source.toList w := by
  have hordered := ordered_of_lex hlex
  obtain ⟨before, attributes, head, body, foot, after, rfl, -, fills, -, -⟩ := h
  have hne := fills.ended.ne_nil
  have hown := hordered.right.right.left
  generalize head ++ (body ++ foot) = own at *
  rw [fills.span hown]
  constructor
  · have hfront := Token.front_mem hne
    have hmem : front own ∈ before ++ (attributes ++ (own ++ after)) := by simp [hfront]
    exact Nat.lt_of_lt_of_le (start_lt_stop_of_lex hlex hmem (fills.inside _ hfront)) (hown.le_back_stop hfront)
  · have hts : before ++ (attributes ++ (own ++ after)) = (before ++ attributes) ++ own ++ after := by simp
    exact exists_covers_extent hlex hts hne fills.inside

theorem Span.Covers.within {s : Span} {source w : List Char} (h : s.Covers source w) :
    s.Within ⟨0, byteLength source⟩ := by
  obtain ⟨before, after, rfl, rfl⟩ := h
  constructor
  · exact Nat.zero_le _
  · simp only [Text.byteLength_append]
    omega

theorem Span.covers_all (source : List Char) : Span.Covers ⟨0, byteLength source⟩ source source :=
  ⟨[], [], by simp, by simp⟩

/-- The end of a text is told by its last token alone. -/
theorem front_eq_endOf {source : String} {ts used rest : List Token} (hlex : lex source = .ok ts)
    (hts : ts = used ++ rest) (hinside : Token.Inside used) (hend : atEnd rest = true) :
    front rest = Token.endOf source.toList := by
  obtain ⟨mark, tiles, -, hsource, ht, hstream⟩ := exists_tiles_of_lex hlex
  have hall := hstream.trans (Tile.stream_eq_concat hsource)
  have hmem : Token.endOf source.toList ∈ used ++ rest := by simp [← hts, hall]
  have hrest : rest ≠ [] := by
    rintro rfl
    rw [List.append_nil] at hmem
    exact hinside _ hmem rfl
  have hfront : front rest ∈ ts := by
    rw [hts]
    exact List.mem_append_right used (Token.front_mem hrest)
  rw [hall] at hfront
  rcases List.mem_append.mp hfront with hfront | hfront
  · exact absurd (eq_of_beq hend) (ht.covers mark hfront).1
  · exact List.mem_singleton.mp hfront

/-- A whole text is nothing but what it declares, and takes all of its bytes. -/
theorem eq_unit_of_readDeclarations {source : String} {ts : List Token} {d : Declaration} (hlex : lex source = .ok ts)
    (h : readDeclarations ts = .ok d) : d = ⟨.unit, "", [], ⟨0, byteLength source.toList⟩, d.children⟩ := by
  obtain ⟨used, rest, hts, hend, hinside, -, hd⟩ := laidOut_of_readDeclarations h
  rw [front_eq_endOf hlex hts hinside hend] at hd
  simpa [Token.endOf, Span.zero, Span.merge] using hd

namespace DeclarationTree

/-- How a text is read: into tokens, in which its declarations are laid out. -/
theorem exists_laidOut {source : String} {t : DeclarationTree} (h : ofSource source = .ok t) :
    ∃ ts d used rest, lex source = .ok ts ∧ t = ofDeclaration d ∧ ts = used ++ rest ∧
      LaidOut rest used d.children ∧ d.kind = .unit ∧ d.span = ⟨0, byteLength source.toList⟩ := by
  obtain ⟨ts, d, hlex, hread, rfl⟩ := ofSource_eq_ok_iff.mp h
  obtain ⟨used, rest, hts, -, -, hlaid, -⟩ := laidOut_of_readDeclarations hread
  have hunit := eq_unit_of_readDeclarations hlex hread
  exact ⟨ts, d, used, rest, hlex, rfl, hts, hlaid, by rw [hunit], by rw [hunit]⟩

/-- Every node but the root stands for a declaration that is placed among the tokens, directly inside the one that its
parent stands for. -/
theorem exists_placed {ts used rest : List Token} {root : Declaration} (hts : ts = used ++ rest)
    (hlaid : LaidOut rest used root.children) {id : Nat} {n : Node} (hn : (ofDeclaration root).get? id = some n)
    (hid : id ≠ 0) : ∃ p q outer d, (ofDeclaration root).Represents q p outer ∧ (outer = root ∨ outer.Placed ts) ∧
      d ∈ outer.children ∧ d.Placed ts ∧ (ofDeclaration root).Represents (some p) id d ∧ n = nodeOf (some p) id d := by
  obtain ⟨p, q, outer, d, houter, hunder, hd, hrepresents⟩ := inside_ofDeclaration root hn hid
  have hcases := hlaid.placed_of_under hts hunder
  have hn' := Option.some.inj (hn.symm.trans hrepresents.get?)
  refine ⟨p, q, outer, d, houter, hcases, hd, ?_, hrepresents, hn'⟩
  rcases hcases with rfl | hplaced
  · exact hlaid.placed_of_mem_children hts hd
  · exact hplaced.of_mem_children hd

/-- The children of a node lie behind one another. -/
theorem pairwise_spans {ts used rest : List Token} {root : Declaration} (hts : ts = used ++ rest)
    (hordered : Ordered ts) (hlaid : LaidOut rest used root.children) (id : Nat) :
    ((ofDeclaration root).children id).Pairwise fun i j => ∃ m n, (ofDeclaration root).get? i = some m ∧
      (ofDeclaration root).get? j = some n ∧ m.span.stop ≤ n.span.start := by
  cases hget : (ofDeclaration root).get? id with
  | none => simp [children, hget]
  | some n =>
    obtain ⟨q, d, hrepresents, hpairwise⟩ : ∃ q d, (ofDeclaration root).Represents q id d ∧
        d.children.Pairwise fun a b => a.span.stop ≤ b.span.start := by
      by_cases hid : id = 0
      · subst hid
        rw [hts] at hordered
        exact ⟨none, root, represents_ofDeclaration root, hlaid.pairwise hordered.left⟩
      · obtain ⟨p, q, outer, d, -, -, -, hplaced, hrepresents, -⟩ := exists_placed hts hlaid hget hid
        exact ⟨some p, d, hrepresents, hplaced.pairwise hordered⟩
    refine (hrepresents.pairwise_children hpairwise).imp fun {i j} hboth => ?_
    obtain ⟨a, b, ha, hb, hle⟩ := hboth
    exact ⟨_, _, ha.get?, hb.get?, hle⟩

/-- The spans of every tree that is read nest and follow one another like its nodes. -/
theorem spansNest_of_ofSource {source : String} {t : DeclarationTree} (h : ofSource source = .ok t) :
    ∃ ts, lex source = .ok ts ∧ SpansNest source ts t := by
  obtain ⟨ts, root, used, rest, hlex, rfl, hts, hlaid, -, hroot⟩ := exists_laidOut h
  have hordered := ordered_of_lex hlex
  have hself := represents_ofDeclaration root
  refine ⟨ts, hlex, ⟨⟨_, hself.get?, hroot⟩, fun id n hn hid => ?_, fun id n hn => ?_, fun id n hn hid => ?_,
    fun id => ?_, fun id n hn hid => ?_⟩⟩
  · obtain ⟨p, q, outer, d, -, -, -, hplaced, -, rfl⟩ := exists_placed hts hlaid hn hid
    exact (hplaced.covers hlex).1
  · by_cases hid : id = 0
    · subst hid
      obtain rfl := Option.some.inj (hn.symm.trans hself.get?)
      have hspan : (nodeOf none 0 root).span = ⟨0, byteLength source.toList⟩ := hroot
      exact ⟨source.toList, by rw [hspan]; exact Span.covers_all source.toList⟩
    · obtain ⟨p, q, outer, d, -, -, -, hplaced, -, rfl⟩ := exists_placed hts hlaid hn hid
      exact (hplaced.covers hlex).2
  · obtain ⟨p, q, outer, d, houter, hcases, hd, hplaced, -, rfl⟩ := exists_placed hts hlaid hn hid
    refine ⟨p, _, rfl, houter.get?, ?_⟩
    rcases hcases with rfl | hcases
    · obtain ⟨w, hcovers⟩ := (hplaced.covers hlex).2
      have hwithin := hcovers.within
      rw [← hroot] at hwithin
      exact hwithin
    · exact hcases.within hordered hd
  · exact pairwise_spans hts hordered hlaid id
  · obtain ⟨p, q, outer, d, -, -, -, hplaced, -, rfl⟩ := exists_placed hts hlaid hn hid
    obtain ⟨before, attributes, head, body, foot, after, rfl, hbefore, fills, -, -⟩ := hplaced
    obtain ⟨inner, scope, owner, hread⟩ := fills.read
    exact ⟨before, attributes, _, after, rfl, hbefore, ⟨inner, scope, owner, d, hread, rfl⟩, fills.attributes,
      fills.not_atMark, fills.modifiers, fills.ended.ne_nil, fills.span hordered.right.right.left⟩

/-- A namespace up to the end of the text, a class with a semicolon behind it, and attribute lists. -/
theorem spansNest_sample : ∃ t, ofSource "[x] namespace N; [y] class A \x7b int x; \x7d; enum E \x7b\x7d" = .ok t ∧
    t.nodes.toList.map Node.span = [⟨0, 50⟩, ⟨4, 50⟩, ⟨21, 39⟩, ⟨31, 37⟩, ⟨41, 50⟩] ∧
      ∃ ts, lex "[x] namespace N; [y] class A \x7b int x; \x7d; enum E \x7b\x7d" = .ok ts ∧
        SpansNest "[x] namespace N; [y] class A \x7b int x; \x7d; enum E \x7b\x7d" ts t := by
  have hread : (ofSource "[x] namespace N; [y] class A \x7b int x; \x7d; enum E \x7b\x7d").toOption.map
      (fun t => t.nodes.toList.map Node.span) = some [⟨0, 50⟩, ⟨4, 50⟩, ⟨21, 39⟩, ⟨31, 37⟩, ⟨41, 50⟩] := by
    decide +kernel
  cases h : ofSource "[x] namespace N; [y] class A \x7b int x; \x7d; enum E \x7b\x7d" with
  | error ds =>
    rw [h] at hread
    cases hread
  | ok t =>
    rw [h] at hread
    exact ⟨t, rfl, Option.some.inj hread, spansNest_of_ofSource h⟩

end DeclarationTree

end TestScaffold
