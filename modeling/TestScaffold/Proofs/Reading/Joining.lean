import TestScaffold.Proofs.Declaration.Joining
import TestScaffold.Proofs.Reading.Places
import TestScaffold.Proofs.Reading.Resuming
import TestScaffold.Proofs.Reading.Spans
import TestScaffold.Proofs.Token.Joining

/-!
# Two texts declare what each of them declares

Where two texts are put together with a line break between them, nothing of the first one reaches into the second one.
What is declared in both is what is declared in the first one, and then what is declared in the second one, moved behind
it. This does not hold of a first text that ends with attribute lists, which would belong to what follows, nor of one
with a namespace that goes on to the end of the text.

Results:
* `readDeclarations_append`: the tokens of two texts, those of the first one without its end.
* `Declaration.Placed.shifted_moved`: declarations that are moved back and forth.
* `DeclarationTree.ofSource_join`: the tree of two texts is the tree of the first one with that of the second one.
-/

namespace TestScaffold

open Text (byteLength)
open Token (front back atEnd Inside Ordered HeadsFile)
open Reader (AllEnd below readFrom)

/-! ## Tokens -/

/-- Where two texts are read without a fault, the tokens of the second one are read behind those of the first one. -/
theorem readDeclarations_append {before after rest : List Token} {d e : Declaration} (hinside : Inside before)
    (hrest : atEnd rest = true) (hd : readDeclarations (before ++ rest) = .ok d)
    (he : readDeclarations after = .ok e) (hall : AllEnd (before ++ rest) d.children)
    (hlast : (back before).kind ≠ .punctuation .rightBracket) :
    readDeclarations (before ++ after) = .ok { e with children := d.children ++ e.children } := by
  obtain ⟨hx, rfl⟩ := readDeclarations_eq_ok_iff.mp hd
  obtain ⟨hy, rfl⟩ := readDeclarations_eq_ok_iff.mp he
  have hlays (l : Nat) (hl : l < maxNesting) : Reader.LaysOut l := Reader.laysOut_ofLevels l (Nat.le_of_lt hl)
  obtain ⟨used, hused, hresumes⟩ := Reader.readFrom_resumes (Nat.le_refl maxNesting) hlays hx fun _ => hall
  -- The tokens that were taken are those in front of the end.
  obtain rfl : used = before := by
    obtain ⟨taken, ds, htakes⟩ := Reader.takesFrom_readFrom (Nat.le_refl maxNesting) hlays hx
    obtain rfl : taken = used := List.append_cancel_right (htakes.eq_append.symm.trans hused)
    rw [← Reader.takeWhile_append htakes.inside (htakes.atEnd_rest rfl), ← hused, Reader.takeWhile_append hinside hrest]
  generalize (readFrom (below maxNesting) .text false "" {} (used ++ rest)).found = a at *
  have hread : readFrom (below maxNesting) .text false "" {} (used ++ after) =
      ⟨a.append (readFrom (below maxNesting) .text false "" {} after).found,
        (readFrom (below maxNesting) .text false "" {} after).rest⟩ := by
    rw [hresumes after (Reader.follows_of_readFrom hy) (.inr hlast) maxNesting (Nat.le_refl _) false,
      ← Reader.readFrom_append, Found.append_empty]
  refine readDeclarations_eq_ok_iff.mpr ⟨?_, ?_⟩
  · rw [hread]
    simp [Found.append, hx, hy]
  · rw [hread]
    simp [Found.append]

/-! ## Declarations that are moved back and forth -/

theorem Span.shifted_moved {s : Span} {n : Nat} (h : n ≤ s.start ∧ n ≤ s.stop) : (s.moved (.back n)).shifted n = s := by
  obtain ⟨start, stop⟩ := s
  simp only [moved, shifted, Move.back, Nat.add_sub_of_le h.1, Nat.add_sub_of_le h.2]

namespace Declaration

variable {ts : List Token} {n : Nat}

/-- No declaration begins in front of all tokens. -/
theorem Placed.le_span {d : Declaration} (h : d.Placed ts) (hts : Ordered ts) (hn : ∀ t ∈ ts, n ≤ t.span.start) :
    n ≤ d.span.start ∧ n ≤ d.span.stop := by
  obtain ⟨before, attributes, head, body, foot, after, rfl, -, fills, -, -⟩ := h
  have hne := fills.ended.ne_nil
  have hown := hts.right.right.left
  rw [fills.span hown]
  have hle : ∀ t ∈ head ++ (body ++ foot), n ≤ t.span.start := fun t ht =>
    hn t (List.mem_append_right before (List.mem_append_right attributes (List.mem_append_left after ht)))
  have hback := Token.back_mem hne
  exact ⟨hle _ (Token.front_mem hne), Nat.le_trans (hle _ hback) (hown.start_le _ hback)⟩

mutual

/-- Where no token begins in front of `n`, moving declarations back by `n` bytes can be undone. -/
theorem Placed.shifted_moved (hts : Ordered ts) (hn : ∀ t ∈ ts, n ≤ t.span.start) (d : Declaration)
    (h : d.Placed ts) : (d.moved (.back n)).shifted n = d := by
  obtain ⟨kind, name, modifiers, span, children⟩ := d
  have hchildren := shiftedAll_movedAll hts hn children fun e he => h.of_mem_children he
  rw [moved, shifted, Span.shifted_moved (h.le_span hts hn), hchildren]

theorem shiftedAll_movedAll (hts : Ordered ts) (hn : ∀ t ∈ ts, n ≤ t.span.start) (ds : List Declaration)
    (h : ∀ d ∈ ds, d.Placed ts) : shiftedAll n (movedAll (.back n) ds) = ds := by
  cases ds with
  | nil => rfl
  | cons d ds =>
    have hmore := shiftedAll_movedAll hts hn ds fun e he => h e (List.mem_cons_of_mem d he)
    rw [movedAll, shiftedAll, Placed.shifted_moved hts hn d (h d List.mem_cons_self), hmore]

end

end Declaration

/-- What tokens declare is told by what they declare at the beginning of a text. -/
theorem readDeclarations_shifted {ts : List Token} {n : Nat} {d : Declaration} (hts : Ordered ts)
    (hn : ∀ t ∈ ts, n ≤ t.span.start) (h : readDeclarations (ts.map (Token.moved (.back n))) = .ok d) :
    ∃ e, readDeclarations ts = .ok e ∧ e.children = Declaration.shiftedAll n d.children := by
  rw [readDeclarations_moved] at h
  cases he : readDeclarations ts with
  | error problems =>
    rw [he] at h
    cases h
  | ok e =>
    rw [he] at h
    obtain rfl : e.moved (.back n) = d := Except.ok.inj h
    obtain ⟨used, rest, hused, -, -, hlaid, -⟩ := laidOut_of_readDeclarations he
    refine ⟨e, rfl, ?_⟩
    obtain ⟨kind, name, modifiers, span, children⟩ := e
    exact (Declaration.shiftedAll_movedAll hts hn children fun e he => hlaid.placed_of_mem_children hused he).symm

/-! ## Trees -/

namespace DeclarationTree

/-- Whether a tree that was read from the tokens `ts` holds a namespace without braces, which goes on to the end of the
text. -/
def HoldsEndless (t : DeclarationTree) (ts : List Token) : Prop :=
  ∃ n ∈ t.nodes.toList, n.kind = .namespaceBlock ∧ HeadsFile ts n.span.start

/-- Two texts that are accepted are accepted with a line break between them, and declare together what each of them
declares. The first one may neither end with attribute lists nor hold a namespace without braces, and the second one may
not begin with a byte-order mark. -/
theorem ofSource_join {first second : String} {a b : DeclarationTree} {ts : List Token} (hlex : lex first = .ok ts)
    (hfirst : ofSource first = .ok a) (hsecond : ofSource second = .ok b) (hends : ¬ a.HoldsEndless ts)
    (hlast : (back ts.dropLast).kind ≠ .punctuation .rightBracket) (hmark : second.toList.head? ≠ some '\ufeff') :
    ofSource (first ++ "\n" ++ second) = .ok (a.joined b (byteLength first.toList + 1)) := by
  obtain ⟨ts', d, hlex', hd, rfl⟩ := ofSource_eq_ok_iff.mp hfirst
  obtain rfl : ts' = ts := Except.ok.inj (hlex'.symm.trans hlex)
  obtain ⟨us, e, hlexs, he, rfl⟩ := ofSource_eq_ok_iff.mp hsecond
  obtain ⟨before, after, rfl, hinside, hjoined, rfl, hbehind⟩ := lex_join hlex hlexs hmark
  obtain ⟨e', he', hchildren⟩ := readDeclarations_shifted (ordered_of_lex hjoined).right hbehind he
  have hall : AllEnd (before ++ [Token.endOf first.toList]) d.children := by
    refine ⟨ordered_of_lex hlex, fun c hc hkind hheads => hends ?_⟩
    obtain ⟨n, hn, hsame, hspan⟩ := exists_node_of_mem_children hc
    exact ⟨n, hn, hsame.trans hkind, hspan ▸ hheads⟩
  rw [List.dropLast_concat] at hlast
  have hread := readDeclarations_append hinside rfl hd he' hall hlast
  have hspan : Span.merge ⟨0, byteLength first.toList⟩
      (Span.shifted (byteLength first.toList + 1) ⟨0, byteLength second.toList⟩) =
        ⟨0, byteLength (first ++ "\n" ++ second).toList⟩ := by
    have hsize : '\n'.utf8Size = 1 := rfl
    simp [Span.merge, Span.shifted, hsize]
    omega
  refine ofSource_eq_ok_iff.mpr ⟨_, _, hjoined, hread, ?_⟩
  rw [eq_unit_of_readDeclarations hjoined hread, eq_unit_of_readDeclarations hlex hd,
    eq_unit_of_readDeclarations hlexs he, joined_ofDeclaration, hchildren, hspan]

/-- A text that ends inside of a comment. -/
def endsInComment : String := "namespace N \x7b class A \x7b \x7d \x7d // end"

/-- The tokens of the text that ends inside of a comment. -/
def endsInCommentTokens : List Token :=
  [⟨.keyword .namespaceKw, ⟨0, 9⟩⟩, ⟨.identifier "N", ⟨10, 11⟩⟩, ⟨.punctuation .leftBrace, ⟨12, 13⟩⟩,
    ⟨.keyword .classKw, ⟨14, 19⟩⟩, ⟨.identifier "A", ⟨20, 21⟩⟩, ⟨.punctuation .leftBrace, ⟨22, 23⟩⟩,
    ⟨.punctuation .rightBrace, ⟨24, 25⟩⟩, ⟨.punctuation .rightBrace, ⟨26, 27⟩⟩, ⟨.endOfText, ⟨34, 34⟩⟩]

/-- A text that begins with a directive. -/
def beginsWithDirective : String := "#if X\nclass B;"

/-- The comment does not swallow the directive, which still begins its line. -/
theorem ofSource_join_comment : ∃ a b, lex endsInComment = .ok endsInCommentTokens ∧ ofSource endsInComment = .ok a ∧
    ofSource beginsWithDirective = .ok b ∧ ¬ a.HoldsEndless endsInCommentTokens ∧
    (back endsInCommentTokens.dropLast).kind ≠ .punctuation .rightBracket ∧
    beginsWithDirective.toList.head? ≠ some '\ufeff' ∧
      ofSource (endsInComment ++ "\n" ++ beginsWithDirective) =
        .ok (a.joined b (byteLength endsInComment.toList + 1)) := by
  have hlex : lex endsInComment = .ok endsInCommentTokens := by decide +kernel
  obtain ⟨a, ha⟩ := @exists_eq_ok _ _ (ofSource endsInComment) (by decide +kernel)
  obtain ⟨b, hb⟩ := @exists_eq_ok _ _ (ofSource beginsWithDirective) (by decide +kernel)
  have hlast : (back endsInCommentTokens.dropLast).kind ≠ .punctuation .rightBracket := by decide
  have hmark : beginsWithDirective.toList.head? ≠ some '\ufeff' := by decide +kernel
  have hends : ¬ a.HoldsEndless endsInCommentTokens := by
    rintro ⟨n, -, -, hheads⟩
    obtain ⟨t, ht, hkind⟩ := hheads.exists_semicolon
    have hnone : ∀ t ∈ endsInCommentTokens, t.kind ≠ .punctuation .semicolon := by decide
    exact hnone t ht hkind
  exact ⟨a, b, hlex, ha, hb, hends, hlast, hmark, ofSource_join hlex ha hb hends hlast hmark⟩

end DeclarationTree

end TestScaffold
