import TestScaffold.Declaration.Reader
import TestScaffold.Proofs.Reading.Bodies

/-!
# Reading stops at the end of the text

The first end token of a row is the last one that reading looks at. Two rows that are the same up to it are read alike,
whatever stands behind it, and both are left at or in front of it.

Results:
* `Token.UpTo`, `Step.UpTo`: rows of tokens, and pieces of reading, that are the same up to the end of the text.
* `Reader.upTo_item`, `Reader.stopsAtEnd_ofLevels`: items and lists are read alike.
* `Reader.round?`, `Reader.advances_of_round`: what a list is read in, and that each round moves on.
* `reading_ends_at_endIndex`: where reading a text ends, and what it looks at.
-/

namespace TestScaffold

open Token (front second atEnd atMark atKeyword atIdentifier atBodyEnd Inside)

/-! ## Rows of tokens -/

theorem Token.kind_of_atEnd {ts : List Token} (h : atEnd ts = true) : (front ts).kind = .endOfText := eq_of_beq h

/-- A text does not end at a word. -/
theorem Token.not_atEnd_of_name? {ts : List Token} {name : String} (h : (front ts).kind.name? = some name) :
    ¬ atEnd ts = true := by
  intro hend
  rw [kind_of_atEnd hend] at h
  cases h

/-- Two rows of tokens that are the same up to the end token `last`, the first one in them, and go on behind it with
`after` and `after'`. -/
inductive Token.UpTo (last : Token) (after after' : List Token) : List Token → List Token → Prop
  | last (h : last.kind = .endOfText) : UpTo last after after' (last :: after) (last :: after')
  | cons {t : Token} {ts us : List Token} (ht : t.kind ≠ .endOfText) (h : UpTo last after after' ts us) :
      UpTo last after after' (t :: ts) (t :: us)

variable {last : Token} {after after' ts us : List Token}

namespace Token.UpTo

theorem ne_nil (h : UpTo last after after' ts us) : ts ≠ [] ∧ us ≠ [] := by
  cases h <;> exact ⟨List.cons_ne_nil _ _, List.cons_ne_nil _ _⟩

theorem front_eq (h : UpTo last after after' ts us) : front us = front ts := by
  cases h <;> rfl

theorem tail (h : UpTo last after after' ts us) (hend : ¬ atEnd ts = true) :
    UpTo last after after' ts.tail us.tail := by
  cases h with
  | last h => exact absurd (by simp [Token.atEnd, front, h]) hend
  | cons _ h => exact h

/-- At the end of the text both rows go on in their own way. -/
theorem eq_of_atEnd (h : UpTo last after after' ts us) (hend : atEnd ts = true) :
    ts = last :: after ∧ us = last :: after' := by
  cases h with
  | last => exact ⟨rfl, rfl⟩
  | cons ht => simp [Token.atEnd, front, ht] at hend

/-- What stands behind a token that does not end the text is looked at alike. -/
theorem second_eq (h : UpTo last after after' ts us) (hend : ¬ atEnd ts = true) : second us = second ts := by
  cases h with
  | last h => exact absurd (by simp [Token.atEnd, front, h]) hend
  | cons _ h => cases h <;> rfl

theorem atEnd_eq (h : UpTo last after after' ts us) : Token.atEnd us = Token.atEnd ts := by
  rw [Token.atEnd, Token.atEnd, h.front_eq]

theorem atMark_eq (h : UpTo last after after' ts us) (p : Punctuation) : atMark p us = atMark p ts := by
  rw [Token.atMark, Token.atMark, h.front_eq]

theorem atKeyword_eq (h : UpTo last after after' ts us) (k : Keyword) : atKeyword k us = atKeyword k ts := by
  rw [Token.atKeyword, Token.atKeyword, h.front_eq]

theorem atBodyEnd_eq (h : UpTo last after after' ts us) : atBodyEnd us = atBodyEnd ts := by
  rw [Token.atBodyEnd, Token.atBodyEnd, h.atEnd_eq, h.atMark_eq]

theorem atGroup_eq (h : UpTo last after after' ts us) (angles : Bool) :
    Nesting.atGroup angles us = Nesting.atGroup angles ts := by
  rw [Nesting.atGroup, Nesting.atGroup, h.front_eq, h.atMark_eq]

theorem tail_of_atMark (h : UpTo last after after' ts us) {p : Punctuation} (hm : atMark p ts = true) :
    UpTo last after after' ts.tail us.tail := h.tail (Token.not_atEnd_of_atMark hm)

theorem skipMark (h : UpTo last after after' ts us) (p : Punctuation) :
    UpTo last after after' (Token.skipMark p ts) (Token.skipMark p us) := by
  unfold Token.skipMark
  rw [h.atMark_eq]
  split
  · next hm => exact h.tail_of_atMark hm
  · exact h

/-- What reading looks at in the first row stands in front of the end of the text. -/
theorem exists_inside (h : UpTo last after after' ts us) : ∃ before, ts = before ++ last :: after ∧ Inside before := by
  induction h with
  | last => exact ⟨[], rfl, Token.inside_nil⟩
  | @cons t ts us ht _ ih =>
    obtain ⟨before, rfl, hbefore⟩ := ih
    exact ⟨t :: before, rfl, (Token.inside_singleton ht).append hbefore⟩

end Token.UpTo

open Token (UpTo)

/-! ## Pieces of reading -/

/-- Two pieces of reading that yield the same and leave rows that are the same up to the end of the text. -/
structure Step.UpTo {α : Type} (last : Token) (after after' : List Token) (s s' : Step α) : Prop where
  result_eq : s'.result = s.result
  rest : Token.UpTo last after after' s.rest s'.rest

namespace Step

variable {α β : Type}

theorem upTo_done (a : α) (h : Token.UpTo last after after' ts us) :
    Step.UpTo last after after' (done a ts) (done a us) := ⟨rfl, h⟩

theorem upTo_fail (f : Fault) (s : Span) (h : Token.UpTo last after after' ts us) :
    Step.UpTo last after after' (fail f s ts : Step α) (fail f s us) := ⟨rfl, h⟩

theorem upTo_failExpecting (what : Expectation) (h : Token.UpTo last after after' ts us) :
    Step.UpTo last after after' (failExpecting what ts : Step α) (failExpecting what us) := by
  unfold failExpecting
  rw [h.front_eq]
  exact upTo_fail _ _ h

theorem UpTo.andThen {s s' : Step α} {next next' : α → List Token → Step β} (h : Step.UpTo last after after' s s')
    (hnext : ∀ a ts us, s.result = .ok a → Token.UpTo last after after' ts us →
      Step.UpTo last after after' (next a ts) (next' a us)) :
    Step.UpTo last after after' (s.andThen next) (s'.andThen next') := by
  unfold Step.andThen
  rw [h.result_eq]
  cases hs : s.result with
  | ok a => exact hnext a _ _ hs h.rest
  | error d => exact ⟨rfl, h.rest⟩

theorem upTo_name (what : Expectation) (h : Token.UpTo last after after' ts us) :
    Step.UpTo last after after' (name what ts) (name what us) := by
  unfold name
  rw [h.front_eq]
  cases hn : (front ts).kind.name? with
  | none => exact upTo_failExpecting what h
  | some n => exact upTo_done n (h.tail (Token.not_atEnd_of_name? hn))

end Step

/-! ## Groups and passages -/

namespace Nesting

theorem upTo_closeAll (angles : Bool) (first : Span) (d : Open) (outer : List Open)
    (h : Token.UpTo last after after' ts us) :
    Step.UpTo last after after' (closeAll angles first d outer ts) (closeAll angles first d outer us) := by
  induction h generalizing d outer with
  | last hlast =>
    simp only [closeAll, hlast]
    exact Step.upTo_fail _ _ (.last hlast)
  | @cons t ts us ht h ih =>
    cases hk : t.kind with
    | endOfText => exact absurd hk ht
    | punctuation p =>
      simp only [closeAll, hk]
      cases effect angles d p with
      | closes =>
        cases outer with
        | nil => exact Step.upTo_done _ h
        | cons e es => exact ih e es
      | opens closer => exact ih _ _
      | clashes => exact Step.upTo_fail _ _ h
      | passes => exact ih d outer
    | _ =>
      simp only [closeAll, hk]
      exact ih d outer

theorem upTo_skipGroup (h : Token.UpTo last after after' ts us) :
    Step.UpTo last after after' (skipGroup ts) (skipGroup us) := by
  unfold skipGroup
  rw [h.front_eq, h.atEnd_eq]
  split
  · next d hd =>
    refine upTo_closeAll _ _ _ _ (h.tail fun hend => ?_)
    rw [Open.ofToken?, Token.kind_of_atEnd hend] at hd
    cases hd
  · split
    · exact Step.upTo_fail _ _ h
    · next hend => exact Step.upTo_fail _ _ (h.tail hend)

theorem upTo_skipUntil (stops : Punctuation → Bool) (angles : Bool) (us : List Token)
    (h : Token.UpTo last after after' ts us) :
    Step.UpTo last after after' (skipUntil stops angles ts) (skipUntil stops angles us) := by
  fun_induction skipUntil stops angles ts generalizing us with
  | case1 ts hs =>
    rw [skipUntil.eq_def stops angles us, h.atBodyEnd_eq, h.front_eq, if_pos hs]
    exact Step.upTo_done () h
  | case2 ts hs hg s a ha ih =>
    have hgroup := upTo_skipGroup h
    rw [skipUntil.eq_def stops angles us, h.atBodyEnd_eq, h.front_eq, if_neg hs, h.atGroup_eq, if_pos hg]
    simp only [hgroup.result_eq.trans ha]
    exact ih _ hgroup.rest
  | case3 ts hs hg s d hd =>
    have hgroup := upTo_skipGroup h
    rw [skipUntil.eq_def stops angles us, h.atBodyEnd_eq, h.front_eq, if_neg hs, h.atGroup_eq, if_pos hg]
    simp only [hgroup.result_eq.trans hd]
    exact ⟨rfl, hgroup.rest⟩
  | case4 ts hs hg ih =>
    rw [skipUntil.eq_def stops angles us, h.atBodyEnd_eq, h.front_eq, if_neg hs, h.atGroup_eq, if_neg hg]
    exact ih _ (h.tail fun hend => hs (by simp [atBodyEnd, hend]))

theorem upTo_skipToSemicolon (h : Token.UpTo last after after' ts us) :
    Step.UpTo last after after' (skipToSemicolon ts) (skipToSemicolon us) := by
  refine (upTo_skipUntil _ _ _ h).andThen fun _ vs ws _ hrest => ?_
  rw [hrest.atMark_eq, hrest.front_eq, h.front_eq]
  split
  · next hm => exact Step.upTo_done _ (hrest.tail_of_atMark hm)
  · exact Step.upTo_failExpecting _ hrest

theorem upTo_recover (h : Token.UpTo last after after' ts us) :
    Token.UpTo last after after' (recover ts) (recover us) := by
  have hpassed := upTo_skipUntil (fun p => p == .semicolon || p == .leftBrace) false us h
  unfold recover
  simp only [hpassed.result_eq, hpassed.rest.atMark_eq]
  split
  · exact hpassed.rest
  · split
    · next hm => exact hpassed.rest.tail_of_atMark hm
    · split
      · exact (upTo_skipGroup hpassed.rest).rest
      · exact hpassed.rest

end Nesting

/-! ## Members -/

theorem Head.upTo_read (k : Head) (us : List Token) (h : Token.UpTo last after after' ts us) :
    Step.UpTo last after after' (k.read ts) (k.read us) := by
  fun_induction Head.read k ts generalizing us with
  | case1 k ts hb =>
    rw [Head.read.eq_def _ us, h.atBodyEnd_eq, if_pos hb]
    exact Step.upTo_failExpecting _ h
  | case2 k ts hb ht =>
    rw [Head.read.eq_def _ us, h.atBodyEnd_eq, if_neg hb, h.front_eq, ht]
    exact Step.upTo_done k h
  | case3 k ts hb ht s a ha ih =>
    have hgroup := Nesting.upTo_skipGroup h
    rw [Head.read.eq_def _ us, h.atBodyEnd_eq, if_neg hb, h.front_eq, ht]
    simp only [hgroup.result_eq.trans ha]
    exact ih _ hgroup.rest
  | case4 k ts hb ht s d hd =>
    have hgroup := Nesting.upTo_skipGroup h
    rw [Head.read.eq_def _ us, h.atBodyEnd_eq, if_neg hb, h.front_eq, ht]
    simp only [hgroup.result_eq.trans hd]
    exact ⟨rfl, hgroup.rest⟩
  | case5 k ts hb ht ih =>
    rw [Head.read.eq_def _ us, h.atBodyEnd_eq, if_neg hb, h.front_eq, ht]
    exact ih _ (h.tail (Token.not_atEnd_of_not_atBodyEnd hb))
  | case6 k ts hb ht ih =>
    rw [Head.read.eq_def _ us, h.atBodyEnd_eq, if_neg hb, h.front_eq, ht]
    exact ih _ (h.tail (Token.not_atEnd_of_not_atBodyEnd hb))

namespace Member

theorem upTo_methodRest (h : Token.UpTo last after after' ts us) :
    Step.UpTo last after after' (methodRest ts) (methodRest us) := by
  refine (Nesting.upTo_skipGroup h).andThen fun parameters _ _ _ h => ?_
  refine (Nesting.upTo_skipUntil _ _ _ h).andThen fun _ _ _ _ h => ?_
  rw [h.atMark_eq, h.atMark_eq, h.atMark_eq]
  split
  · exact (Nesting.upTo_skipGroup h).andThen fun _ _ _ _ h => Step.upTo_done _ h
  · split
    · exact (Nesting.upTo_skipToSemicolon h).andThen fun _ _ _ _ h => Step.upTo_done _ h
    · exact Step.upTo_failExpecting _ h

theorem upTo_propertyRest (h : Token.UpTo last after after' ts us) :
    Step.UpTo last after after' (propertyRest ts) (propertyRest us) := by
  refine (Nesting.upTo_skipGroup h).andThen fun accessors _ _ _ h => ?_
  rw [h.atMark_eq]
  split
  · exact (Nesting.upTo_skipToSemicolon h).andThen fun _ _ _ _ h => Step.upTo_done _ h
  · exact Step.upTo_done _ h

theorem upTo_rest (h : Token.UpTo last after after' ts us) :
    Step.UpTo last after after' (rest ts) (rest us) := by
  unfold rest
  rw [h.atMark_eq, h.atMark_eq]
  split
  · exact upTo_methodRest h
  · split
    · exact upTo_propertyRest h
    · exact Nesting.upTo_skipToSemicolon h

theorem upTo_read (typeName : String) (mods : List Keyword) (start : Span) (forced : Option DeclarationKind)
    (h : Token.UpTo last after after' ts us) :
    Step.UpTo last after after' (read typeName mods start forced ts) (read typeName mods start forced us) := by
  refine (Head.upTo_read {} us h).andThen fun head vs ws _ h => ?_
  have hkind : head.kind typeName ws = head.kind typeName vs := by
    rw [Head.kind, Head.kind, h.atMark_eq, h.atMark_eq, h.atMark_eq]
  rw [h.front_eq, hkind]
  cases head.name with
  | none => exact Step.upTo_fail _ _ h
  | some name => exact (upTo_rest h).andThen fun _ _ _ _ h => Step.upTo_done _ h

end Member

/-! ## Declarations -/

/-- A reader finds the same in rows that are the same up to the end of the text, and leaves such rows. -/
def Reader.StopsAtEnd (r : Reader) (last : Token) (after after' : List Token) : Prop :=
  ∀ scope braced owner ts us, Token.UpTo last after after' ts us →
    (r.read scope braced owner us).found = (r.read scope braced owner ts).found ∧
      Token.UpTo last after after' (r.read scope braced owner ts).rest (r.read scope braced owner us).rest

namespace Reader

theorem upTo_dottedName (name : String) (h : Token.UpTo last after after' ts us) :
    Step.UpTo last after after' (dottedName name ts) (dottedName name us) := by
  fun_induction dottedName name ts generalizing us with
  | case1 name ts hm n hn ih =>
    have htail := h.tail_of_atMark hm
    rw [dottedName.eq_def name us, h.atMark_eq, if_pos hm, htail.front_eq]
    simp only [hn]
    exact ih (htail.tail (Token.not_atEnd_of_name? hn))
  | case2 name ts hm hn =>
    have htail := h.tail_of_atMark hm
    rw [dottedName.eq_def name us, h.atMark_eq, if_pos hm, htail.front_eq]
    simp only [hn]
    exact Step.upTo_failExpecting _ htail
  | case3 name ts hm =>
    rw [dottedName.eq_def name us, h.atMark_eq, if_neg hm]
    exact Step.upTo_done name h

theorem upTo_qualifiedName (h : Token.UpTo last after after' ts us) :
    Step.UpTo last after after' (qualifiedName ts) (qualifiedName us) :=
  (Step.upTo_name _ h).andThen fun name _ _ _ h => upTo_dottedName name h

/-- The last token of a text is the one in front of its end. -/
theorem lastToken_eq (h : Token.UpTo last after after' ts us) : lastToken us = lastToken ts := by
  have htaken : us.takeWhile (fun t => t.kind != .endOfText) = ts.takeWhile fun t => t.kind != .endOfText := by
    induction h with
    | last hlast => simp [hlast]
    | cons ht _ ih => simp [ht, ih]
  rw [lastToken, lastToken, htaken, h.front_eq]

variable {inner : Option Reader}

theorem upTo_inBraces {r : Reader} (hr : r.StopsAtEnd last after after') (scope : Scope) (owner : String)
    (h : Token.UpTo last after after' ts us) (hm : atMark .leftBrace ts = true) :
    Step.UpTo last after after' (inBraces r scope owner ts) (inBraces r scope owner us) := by
  obtain ⟨hfound, hrest⟩ := hr scope true owner ts.tail us.tail (h.tail_of_atMark hm)
  unfold inBraces
  simp only [hfound, hrest.atMark_eq, hrest.front_eq, h.front_eq]
  split
  · next hb => exact Step.upTo_done _ (hrest.tail_of_atMark hb)
  · exact Step.upTo_done _ hrest

theorem upTo_namespaceDeclaration (hi : ∀ r ∈ inner, r.StopsAtEnd last after after') (scope : Scope) (start : Span)
    (h : Token.UpTo last after after' ts us) (hk : atKeyword .namespaceKw ts = true) :
    Step.UpTo last after after' (namespaceDeclaration inner scope start ts)
      (namespaceDeclaration inner scope start us) := by
  refine (upTo_qualifiedName (h.tail (Token.not_atEnd_of_atKeyword hk))).andThen fun name vs ws _ h => ?_
  rw [h.atMark_eq, h.atMark_eq, h.front_eq, lastToken_eq h]
  split
  · next hm => exact Step.upTo_fail _ _ (h.tail_of_atMark (Bool.and_eq_true_iff.mp hm).1)
  · cases inner with
    | none => exact Step.upTo_fail _ _ h
    | some r =>
      have hr := hi r rfl
      dsimp only
      split
      · next hm =>
        obtain ⟨hfound, hrest⟩ := hr .namespaceBody false name vs.tail ws.tail (h.tail_of_atMark hm)
        rw [hfound]
        exact Step.upTo_done _ hrest
      · split
        · next hm => exact (upTo_inBraces hr _ _ h hm).andThen fun _ _ _ _ h => Step.upTo_done _ (h.skipMark _)
        · exact Step.upTo_failExpecting _ h

theorem upTo_typeBody (hi : ∀ r ∈ inner, r.StopsAtEnd last after after') (kind : TypeKind) (name : String)
    (h : Token.UpTo last after after' ts us) (hm : atMark .leftBrace ts = true) :
    Step.UpTo last after after' (typeBody inner kind name ts) (typeBody inner kind name us) := by
  unfold typeBody
  split
  · exact (Nesting.upTo_skipGroup h).andThen fun _ _ _ _ h => Step.upTo_done _ h
  · cases inner with
    | none =>
      rw [h.front_eq]
      exact Step.upTo_fail _ _ h
    | some r => exact upTo_inBraces (hi r rfl) _ _ h hm

theorem upTo_typeDeclaration (hi : ∀ r ∈ inner, r.StopsAtEnd last after after') (kind : TypeKind)
    (mods : List Keyword) (start : Span) (h : Token.UpTo last after after' ts us) (hend : ¬ atEnd ts = true) :
    Step.UpTo last after after' (typeDeclaration inner kind mods start ts)
      (typeDeclaration inner kind mods start us) := by
  refine (Step.upTo_name _ (h.tail hend)).andThen fun name _ _ _ h => ?_
  refine (Nesting.upTo_skipUntil _ _ _ h).andThen fun _ vs ws _ h => ?_
  rw [h.atMark_eq, h.atMark_eq, h.front_eq]
  split
  · next hm => exact Step.upTo_done _ (h.tail_of_atMark hm)
  · split
    · next hm => exact (upTo_typeBody hi _ _ h hm).andThen fun _ _ _ _ h => Step.upTo_done _ (h.skipMark _)
    · exact Step.upTo_failExpecting _ h

theorem upTo_skipAttributes (us : List Token) (h : Token.UpTo last after after' ts us) :
    Step.UpTo last after after' (skipAttributes ts) (skipAttributes us) := by
  fun_induction skipAttributes ts generalizing us with
  | case1 ts hm s a ha ih =>
    have hgroup := Nesting.upTo_skipGroup h
    rw [skipAttributes.eq_def us, h.atMark_eq, if_pos hm]
    simp only [hgroup.result_eq.trans ha]
    exact ih _ hgroup.rest
  | case2 ts hm s d hd =>
    have hgroup := Nesting.upTo_skipGroup h
    rw [skipAttributes.eq_def us, h.atMark_eq, if_pos hm]
    simp only [hgroup.result_eq.trans hd]
    exact ⟨rfl, hgroup.rest⟩
  | case3 ts hm =>
    rw [skipAttributes.eq_def us, h.atMark_eq, if_neg hm]
    exact Step.upTo_done () h

theorem upTo_modifiers (h : Token.UpTo last after after' ts us) :
    (modifiers us).1 = (modifiers ts).1 ∧ Token.UpTo last after after' (modifiers ts).2 (modifiers us).2 := by
  induction h with
  | last hlast =>
    simp only [modifiers, hlast, true_and]
    exact .last hlast
  | @cons t ts us ht h ih =>
    have hstay : Token.UpTo last after after' (t :: ts) (t :: us) := .cons ht h
    cases hk : t.kind with
    | keyword k =>
      simp only [modifiers, hk]
      split
      · exact ⟨congrArg (k :: ·) ih.1, ih.2⟩
      · exact ⟨rfl, hstay⟩
    | identifier name =>
      simp only [modifiers, hk, h.atKeyword_eq]
      split
      · exact ih
      · exact ⟨rfl, hstay⟩
    | _ =>
      simp only [modifiers, hk, true_and]
      exact hstay

theorem upTo_member (owner : String) (mods : List Keyword) (start : Span) (forced : Option DeclarationKind)
    (h : Token.UpTo last after after' ts us) :
    Step.UpTo last after after' (member owner mods start forced ts) (member owner mods start forced us) :=
  (Member.upTo_read owner mods start forced h).andThen fun _ _ _ _ h => Step.upTo_done _ h

theorem atRecordFlavour_eq (h : Token.UpTo last after after' ts us) (hend : ¬ atEnd ts = true) :
    atRecordFlavour us = atRecordFlavour ts := by
  rw [atRecordFlavour, atRecordFlavour, h.second_eq hend]

theorem atRecord_eq (h : Token.UpTo last after after' ts us) : atRecord us = atRecord ts := by
  unfold atRecord
  rw [h.atKeyword_eq]
  cases hk : atKeyword .recordKw ts with
  | false => rfl
  | true =>
    have hend := Token.not_atEnd_of_atKeyword hk
    rw [atRecordFlavour_eq h hend, h.second_eq hend]

theorem atDirective_eq (h : Token.UpTo last after after' ts us) : atDirective us = atDirective ts := by
  by_cases hend : atEnd ts = true
  · have hkind := Token.kind_of_atEnd hend
    have hfront (row : List Token) (hrow : (front row).kind = .endOfText) : atDirective row = false := by
      simp [atDirective, atKeyword, atIdentifier, hrow]
    rw [hfront ts hkind, hfront us (by rw [h.front_eq, hkind])]
  · rw [atDirective, atDirective, h.atKeyword_eq, h.atKeyword_eq, atIdentifier, atIdentifier, h.front_eq,
      h.second_eq hend]

theorem upTo_declaration (hi : ∀ r ∈ inner, r.StopsAtEnd last after after') (scope : Scope) (owner : String)
    (mods : List Keyword) (start : Span) (h : Token.UpTo last after after' ts us) :
    Step.UpTo last after after' (declaration inner scope owner mods start ts)
      (declaration inner scope owner mods start us) := by
  unfold declaration
  rw [h.front_eq, atRecord_eq h, h.atKeyword_eq, h.atKeyword_eq, h.atKeyword_eq]
  split
  · next kind hk =>
    refine upTo_typeDeclaration hi _ _ _ h fun hend => ?_
    rw [Token.kind_of_atEnd hend] at hk
    cases hk
  · split
    · next hr =>
      have hk : atKeyword .recordKw ts = true := by simp_all [atRecord]
      have hend := Token.not_atEnd_of_atKeyword hk
      rw [atRecordFlavour_eq h hend]
      split
      · next hf => exact upTo_typeDeclaration hi _ _ _ (h.tail hend) (not_atEnd_tail_of_atRecordFlavour hk hf)
      · exact upTo_typeDeclaration hi _ _ _ h hend
    · split
      · next hn => exact upTo_namespaceDeclaration hi _ _ h (by simp_all)
      · split
        · next hd =>
          refine upTo_member _ _ _ _ (h.tail ?_)
          rcases Bool.or_eq_true _ _ ▸ hd with hd | hd
          · exact Token.not_atEnd_of_atKeyword hd
          · exact Token.not_atEnd_of_atKeyword (k := .eventKw) (by simp_all)
        · split
          · exact upTo_member _ _ _ _ h
          · exact Step.upTo_failExpecting _ h

theorem upTo_item (hi : ∀ r ∈ inner, r.StopsAtEnd last after after') (scope : Scope) (owner : String)
    (h : Token.UpTo last after after' ts us) :
    Step.UpTo last after after' (item inner scope owner ts) (item inner scope owner us) := by
  unfold item
  rw [atDirective_eq h]
  split
  · exact (Nesting.upTo_skipToSemicolon h).andThen fun _ _ _ _ h => Step.upTo_done _ h
  · refine (upTo_skipAttributes us h).andThen fun _ _ _ _ h => ?_
    rw [h.atBodyEnd_eq]
    split
    · exact Step.upTo_done _ h
    · obtain ⟨hmods, hrest⟩ := upTo_modifiers h
      rw [hmods, h.front_eq]
      exact upTo_declaration hi _ _ _ _ hrest

/-! ## Lists of declarations -/

/-- One round of reading a list: what has been found after it, and the tokens it leaves. There is none where the list
ends. -/
def round? (inner : Option Reader) (scope : Scope) (braced : Bool) (owner : String) (found : Found)
    (ts : List Token) : Option Body :=
  if atEnd ts then none
  else if atMark .rightBrace ts then
    if braced then none else some ⟨found.report (Fault.strayBrace.report (front ts).span), ts.tail⟩
  else
    let s := item inner scope owner ts
    match s.result with
    | .ok x => some ⟨found.append x, s.rest⟩
    | .error d => some ⟨found.report d, Nesting.recover s.rest⟩

variable {scope : Scope} {braced : Bool} {owner : String} {found : Found} {b : Body}

theorem readFrom_of_round_none (h : round? inner scope braced owner found ts = none) :
    readFrom inner scope braced owner found ts = ⟨found, ts⟩ := by
  unfold round? at h
  rw [readFrom]
  split at h
  · next he => rw [if_pos he]
  · next he =>
    rw [if_neg he]
    split at h
    · next hb =>
      rw [if_pos hb]
      split at h
      · next hbr => rw [if_pos hbr]
      · cases h
    · dsimp only at h
      split at h <;> cases h

/-- What a round does: it passes a closing brace that belongs to nothing, it reads an item, or it recovers from one
that cannot be read. -/
theorem round_cases (h : round? inner scope braced owner found ts = some b) :
    (¬ atEnd ts = true ∧ atMark .rightBrace ts = true ∧ braced = false ∧
        b = ⟨found.report (Fault.strayBrace.report (front ts).span), ts.tail⟩) ∨
      ¬ atBodyEnd ts = true ∧
        ((∃ x, (item inner scope owner ts).result = .ok x ∧
            b = ⟨found.append x, (item inner scope owner ts).rest⟩) ∨
          ∃ d, (item inner scope owner ts).result = .error d ∧
            b = ⟨found.report d, Nesting.recover (item inner scope owner ts).rest⟩) := by
  unfold round? at h
  split at h
  · cases h
  · next he =>
    split at h
    · next hb =>
      split at h
      · cases h
      · next hbr =>
        cases h
        exact .inl ⟨he, hb, by simpa using hbr, rfl⟩
    · next hb =>
      refine .inr ⟨by simp [atBodyEnd, he, hb], ?_⟩
      dsimp only at h
      split at h
      · next x hx =>
        cases h
        exact .inl ⟨x, hx, rfl⟩
      · next d hd =>
        cases h
        exact .inr ⟨d, hd, rfl⟩

/-- Behind a round the reading goes on with what the round leaves. -/
theorem readFrom_of_round (h : round? inner scope braced owner found ts = some b) :
    readFrom inner scope braced owner found ts = readFrom inner scope braced owner b.found b.rest := by
  rcases round_cases h with ⟨he, hb, rfl, rfl⟩ | ⟨hbody, ⟨x, hx, rfl⟩ | ⟨d, hd, rfl⟩⟩
  · rw [readFrom, if_neg he, if_pos hb, if_neg Bool.false_ne_true]
  · exact readFrom_of_ok hbody hx
  · exact readFrom_of_error hbody hd

/-- A round leaves less than it was given. -/
theorem length_rest_round_lt (h : round? inner scope braced owner found ts = some b) :
    b.rest.length < ts.length := by
  rcases round_cases h with ⟨he, -, -, rfl⟩ | ⟨hbody, ⟨x, hx, rfl⟩ | ⟨d, -, rfl⟩⟩
  · exact Token.length_tail_lt he
  · exact length_rest_item_lt hbody hx
  · exact length_recover_item_lt hbody

theorem rest_round_suffix (h : round? inner scope braced owner found ts = some b) : b.rest <:+ ts := by
  rcases round_cases h with ⟨-, -, -, rfl⟩ | ⟨-, ⟨x, -, rfl⟩ | ⟨d, -, rfl⟩⟩
  · exact List.tail_suffix ts
  · exact rest_item_suffix _ _ _ ts
  · exact (Nesting.recover_suffix _).trans (rest_item_suffix _ _ _ ts)

/-- Rounds go alike in rows that are the same up to the end of the text. -/
theorem upTo_round (hi : ∀ r ∈ inner, r.StopsAtEnd last after after') (h : Token.UpTo last after after' ts us) :
    (round? inner scope braced owner found ts = none ∧ round? inner scope braced owner found us = none) ∨
      ∃ b c, round? inner scope braced owner found ts = some b ∧ round? inner scope braced owner found us = some c ∧
        c.found = b.found ∧ Token.UpTo last after after' b.rest c.rest := by
  have hitem := upTo_item hi scope owner h
  unfold round?
  simp only [h.atEnd_eq, h.atMark_eq, h.front_eq, hitem.result_eq]
  split
  · exact .inl ⟨rfl, rfl⟩
  · next he =>
    split
    · split
      · exact .inl ⟨rfl, rfl⟩
      · exact .inr ⟨_, _, rfl, rfl, rfl, h.tail he⟩
    · split
      · exact .inr ⟨_, _, rfl, rfl, rfl, hitem.rest⟩
      · exact .inr ⟨_, _, rfl, rfl, rfl, Nesting.upTo_recover hitem.rest⟩

theorem upTo_readFrom (hi : ∀ r ∈ inner, r.StopsAtEnd last after after') (scope : Scope) (braced : Bool)
    (owner : String) (found : Found) (h : Token.UpTo last after after' ts us) :
    (readFrom inner scope braced owner found us).found = (readFrom inner scope braced owner found ts).found ∧
      Token.UpTo last after after' (readFrom inner scope braced owner found ts).rest
        (readFrom inner scope braced owner found us).rest := by
  induction hn : ts.length using Nat.strongRecOn generalizing found ts us with
  | _ n ih =>
    rcases upTo_round hi h with ⟨hts, hus⟩ | ⟨b, c, hb, hc, hfound, hrest⟩
    · rw [readFrom_of_round_none hts, readFrom_of_round_none hus]
      exact ⟨rfl, h⟩
    · rw [readFrom_of_round hb, readFrom_of_round hc, hfound]
      exact ih _ (hn ▸ length_rest_round_lt hb) b.found hrest rfl

theorem stopsAtEnd_ofLevels (last : Token) (after after' : List Token) (levels : Nat) :
    (ofLevels levels).StopsAtEnd last after after' := by
  induction levels with
  | zero =>
    intro scope braced owner ts us h
    have hi : ∀ r ∈ (none : Option Reader), r.StopsAtEnd last after after' := by simp
    exact upTo_readFrom hi scope braced owner {} h
  | succ levels ih =>
    intro scope braced owner ts us h
    have hi : ∀ r ∈ some (ofLevels levels), r.StopsAtEnd last after after' := by simpa using ih
    exact upTo_readFrom hi scope braced owner {} h

theorem stopsAtEnd_of_mem_below {levels : Nat} {r : Reader} (hr : r ∈ below levels) :
    r.StopsAtEnd last after after' := by
  cases levels with
  | zero => cases hr
  | succ levels =>
    cases hr
    exact stopsAtEnd_ofLevels last after after' levels

/-- A list that is not in braces is read to the end of the text. -/
theorem atEnd_rest_readFrom (inner : Option Reader) (scope : Scope) (owner : String) (found : Found)
    (ts : List Token) : atEnd (readFrom inner scope false owner found ts).rest = true := by
  fun_induction readFrom inner scope false owner found ts <;> simp_all

end Reader

/-! ## Where reading stands -/

namespace Token

/-- Where the text ends: how many tokens stand in front of its first end token. -/
def endIndex (ts : List Token) : Nat := ts.findIdx fun t => t.kind == .endOfText

/-- From `ts` to `rest` reading moves on by at least one token, but not past the end of the text. -/
def Advances (ts rest : List Token) : Prop := ∃ passed, passed ≠ [] ∧ Inside passed ∧ ts = passed ++ rest

theorem endIndex_append {before : List Token} (hbefore : Inside before) (hlast : last.kind = .endOfText)
    (after : List Token) : endIndex (before ++ last :: after) = before.length := by
  induction before with
  | nil => simp [endIndex, List.findIdx_cons, hlast]
  | cons t before ih =>
    have ht : (t.kind == .endOfText) = false := by simpa using hbefore t (by simp)
    have hmore := ih fun u hu => hbefore u (by simp [hu])
    rw [endIndex] at hmore ⊢
    rw [List.cons_append, List.findIdx_cons, ht, hmore]
    rfl

/-- A text that ends somewhere has a first end. -/
theorem exists_end (h : ∃ t ∈ ts, t.kind = .endOfText) : ∃ before last after, ts = before ++ last :: after ∧
    Inside before ∧ last.kind = .endOfText := by
  obtain ⟨t, ht, hkind⟩ := h
  have hfound : (ts.find? fun t => t.kind == .endOfText).isSome := by simpa using ⟨t, ht, hkind⟩
  obtain ⟨last, hlast⟩ := Option.isSome_iff_exists.mp hfound
  obtain ⟨hend, before, after, rfl, hbefore⟩ := List.find?_eq_some_iff_append.mp hlast
  exact ⟨before, last, after, rfl, by simpa [Inside] using hbefore, by simpa using hend⟩

theorem UpTo.append {before : List Token} (hbefore : Inside before) (h : UpTo last after after' ts us) :
    UpTo last after after' (before ++ ts) (before ++ us) := by
  induction before with
  | nil => exact h
  | cons t before ih => exact .cons (hbefore t (by simp)) (ih fun u hu => hbefore u (by simp [hu]))

/-- What is left of a row and still holds the end of the text is reached by passing tokens in front of it. -/
theorem UpTo.advances {before rest rest' : List Token} (hbefore : Inside before)
    (hsuffix : rest <:+ before ++ last :: after) (hlt : rest.length < (before ++ last :: after).length)
    (h : UpTo last after after' rest rest') :
    Advances (before ++ last :: after) rest := by
  obtain ⟨passed, hpassed⟩ := hsuffix
  obtain ⟨between, rfl, -⟩ := h.exists_inside
  have hsplit : passed ++ between = before := by
    rw [← List.append_assoc] at hpassed
    exact List.append_cancel_right hpassed
  refine ⟨passed, ?_, ?_, hpassed.symm⟩
  · rintro rfl
    rw [← hpassed] at hlt
    simp at hlt
  · intro t ht
    exact hbefore t (by simp [← hsplit, ht])

end Token

namespace Reader

/-- Each round of a list moves on, and not past the end of the text. -/
theorem advances_of_round {levels : Nat} {scope : Scope} {braced : Bool} {owner : String} {found : Found} {b : Body}
    (hend : ∃ t ∈ ts, t.kind = .endOfText) (h : round? (below levels) scope braced owner found ts = some b) :
    Token.Advances ts b.rest := by
  obtain ⟨before, last, after, rfl, hbefore, hlast⟩ := Token.exists_end hend
  have hself : UpTo last after after (before ++ last :: after) (before ++ last :: after) :=
    .append hbefore (.last hlast)
  have hi (r : Reader) (hr : r ∈ below levels) : r.StopsAtEnd last after after := stopsAtEnd_of_mem_below hr
  have hround : (round? (below levels) scope braced owner found (before ++ last :: after) = none ∧ _) ∨ _ :=
    upTo_round hi hself
  rcases hround with ⟨hnone, -⟩ | ⟨b', c, hb, -, -, hrest⟩
  · rw [hnone] at h
    cases h
  · obtain rfl : b' = b := Option.some.inj (hb.symm.trans h)
    exact hrest.advances hbefore (rest_round_suffix h) (length_rest_round_lt h)

/-- Where an item cannot be read and nothing of it was taken, recovery moves on: an item never begins at the end of a
list. -/
theorem advances_recover (hend : ∃ t ∈ ts, t.kind = .endOfText) (hbody : ¬ atBodyEnd ts = true) :
    Token.Advances ts (Nesting.recover ts) := by
  obtain ⟨before, last, after, rfl, hbefore, hlast⟩ := Token.exists_end hend
  have hself : UpTo last after after (before ++ last :: after) (before ++ last :: after) :=
    .append hbefore (.last hlast)
  exact (Nesting.upTo_recover hself).advances hbefore (Nesting.recover_suffix _) (Nesting.length_recover_lt hbody)

/-- A whole text is read to its end. -/
theorem rest_read_text (levels : Nat) (owner : String) (hend : ∃ t ∈ ts, t.kind = .endOfText) :
    ((ofLevels levels).read .text false owner ts).rest = ts.drop (Token.endIndex ts) := by
  obtain ⟨before, last, after, rfl, hbefore, hlast⟩ := Token.exists_end hend
  have hself : UpTo last after after (before ++ last :: after) (before ++ last :: after) :=
    .append hbefore (.last hlast)
  obtain ⟨-, hrest⟩ := stopsAtEnd_ofLevels last after after levels .text false owner _ _ hself
  have hstop : atEnd ((ofLevels levels).read .text false owner (before ++ last :: after)).rest = true := by
    rw [read_ofLevels]
    exact atEnd_rest_readFrom _ _ _ _ _
  rw [(hrest.eq_of_atEnd hstop).1, Token.endIndex_append hbefore hlast, List.drop_left]

end Reader

/-- What stands behind the end of a text makes no difference to what it declares and to what is reported. -/
theorem ofTokens_take_endIndex (hend : ∃ t ∈ ts, t.kind = .endOfText) :
    DeclarationTree.ofTokens (ts.take (Token.endIndex ts + 1)) = DeclarationTree.ofTokens ts := by
  obtain ⟨before, last, after, rfl, hbefore, hlast⟩ := Token.exists_end hend
  have hcut : (before ++ last :: after).take (before.length + 1) = before ++ [last] := by
    rw [List.take_length_add_append, List.take_succ_cons, List.take_zero]
  have halike : UpTo last after [] (before ++ last :: after) (before ++ [last]) := .append hbefore (.last hlast)
  obtain ⟨hfound, hrest⟩ := Reader.stopsAtEnd_ofLevels last after [] maxNesting .text false "" _ _ halike
  rw [Token.endIndex_append hbefore hlast, hcut, DeclarationTree.ofTokens, DeclarationTree.ofTokens, readDeclarations,
    readDeclarations]
  simp only [hfound, hrest.front_eq]

/-- The first end token is where reading stands in the end, and nothing behind it is looked at. In every list of
declarations, at every depth, each round moves on without passing it; where an item cannot be read and nothing of it
was taken, recovery does. -/
theorem reading_ends_at_endIndex (ts : List Token) (hend : ∃ t ∈ ts, t.kind = .endOfText) :
    (∀ levels scope braced owner found us, (∃ t ∈ us, t.kind = .endOfText) →
      (Reader.round? (Reader.below levels) scope braced owner found us = none →
        Reader.readFrom (Reader.below levels) scope braced owner found us = ⟨found, us⟩) ∧
      ∀ b, Reader.round? (Reader.below levels) scope braced owner found us = some b →
        Reader.readFrom (Reader.below levels) scope braced owner found us =
            Reader.readFrom (Reader.below levels) scope braced owner b.found b.rest ∧
          Token.Advances us b.rest) ∧
    (∀ us, (∃ t ∈ us, t.kind = .endOfText) → ¬ atBodyEnd us = true → Token.Advances us (Nesting.recover us)) ∧
    ((Reader.ofLevels maxNesting).read .text false "" ts).rest = ts.drop (Token.endIndex ts) ∧
    DeclarationTree.ofTokens (ts.take (Token.endIndex ts + 1)) = DeclarationTree.ofTokens ts := by
  refine ⟨fun levels scope braced owner found us hus => ⟨Reader.readFrom_of_round_none, fun b hb => ?_⟩, ?_, ?_, ?_⟩
  · exact ⟨Reader.readFrom_of_round hb, Reader.advances_of_round hus hb⟩
  · exact fun us hus hbody => Reader.advances_recover hus hbody
  · exact Reader.rest_read_text maxNesting "" hend
  · exact ofTokens_take_endIndex hend

/-- The tokens of `class {`, and a closing brace behind the end of the text. -/
def Token.unnamedClass : List Token :=
  [⟨.keyword .classKw, ⟨0, 5⟩⟩, ⟨.punctuation .leftBrace, ⟨6, 7⟩⟩, ⟨.endOfText, ⟨7, 7⟩⟩,
    ⟨.punctuation .rightBrace, ⟨7, 8⟩⟩]

theorem reading_ends_at_endIndex_unnamedClass :
    (∃ t ∈ Token.unnamedClass, t.kind = .endOfText) ∧
      ((Reader.ofLevels maxNesting).read .text false "" Token.unnamedClass).rest = Token.unnamedClass.drop 2 ∧
      DeclarationTree.ofTokens (Token.unnamedClass.take 3) = DeclarationTree.ofTokens Token.unnamedClass := by
  have hend : ∃ t ∈ Token.unnamedClass, t.kind = .endOfText := by decide
  have hindex : Token.endIndex Token.unnamedClass = 2 := by decide
  obtain ⟨-, -, hrest, htree⟩ := reading_ends_at_endIndex Token.unnamedClass hend
  rw [hindex] at hrest htree
  exact ⟨hend, hrest, htree⟩

end TestScaffold
