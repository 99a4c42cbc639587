import TestScaffold.Declaration.Reader
import TestScaffold.Proofs.Reading.Balanced
import TestScaffold.Proofs.Reading.Reads

/-!
# How declarations are laid out

The tokens of a list of declarations fall into stretches, one behind the other. A declaration takes its attribute
lists and then its own tokens, among which those of the declarations inside it are laid out likewise. Between them
stand stretches that declare nothing, such as directives.

Results:
* `Nesting.exists_balanced_of_skipGroup`: a group that is passed holds balanced tokens.
* `Declaration.Fills`: what the tokens of one declaration tell about it.
* `LaidOut`: declarations laid out in tokens, to every depth.
* `LaidOut.pairwise`, `LaidOut.placed`, `LaidOut.within`: where the declarations lie.
-/

namespace TestScaffold

open Token (front back extent atEnd atMark Ordered Inside Closed)

/-! ## Attribute lists -/

namespace Nesting

/-- Tokens that end the groups whose closing delimiters are given, innermost first, with balanced tokens in front of
each of these. -/
def Closing : List Punctuation → List TokenKind → Prop
  | [], ks => ks = []
  | closer :: closers, ks => ∃ content more, ks = content ++ .punctuation closer :: more ∧
      Balanced (fun _ => true) content ∧ Closing closers more

theorem Closing.plain {closers : List Punctuation} {k : TokenKind} {ks : List TokenKind} (hne : closers ≠ [])
    (hk : isPlain k = true) (h : Closing closers ks) : Closing closers (k :: ks) := by
  cases closers with
  | nil => exact absurd rfl hne
  | cons closer closers =>
    obtain ⟨content, more, rfl, hcontent, hmore⟩ := h
    exact ⟨k :: content, more, rfl, .plain hk rfl hcontent, hmore⟩

theorem Closing.group {closers : List Punctuation} {opener closer : Punctuation} {ks : List TokenKind}
    (hne : closers ≠ []) (hc : groupCloser? opener = some closer) (h : Closing (closer :: closers) ks) :
    Closing closers (.punctuation opener :: ks) := by
  cases closers with
  | nil => exact absurd rfl hne
  | cons outer closers =>
    obtain ⟨inner, more, rfl, hinner, content, more', rfl, hcontent, hmore⟩ := h
    exact ⟨.punctuation opener :: (inner ++ .punctuation closer :: content), more', by simp,
      .group hc hinner hcontent, hmore⟩

theorem Closing.closes {closers : List Punctuation} {ks : List TokenKind} (h : Closing closers ks)
    (closer : Punctuation) : Closing (closer :: closers) (.punctuation closer :: ks) := ⟨[], ks, rfl, .nil, h⟩

theorem groupCloser?_of_effect {d : Open} {p closer : Punctuation} (h : effect false d p = .opens closer) :
    groupCloser? p = some closer := by
  unfold effect at h
  split at h
  · cases h
  · cases p <;> simp_all [Punctuation.closer?, groupCloser?, isCloser]

theorem isPlain_of_effect {d : Open} {p : Punctuation} (h : effect false d p = .passes) :
    isPlain (.punctuation p) = true := by
  unfold effect at h
  split at h
  · cases h
  · cases p <;> simp_all [Punctuation.closer?, groupCloser?, isCloser, isPlain]

/-- What is passed up to the end of a group that did not begin with an angle bracket ends the open groups one after
the other. -/
theorem closing_of_closeAll {first s : Span} {d : Open} {outer : List Open} {ts : List Token}
    (h : (closeAll false first d outer ts).result = .ok s) : ∃ used,
    ts = used ++ (closeAll false first d outer ts).rest ∧
      Closing (d.closer :: outer.map Open.closer) (used.map Token.kind) := by
  fun_induction closeAll false first d outer ts with
  | case1 d outer => cases h
  | case2 d outer t ts hk => cases h
  | case3 d t ts p hk he =>
    obtain rfl := eq_closer_of_effect he
    have hnil : Closing [] [] := rfl
    exact ⟨[t], rfl, by simpa [hk] using hnil.closes d.closer⟩
  | case4 d t ts p hk he e es ih =>
    obtain rfl := eq_closer_of_effect he
    obtain ⟨used, hts, hclosing⟩ := ih h
    exact ⟨t :: used, by rw [List.cons_append, ← hts], by simpa [hk] using hclosing.closes d.closer⟩
  | case5 d outer t ts p hk closer he ih =>
    obtain ⟨used, hts, hclosing⟩ := ih h
    refine ⟨t :: used, by rw [List.cons_append, ← hts], ?_⟩
    simpa [hk] using Closing.group (by simp) (groupCloser?_of_effect he) hclosing
  | case6 d outer t ts p hk he => cases h
  | case7 d outer t ts p hk he ih =>
    obtain ⟨used, hts, hclosing⟩ := ih h
    exact ⟨t :: used, by rw [List.cons_append, ← hts], hclosing.plain (by simp) (by rw [hk, isPlain_of_effect he])⟩
  | case8 d outer t ts h₁ h₂ ih =>
    obtain ⟨used, hts, hclosing⟩ := ih h
    refine ⟨t :: used, by rw [List.cons_append, ← hts], hclosing.plain (List.cons_ne_nil _ _) ?_⟩
    cases hk : t.kind with
    | endOfText => exact absurd hk h₁
    | punctuation p => exact absurd hk (h₂ p)
    | _ => rfl

/-- A group that is passed holds balanced tokens, unless it began with an angle bracket. -/
theorem exists_balanced_of_skipGroup {ts : List Token} {p closer : Punctuation} {s : Span}
    (h : (skipGroup ts).result = .ok s) (hp : (front ts).kind = .punctuation p) (hc : groupCloser? p = some closer) :
    ∃ used content, ts = used ++ (skipGroup ts).rest ∧ Balanced (fun _ => true) content ∧
      used.map Token.kind = .punctuation p :: (content ++ [.punctuation closer]) := by
  cases ts with
  | nil => cases h
  | cons t ts =>
    have hp : t.kind = .punctuation p := hp
    have hopen : Open.ofToken? t = some ⟨p, closer, t.span⟩ := by
      simp [Open.ofToken?, hp, TokenKind.punctuation?, closer?_of_groupCloser? hc]
    have hangle : (p == .leftAngle) = false := by simpa using (opener_ne_of_groupCloser? hc).2
    have hskip : skipGroup (t :: ts) = closeAll false t.span ⟨p, closer, t.span⟩ [] ts := by
      simp [skipGroup, front, hopen, hangle]
    rw [hskip] at h ⊢
    obtain ⟨used, hts, content, more, hkinds, hcontent, hnil⟩ := closing_of_closeAll h
    obtain rfl : more = [] := hnil
    exact ⟨t :: used, content, by rw [List.cons_append, ← hts], hcontent, by rw [List.map_cons, hp, hkinds]⟩

end Nesting

namespace Token

/-- Attribute lists in a row: brackets with balanced tokens in them. -/
inductive AttributeLists : List TokenKind → Prop
  | nil : AttributeLists []
  | cons {content ks : List TokenKind} (balanced : Nesting.Balanced (fun _ => true) content)
      (more : AttributeLists ks) :
      AttributeLists (.punctuation .leftBracket :: (content ++ .punctuation .rightBracket :: ks))

/-- Whether a row ends where the declarations of a list begin or where one of them ends: with a semicolon or a
brace. -/
def Opens (ts : List Token) : Prop := Closed ts ∨ (back ts).kind = .punctuation .leftBrace

/-- Whether a row ends with a semicolon, a closing brace or a closing bracket. -/
def Ended (ts : List Token) : Prop := Closed ts ∨ (back ts).kind = .punctuation .rightBracket

theorem Closed.ne_nil {ts : List Token} (h : Closed ts) : ts ≠ [] := by
  rintro rfl
  rcases h with h | h <;> cases h

theorem Opens.ne_nil {ts : List Token} (h : Opens ts) : ts ≠ [] := by
  rcases h with h | h
  · exact h.ne_nil
  · rintro rfl
    cases h

theorem Ended.ne_nil {ts : List Token} (h : Ended ts) : ts ≠ [] := by
  rcases h with h | h
  · exact h.ne_nil
  · rintro rfl
    cases h

theorem Closed.append {us : List Token} (h : Closed us) (ts : List Token) : Closed (ts ++ us) := by
  rw [Closed, back_append ts h.ne_nil]
  exact h

theorem Opens.append {us : List Token} (h : Opens us) (ts : List Token) : Opens (ts ++ us) := by
  rw [Opens, Closed, back_append ts h.ne_nil]
  exact h

theorem Ended.append {us : List Token} (h : Ended us) (ts : List Token) : Ended (ts ++ us) := by
  rw [Ended, Closed, back_append ts h.ne_nil]
  exact h

end Token

open Token (AttributeLists Opens Ended)

/-! ## The tokens of a declaration -/

/-- Whether a declaration may make up a text of its own: a namespace or a type. -/
def DeclarationKind.standsAlone : DeclarationKind → Bool
  | namespaceBlock | type _ => true
  | _ => false

/-- A declaration fills the tokens `own` behind its attribute lists, in front of `after`. -/
structure Declaration.Fills (d : Declaration) (attributes own after : List Token) : Prop where
  read : ∃ inner scope owner,
    (Reader.item inner scope owner (attributes ++ (own ++ after))).result = .ok { declarations := #[d] }
  attributes : AttributeLists (attributes.map Token.kind)
  not_atMark : ¬ atMark .leftBracket own = true
  modifiers : (Reader.modifiers own).1 = d.modifiers
  inside : Inside own
  ended : Ended own
  span : Ordered own → d.span = extent own
  /-- A namespace or a type begins with a keyword, or with `ref`. -/
  begins : d.kind.standsAlone = true → (∃ k, (front own).kind = .keyword k) ∨ (front own).kind = .identifier "ref"
  /-- A namespace or a type is read likewise where it makes up the text. -/
  alone : d.kind.standsAlone = true → ∀ us, atEnd us = true →
    (Reader.ofLevels maxNesting).read .text false "" (own ++ us) = ⟨{ declarations := #[d] }, us⟩

/-- Declarations laid out in tokens in front of `after`, one behind the other, with those inside them. Only at the end
of a list may something stand that ends with a bracket. -/
inductive LaidOut : (after : List Token) → List Token → List Declaration → Prop
  | nil {after : List Token} : LaidOut after [] []
  /-- Tokens that declare nothing. -/
  | pass {after passed more : List Token} {ds : List Declaration} (ended : Ended passed)
      (closed : Closed passed ∨ more = []) (rest : LaidOut after more ds) : LaidOut after (passed ++ more) ds
  | cons {after attributes head body foot more : List Token} {d : Declaration} {ds : List Declaration}
      (fills : d.Fills attributes (head ++ (body ++ foot)) (more ++ after)) (opens : Opens head)
      (inside : LaidOut (foot ++ (more ++ after)) body d.children)
      (closed : Closed (head ++ (body ++ foot)) ∨ more = []) (rest : LaidOut after more ds) :
      LaidOut after (attributes ++ (head ++ (body ++ foot) ++ more)) (d :: ds)

/-- A declaration stands among the tokens `all`, behind a semicolon or a brace unless it is the first. -/
def Declaration.Placed (d : Declaration) (all : List Token) : Prop := ∃ before attributes head body foot after,
  all = before ++ (attributes ++ (head ++ (body ++ foot) ++ after)) ∧ (before = [] ∨ Opens before) ∧
    d.Fills attributes (head ++ (body ++ foot)) after ∧ Opens head ∧ LaidOut (foot ++ after) body d.children

namespace LaidOut

variable {after ts all before : List Token} {ds : List Declaration} {d : Declaration}

theorem ended (h : LaidOut after ts ds) (hts : ts ≠ []) : Ended ts := by
  induction h with
  | nil => exact absurd rfl hts
  | @pass after passed more ds ended closed rest ih =>
    by_cases hmore : more = []
    · rwa [hmore, List.append_nil]
    · exact (ih hmore).append passed
  | @cons after attributes head body foot more d ds fills opens inside closed rest ihinside ih =>
    by_cases hmore : more = []
    · rw [hmore, List.append_nil]
      exact fills.ended.append attributes
    · exact ((ih hmore).append _).append attributes

theorem eq_nil (h : LaidOut after ts ds) (hts : ts = []) : ds = [] := by
  cases h with
  | nil => rfl
  | pass ended => exact absurd (List.append_eq_nil_iff.mp hts).1 ended.ne_nil
  | cons fills => exact absurd (List.append_eq_nil_iff.mp (List.append_eq_nil_iff.mp hts).2).1 fills.ended.ne_nil

/-- Every declaration that is laid out in tokens stands among them. -/
theorem placed (h : LaidOut after ts ds) (hall : all = before ++ (ts ++ after)) (hbefore : before = [] ∨ Opens before)
    (hd : d ∈ ds) : d.Placed all := by
  induction h generalizing before with
  | nil => cases hd
  | @pass after passed more ds ended closed rest ih =>
    rcases closed with hclosed | hmore
    · rw [List.append_assoc, ← List.append_assoc before] at hall
      exact ih hall (.inr (.append (.inl hclosed) before)) hd
    · rw [rest.eq_nil hmore] at hd
      cases hd
  | @cons after attributes head body foot more d ds fills opens inside closed rest ihinside ih =>
    rcases List.mem_cons.mp hd with rfl | hd
    · exact ⟨before, attributes, head, body, foot, more ++ after, by simpa using hall, hbefore, fills, opens, inside⟩
    · rcases closed with hclosed | hmore
      · have hall : all = (before ++ (attributes ++ (head ++ (body ++ foot)))) ++ (more ++ after) := by
          simpa using hall
        exact ih hall (.inr (.append (.append (.inl hclosed) attributes) before)) hd
      · rw [rest.eq_nil hmore] at hd
        cases hd

/-- The span of a declaration is the stretch that its own tokens take. -/
theorem exists_span_eq (h : LaidOut after ts ds) (hts : Ordered ts) (hd : d ∈ ds) :
    ∃ own, own ≠ [] ∧ own <:+: ts ∧ d.span = extent own := by
  induction h with
  | nil => cases hd
  | @pass after passed more ds ended closed rest ih =>
    obtain ⟨own, hne, hpart, hspan⟩ := ih hts.right hd
    exact ⟨own, hne, hpart.trans (List.suffix_append passed more).isInfix, hspan⟩
  | @cons after attributes head body foot more d ds fills opens inside closed rest ihinside ih =>
    rcases List.mem_cons.mp hd with rfl | hd
    · exact ⟨_, fills.ended.ne_nil, ⟨attributes, more, by simp⟩, fills.span hts.right.left⟩
    · obtain ⟨own, hne, hpart, hspan⟩ := ih hts.right.right hd
      exact ⟨own, hne, hpart.trans ⟨attributes ++ (head ++ (body ++ foot)), [], by simp⟩, hspan⟩

/-- A declaration that is laid out in tokens takes a stretch within theirs. -/
theorem within (h : LaidOut after ts ds) (hts : Ordered ts) (hd : d ∈ ds) : d.span.Within (extent ts) := by
  obtain ⟨own, hne, ⟨before, behind, rfl⟩, hspan⟩ := h.exists_span_eq hts hd
  rw [hspan]
  exact Token.extent_within hts hne

/-- Declarations that are laid out in tokens in their order take stretches in their order. -/
theorem pairwise (h : LaidOut after ts ds) (hts : Ordered ts) :
    ds.Pairwise fun d e => d.span.stop ≤ e.span.start := by
  induction h with
  | nil => exact .nil
  | pass ended closed rest ih => exact ih hts.right
  | @cons after attributes head body foot more d ds fills opens inside closed rest ihinside ih =>
    refine .cons (fun e he => ?_) (ih hts.right.right)
    obtain ⟨own, hne, hpart, hspan⟩ := rest.exists_span_eq hts.right.right he
    rw [fills.span hts.right.left, hspan]
    exact hts.right.stop_le (Token.back_mem fills.ended.ne_nil) (hpart.subset (Token.front_mem hne))

end LaidOut

namespace Declaration.Placed

variable {d e : Declaration} {all : List Token}

/-- What is declared inside a declaration stands among the same tokens. -/
theorem of_mem_children (h : d.Placed all) (he : e ∈ d.children) : e.Placed all := by
  obtain ⟨before, attributes, head, body, foot, after, rfl, -, -, opens, inside⟩ := h
  have hbody : before ++ (attributes ++ (head ++ (body ++ foot) ++ after)) =
      (before ++ (attributes ++ head)) ++ (body ++ (foot ++ after)) := by simp
  exact inside.placed hbody (.inr ((opens.append attributes).append before)) he

/-- What is declared inside a declaration takes a stretch within its. -/
theorem within (h : d.Placed all) (hall : Ordered all) (he : e ∈ d.children) : e.span.Within d.span := by
  obtain ⟨before, attributes, head, body, foot, after, rfl, -, fills, -, inside⟩ := h
  have hown := hall.right.right.left
  rw [fills.span hown]
  rw [← List.append_assoc] at hown ⊢
  have hne : body ≠ [] := by
    intro hnil
    rw [inside.eq_nil hnil] at he
    cases he
  exact (inside.within hown.left.right he).trans (Token.extent_within hown hne)

/-- What is declared inside a declaration takes stretches in its order. -/
theorem pairwise (h : d.Placed all) (hall : Ordered all) :
    d.children.Pairwise fun a b => a.span.stop ≤ b.span.start := by
  obtain ⟨before, attributes, head, body, foot, after, rfl, -, -, -, inside⟩ := h
  exact inside.pairwise hall.right.right.left.right.left

end Declaration.Placed

end TestScaffold
