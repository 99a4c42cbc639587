import TestScaffold.Proofs.Reading.Balanced
import TestScaffold.Proofs.Reading.Reads

/-!
# Groups and proper nesting

What passing a group comes to can be told without a stack: from the rows of tokens that are properly nested and from
the delimiters that are open behind them. Parentheses, brackets and braces nest in each other everywhere; angle brackets
do so only in a group that itself began with one, and there the closing one is free wherever it does not fit.

Results:
* `Nesting.Nested`, `Nesting.Opened`: proper nesting, and what is open where a row of tokens breaks off.
* `Nesting.Outcome`: what passing a group has to come to.
* `Nesting.skipGroup_eq_iff_outcome`: it comes to that and to nothing else, always by the end of the text.
-/

namespace TestScaffold.Nesting

open Token (front atEnd atMark Inside)

/-- The delimiter that ends a group begun by this one. Angle brackets begin a group only where `angles` says so. -/
def closing? (angles : Bool) : Punctuation → Option Punctuation
  | .leftAngle => if angles then some .rightAngle else none
  | p => groupCloser? p

/-- Whether a token means nothing where `closer` would end the innermost group: it begins no group, and it ends neither
that group nor, as parentheses, brackets and braces do, any other. -/
def isFree (angles : Bool) (closer : Punctuation) : TokenKind → Bool
  | .endOfText => false
  | .punctuation p => (closing? angles p).isNone && !isCloser p && p != closer
  | _ => true

/-- Tokens that are properly nested inside a group that `closer` ends. -/
inductive Nested (angles : Bool) : (closer : Punctuation) → List TokenKind → Prop
  | nil {closer : Punctuation} : Nested angles closer []
  | free {closer : Punctuation} {k : TokenKind} {ks : List TokenKind} (hk : isFree angles closer k = true)
      (rest : Nested angles closer ks) : Nested angles closer (k :: ks)
  | group {closer opener end' : Punctuation} {inner ks : List TokenKind} (hc : closing? angles opener = some end')
      (content : Nested angles end' inner) (rest : Nested angles closer ks) :
      Nested angles closer (.punctuation opener :: (inner ++ .punctuation end' :: ks))

/-- The delimiters that are open behind the tokens `ts`, innermost first. The last token of `ts` opened the innermost
one; what stands between two of them is properly nested. -/
inductive Opened (angles : Bool) : (ts : List Token) → List Open → Prop
  | first {o : Token} {p closer : Punctuation} (ho : o.kind = .punctuation p) (hc : closing? angles p = some closer) :
      Opened angles [o] [⟨p, closer, o.span⟩]
  | next {ts us : List Token} {d : Open} {ds : List Open} {o : Token} {p closer : Punctuation}
      (outer : Opened angles ts (d :: ds)) (content : Nested angles d.closer (us.map Token.kind))
      (ho : o.kind = .punctuation p) (hc : closing? angles p = some closer) :
      Opened angles (ts ++ (us ++ [o])) (⟨p, closer, o.span⟩ :: d :: ds)

/-- What passing the group at the front of `ts` has to come to: a value or a fault, and the tokens behind. -/
inductive Outcome (ts : List Token) : Step Span → Prop
  /-- No group begins here. -/
  | noOpener (h : ∀ p, (front ts).kind = .punctuation p → closing? true p = none) :
      Outcome ts (.fail (.noOpener (front ts).kind) (front ts).span (if atEnd ts then ts else ts.tail))
  /-- The group ends, with properly nested tokens in it. -/
  | closed {o c : Token} {inner rest : List Token} {p closer : Punctuation} (hts : ts = o :: (inner ++ c :: rest))
      (ho : o.kind = .punctuation p) (hp : closing? true p = some closer)
      (content : Nested (p == .leftAngle) closer (inner.map Token.kind)) (hc : c.kind = .punctuation closer) :
      Outcome ts (.done (o.span.merge c.span) rest)
  /-- A closing delimiter does not fit the innermost open one. -/
  | mismatched {before content rest : List Token} {t : Token} {d : Open} {ds : List Open} {p : Punctuation}
      (hts : ts = before ++ (content ++ t :: rest)) (opened : Opened (atMark .leftAngle ts) before (d :: ds))
      (nested : Nested (atMark .leftAngle ts) d.closer (content.map Token.kind)) (ht : t.kind = .punctuation p)
      (hp : isCloser p = true) (hne : p ≠ d.closer) : Outcome ts (.fail (.mismatched p d.closer) t.span rest)
  /-- The text ends before the group does. -/
  | unclosed {before content rest : List Token} {d : Open} {ds : List Open} (hts : ts = before ++ (content ++ rest))
      (opened : Opened (atMark .leftAngle ts) before (d :: ds))
      (nested : Nested (atMark .leftAngle ts) d.closer (content.map Token.kind)) (hend : atEnd rest = true) :
      Outcome ts (.fail (.unclosed d.opener d.closer) d.span rest)

variable {angles : Bool} {closer : Punctuation} {ks ls : List TokenKind}

/-! ## What a mark does -/

theorem closing?_eq_some {p q : Punctuation} (h : closing? angles p = some q) :
    p.closer? = some q ∧ isCloser p = false ∧ (p = .leftAngle → angles = true) := by
  cases p <;> simp_all [closing?, groupCloser?, isCloser, Punctuation.closer?]

theorem closing?_true (p : Punctuation) : closing? true p = p.closer? := by
  cases p <;> rfl

theorem closing?_self (p : Punctuation) : closing? (p == .leftAngle) p = p.closer? := by
  cases p <;> rfl

/-- An opening delimiter ends no group. -/
theorem closing?_closer {p q : Punctuation} (h : closing? angles p = some q) : closing? angles q = none := by
  cases p <;> simp [closing?, groupCloser?] at h
  case leftAngle => rw [← h.2]; rfl
  all_goals subst h; rfl

theorem effect_eq_closes_iff {d : Open} {p : Punctuation} : effect angles d p = .closes ↔ p = d.closer :=
  ⟨eq_closer_of_effect, fun h => by simp [effect, h]⟩

/-- What a mark does is told by whether it ends a group, and by the group that it begins. -/
theorem effect_eq (d : Open) (p : Punctuation) : effect angles d p =
    if p = d.closer then .closes
    else match closing? angles p with
      | some q => .opens q
      | none => if isCloser p then .clashes else .passes := by
  unfold effect
  split
  · rfl
  · cases p <;> cases angles <;> rfl

theorem effect_of_isCloser {d : Open} {p : Punctuation} (h : isCloser p = true) (hne : p ≠ d.closer) :
    effect angles d p = .clashes := by
  have hp : closing? angles p = none := by
    cases hc : closing? angles p with
    | none => rfl
    | some q => simp [(closing?_eq_some hc).2.1] at h
  simp [effect_eq, hne, hp, h]

theorem effect_of_isFree {d : Open} {p : Punctuation} (h : isFree angles d.closer (.punctuation p) = true) :
    effect angles d p = .passes := by
  have hp : closing? angles p = none ∧ isCloser p = false ∧ p ≠ d.closer := by simpa [isFree, and_assoc] using h
  simp [effect_eq, hp]

theorem closing?_of_effect {d : Open} {p q : Punctuation} (h : effect angles d p = .opens q) :
    closing? angles p = some q := by
  rw [effect_eq] at h
  split at h
  · cases h
  · split at h
    · simp_all
    · split at h <;> cases h

theorem of_effect_eq_clashes {d : Open} {p : Punctuation} (h : effect angles d p = .clashes) :
    isCloser p = true ∧ p ≠ d.closer := by
  rw [effect_eq] at h
  split at h
  · cases h
  · split at h
    · cases h
    · split at h <;> simp_all

theorem isFree_of_effect {d : Open} {p : Punctuation} (h : effect angles d p = .passes) :
    isFree angles d.closer (.punctuation p) = true := by
  rw [effect_eq] at h
  split at h
  · cases h
  · split at h
    · cases h
    · split at h <;> simp_all [isFree]

/-! ## Nesting -/

theorem Nested.append (h : Nested angles closer ks) (k : Nested angles closer ls) :
    Nested angles closer (ks ++ ls) := by
  induction h with
  | nil => exact k
  | free hk _ ih => exact .free hk (ih k)
  | group hc content _ _ ih =>
    rw [List.cons_append, List.append_assoc, List.cons_append]
    exact .group hc content (ih k)

/-- A row that is properly nested begins with a token that means nothing, or with a group. -/
theorem Nested.cons_cases {k : TokenKind} (h : Nested angles closer (k :: ks)) : isFree angles closer k = true ∨
    ∃ opener stop inner more, k = .punctuation opener ∧ closing? angles opener = some stop ∧
      ks = inner ++ .punctuation stop :: more ∧ Nested angles stop inner := by
  generalize hls : k :: ks = ls at h
  cases h with
  | nil => cases hls
  | free hk => exact .inl ((List.cons.inj hls).1 ▸ hk)
  | group hc content =>
    obtain ⟨hk, hks⟩ := List.cons.inj hls
    exact .inr ⟨_, _, _, _, hk, hc, hks, content⟩

/-- One more token that means nothing. -/
theorem Nested.concat {t : Token} {us : List Token} (h : Nested angles closer (us.map Token.kind))
    (ht : isFree angles closer t.kind = true) : Nested angles closer ((us ++ [t]).map Token.kind) := by
  rw [List.map_append, List.map_singleton]
  exact h.append (.free ht .nil)

/-- Properly nested tokens change nothing about what it takes to end the groups around them. -/
theorem closeAll_of_nested (h : Nested angles closer ks) (first : Span) {d : Open} (hd : d.closer = closer)
    (hend : closing? angles closer = none) (outer : List Open) {us : List Token} (hu : us.map Token.kind = ks)
    (rest : List Token) : closeAll angles first d outer (us ++ rest) = closeAll angles first d outer rest := by
  induction h generalizing d outer us rest with
  | nil =>
    rw [List.map_eq_nil_iff] at hu
    rw [hu, List.nil_append]
  | @free closer k ks hk _ ih =>
    obtain ⟨t, us, rfl, rfl, hus⟩ := List.map_eq_cons_iff.mp hu
    rw [List.cons_append, ← ih hd hend outer hus rest]
    cases ht : t.kind with
    | endOfText => simp [ht, isFree] at hk
    | punctuation p => simp [closeAll, ht, effect_of_isFree (d := d) (by rwa [hd, ← ht])]
    | _ => simp [closeAll, ht]
  | @group closer opener stop inner ks hc _ _ ihc ih =>
    obtain ⟨o, us, rfl, ho, hus⟩ := List.map_eq_cons_iff.mp hu
    obtain ⟨ins, us, rfl, hins, hus⟩ := List.map_eq_append_iff.mp hus
    obtain ⟨c, us, rfl, hck, hus⟩ := List.map_eq_cons_iff.mp hus
    have hne : opener ≠ d.closer := by
      rintro rfl
      rw [hd, hend] at hc
      cases hc
    have hopens : effect angles d opener = .opens stop := by simp [effect_eq, hne, hc]
    have hcloses : effect angles ⟨opener, stop, o.span⟩ stop = .closes := effect_eq_closes_iff.mpr rfl
    calc closeAll angles first d outer (o :: (ins ++ c :: us) ++ rest)
        = closeAll angles first ⟨opener, stop, o.span⟩ (d :: outer) (ins ++ (c :: (us ++ rest))) := by
          simp [closeAll, ho, hopens]
      _ = closeAll angles first ⟨opener, stop, o.span⟩ (d :: outer) (c :: (us ++ rest)) :=
          ihc rfl (closing?_closer hc) (d :: outer) hins _
      _ = closeAll angles first d outer (us ++ rest) := by simp [closeAll, hck, hcloses]
      _ = closeAll angles first d outer rest := ih hd hend outer hus rest

/-! ## What is open -/

theorem atMark_leftAngle {o : Token} {p : Punctuation} (ho : o.kind = .punctuation p) (rest : List Token) :
    atMark .leftAngle (o :: rest) = (p == .leftAngle) := by
  rw [Bool.eq_iff_iff]
  simp [atMark, front, ho]

namespace Opened

variable {ts : List Token} {d : Open} {ds : List Open}

theorem ne_nil (h : Opened angles ts ds) : ts ≠ [] := by
  cases h with
  | first => exact List.cons_ne_nil _ _
  | next => simp

/-- Whether a row begins with an angle bracket is told by its first token. -/
theorem atMark_append (h : Opened angles ts ds) (p : Punctuation) (us : List Token) :
    atMark p (ts ++ us) = atMark p ts := by
  rw [atMark, atMark, Token.front_append h.ne_nil]

/-- Whatever is open was opened by a delimiter and waits for the one that closes it. -/
theorem closing?_eq (h : Opened angles ts (d :: ds)) : closing? angles d.opener = some d.closer := by
  cases h with
  | first _ hc => exact hc
  | next _ _ _ hc => exact hc

/-- A single open delimiter stands where the group began. -/
theorem eq_singleton (h : Opened angles ts [d]) : ∃ o, ts = [o] ∧ o.kind = .punctuation d.opener ∧ d.span = o.span := by
  cases h with
  | first ho _ => exact ⟨_, rfl, ho, rfl⟩

/-- An inner delimiter was opened behind properly nested tokens, where the outer ones were open. -/
theorem exists_outer {e : Open} (h : Opened angles ts (d :: e :: ds)) : ∃ before us o, ts = before ++ (us ++ [o]) ∧
    Opened angles before (e :: ds) ∧ Nested angles e.closer (us.map Token.kind) ∧ o.kind = .punctuation d.opener := by
  cases h with
  | next outer content ho _ => exact ⟨_, _, _, rfl, outer, content, ho⟩

/-- Behind these tokens the groups that are open are still to be ended. -/
theorem skipGroup_append (h : Opened angles ts (d :: ds)) (hangles : angles = atMark .leftAngle ts)
    (rest : List Token) :
    skipGroup (ts ++ rest) = closeAll angles (front ts).span d ds rest := by
  generalize hes : d :: ds = es at h
  induction h generalizing d ds rest with
  | @first o p closer ho hc =>
    cases hes
    obtain ⟨hcloser, -, -⟩ := closing?_eq_some hc
    have hopen : Open.ofToken? o = some ⟨p, closer, o.span⟩ := by
      simp [Open.ofToken?, ho, TokenKind.punctuation?, hcloser]
    have hmode : (p == .leftAngle) = angles := by rw [hangles, atMark_leftAngle ho]
    simp [skipGroup, front, hopen, hmode]
  | @next ts us e es o p closer outer content ho hc ih =>
    cases hes
    have hne : p ≠ e.closer := by
      rintro rfl
      rw [closing?_closer outer.closing?_eq] at hc
      cases hc
    have hopens : effect angles e p = .opens closer := by simp [effect_eq, hne, hc]
    have hfront : front (ts ++ (us ++ [o])) = front ts := Token.front_append outer.ne_nil _
    have hmode : angles = atMark .leftAngle ts := hangles.trans (outer.atMark_append .leftAngle _)
    calc skipGroup (ts ++ (us ++ [o]) ++ rest)
        = skipGroup (ts ++ (us ++ o :: rest)) := by simp
      _ = closeAll angles (front ts).span e es (us ++ o :: rest) := ih hmode _ rfl
      _ = closeAll angles (front ts).span e es (o :: rest) :=
          closeAll_of_nested content _ rfl (closing?_closer outer.closing?_eq) _ rfl _
      _ = closeAll angles (front (ts ++ (us ++ [o]))).span ⟨p, closer, o.span⟩ (e :: es) rest := by
          rw [hfront]
          simp [closeAll, ho, hopens]

end Opened

/-! ## Outcomes -/

/-- Where a group began with the tokens `before`, and properly nested ones follow these, every way of going on comes to
one of the outcomes. -/
theorem outcome_closeAll {before content ts : List Token} {first : Span} {d : Open} {outer : List Open}
    (hfirst : first = (front before).span) (hangles : angles = atMark .leftAngle before)
    (opened : Opened angles before (d :: outer)) (nested : Nested angles d.closer (content.map Token.kind)) :
    Outcome (before ++ (content ++ ts)) (closeAll angles first d outer ts) := by
  fun_induction closeAll angles first d outer ts generalizing before content with
  | case1 d outer =>
    rw [← opened.atMark_append .leftAngle (content ++ [])] at hangles
    subst hangles
    exact .unclosed rfl opened nested rfl
  | case2 d outer t ts hk =>
    have hend : atEnd (t :: ts) = true := by simp [atEnd, front, hk]
    rw [← opened.atMark_append .leftAngle (content ++ t :: ts)] at hangles
    subst hangles
    exact .unclosed rfl opened nested hend
  | case3 d t ts p hk he =>
    obtain rfl := effect_eq_closes_iff.mp he
    have hcloser := (closing?_true d.opener).trans (closing?_eq_some opened.closing?_eq).1
    obtain ⟨o, rfl, ho, hspan⟩ := opened.eq_singleton
    rw [atMark_leftAngle ho] at hangles
    subst hangles hfirst
    exact .closed rfl ho hcloser nested hk
  | case4 d t ts p hk he e es ih =>
    obtain rfl := effect_eq_closes_iff.mp he
    have hcloser := opened.closing?_eq
    obtain ⟨before, us, o, rfl, houter, hus, ho⟩ := opened.exists_outer
    have hgroup : Nested angles e.closer ((us ++ o :: (content ++ [t])).map Token.kind) := by
      simpa [ho, hk] using hus.append (.group hcloser nested .nil)
    rw [Token.front_append houter.ne_nil] at hfirst
    have hall := ih hfirst (hangles.trans (houter.atMark_append .leftAngle _)) houter hgroup
    simpa using hall
  | case5 d outer t ts p hk closer he ih =>
    have hcloser : closing? angles p = some closer := closing?_of_effect he
    have hmore : Opened angles (before ++ (content ++ [t])) (⟨p, closer, t.span⟩ :: d :: outer) :=
      opened.next nested hk hcloser
    rw [← Token.front_append opened.ne_nil (content ++ [t])] at hfirst
    have hnil : Nested angles closer (([] : List Token).map Token.kind) := .nil
    have hall := ih hfirst (hangles.trans (opened.atMark_append .leftAngle _).symm) hmore hnil
    simpa using hall
  | case6 d outer t ts p hk he =>
    obtain ⟨hp, hne⟩ := of_effect_eq_clashes he
    rw [← opened.atMark_append .leftAngle (content ++ t :: ts)] at hangles
    subst hangles
    exact .mismatched rfl opened nested hk hp hne
  | case7 d outer t ts p hk he ih =>
    have hfree : isFree angles d.closer t.kind = true := by
      rw [hk]
      exact isFree_of_effect he
    simpa using ih hfirst hangles opened (nested.concat hfree)
  | case8 d outer t ts h₁ h₂ ih =>
    have hfree : isFree angles d.closer t.kind = true := by
      cases hk : t.kind with
      | endOfText => exact absurd hk h₁
      | punctuation p => exact absurd hk (h₂ p)
      | _ => rfl
    simpa using ih hfirst hangles opened (nested.concat hfree)

/-- Passing a group comes to one of the outcomes. -/
theorem outcome_skipGroup (ts : List Token) : Outcome ts (skipGroup ts) := by
  unfold skipGroup
  split
  · next d hd =>
    cases ts with
    | nil => cases hd
    | cons t ts =>
      obtain ⟨hopener, hcloser, hspan⟩ := of_ofToken? hd
      have hopener : t.kind = .punctuation d.opener := hopener
      have hopened : Opened (d.opener == .leftAngle) [t] [d] := by
        have hfirst := Opened.first hopener ((closing?_self d.opener).trans hcloser)
        rwa [show t.span = d.span from hspan.symm] at hfirst
      have hnil : Nested (d.opener == .leftAngle) d.closer (([] : List Token).map Token.kind) := .nil
      have hall : Outcome ([t] ++ ([] ++ ts)) (closeAll (d.opener == .leftAngle) d.span d [] ts) :=
        outcome_closeAll hspan (atMark_leftAngle hopener []).symm hopened hnil
      exact hall
  · next hnone =>
    refine .noOpener fun p hp => ?_
    rw [closing?_true]
    simpa [Open.ofToken?, hp, TokenKind.punctuation?] using hnone

/-- A group comes to no other outcome. -/
theorem Outcome.skipGroup_eq {ts : List Token} {s : Step Span} (h : Outcome ts s) : skipGroup ts = s := by
  cases h with
  | noOpener hnone =>
    have hopen : Open.ofToken? (front ts) = none := by
      cases hk : (front ts).kind with
      | punctuation p => simp [Open.ofToken?, hk, TokenKind.punctuation?, ← closing?_true, hnone p hk]
      | _ => simp [Open.ofToken?, hk, TokenKind.punctuation?]
    simp [skipGroup, hopen]
  | @closed o c inner rest p closer hts ho hp content hc =>
    have hp := (closing?_self p).trans ((closing?_true p).symm.trans hp)
    have hcloses : effect (p == .leftAngle) ⟨p, closer, o.span⟩ closer = .closes := effect_eq_closes_iff.mpr rfl
    calc skipGroup ts
        = skipGroup ([o] ++ (inner ++ c :: rest)) := by rw [hts]; rfl
      _ = closeAll (p == .leftAngle) o.span ⟨p, closer, o.span⟩ [] (inner ++ c :: rest) :=
          (Opened.first ho hp).skipGroup_append (atMark_leftAngle ho []).symm _
      _ = closeAll (p == .leftAngle) o.span ⟨p, closer, o.span⟩ [] (c :: rest) :=
          closeAll_of_nested content _ rfl (closing?_closer hp) _ rfl _
      _ = .done (o.span.merge c.span) rest := by simp [closeAll, hc, hcloses]
  | @mismatched before content rest t d ds p hts opened nested ht hp hne =>
    have hmode : atMark .leftAngle ts = atMark .leftAngle before := by rw [hts, opened.atMark_append]
    have hclashes : effect (atMark .leftAngle ts) d p = .clashes := effect_of_isCloser hp hne
    calc skipGroup ts
        = closeAll (atMark .leftAngle ts) (front before).span d ds (content ++ t :: rest) := by
          rw [← opened.skipGroup_append hmode, ← hts]
      _ = closeAll (atMark .leftAngle ts) (front before).span d ds (t :: rest) :=
          closeAll_of_nested nested _ rfl (closing?_closer opened.closing?_eq) _ rfl _
      _ = .fail (.mismatched p d.closer) t.span rest := by simp [closeAll, ht, hclashes]
  | @unclosed before content rest d ds hts opened nested hend =>
    have hmode : atMark .leftAngle ts = atMark .leftAngle before := by rw [hts, opened.atMark_append]
    calc skipGroup ts
        = closeAll (atMark .leftAngle ts) (front before).span d ds (content ++ rest) := by
          rw [← opened.skipGroup_append hmode, ← hts]
      _ = closeAll (atMark .leftAngle ts) (front before).span d ds rest :=
          closeAll_of_nested nested _ rfl (closing?_closer opened.closing?_eq) _ rfl _
      _ = .fail (.unclosed d.opener d.closer) d.span rest := by
          cases rest with
          | nil => rfl
          | cons t rest =>
            have hk : t.kind = .endOfText := by simpa [atEnd, front] using hend
            simp [closeAll, hk]

/-! ## Groups that are passed -/

/-- A group that is passed begins with an opening delimiter and ends with the closing one that belongs to it. -/
theorem exists_closed {ts rest : List Token} {s : Span} (h : skipGroup ts = .done s rest) :
    ∃ o c inner p closer, ts = o :: (inner ++ c :: rest) ∧ o.kind = .punctuation p ∧ closing? true p = some closer := by
  have hout := outcome_skipGroup ts
  rw [h] at hout
  generalize hs : Step.done s rest = r at hout
  cases hout with
  | closed hts ho hp content hc =>
    cases hs
    exact ⟨_, _, _, _, _, hts, ho, hp⟩
  | _ => cases hs

/-- A row that begins with a group and is properly nested holds the whole of that group. -/
theorem length_le_of_nested {ts group rest init more : List Token} {s : Span} (hts : ts = group ++ rest)
    (hgroup : skipGroup ts = .done s rest) (hinit : ts = init ++ more) (hne : init ≠ [])
    (h : Nested (atMark .leftAngle ts) closer (init.map Token.kind)) : group.length ≤ init.length := by
  obtain ⟨o, c, inner, p, q, hcons, ho, hp⟩ := exists_closed hgroup
  rw [hcons, atMark_leftAngle ho] at h
  obtain ⟨t, init, rfl⟩ := List.exists_cons_of_ne_nil hne
  obtain rfl : o = t := (List.cons.inj (hcons.symm.trans hinit)).1
  rw [List.map_cons, ho] at h
  rcases h.cons_cases with hfree | ⟨_, stop, content, behind, ⟨⟩, hstop, hkinds, hcontent⟩
  · have hnone : closing? (p == .leftAngle) p = none := by simp_all [isFree]
    rw [closing?_self, ← closing?_true, hp] at hnone
    cases hnone
  · obtain ⟨us, vs, rfl, rfl, hvs⟩ := List.map_eq_append_iff.mp hkinds
    obtain ⟨c', vs, rfl, hc', -⟩ := List.map_eq_cons_iff.mp hvs
    have hstop : closing? true p = some stop := (closing?_true p).trans ((closing?_self p).symm.trans hstop)
    have hclosed : Outcome ts (.done (o.span.merge c'.span) (vs ++ more)) :=
      .closed (by simpa using hinit) ho hstop hcontent hc'
    have hrest : rest = vs ++ more := congrArg Step.rest (hgroup.symm.trans hclosed.skipGroup_eq)
    have hlength := congrArg List.length (hts.symm.trans hinit)
    simp [hrest] at hlength ⊢
    omega

/-! ## The end of the text -/

theorem Nested.endOfText_notMem (h : Nested angles closer ks) : .endOfText ∉ ks := by
  induction h with
  | nil => simp
  | @free closer k ks hk _ ih =>
    have hne : .endOfText ≠ k := by
      rintro rfl
      cases hk
    simp [ih, hne]
  | group _ _ _ ihc ih => simp [ihc, ih]

theorem Nested.inside {us : List Token} (h : Nested angles closer (us.map Token.kind)) : Inside us :=
  fun t ht hk => h.endOfText_notMem (List.mem_map.mpr ⟨t, ht, hk⟩)

/-- The text does not end among tokens behind which something is open. -/
theorem Opened.inside {ts : List Token} {ds : List Open} (h : Opened angles ts ds) : Inside ts := by
  induction h with
  | first ho _ => exact Token.inside_singleton (by simp [ho])
  | next _ content ho _ ih => exact ih.append (content.inside.append (Token.inside_singleton (by simp [ho])))

/-- No passage goes beyond the end of the text. -/
theorem Outcome.exists_inside {ts : List Token} {s : Step Span} (h : Outcome ts s) :
    ∃ passed, ts = passed ++ s.rest ∧ Inside passed := by
  cases h with
  | noOpener =>
    rw [Step.rest_fail]
    split
    · exact ⟨[], rfl, Token.inside_nil⟩
    · next hend =>
      obtain ⟨hts, hfront⟩ := Token.exists_cons hend
      exact ⟨[front ts], hts, Token.inside_singleton hfront⟩
  | @closed o c inner rest p closer hts ho hp content hc =>
    refine ⟨o :: (inner ++ [c]), by simp [hts], ?_⟩
    exact (Token.inside_singleton (by simp [ho])).append (content.inside.append (Token.inside_singleton (by simp [hc])))
  | @mismatched before content rest t d ds p hts opened nested ht hp hne =>
    refine ⟨before ++ (content ++ [t]), by simp [hts], ?_⟩
    exact opened.inside.append (nested.inside.append (Token.inside_singleton (by simp [ht])))
  | @unclosed before content rest d ds hts opened nested hend =>
    exact ⟨before ++ content, by simp [hts], opened.inside.append nested.inside⟩

/-- Passing a group comes to what proper nesting says, and to nothing else; a group that is passed is the shortest row
from here on that is properly nested, and no passage goes beyond the end of the text. -/
theorem skipGroup_eq_iff_outcome (ts : List Token) :
    (∀ s, skipGroup ts = s ↔ Outcome ts s) ∧
      (∀ s group rest, ts = group ++ rest → skipGroup ts = .done s rest →
        ∀ closer init more, ts = init ++ more → init ≠ [] →
          Nested (atMark .leftAngle ts) closer (init.map Token.kind) → group.length ≤ init.length) ∧
      ∃ passed, ts = passed ++ (skipGroup ts).rest ∧ Inside passed := by
  refine ⟨fun s => ⟨fun h => h ▸ outcome_skipGroup ts, Outcome.skipGroup_eq⟩, ?_, ?_⟩
  · intro s group rest hts hgroup closer init more hinit hne hnested
    exact length_le_of_nested hts hgroup hinit hne hnested
  · exact (outcome_skipGroup ts).exists_inside

/-- The tokens of `<a(>)>b`: the first closing angle bracket stands in parentheses, and is free there. -/
def angledTokens : List Token :=
  [⟨.punctuation .leftAngle, ⟨0, 1⟩⟩, ⟨.identifier "a", ⟨1, 2⟩⟩, ⟨.punctuation .leftParen, ⟨2, 3⟩⟩,
    ⟨.punctuation .rightAngle, ⟨3, 4⟩⟩, ⟨.punctuation .rightParen, ⟨4, 5⟩⟩, ⟨.punctuation .rightAngle, ⟨5, 6⟩⟩,
    ⟨.identifier "b", ⟨6, 7⟩⟩, ⟨.endOfText, ⟨7, 7⟩⟩]

theorem nested_angledTokens : Nested true .rightAngle (((angledTokens.drop 1).take 4).map Token.kind) :=
  have parentheses : Nested true .rightParen [.punctuation .rightAngle] := .free rfl .nil
  .free rfl (.group rfl parentheses .nil)

theorem skipGroup_eq_iff_outcome_angledTokens : skipGroup angledTokens = .done ⟨0, 6⟩ (angledTokens.drop 6) ∧
    (∀ init more, angledTokens = init ++ more → init ≠ [] → Nested true .rightAngle (init.map Token.kind) →
      6 ≤ init.length) ∧
    ∃ passed, angledTokens = passed ++ (skipGroup angledTokens).rest ∧ Inside passed := by
  obtain ⟨houtcome, hshortest, hpassed⟩ := skipGroup_eq_iff_outcome angledTokens
  have hclosed : Outcome angledTokens (.done ⟨0, 6⟩ (angledTokens.drop 6)) :=
    @Outcome.closed angledTokens _ _ ((angledTokens.drop 1).take 4) _ _ _ rfl rfl rfl nested_angledTokens rfl
  have hgroup := (houtcome _).mpr hclosed
  exact ⟨hgroup, fun init more => hshortest _ (angledTokens.take 6) _ rfl hgroup _ init more, hpassed⟩

end TestScaffold.Nesting
