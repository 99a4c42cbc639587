import TestScaffold.Token.Nesting

/-!
# Balanced tokens

A row of tokens is balanced if its parentheses, brackets and braces are properly nested and the text does not end
in it. Angle brackets are plain tokens here, as they are wherever a group that began with another delimiter is
passed.

Results:
* `skipGroup_of_balanced`: a group with a balanced content is passed as a whole, whatever stands behind it.
* `skipToSemicolon_of_balanced`: the search for a semicolon passes a balanced row that has none outside its groups.
-/

namespace TestScaffold.Nesting

open Token (front atEnd atMark atBodyEnd)

/-- The delimiter that ends a group begun by this one. Angle brackets begin none. -/
def groupCloser? : Punctuation → Option Punctuation
  | .leftParen => some .rightParen
  | .leftBracket => some .rightBracket
  | .leftBrace => some .rightBrace
  | _ => none

/-- Whether a token neither begins nor ends a group, nor the text. -/
def isPlain : TokenKind → Bool
  | .endOfText => false
  | .punctuation p => (groupCloser? p).isNone && !isCloser p
  | _ => true

/-- Tokens in which parentheses, brackets and braces are properly nested. Outside all groups only those tokens
stand that `top` admits. -/
inductive Balanced : (top : TokenKind → Bool) → List TokenKind → Prop
  | nil {top : TokenKind → Bool} : Balanced top []
  | plain {top : TokenKind → Bool} {k : TokenKind} {ks : List TokenKind} (hk : isPlain k = true)
      (ht : top k = true) (rest : Balanced top ks) : Balanced top (k :: ks)
  | group {top : TokenKind → Bool} {opener closer : Punctuation} {inner ks : List TokenKind}
      (hc : groupCloser? opener = some closer) (content : Balanced (fun _ => true) inner)
      (rest : Balanced top ks) :
      Balanced top (.punctuation opener :: (inner ++ .punctuation closer :: ks))

/-! ## Delimiters of groups -/

theorem closer?_of_groupCloser? {p closer : Punctuation} (h : groupCloser? p = some closer) :
    p.closer? = some closer := by
  cases p <;> simp_all [groupCloser?, Punctuation.closer?]

theorem isCloser_of_groupCloser? {p closer : Punctuation} (h : groupCloser? p = some closer) :
    isCloser closer = true := by
  cases p <;> simp [groupCloser?] at h <;> subst h <;> rfl

theorem opener_ne_of_groupCloser? {p closer : Punctuation} (h : groupCloser? p = some closer) :
    isCloser p = false ∧ p ≠ .leftAngle := by
  cases p <;> simp_all [groupCloser?, isCloser]

/-- Inside a group that began with a delimiter other than an angle bracket, an opening delimiter begins a group. -/
theorem effect_opener {d : Open} (hd : isCloser d.closer = true) {p closer : Punctuation}
    (h : groupCloser? p = some closer) : effect false d p = .opens closer := by
  obtain ⟨hp, ha⟩ := opener_ne_of_groupCloser? h
  have hne : p ≠ d.closer := by rintro rfl; simp [hd] at hp
  simp [effect, hne, closer?_of_groupCloser? h, ha]

theorem effect_closer (angles : Bool) (d : Open) : effect angles d d.closer = .closes := by
  simp [effect]

/-- Inside such a group a plain mark has no meaning. -/
theorem effect_plain {d : Open} (hd : isCloser d.closer = true) {p : Punctuation}
    (h : isPlain (.punctuation p) = true) : effect false d p = .passes := by
  have hne : p ≠ d.closer := by rintro rfl; simp [isPlain, hd] at h
  cases p <;> simp_all [effect, isPlain, groupCloser?, isCloser, Punctuation.closer?]

/-! ## Passing groups -/

/-- Balanced tokens inside a group change nothing about what it takes to end it. -/
theorem closeAll_of_balanced {top : TokenKind → Bool} {ks : List TokenKind} (h : Balanced top ks)
    (first : Span) {d : Open} (hd : isCloser d.closer = true) (outer : List Open) {us : List Token}
    (hu : us.map Token.kind = ks) (rest : List Token) :
    closeAll false first d outer (us ++ rest) = closeAll false first d outer rest := by
  induction h generalizing d outer us rest with
  | nil =>
    rw [List.map_eq_nil_iff] at hu
    rw [hu, List.nil_append]
  | @plain top k ks hk _ _ ih =>
    obtain ⟨t, us, rfl, rfl, hus⟩ := List.map_eq_cons_iff.mp hu
    rw [List.cons_append, ← ih hd outer hus rest]
    cases ht : t.kind with
    | endOfText => simp [ht, isPlain] at hk
    | punctuation p => simp [closeAll, ht, effect_plain hd (ht ▸ hk)]
    | _ => simp [closeAll, ht]
  | @group top opener closer inner ks hc _ _ ihc ih =>
    obtain ⟨o, us, rfl, ho, hus⟩ := List.map_eq_cons_iff.mp hu
    obtain ⟨ins, us, rfl, hins, hus⟩ := List.map_eq_append_iff.mp hus
    obtain ⟨c, us, rfl, hck, hus⟩ := List.map_eq_cons_iff.mp hus
    have hopen : isCloser (Open.mk opener closer o.span).closer = true := isCloser_of_groupCloser? hc
    have hclose : effect false (Open.mk opener closer o.span) closer = .closes := effect_closer false _
    calc closeAll false first d outer (o :: (ins ++ c :: us) ++ rest)
        = closeAll false first ⟨opener, closer, o.span⟩ (d :: outer) (ins ++ (c :: (us ++ rest))) := by
          simp [closeAll, ho, effect_opener hd hc]
      _ = closeAll false first ⟨opener, closer, o.span⟩ (d :: outer) (c :: (us ++ rest)) :=
          ihc hopen (d :: outer) hins _
      _ = closeAll false first d outer (us ++ rest) := by simp [closeAll, hck, hclose]
      _ = closeAll false first d outer rest := ih hd outer hus rest

/-- A group with a balanced content is passed as a whole. -/
theorem skipGroup_of_balanced {top : TokenKind → Bool} {opener closer : Punctuation}
    (hc : groupCloser? opener = some closer) {o c : Token} (ho : o.kind = .punctuation opener)
    (hck : c.kind = .punctuation closer) {us : List Token} (hus : Balanced top (us.map Token.kind))
    (rest : List Token) : skipGroup (o :: (us ++ c :: rest)) = .done (o.span.merge c.span) rest := by
  have hopen : Open.ofToken? o = some ⟨opener, closer, o.span⟩ := by
    simp [Open.ofToken?, ho, TokenKind.punctuation?, closer?_of_groupCloser? hc]
  have hangle : (opener == .leftAngle) = false := by simpa using (opener_ne_of_groupCloser? hc).2
  have hclose : effect false (Open.mk opener closer o.span) closer = .closes := effect_closer false _
  simp only [skipGroup, Token.front, hopen, hangle, List.tail_cons]
  rw [closeAll_of_balanced hus o.span (isCloser_of_groupCloser? hc) [] rfl]
  simp [closeAll, hck, hclose]

/-! ## Looking for a semicolon -/

theorem opensGroup_of_isPlain {k : TokenKind} (h : isPlain k = true) : k.opensGroup = false := by
  cases k with
  | punctuation p => cases p <;> simp_all [isPlain, groupCloser?, TokenKind.opensGroup]
  | _ => rfl

theorem opensGroup_of_groupCloser? {p closer : Punctuation} (h : groupCloser? p = some closer) :
    (TokenKind.punctuation p).opensGroup = true := by
  cases p <;> simp_all [groupCloser?, TokenKind.opensGroup]

theorem not_atBodyEnd_of_isPlain {t : Token} (h : isPlain t.kind = true) (ts : List Token) :
    atBodyEnd (t :: ts) = false := by
  cases hk : t.kind with
  | punctuation p =>
    cases p <;> simp_all [isPlain, isCloser, groupCloser?, atBodyEnd, atEnd, atMark, Token.front]
  | endOfText => simp [hk, isPlain] at h
  | _ => simp [atBodyEnd, atEnd, atMark, Token.front, hk]

/-- Looking for marks outside groups goes through balanced tokens that have none of them there. -/
theorem skipUntil_of_balanced {stops : Punctuation → Bool} {top : TokenKind → Bool} {ks : List TokenKind}
    (h : Balanced top ks) (hs : ∀ p, top (.punctuation p) = true → stops p = false)
    (hg : ∀ p closer, groupCloser? p = some closer → stops p = false) {us : List Token}
    (hu : us.map Token.kind = ks) (rest : List Token) :
    skipUntil stops false (us ++ rest) = skipUntil stops false rest := by
  induction h generalizing us rest with
  | nil =>
    rw [List.map_eq_nil_iff] at hu
    rw [hu, List.nil_append]
  | @plain top k ks hk ht _ ih =>
    obtain ⟨t, us, rfl, rfl, hus⟩ := List.map_eq_cons_iff.mp hu
    have hstop : t.kind.punctuation?.any stops = false := by
      cases hkind : t.kind <;> simp_all [TokenKind.punctuation?]
    rw [List.cons_append, skipUntil]
    simp only [not_atBodyEnd_of_isPlain hk, Token.front, hstop, atGroup, opensGroup_of_isPlain hk,
      Bool.false_and, Bool.or_false, Bool.false_eq_true, if_false, List.tail_cons]
    exact ih hs hus rest
  | @group top opener closer inner ks hc hin _ _ ih =>
    obtain ⟨o, us, rfl, ho, hus⟩ := List.map_eq_cons_iff.mp hu
    obtain ⟨ins, us, rfl, hins, hus⟩ := List.map_eq_append_iff.mp hus
    obtain ⟨c, us, rfl, hck, hus⟩ := List.map_eq_cons_iff.mp hus
    have hskip : skipGroup (o :: (ins ++ c :: (us ++ rest))) = .done (o.span.merge c.span) (us ++ rest) :=
      skipGroup_of_balanced hc ho hck (hins ▸ hin) (us ++ rest)
    have hend : atBodyEnd (o :: (ins ++ c :: (us ++ rest))) = false := by
      have := (opener_ne_of_groupCloser? hc).1
      cases opener <;> simp_all [atBodyEnd, atEnd, atMark, Token.front, isCloser]
    have hstop : o.kind.punctuation?.any stops = false := by simp [ho, TokenKind.punctuation?, hg _ _ hc]
    have hgroup : atGroup false (o :: (ins ++ c :: (us ++ rest))) = true := by
      simp [atGroup, Token.front, ho, opensGroup_of_groupCloser? hc]
    have hts : o :: (ins ++ c :: us) ++ rest = o :: (ins ++ c :: (us ++ rest)) := by simp
    rw [hts, skipUntil]
    simp only [hend, hgroup, hskip, Token.front, hstop, Step.done]
    exact ih hs hus rest

/-- The search for a semicolon passes balanced tokens that have none outside their groups. -/
theorem skipToSemicolon_of_balanced {t s : Token} (ht : isPlain t.kind = true)
    (hts : t.kind ≠ .punctuation .semicolon) (hs : s.kind = .punctuation .semicolon) {us : List Token}
    (hus : Balanced (· != .punctuation .semicolon) (us.map Token.kind)) (rest : List Token) :
    skipToSemicolon (t :: (us ++ s :: rest)) = .done (t.span.merge s.span) rest := by
  have hall : Balanced (· != .punctuation .semicolon) ((t :: us).map Token.kind) :=
    .plain ht (by simpa using hts) hus
  have hskip : skipUntil (· == .semicolon) false (t :: us ++ s :: rest) = .done () (s :: rest) := by
    rw [skipUntil_of_balanced hall (by simp) (by intro p c h; cases p <;> simp_all [groupCloser?]) rfl, skipUntil]
    simp [Token.front, hs, TokenKind.punctuation?]
  unfold skipToSemicolon
  rw [← List.cons_append, hskip]
  simp [Step.andThen, Step.done, atMark, Token.front, hs]

end TestScaffold.Nesting
