import TestScaffold.Token.Stream

/-!
# Groups

Whatever stands between matching delimiters is passed as a unit, and so is everything up to a mark of interest.

* `skipGroup`: passes one group. Parentheses, brackets and braces count at any depth; angle brackets count only
  inside a group that itself began with one, since elsewhere they are comparisons.
* `skipUntil`: passes tokens and groups up to a mark of interest, a closing brace or the end of the text.
* `length_rest_skipGroup_lt`: a group takes at least one token.
-/

namespace TestScaffold.Nesting

open Token (front atEnd atMark atBodyEnd)

/-- A delimiter that has been opened, the one that closes it, and where it was opened. -/
structure Open where
  opener : Punctuation
  closer : Punctuation
  span : Span
  deriving DecidableEq, Repr

/-- The delimiter that the token `t` opens, if it opens one. -/
def Open.ofToken? (t : Token) : Option Open :=
  t.kind.punctuation?.bind fun p => p.closer?.map fun closer => ⟨p, closer, t.span⟩

/-- What a mark does inside a group. -/
inductive Effect
  | closes
  | opens (closer : Punctuation)
  /-- The mark closes some other sort of group. -/
  | clashes
  | passes
  deriving DecidableEq, Repr

/-- Whether the mark closes a group wherever it stands. -/
def isCloser : Punctuation → Bool
  | .rightParen | .rightBracket | .rightBrace => true
  | _ => false

/-- What the mark `p` does where `d` is the innermost open delimiter. Angle brackets open a group only where
`angles` says so. -/
def effect (angles : Bool) (d : Open) (p : Punctuation) : Effect :=
  if p = d.closer then .closes
  else match p.closer? with
    | some closer => if p = .leftAngle && !angles then .passes else .opens closer
    | none => if isCloser p then .clashes else .passes

/-- Reads to the end of the group that `first` began, where `d` is the innermost open delimiter and `outer` holds
the ones around it, innermost first. Yields the span of the whole group. -/
def closeAll (angles : Bool) (first : Span) (d : Open) (outer : List Open) : List Token → Step Span
  | [] => .fail (.unclosed d.opener d.closer) d.span []
  | t :: ts =>
    match t.kind with
    | .endOfText => .fail (.unclosed d.opener d.closer) d.span (t :: ts)
    | .punctuation p =>
      match effect angles d p with
      | .closes =>
        match outer with
        | [] => .done (first.merge t.span) ts
        | e :: es => closeAll angles first e es ts
      | .opens closer => closeAll angles first ⟨p, closer, t.span⟩ (d :: outer) ts
      | .clashes => .fail (.mismatched p d.closer) t.span ts
      | .passes => closeAll angles first d outer ts
    | _ => closeAll angles first d outer ts

/-- Passes the group that begins here and yields its span, from the opening delimiter to the closing one. -/
def skipGroup (ts : List Token) : Step Span :=
  match Open.ofToken? (front ts) with
  | some d => closeAll (d.opener == .leftAngle) d.span d [] ts.tail
  | none => .fail (.noOpener (front ts).kind) (front ts).span (if atEnd ts then ts else ts.tail)

/-- Whether a group begins here; angle brackets begin one only where `angles` says so. -/
def atGroup (angles : Bool) (ts : List Token) : Bool :=
  (front ts).kind.opensGroup || (angles && atMark .leftAngle ts)

theorem rest_closeAll_suffix (angles : Bool) (first : Span) (d : Open) (outer : List Open)
    (ts : List Token) : (closeAll angles first d outer ts).rest <:+ ts := by
  fun_induction closeAll angles first d outer ts <;>
    simp_all [List.suffix_cons_iff]

theorem rest_skipGroup_suffix (ts : List Token) : (skipGroup ts).rest <:+ ts := by
  unfold skipGroup
  split
  · exact (rest_closeAll_suffix _ _ _ _ _).trans (List.tail_suffix ts)
  · simp only [Step.rest_fail]
    split
    · exact List.suffix_refl ts
    · exact List.tail_suffix ts

/-- Away from the end of the text, passing a group takes at least one token, even where none begins. -/
theorem length_rest_skipGroup_lt {ts : List Token} (h : ¬ atEnd ts = true) :
    (skipGroup ts).rest.length < ts.length := by
  refine Nat.lt_of_le_of_lt ?_ (Token.length_tail_lt h)
  unfold skipGroup
  split
  · exact (rest_closeAll_suffix _ _ _ _ _).length_le
  · simp [h]

/-- Passes tokens, and groups as units, up to a mark that `stops` picks, a closing brace or the end of the
text. Fails only inside a broken group. -/
def skipUntil (stops : Punctuation → Bool) (angles : Bool) (ts : List Token) : Step Unit :=
  if atBodyEnd ts || (front ts).kind.punctuation?.any stops then .done () ts
  else if atGroup angles ts then
    let s := skipGroup ts
    match s.result with
    | .ok _ => skipUntil stops angles s.rest
    | .error d => ⟨.error d, s.rest⟩
  else skipUntil stops angles ts.tail
termination_by ts.length
decreasing_by
  · exact length_rest_skipGroup_lt (by simp_all [atBodyEnd])
  · exact Token.length_tail_lt (by simp_all [atBodyEnd])

/-- Passes everything up to and including the next semicolon outside groups, and yields the span passed. -/
def skipToSemicolon (ts : List Token) : Step Span :=
  (skipUntil (· == .semicolon) false ts).andThen fun _ rest =>
    if atMark .semicolon rest then .done ((front ts).span.merge (front rest).span) rest.tail
    else .failExpecting .semicolon rest

/-- Passes the rest of a broken declaration: up to and including a semicolon or a body in braces, or up to the
closing brace of the enclosing body. A group that is itself broken ends the passage. -/
def recover (ts : List Token) : List Token :=
  let s := skipUntil (fun p => p == .semicolon || p == .leftBrace) false ts
  match s.result with
  | .error _ => s.rest
  | .ok _ =>
    if atMark .semicolon s.rest then s.rest.tail
    else if atMark .leftBrace s.rest then (skipGroup s.rest).rest
    else s.rest

/-! ## What is left -/

theorem rest_skipUntil_suffix (stops : Punctuation → Bool) (angles : Bool) (ts : List Token) :
    (skipUntil stops angles ts).rest <:+ ts := by
  fun_induction skipUntil stops angles ts with
  | case1 ts => exact List.suffix_refl ts
  | case2 ts _ _ s _ _ ih => exact ih.trans (rest_skipGroup_suffix ts)
  | case3 ts => exact rest_skipGroup_suffix ts
  | case4 ts _ _ ih => exact ih.trans (List.tail_suffix ts)

/-- Away from the end of the enclosing body, a passage that stops where it began began at one of its marks. -/
theorem stops_or_length_rest_skipUntil_lt (stops : Punctuation → Bool) (angles : Bool) {ts : List Token}
    (h : ¬ atBodyEnd ts = true) :
    ((front ts).kind.punctuation?.any stops) = true ∧ skipUntil stops angles ts = .done () ts ∨
      (skipUntil stops angles ts).rest.length < ts.length := by
  rw [skipUntil]
  have hend := Token.not_atEnd_of_not_atBodyEnd h
  by_cases hs : ((front ts).kind.punctuation?.any stops) = true
  · exact .inl ⟨hs, by simp [hs]⟩
  · refine .inr ?_
    simp only [h, hs, Bool.or_self, Bool.false_eq_true, if_false]
    split
    · split
      · exact Nat.lt_of_le_of_lt (rest_skipUntil_suffix _ _ _).length_le (length_rest_skipGroup_lt hend)
      · exact length_rest_skipGroup_lt hend
    · exact Nat.lt_of_le_of_lt (rest_skipUntil_suffix _ _ _).length_le (Token.length_tail_lt hend)

theorem rest_skipToSemicolon_suffix (ts : List Token) : (skipToSemicolon ts).rest <:+ ts := by
  refine Step.rest_andThen_suffix (rest_skipUntil_suffix _ _ _) fun _ us => ?_
  split
  · exact List.tail_suffix us
  · exact List.suffix_refl us

theorem length_rest_skipToSemicolon_lt {ts : List Token} {s : Span} (h : (skipToSemicolon ts).result = .ok s) :
    (skipToSemicolon ts).rest.length < ts.length := by
  obtain ⟨_, _, he⟩ := Step.andThen_eq_ok h
  have hu := (rest_skipUntil_suffix (· == .semicolon) false ts).length_le
  have he : skipToSemicolon ts = _ := he
  rw [he] at h ⊢
  split at h
  · next hm =>
    rw [if_pos hm]
    exact Nat.lt_of_lt_of_le (Token.length_tail_lt (Token.not_atEnd_of_atMark hm)) hu
  · simp [Step.failExpecting, Step.fail] at h

theorem recover_suffix (ts : List Token) : recover ts <:+ ts := by
  have hu := rest_skipUntil_suffix (fun p => p == .semicolon || p == .leftBrace) false ts
  unfold recover
  simp only
  split
  · exact hu
  · split
    · exact (List.tail_suffix _).trans hu
    · split
      · exact (rest_skipGroup_suffix _).trans hu
      · exact hu

/-- Away from the end of the enclosing body, recovery passes at least one token. -/
theorem length_recover_lt {ts : List Token} (h : ¬ atBodyEnd ts = true) : (recover ts).length < ts.length := by
  have hend := Token.not_atEnd_of_not_atBodyEnd h
  rcases stops_or_length_rest_skipUntil_lt (fun p => p == .semicolon || p == .leftBrace) false h with hs | hs
  · unfold recover
    simp only [hs.2, Step.done]
    split
    · exact Token.length_tail_lt hend
    · next hm =>
      have hb : atMark .leftBrace ts = true := by
        have := hs.1
        cases hk : (front ts).kind <;> simp_all [TokenKind.punctuation?, atMark]
      simp only [hb, if_true]
      exact length_rest_skipGroup_lt hend
  · refine Nat.lt_of_le_of_lt ?_ hs
    unfold recover
    simp only
    split
    · exact Nat.le_refl _
    · split
      · simp
      · split
        · exact (rest_skipGroup_suffix _).length_le
        · exact Nat.le_refl _

end TestScaffold.Nesting
