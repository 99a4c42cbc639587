import TestScaffold.Declaration
import TestScaffold.Token.Nesting

/-!
# Members of a type

The head of a member is read token by token up to the mark that decides its kind:

| mark | kind |
|------|------|
| `(` | method, constructor, or other (operator, destructor) |
| `{` or `=>` | property |
| `=` or `;` | field |

The rest of the member is passed over.

* `Head.read`: what the head says, with the deciding mark still to be read.
* `Member.read`: the whole member.
* `Member.length_rest_read_lt`: a member takes at least one token.
-/

namespace TestScaffold

open Token (front atEnd atMark atBodyEnd)
open Nesting (skipGroup skipUntil skipToSemicolon)

/-- What the head of a member says. -/
structure Head where
  /-- The last name of the head, which is the declared one. Indexers are called `this`, operators `operator`. -/
  name : Option String := none
  /-- How many names the head holds, the declared one included. -/
  names : Nat := 0
  isOperator : Bool := false
  isDestructor : Bool := false
  deriving DecidableEq, Repr

namespace Head

/-- What a mark means inside a member head. -/
inductive Turn
  /-- The mark decides the kind of the member. -/
  | decides
  /-- The mark begins type arguments, an array rank, or the members of a tuple. -/
  | begins
  /-- The mark is part of the head. -/
  | passes
  deriving DecidableEq, Repr

/-- The meaning of the mark `p` behind the head read so far. A parenthesis before any name begins a tuple type,
and an operator may be spelled with `=` or `<`. -/
def turn (h : Head) : Punctuation → Turn
  | .leftParen => if h.names == 0 && !h.isOperator then .begins else .decides
  | .equals => if h.isOperator then .passes else .decides
  | .leftAngle => if h.isOperator then .passes else .begins
  | .leftBracket => .begins
  | .leftBrace | .fatArrow | .semicolon => .decides
  | _ => .passes

/-- The head with one more token. A conversion operator names its target type behind the word `operator`, which
does not rename it. -/
def note (h : Head) : TokenKind → Head
  | .punctuation .tilde => { h with isDestructor := true }
  | .keyword .operatorKw => { h with isOperator := true, name := some Keyword.operatorKw.spelling }
  | .keyword .thisKw => { h with name := some Keyword.thisKw.spelling }
  | kind =>
    match kind.name? with
    | some n => if h.isOperator then h else { h with name := some n, names := h.names + 1 }
    | none => h

/-- Reads the head on to the mark that decides the member's kind, which is left in place. -/
def read (h : Head) (ts : List Token) : Step Head :=
  if atBodyEnd ts then .failExpecting .member ts
  else
    match (front ts).kind.punctuation?.map h.turn with
    | some .decides => .done h ts
    | some .begins =>
      let s := skipGroup ts
      match s.result with
      | .ok _ => h.read s.rest
      | .error d => ⟨.error d, s.rest⟩
    | some .passes | none => (h.note (front ts).kind).read ts.tail
termination_by ts.length
decreasing_by
  · exact Nesting.length_rest_skipGroup_lt (by simp_all [atBodyEnd])
  all_goals exact Token.length_tail_lt (by simp_all [atBodyEnd])

theorem rest_read_suffix (h : Head) (ts : List Token) : (h.read ts).rest <:+ ts := by
  fun_induction Head.read h ts with
  | case1 h ts => exact List.suffix_refl ts
  | case2 h ts => exact List.suffix_refl ts
  | case3 h ts _ _ s _ _ ih => exact ih.trans (Nesting.rest_skipGroup_suffix ts)
  | case4 h ts => exact Nesting.rest_skipGroup_suffix ts
  | case5 h ts _ _ ih => exact ih.trans (List.tail_suffix ts)
  | case6 h ts _ _ ih => exact ih.trans (List.tail_suffix ts)

theorem not_atEnd_of_read {h k : Head} {ts : List Token} (hr : (h.read ts).result = .ok k) :
    ¬ atEnd (h.read ts).rest = true := by
  fun_induction Head.read h ts with
  | case1 h ts => simp [Step.failExpecting, Step.fail] at hr
  | case2 h ts hb => exact Token.not_atEnd_of_not_atBodyEnd hb
  | case3 h ts _ _ s _ _ ih => exact ih hr
  | case4 h ts => simp at hr
  | case5 h ts _ _ ih => exact ih hr
  | case6 h ts _ _ ih => exact ih hr

/-- The kind of the member, from the deciding mark that stands at the front of `ts`. A single name before a
parenthesis that equals the name of the enclosing type makes a constructor. -/
def kind (h : Head) (typeName : String) (ts : List Token) : DeclarationKind :=
  if atMark .leftParen ts then
    if h.isOperator || h.isDestructor then .other
    else if h.names == 1 && h.name == some typeName then .constructor
    else .method
  else if atMark .leftBrace ts || atMark .fatArrow ts then .property
  else .field

end Head

namespace Member

/-- Passes parameters, constraints or a constructor initializer, and the body. -/
def methodRest (ts : List Token) : Step Span :=
  (skipGroup ts).andThen fun parameters rest =>
    (skipUntil (fun p => p == .leftBrace || p == .fatArrow || p == .semicolon) true rest).andThen
      fun _ rest =>
        if atMark .leftBrace rest then
          (skipGroup rest).andThen fun body rest => .done (parameters.merge body) rest
        else if atMark .fatArrow rest || atMark .semicolon rest then
          (skipToSemicolon rest).andThen fun body rest => .done (parameters.merge body) rest
        else .failExpecting .methodBody rest

/-- Passes the accessors of a property and its initializer, if it has one. -/
def propertyRest (ts : List Token) : Step Span :=
  (skipGroup ts).andThen fun accessors rest =>
    if atMark .equals rest then
      (skipToSemicolon rest).andThen fun value rest => .done (accessors.merge value) rest
    else .done accessors rest

/-- Passes what follows a member's head, from the deciding mark on. -/
def rest (ts : List Token) : Step Span :=
  if atMark .leftParen ts then methodRest ts
  else if atMark .leftBrace ts then propertyRest ts
  else skipToSemicolon ts

/-- Reads a member of the type called `typeName`; its modifiers, which began at `start`, have been read. Where
`forced` gives a kind, the member has that kind whatever its head says. -/
def read (typeName : String) (modifiers : List Keyword) (start : Span) (forced : Option DeclarationKind)
    (ts : List Token) : Step Declaration :=
  (Head.read {} ts).andThen fun head atTurn =>
    match head.name with
    | none => .fail .missingMemberName (start.merge (front atTurn).span) atTurn
    | some name =>
      (rest atTurn).andThen fun stop left =>
        .done ⟨forced.getD (head.kind typeName atTurn), name, modifiers, start.merge stop, []⟩ left

/-! ## What is left -/

theorem length_rest_methodRest_lt {ts : List Token} (h : ¬ atEnd ts = true) :
    (methodRest ts).rest.length < ts.length := by
  refine Step.length_rest_andThen_lt (Nesting.length_rest_skipGroup_lt h) fun _ us => ?_
  refine Step.rest_andThen_suffix (Nesting.rest_skipUntil_suffix _ _ us) fun _ vs => ?_
  split
  · exact Step.rest_andThen_suffix (Nesting.rest_skipGroup_suffix vs) fun _ ws => List.suffix_refl ws
  · split
    · exact Step.rest_andThen_suffix (Nesting.rest_skipToSemicolon_suffix vs) fun _ ws => List.suffix_refl ws
    · exact List.suffix_refl vs

theorem length_rest_propertyRest_lt {ts : List Token} (h : ¬ atEnd ts = true) :
    (propertyRest ts).rest.length < ts.length := by
  refine Step.length_rest_andThen_lt (Nesting.length_rest_skipGroup_lt h) fun _ us => ?_
  split
  · exact Step.rest_andThen_suffix (Nesting.rest_skipToSemicolon_suffix us) fun _ ws => List.suffix_refl ws
  · exact List.suffix_refl us

theorem rest_methodRest_suffix (ts : List Token) : (methodRest ts).rest <:+ ts := by
  refine Step.rest_andThen_suffix (Nesting.rest_skipGroup_suffix ts) fun _ us => ?_
  refine Step.rest_andThen_suffix (Nesting.rest_skipUntil_suffix _ _ us) fun _ vs => ?_
  split
  · exact Step.rest_andThen_suffix (Nesting.rest_skipGroup_suffix vs) fun _ ws => List.suffix_refl ws
  · split
    · exact Step.rest_andThen_suffix (Nesting.rest_skipToSemicolon_suffix vs) fun _ ws => List.suffix_refl ws
    · exact List.suffix_refl vs

theorem rest_propertyRest_suffix (ts : List Token) : (propertyRest ts).rest <:+ ts := by
  refine Step.rest_andThen_suffix (Nesting.rest_skipGroup_suffix ts) fun _ us => ?_
  split
  · exact Step.rest_andThen_suffix (Nesting.rest_skipToSemicolon_suffix us) fun _ ws => List.suffix_refl ws
  · exact List.suffix_refl us

theorem rest_rest_suffix (ts : List Token) : (rest ts).rest <:+ ts := by
  unfold rest
  split
  · exact rest_methodRest_suffix ts
  · split
    · exact rest_propertyRest_suffix ts
    · exact Nesting.rest_skipToSemicolon_suffix ts

theorem rest_read_suffix (typeName : String) (modifiers : List Keyword) (start : Span)
    (forced : Option DeclarationKind) (ts : List Token) :
    (read typeName modifiers start forced ts).rest <:+ ts := by
  refine Step.rest_andThen_suffix (Head.rest_read_suffix {} ts) fun head us => ?_
  split
  · exact List.suffix_refl us
  · exact Step.rest_andThen_suffix (rest_rest_suffix us) fun _ vs => List.suffix_refl vs

theorem length_rest_rest_lt {ts : List Token} {s : Span} (h : (rest ts).result = .ok s) :
    (rest ts).rest.length < ts.length := by
  unfold rest at h ⊢
  split
  · next hm => exact length_rest_methodRest_lt (Token.not_atEnd_of_atMark hm)
  · split
    · next hm => exact length_rest_propertyRest_lt (Token.not_atEnd_of_atMark hm)
    · next h₁ h₂ => exact Nesting.length_rest_skipToSemicolon_lt (by simpa [h₁, h₂] using h)

/-- A member that is read in full takes at least one token. -/
theorem length_rest_read_lt {typeName : String} {modifiers : List Keyword} {start : Span}
    {forced : Option DeclarationKind} {ts : List Token} {d : Declaration}
    (h : (read typeName modifiers start forced ts).result = .ok d) :
    (read typeName modifiers start forced ts).rest.length < ts.length := by
  obtain ⟨head, _, he⟩ := Step.andThen_eq_ok h
  have he : read typeName modifiers start forced ts = _ := he
  have hl := (Head.rest_read_suffix {} ts).length_le
  rw [he] at h ⊢
  split at h
  · simp [Step.fail] at h
  · obtain ⟨s, hs, hr⟩ := Step.andThen_eq_ok h
    rw [hr]
    exact Nat.lt_of_lt_of_le (length_rest_rest_lt hs) hl

end Member

end TestScaffold
