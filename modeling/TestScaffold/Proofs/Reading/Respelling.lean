import TestScaffold.Proofs.Declaration.Anonymous
import TestScaffold.Proofs.Reading.Sites

/-!
# Words in place of identifiers

A contextual keyword that is put in place of an identifier is still a word that may be a name, and no mark. So groups,
headers and heads of members are passed as before, wherever the word stands. It matters only in front of a declaration,
where modifiers are told by their words, and `record` by what follows it.

Results:
* `Respelling.tokens`: the tokens after such a change.
* `Respelling.Carries`: what is read after a change as before; `carries_skipUntil`, `carries_memberRest` and others say
  it of the pieces that look at marks alone.
* `Respelling.memberRead_tokens`, `Respelling.dottedName_tokens`: members and dotted names are read as before, but for
  the words in their names.
* `Respelling.modifiers_tokens`, `Respelling.form_tokens`: what must stay in front of a declaration for it to be read as
  before.
-/

namespace TestScaffold

open Token (front second atEnd atMark atKeyword atIdentifier atBodyEnd skipMark wordAt)
open Nesting (skipGroup skipUntil skipToSemicolon)

/-- Inside a group nothing counts but marks and the end of the text. -/
theorem Nesting.closeAll_cons (angles : Bool) (first : Span) (d : Nesting.Open) (outer : List Nesting.Open) {t : Token}
    (ts : List Token) (hend : t.kind ≠ .endOfText) (hmark : t.kind.punctuation? = none) :
    Nesting.closeAll angles first d outer (t :: ts) = Nesting.closeAll angles first d outer ts := by
  cases hk : t.kind <;> simp_all [Nesting.closeAll, TokenKind.punctuation?]

/-- A contextual keyword that is put in place of the identifier `name` where this stands at one of the `spots`. -/
structure Respelling where
  name : String
  keyword : Keyword
  isContextual : keyword.isContextual = true
  spots : List (List Token)

namespace Respelling

variable (r : Respelling)

/-- The front token after the change. -/
def token (ts : List Token) : Token :=
  if (front ts).kind = .identifier r.name ∧ ts ∈ r.spots then ⟨.keyword r.keyword, (front ts).span⟩ else front ts

/-- The tokens after the change. -/
def tokens : List Token → List Token
  | [] => []
  | t :: ts => r.token (t :: ts) :: tokens ts

/-- The word at the front after the change. -/
def word (ts : List Token) : String := (r.token ts).kind.word

/-- A name after the change, whose words stand at the given spots. -/
def spelled (spots : List (List Token)) : String := ".".intercalate (spots.map r.word)

/-! ## Tokens -/

variable {r} {ts us : List Token}

theorem token_cases (r : Respelling) (ts : List Token) : r.token ts = front ts ∨
    (front ts).kind = .identifier r.name ∧ ts ∈ r.spots ∧ r.token ts = ⟨.keyword r.keyword, (front ts).span⟩ := by
  unfold token
  split
  · next h => exact .inr ⟨h.1, h.2, rfl⟩
  · exact .inl rfl

@[simp] theorem tail_tokens (r : Respelling) (ts : List Token) : (r.tokens ts).tail = r.tokens ts.tail := by
  cases ts <;> rfl

@[simp] theorem front_tokens (r : Respelling) (ts : List Token) : front (r.tokens ts) = r.token ts := by
  cases ts with
  | nil => simp [tokens, token, front, Token.final]
  | cons t ts => rfl

@[simp] theorem span_token (r : Respelling) (ts : List Token) : (r.token ts).span = (front ts).span := by
  rcases r.token_cases ts with h | ⟨-, -, h⟩ <;> rw [h]

@[simp] theorem punctuation?_token (r : Respelling) (ts : List Token) :
    (r.token ts).kind.punctuation? = (front ts).kind.punctuation? := by
  rcases r.token_cases ts with h | ⟨hname, -, h⟩
  · rw [h]
  · rw [h, hname]
    rfl

/-- What is no word stays as it is. -/
theorem token_of_ne_identifier (h : ∀ name, (front ts).kind ≠ .identifier name) : r.token ts = front ts :=
  (r.token_cases ts).resolve_right fun hchange => h _ hchange.1

theorem token_of_keyword {k : Keyword} (h : (front ts).kind = .keyword k) : r.token ts = front ts :=
  token_of_ne_identifier fun name hname => by rw [h] at hname; cases hname

/-- A word that is no contextual one was there before. -/
theorem kind_of_kind_token_keyword {k : Keyword} (h : (r.token ts).kind = .keyword k) (hk : k.isContextual = false) :
    (front ts).kind = .keyword k := by
  rcases r.token_cases ts with hsame | ⟨-, -, hchange⟩
  · rwa [hsame] at h
  · rw [hchange] at h
    obtain rfl : r.keyword = k := TokenKind.keyword.inj h
    rw [r.isContextual] at hk
    cases hk

theorem kind_of_kind_token_identifier {name : String} (h : (r.token ts).kind = .identifier name) :
    (front ts).kind = .identifier name := by
  rcases r.token_cases ts with hsame | ⟨-, -, hchange⟩
  · rwa [hsame] at h
  · rw [hchange] at h
    cases h

@[simp] theorem atEnd_tokens (r : Respelling) (ts : List Token) : atEnd (r.tokens ts) = atEnd ts := by
  rw [atEnd, atEnd, front_tokens]
  rcases r.token_cases ts with h | ⟨hname, -, h⟩
  · rw [h]
  · rw [h, hname]
    rfl

@[simp] theorem atMark_tokens (r : Respelling) (p : Punctuation) (ts : List Token) :
    atMark p (r.tokens ts) = atMark p ts := by
  rw [atMark, atMark, front_tokens]
  rcases r.token_cases ts with h | ⟨hname, -, h⟩
  · rw [h]
  · rw [h, hname]
    rfl

@[simp] theorem atBodyEnd_tokens (r : Respelling) (ts : List Token) : atBodyEnd (r.tokens ts) = atBodyEnd ts := by
  rw [atBodyEnd, atBodyEnd, atEnd_tokens, atMark_tokens]

@[simp] theorem atGroup_tokens (r : Respelling) (angles : Bool) (ts : List Token) :
    Nesting.atGroup angles (r.tokens ts) = Nesting.atGroup angles ts := by
  rw [Nesting.atGroup, Nesting.atGroup, front_tokens, atMark_tokens]
  rcases r.token_cases ts with h | ⟨hname, -, h⟩
  · rw [h]
  · rw [h, hname]
    rfl

theorem atKeyword_tokens (r : Respelling) {k : Keyword} (hk : k.isContextual = false) (ts : List Token) :
    atKeyword k (r.tokens ts) = atKeyword k ts := by
  rw [atKeyword, atKeyword, front_tokens, Bool.eq_iff_iff, beq_iff_eq, beq_iff_eq]
  refine ⟨fun h => kind_of_kind_token_keyword h hk, fun h => ?_⟩
  rw [token_of_keyword h, h]

@[simp] theorem skipMark_tokens (r : Respelling) (p : Punctuation) (ts : List Token) :
    skipMark p (r.tokens ts) = r.tokens (skipMark p ts) := by
  unfold skipMark
  rw [atMark_tokens]
  split <;> simp

/-- A word that may be a name is one after the change. -/
theorem name?_token {name : String} (h : (front ts).kind.name? = some name) :
    (r.token ts).kind.name? = some (r.word ts) := by
  unfold word
  rcases r.token_cases ts with hsame | ⟨-, -, hchange⟩
  · rw [hsame, h, TokenKind.word_of_name? h]
  · rw [hchange]
    exact TokenKind.name?_keyword_of_isContextual r.isContextual

@[simp] theorem isSome_name?_token (r : Respelling) (ts : List Token) :
    (r.token ts).kind.name?.isSome = (front ts).kind.name?.isSome := by
  rcases r.token_cases ts with h | ⟨hname, -, h⟩
  · rw [h]
  · rw [h, hname, TokenKind.name?_keyword_of_isContextual r.isContextual]
    rfl

/-! ## Pieces of reading -/

/-- Wherever `s` reads something, `s'` reads the same and leaves the same tokens after the change. -/
def Carries {α : Type} (r : Respelling) (s s' : Step α) : Prop := ∀ a, s.result = .ok a → s' = .done a (r.tokens s.rest)

namespace Carries

variable {α β : Type} {s s' : Step α}

theorem done (a : α) (ts : List Token) : r.Carries (.done a ts) (.done a (r.tokens ts)) := by
  intro b hb
  cases hb
  rfl

theorem fail (f : Fault) (span : Span) (ts : List Token) (s' : Step α) : r.Carries (.fail f span ts) s' := by
  intro a ha
  cases ha

theorem andThen {f g : α → List Token → Step β} (h : r.Carries s s')
    (hfg : ∀ a us, r.Carries (f a us) (g a (r.tokens us))) : r.Carries (s.andThen f) (s'.andThen g) := by
  intro b hb
  obtain ⟨a, ha, he⟩ := Step.andThen_eq_ok hb
  rw [he] at hb ⊢
  rw [h a ha]
  exact hfg a s.rest b hb

end Carries

theorem carries_closeAll (r : Respelling) (angles : Bool) (first : Span) (d : Nesting.Open) (outer : List Nesting.Open)
    (ts : List Token) : r.Carries (Nesting.closeAll angles first d outer ts)
      (Nesting.closeAll angles first d outer (r.tokens ts)) := by
  induction ts generalizing d outer with
  | nil => exact .fail _ _ _ _
  | cons t ts ih =>
    have hwords : r.tokens (t :: ts) = r.token (t :: ts) :: r.tokens ts := rfl
    rcases r.token_cases (t :: ts) with hsame | ⟨hname, -, hchange⟩
    · have hsame : r.token (t :: ts) = t := hsame
      rw [hwords, hsame]
      cases hk : t.kind with
      | endOfText =>
        simp only [Nesting.closeAll, hk]
        exact .fail _ _ _ _
      | punctuation p =>
        simp only [Nesting.closeAll, hk]
        cases Nesting.effect angles d p with
        | closes =>
          cases outer with
          | nil => exact .done _ ts
          | cons e es => exact ih e es
        | opens closer => exact ih _ _
        | clashes => exact .fail _ _ _ _
        | passes => exact ih d outer
      | _ =>
        simp only [Nesting.closeAll, hk]
        exact ih d outer
    · have hname : t.kind = .identifier r.name := hname
      rw [hwords, hchange, Nesting.closeAll_cons _ _ _ _ ts (by simp [hname]) (by rw [hname]; rfl),
        Nesting.closeAll_cons _ _ _ _ (r.tokens ts) (by simp) rfl]
      exact ih d outer

theorem carries_skipGroup (r : Respelling) (ts : List Token) : r.Carries (skipGroup ts) (skipGroup (r.tokens ts)) := by
  have hopen : Nesting.Open.ofToken? (r.token ts) = Nesting.Open.ofToken? (front ts) := by
    rw [Nesting.Open.ofToken?, Nesting.Open.ofToken?, punctuation?_token, span_token]
  unfold skipGroup
  rw [front_tokens, hopen, tail_tokens]
  split
  · exact r.carries_closeAll _ _ _ _ _
  · exact .fail _ _ _ _

theorem carries_skipUntil (r : Respelling) (stops : Punctuation → Bool) (angles : Bool) (ts : List Token) :
    r.Carries (skipUntil stops angles ts) (skipUntil stops angles (r.tokens ts)) := by
  fun_induction skipUntil stops angles ts with
  | case1 ts hs =>
    rw [skipUntil.eq_def stops angles (r.tokens ts), atBodyEnd_tokens, front_tokens, punctuation?_token, if_pos hs]
    exact .done () ts
  | case2 ts hs hg s a ha ih =>
    have hgroup := r.carries_skipGroup ts a ha
    rw [skipUntil.eq_def stops angles (r.tokens ts), atBodyEnd_tokens, front_tokens, punctuation?_token, if_neg hs,
      atGroup_tokens, if_pos hg, hgroup]
    exact ih
  | case3 ts hs hg s d hd =>
    intro a ha
    cases ha
  | case4 ts hs hg ih =>
    rw [skipUntil.eq_def stops angles (r.tokens ts), atBodyEnd_tokens, front_tokens, punctuation?_token, if_neg hs,
      atGroup_tokens, if_neg hg, tail_tokens]
    exact ih

theorem carries_skipToSemicolon (r : Respelling) (ts : List Token) :
    r.Carries (skipToSemicolon ts) (skipToSemicolon (r.tokens ts)) := by
  refine (r.carries_skipUntil _ _ ts).andThen fun _ us => ?_
  rw [atMark_tokens, front_tokens, front_tokens, span_token, span_token, tail_tokens]
  split
  · exact .done _ us.tail
  · exact .fail _ _ _ _

theorem carries_skipAttributes (r : Respelling) (ts : List Token) :
    r.Carries (Reader.skipAttributes ts) (Reader.skipAttributes (r.tokens ts)) := by
  fun_induction Reader.skipAttributes ts with
  | case1 ts hm s a ha ih =>
    have hgroup := r.carries_skipGroup ts a ha
    rw [Reader.skipAttributes.eq_def (r.tokens ts), atMark_tokens, if_pos hm, hgroup]
    exact ih
  | case2 ts hm s d hd =>
    intro a ha
    cases ha
  | case3 ts hm =>
    rw [Reader.skipAttributes.eq_def (r.tokens ts), atMark_tokens, if_neg hm]
    exact .done () ts

/-! ## Members -/

theorem carries_methodRest (r : Respelling) (ts : List Token) :
    r.Carries (Member.methodRest ts) (Member.methodRest (r.tokens ts)) := by
  refine (r.carries_skipGroup ts).andThen fun parameters us => ?_
  refine (r.carries_skipUntil _ _ us).andThen fun _ vs => ?_
  rw [atMark_tokens, atMark_tokens, atMark_tokens]
  split
  · exact (r.carries_skipGroup vs).andThen fun _ ws => .done _ ws
  · split
    · exact (r.carries_skipToSemicolon vs).andThen fun _ ws => .done _ ws
    · exact .fail _ _ _ _

theorem carries_propertyRest (r : Respelling) (ts : List Token) :
    r.Carries (Member.propertyRest ts) (Member.propertyRest (r.tokens ts)) := by
  refine (r.carries_skipGroup ts).andThen fun accessors us => ?_
  rw [atMark_tokens]
  split
  · exact (r.carries_skipToSemicolon us).andThen fun _ vs => .done _ vs
  · exact .done _ us

theorem carries_memberRest (r : Respelling) (ts : List Token) :
    r.Carries (Member.rest ts) (Member.rest (r.tokens ts)) := by
  unfold Member.rest
  rw [atMark_tokens, atMark_tokens]
  split
  · exact r.carries_methodRest ts
  · split
    · exact r.carries_propertyRest ts
    · exact r.carries_skipToSemicolon ts

/-- A token that is noted in a head is noted after the change, with the word that stands there then. -/
theorem note_token (r : Respelling) (h : Head) {last : Option (List Token)} (hname : h.name = last.map wordAt) :
    (h.note (front ts).kind).name = (h.noteSpot last ts).map wordAt ∧
      Head.note { h with name := last.map r.word } (r.token ts).kind =
        { h.note (front ts).kind with name := (h.noteSpot last ts).map r.word } := by
  cases hn : (front ts).kind.name? with
  | some n =>
    obtain rfl : wordAt ts = n := TokenKind.word_of_name? hn
    rw [Head.note_of_name? h hn, Head.note_of_name? _ (r.name?_token hn), Head.noteSpot_of_name? h last hn]
    by_cases ho : h.isOperator = true <;> simp [ho, hname]
  | none =>
    have hsame : r.token ts = front ts := token_of_ne_identifier fun name hk => by rw [hk] at hn; cases hn
    have hword : r.word ts = wordAt ts := by rw [word, hsame, Token.wordAt]
    rw [hsame]
    by_cases hoperator : (front ts).kind = .keyword .operatorKw
    · simp [Head.note, Head.noteSpot, hword, Token.wordAt, hoperator, TokenKind.word]
    · by_cases hthis : (front ts).kind = .keyword .thisKw
      · simp [Head.note, Head.noteSpot, hword, Token.wordAt, hthis, TokenKind.word]
      · obtain ⟨hsamename, hnote⟩ := Head.note_of_unnamed h (last.map r.word) hn hoperator hthis
        rw [Head.noteSpot_of_unnamed h last hn hoperator hthis, hsamename]
        exact ⟨hname, hnote⟩

/-- What a head makes of the front token does not depend on the change. -/
theorem turn_tokens (r : Respelling) (h : Head) (name : Option String) (ts : List Token) :
    (front (r.tokens ts)).kind.punctuation?.map (Head.turn { h with name := name }) =
      (front ts).kind.punctuation?.map h.turn := by
  rw [front_tokens, punctuation?_token, Head.turn_withName]

/-- The head of a member is read after the change as before, but for its name. -/
theorem read_tokens (r : Respelling) {h k : Head} {last : Option (List Token)} (hk : (h.read ts).result = .ok k)
    (hname : h.name = last.map wordAt) : k.name = (h.spot last ts).map wordAt ∧
      Head.read { h with name := last.map r.word } (r.tokens ts) =
        .done { k with name := (h.spot last ts).map r.word } (r.tokens (h.read ts).rest) := by
  fun_induction Head.spot h last ts with
  | case1 h last ts hb =>
    rw [Head.read, if_pos hb] at hk
    cases hk
  | case2 h last ts hb ht =>
    have hread : h.read ts = .done h ts := by rw [Head.read, if_neg hb, ht]
    rw [hread] at hk ⊢
    obtain rfl := Except.ok.inj hk
    refine ⟨hname, ?_⟩
    rw [Head.read.eq_def _ (r.tokens ts), atBodyEnd_tokens, if_neg hb, turn_tokens, ht]
    rfl
  | case3 h last ts hb ht s a ha ih =>
    rw [Head.read_of_begins hb ht ha] at hk ⊢
    obtain ⟨hkname, hagain⟩ := ih hk hname
    refine ⟨hkname, ?_⟩
    rw [Head.read.eq_def _ (r.tokens ts), atBodyEnd_tokens, if_neg hb, turn_tokens, ht, r.carries_skipGroup ts a ha]
    exact hagain
  | case4 h last ts hb ht s d hd =>
    rw [Head.read, if_neg hb, ht] at hk
    simp only [show (skipGroup ts).result = _ from hd] at hk
    cases hk
  | case5 h last ts hb ht ih | case6 h last ts hb ht ih =>
    have hread : h.read ts = (h.note (front ts).kind).read ts.tail := by rw [Head.read, if_neg hb, ht]
    rw [hread] at hk ⊢
    obtain ⟨hnoted, hnote⟩ := r.note_token h hname
    obtain ⟨hkname, hagain⟩ := ih hk hnoted
    refine ⟨hkname, ?_⟩
    rw [Head.read.eq_def _ (r.tokens ts), atBodyEnd_tokens, if_neg hb, turn_tokens, ht]
    simp only [front_tokens, hnote, tail_tokens]
    exact hagain

/-- A member is read after the change as before, but for its name. The name of a type is asked for where a kind is not
forced: whether the member is a constructor must not change. -/
theorem memberRead_tokens (r : Respelling) {owner owner' : String} {mods : List Keyword} {start : Span}
    {forced : Option DeclarationKind} {d : Declaration}
    (h : (Member.read owner mods start forced ts).result = .ok d)
    (howner : forced = none → ∀ us, Head.spot {} none ts = some us → (wordAt us = owner ↔ r.word us = owner')) :
    ∃ us, Head.spot {} none ts = some us ∧ Member.read owner' mods start forced (r.tokens ts) =
      .done { d with name := r.word us } (r.tokens (Member.read owner mods start forced ts).rest) := by
  obtain ⟨k, hk, he⟩ := Step.andThen_eq_ok h
  have he : Member.read owner mods start forced ts = _ := he
  have hnone : ({} : Head).name = (none : Option (List Token)).map wordAt := rfl
  obtain ⟨hname, hagain⟩ := r.read_tokens hk hnone
  have hagain : Head.read {} (r.tokens ts) = _ := hagain
  rw [he] at h ⊢
  cases hspot : Head.spot {} none ts with
  | none =>
    rw [hspot] at hname
    simp only [hname, Option.map_none] at h
    cases h
  | some us =>
    rw [hspot] at hname hagain
    simp only [Option.map_some] at hname hagain
    simp only [hname] at h ⊢
    obtain ⟨stop, hstop, he'⟩ := Step.andThen_eq_ok h
    rw [he'] at h ⊢
    have hrest := r.carries_memberRest _ stop hstop
    obtain rfl := Except.ok.inj h
    refine ⟨us, rfl, ?_⟩
    have hkind : forced.getD (Head.kind { k with name := some (r.word us) } owner' (r.tokens (Head.read {} ts).rest)) =
        forced.getD (k.kind owner (Head.read {} ts).rest) := by
      cases forced with
      | some kind => rfl
      | none =>
        have hiff := howner rfl us hspot
        have hsame : (some (r.word us) == some owner') = (some (wordAt us) == some owner) := by
          rw [Bool.eq_iff_iff]
          simpa using hiff.symm
        simp only [Option.getD_none, Head.kind, atMark_tokens, hsame, hname]
    rw [Member.read, hagain]
    simp only [Step.andThen, Step.done, hrest, hkind]

/-! ## Names of namespaces -/

theorem dottedName_tokens (r : Respelling) {name s : String} (name' : String)
    (h : (Reader.dottedName name ts).result = .ok s) : Reader.dottedName name' (r.tokens ts) =
      .done (".".intercalate (name' :: (Reader.dottedSpots ts).map r.word))
        (r.tokens (Reader.dottedName name ts).rest) := by
  fun_induction Reader.dottedName name ts generalizing name' with
  | case1 name ts hm n hn ih =>
    have hn' : (front (r.tokens ts.tail)).kind.name? = some (r.word ts.tail) := by
      rw [front_tokens]
      exact r.name?_token hn
    rw [Reader.dottedName.eq_def name' (r.tokens ts), atMark_tokens, if_pos hm, tail_tokens]
    simp only [hn', tail_tokens]
    rw [ih _ h, Reader.dottedSpots.eq_def ts, if_pos hm]
    rfl
  | case2 name ts hm hn => cases h
  | case3 name ts hm =>
    rw [Reader.dottedName.eq_def name' (r.tokens ts), atMark_tokens, if_neg hm, Reader.dottedSpots, if_neg hm]
    rfl

/-! ## In front of declarations -/

/-- What stands in second place after the change stood in one of the first two places. -/
theorem exists_second (r : Respelling) (ts : List Token) :
    ∃ us, (us = ts ∨ us = ts.tail) ∧ second ts = front us ∧ second (r.tokens ts) = r.token us := by
  match ts with
  | [] => exact ⟨[], .inl rfl, rfl, front_tokens r []⟩
  | [t] => exact ⟨[t], .inl rfl, rfl, rfl⟩
  | t :: u :: ts => exact ⟨u :: ts, .inr rfl, rfl, rfl⟩

/-- Before the change a directive stands at the front if one does after it. -/
theorem atDirective_of_atDirective_tokens (h : Reader.atDirective (r.tokens ts) = true) :
    Reader.atDirective ts = true := by
  obtain ⟨us, -, hsecond, hsecond'⟩ := r.exists_second ts
  simp only [Reader.atDirective, Bool.or_eq_true, Bool.and_eq_true, atKeyword, atIdentifier, front_tokens, hsecond,
    hsecond', beq_iff_eq] at h ⊢
  rcases h with (h | ⟨h, h'⟩) | ⟨h, h'⟩
  · exact .inl (.inl (kind_of_kind_token_keyword h rfl))
  · exact .inl (.inr ⟨kind_of_kind_token_identifier h, kind_of_kind_token_keyword h' rfl⟩)
  · exact .inr ⟨kind_of_kind_token_keyword h rfl, kind_of_kind_token_identifier h'⟩

theorem atDirective_tokens (h : Reader.atDirective ts = true) (hfirst : r.token ts = front ts)
    (hsecond : r.token ts.tail = front ts.tail) : Reader.atDirective (r.tokens ts) = true := by
  obtain ⟨us, hus, hfront, htoken⟩ := r.exists_second ts
  have hsame : r.token us = front us := by rcases hus with rfl | rfl <;> assumption
  simpa only [Reader.atDirective, atKeyword, atIdentifier, front_tokens, hfront, htoken, hsame, hfirst] using h

/-- Where the front token is no modifier, and no `ref` in front of a structure, nothing is passed. -/
theorem modifiers_tokens_nil (r : Respelling) {t : Token}
    (hkept : r.token (t :: ts) = t ∨ ¬ r.keyword.isModifier = true)
    (hk : ∀ k, t.kind = .keyword k → ¬ k.isModifier = true)
    (href : t.kind = .identifier "ref" → ¬ atKeyword .structKw ts = true) :
    Reader.modifiers (r.tokens (t :: ts)) = ([], r.tokens (t :: ts)) := by
  rcases r.token_cases (t :: ts) with hsame | ⟨hname, -, hchange⟩
  · have hsame : r.token (t :: ts) = t := hsame
    rw [tokens, hsame]
    refine Reader.modifiers_eq_nil hk fun hkind hstruct => ?_
    have hnext := (Reader.atKeyword_iff_second hkind .structKw (r.tokens ts)).mpr hstruct
    rw [r.atKeyword_tokens rfl] at hnext
    exact href hkind hnext
  · have hname : t.kind = .identifier r.name := hname
    have hword : ¬ r.keyword.isModifier = true := by
      refine hkept.resolve_left fun hsame => ?_
      rw [hchange] at hsame
      rw [← hsame] at hname
      cases hname
    simp [tokens, hchange, Reader.modifiers, hword]

@[simp] theorem atRecordFlavour_tokens (r : Respelling) (ts : List Token) :
    Reader.atRecordFlavour (r.tokens ts) = Reader.atRecordFlavour ts := by
  obtain ⟨us, -, hfront, htoken⟩ := r.exists_second ts
  have hkeyword {k : Keyword} (hk : k.isContextual = false) :
      ((r.token us).kind == .keyword k) = ((front us).kind == .keyword k) := by
    have hsame := r.atKeyword_tokens hk us
    rwa [atKeyword, front_tokens] at hsame
  rw [Reader.atRecordFlavour, Reader.atRecordFlavour, hfront, htoken, hkeyword rfl, hkeyword rfl]

@[simp] theorem isSome_name?_second (r : Respelling) (ts : List Token) :
    (second (r.tokens ts)).kind.name?.isSome = (second ts).kind.name?.isSome := by
  obtain ⟨us, -, hfront, htoken⟩ := r.exists_second ts
  rw [hfront, htoken, isSome_name?_token]

/-- Modifiers are read after the change as before, unless the change puts one behind them. -/
theorem modifiers_tokens (r : Respelling)
    (hkept : ∀ us, us <:+ ts → (Reader.modifiers ts).2.length < us.length → r.token us = front us)
    (hheading : r.token (Reader.modifiers ts).2 = front (Reader.modifiers ts).2 ∨ ¬ r.keyword.isModifier = true) :
    Reader.modifiers (r.tokens ts) = ((Reader.modifiers ts).1, r.tokens (Reader.modifiers ts).2) := by
  fun_induction Reader.modifiers ts with
  | case1 => rfl
  | case2 t ts k hk hm ks rest hr ih =>
    rw [hr] at ih
    have hsame : r.token (t :: ts) = t := token_of_keyword hk
    have hmore := ih (fun us hus => hkept us (hus.trans (List.suffix_cons t ts))) hheading
    simp only [tokens, hsame, Reader.modifiers, hk, hm, if_true, hmore]
  | case3 t ts k hk hm =>
    refine r.modifiers_tokens_nil hheading (fun j hj => ?_) (fun href => ?_)
    · rw [hk] at hj
      cases hj
      exact hm
    · rw [hk] at href
      cases href
  | case4 t ts name hk hn ih =>
    obtain ⟨hname, hstruct⟩ := (Bool.and_eq_true _ _ ▸ hn : _ ∧ _)
    have hlength := (Reader.modifiers_suffix ts).length_le
    have hsame : r.token (t :: ts) = t := hkept _ (List.suffix_refl _) (Nat.lt_succ_of_le hlength)
    have hnext : atKeyword .structKw (r.tokens ts) = true := by rwa [r.atKeyword_tokens rfl]
    simp only [tokens, hsame, Reader.modifiers, hk, hname, hnext, Bool.and_self, if_true]
    exact ih (fun us hus => hkept us (hus.trans (List.suffix_cons t ts))) hheading
  | case5 t ts name hk hn =>
    refine r.modifiers_tokens_nil hheading (fun j hj => ?_) (fun href hstruct => hn ?_)
    · rw [hk] at hj
      cases hj
    · rw [hk] at href
      cases href
      simp [hstruct]
  | case6 t ts h₁ h₂ =>
    exact r.modifiers_tokens_nil hheading (fun j hj => absurd hj (h₁ j)) (fun href => absurd href (h₂ _))

/-- A declaration has the same form after the change, unless that puts the word `record` where a type could be meant. -/
theorem form_tokens (r : Respelling) (scope : Scope) (mods : List Keyword)
    (h : r.token ts = front ts ∨ (r.keyword = .recordKw → Reader.atRecordFlavour ts = false ∧
      (second ts).kind.name?.isSome = false)) :
    Reader.form scope mods (r.tokens ts) = (Reader.form scope mods ts).map r.tokens := by
  rcases r.token_cases ts with hsame | ⟨hname, -, hchange⟩
  · have hkeyword (k : Keyword) : atKeyword k (r.tokens ts) = atKeyword k ts := by
      rw [atKeyword, front_tokens, hsame, atKeyword]
    have hrecord : Reader.atRecord (r.tokens ts) = Reader.atRecord ts := by
      rw [Reader.atRecord, Reader.atRecord, hkeyword, r.atRecordFlavour_tokens, r.isSome_name?_second]
    unfold Reader.form
    rw [front_tokens, hsame, hrecord, r.atRecordFlavour_tokens, hkeyword, hkeyword, hkeyword, tail_tokens]
    cases (front ts).kind.keyword?.bind Reader.typeKind? with
    | some kind => rfl
    | none =>
      dsimp only
      split
      · split <;> rfl
      · split
        · rfl
        · split
          · rfl
          · split <;> rfl
  · have hrecord : Reader.atRecord ts = false := by simp [Reader.atRecord, atKeyword, hname]
    have hrecord' : Reader.atRecord (r.tokens ts) = false := by
      rw [Reader.atRecord, r.atRecordFlavour_tokens, r.isSome_name?_second, atKeyword, front_tokens, hchange]
      by_cases hk : r.keyword = .recordKw
      · obtain ⟨hflavour, hsecond⟩ := (h.resolve_left fun hsame => by
          rw [hchange] at hsame
          rw [← hsame] at hname
          cases hname) hk
        rw [hflavour, hsecond, Bool.or_false, Bool.and_false]
      · have hne : (TokenKind.keyword r.keyword == .keyword .recordKw) = false := by simpa using hk
        rw [hne, Bool.false_and]
    rw [Reader.form_of_plain scope mods (by simp [hname]) hrecord, Reader.form_of_plain scope mods _ hrecord']
    · split <;> rfl
    · intro k hk
      rw [front_tokens, hchange] at hk
      rw [← TokenKind.keyword.inj hk]
      exact r.isContextual

end Respelling

end TestScaffold
