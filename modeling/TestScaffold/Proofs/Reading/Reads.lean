import TestScaffold.Declaration.Member
import TestScaffold.Proofs.Token.Range

/-!
# What reading takes, and how far it looks

A piece of reading takes some tokens and leaves the others. What it takes does not depend on what it leaves, as long
as that begins with a token of the same kind, and the text never ends in it.

Results:
* `Step.Reads`: what a piece of reading takes, wherever it stands; chains of reading take what their pieces take
  (`Step.Reads.andThen`).
* `Nesting.spans_skipGroup`, `Nesting.reads_skipUntil`, `Nesting.spans_skipToSemicolon`: groups and passages.
* `Head.reads_read`, `Member.reads_read`: members take their tokens, and their spans reach to the last of these.
-/

namespace TestScaffold

open Token (front back extent atEnd atMark atBodyEnd Ordered)

/-! ## Tokens that are taken -/

namespace Token

/-- Whether two rows of tokens begin with tokens of the same kind. -/
def Alike (us vs : List Token) : Prop := (front us).kind = (front vs).kind

/-- Tokens among which no text ends. -/
def Inside (ts : List Token) : Prop := ∀ t ∈ ts, t.kind ≠ .endOfText

/-- Whether a row ends with a semicolon or a closing brace. -/
def Closed (ts : List Token) : Prop :=
  (back ts).kind = .punctuation .semicolon ∨ (back ts).kind = .punctuation .rightBrace

variable {us vs : List Token}

theorem Alike.refl (us : List Token) : Alike us us := rfl

theorem Alike.append (h : Alike us vs) (ts : List Token) : Alike (ts ++ us) (ts ++ vs) := by
  cases ts with
  | nil => exact h
  | cons t ts => rfl

/-- Only the first token counts. -/
theorem alike_append {ts : List Token} (h : ts ≠ []) (us vs : List Token) : Alike (ts ++ us) (ts ++ vs) := by
  rw [Alike, front_append h, front_append h]

theorem alike_of_eq_append {ts used rest : List Token} (hts : ts = used ++ rest) (h : used ≠ []) (us : List Token) :
    Alike (used ++ us) ts := by
  rw [hts]
  exact alike_append h us rest

theorem Alike.atEnd (h : Alike us vs) : atEnd us = atEnd vs := by rw [Token.atEnd, Token.atEnd, h]

theorem Alike.atMark (h : Alike us vs) (p : Punctuation) : atMark p us = atMark p vs := by
  rw [Token.atMark, Token.atMark, h]

theorem Alike.atKeyword (h : Alike us vs) (k : Keyword) : atKeyword k us = atKeyword k vs := by
  rw [Token.atKeyword, Token.atKeyword, h]

theorem Alike.atBodyEnd (h : Alike us vs) : atBodyEnd us = atBodyEnd vs := by
  rw [Token.atBodyEnd, Token.atBodyEnd, h.atEnd, h.atMark]

theorem Alike.atGroup (h : Alike us vs) (angles : Bool) : Nesting.atGroup angles us = Nesting.atGroup angles vs := by
  rw [Nesting.atGroup, Nesting.atGroup, h, h.atMark]

/-- Whether what was read before may end here: neither a semicolon nor an initializer follows. -/
def Follows (ts : List Token) : Prop := atMark .semicolon ts = false ∧ atMark .equals ts = false

theorem Alike.follows (h : Alike us vs) (hvs : Follows vs) : Follows us := by rwa [Follows, h.atMark, h.atMark]

/-- Whether `us` may stand where `rest` stood behind what was read: it begins alike, or it begins with what belongs to
nothing in front of it. The latter does not do behind what is `endless` and goes on to the end of the text. -/
def Replaces (endless : Prop) (us rest : List Token) : Prop := Alike us rest ∨ ¬ endless ∧ Follows us

theorem Replaces.refl {endless : Prop} (us : List Token) : Replaces endless us us := .inl rfl

theorem Replaces.imp {p q : Prop} (h : Replaces p us vs) (hqp : q → p) : Replaces q us vs :=
  h.imp_right fun h => ⟨fun hq => h.1 (hqp hq), h.2⟩

theorem Alike.replaces {endless : Prop} {ts : List Token} (h : Alike ts us) (hus : Replaces endless us vs) :
    Replaces endless ts vs := by
  rcases hus with hus | ⟨hp, hus⟩
  · exact .inl (Eq.trans h hus)
  · exact .inr ⟨hp, h.follows hus⟩

theorem Replaces.not_atMark {endless : Prop} (h : Replaces endless us vs) {p : Punctuation}
    (hp : p = .semicolon ∨ p = .equals) (hvs : ¬ Token.atMark p vs = true) : ¬ Token.atMark p us = true := by
  rcases h with h | ⟨-, hsemicolon, hequals⟩
  · rwa [h.atMark]
  · rcases hp with rfl | rfl
    · simp [hsemicolon]
    · simp [hequals]

theorem Inside.append (hu : Inside us) (hv : Inside vs) : Inside (us ++ vs) := by
  intro t ht
  rcases List.mem_append.mp ht with ht | ht
  · exact hu t ht
  · exact hv t ht

theorem inside_nil : Inside [] := by simp [Inside]

theorem inside_singleton {t : Token} (h : t.kind ≠ .endOfText) : Inside [t] := by
  simpa [Inside] using h

/-- Away from the end of the text a token stands in front. -/
theorem exists_cons {ts : List Token} (h : ¬ Token.atEnd ts = true) :
    ts = front ts :: ts.tail ∧ (front ts).kind ≠ .endOfText := by
  cases ts with
  | nil => exact absurd rfl h
  | cons t ts => exact ⟨rfl, by simpa [Token.atEnd, front] using h⟩

theorem kind_of_atMark {p : Punctuation} {ts : List Token} (h : Token.atMark p ts = true) :
    (front ts).kind = .punctuation p := by
  simpa [Token.atMark] using h

end Token

open Token (Alike Inside Closed Replaces)

/-- A piece of reading takes the tokens `used` and yields `a` in front of everything that begins like `rest`. -/
structure Step.Reads {α : Type} (f : List Token → Step α) (used rest : List Token) (a : α) : Prop where
  again : ∀ us, Alike us rest → f (used ++ us) = .done a us
  inside : Inside used

/-- A piece of reading that yields the span of what it takes. -/
structure Step.Spans (f : List Token → Step Span) (used rest : List Token) (s : Span) : Prop
    extends Step.Reads f used rest s where
  ne_nil : used ≠ []
  eq_extent : Ordered used → s = extent used

namespace Step

variable {α β : Type} {f : List Token → Step α} {used more rest : List Token} {a : α} {b : β}

theorem Reads.of_alike {us : List Token} (h : Reads f used rest a) (hus : Alike us rest) : Reads f used us a :=
  ⟨fun vs hvs => h.again vs (Eq.trans hvs hus), h.inside⟩

/-- A chain of reading takes what its pieces take. -/
theorem Reads.andThen {next : α → List Token → Step β} (h : Reads f used (more ++ rest) a)
    (k : Reads (next a) more rest b) : Reads (fun ts => (f ts).andThen next) (used ++ more) rest b := by
  refine ⟨fun us hus => ?_, h.inside.append k.inside⟩
  have hfirst := h.again (more ++ us) (hus.append more)
  have hnext := k.again us hus
  rw [List.append_assoc]
  simp only [hfirst, Step.andThen, done, hnext]

theorem Reads.congr {g : List Token → Step α} (h : Reads g used rest a)
    (hf : ∀ us, f (used ++ us) = g (used ++ us)) : Reads f used rest a :=
  ⟨fun us hus => (hf us).trans (h.again us hus), h.inside⟩

/-- What is yielded may be put to use without taking more. -/
theorem Reads.map (h : Reads f used rest a) (g : α → β) :
    Reads (fun ts => (f ts).andThen fun a left => done (g a) left) used rest (g a) := by
  refine ⟨fun us hus => ?_, h.inside⟩
  rw [h.again us hus]
  rfl

theorem of_map {g : α → β} {s : Step α} (h : (s.andThen fun a left => done (g a) left).result = .ok b) :
    ∃ a, s.result = .ok a ∧ b = g a ∧ (s.andThen fun a left => done (g a) left).rest = s.rest := by
  obtain ⟨a, ha, he⟩ := andThen_eq_ok h
  rw [he] at h ⊢
  cases h
  exact ⟨a, ha, rfl, rfl⟩

/-- One more token in front of what is taken. -/
theorem Reads.cons {g : List Token → Step α} {t : Token} (h : Reads g used rest a) (ht : t.kind ≠ .endOfText)
    (hf : ∀ us, f (t :: us) = g us) : Reads f (t :: used) rest a :=
  ⟨fun us hus => (hf _).trans (h.again us hus), (Token.inside_singleton ht).append h.inside⟩

/-- One more group in front of what is taken. -/
theorem Reads.group {g : List Token → Step α} {group : List Token} {s : Span}
    (hg : Spans Nesting.skipGroup group (used ++ rest) s) (h : Reads g used rest a)
    (hf : ∀ us, Nesting.skipGroup (group ++ us) = .done s us → f (group ++ us) = g us) :
    Reads f (group ++ used) rest a := by
  refine ⟨fun us hus => ?_, hg.inside.append h.inside⟩
  have hskip := hg.again (used ++ us) (hus.append used)
  rw [List.append_assoc, hf _ hskip]
  exact h.again us hus

theorem reads_name {what : Expectation} {ts : List Token} {n : String} (h : (name what ts).result = .ok n) :
    ∃ t, ts = t :: (name what ts).rest ∧ t.kind.name? = some n ∧
      Reads (name what) [t] (name what ts).rest n := by
  cases ts with
  | nil => cases h
  | cons t ts =>
    unfold name at h
    split at h
    · next m hm =>
      obtain rfl : m = n := Except.ok.inj h
      have hkind : t.kind.name? = some m := hm
      have hname (us : List Token) : name what (t :: us) = .done m us := by simp [name, front, hkind]
      rw [hname]
      refine ⟨t, rfl, hkind, fun us _ => hname us, Token.inside_singleton fun hend => ?_⟩
      rw [hend] at hkind
      cases hkind
    · cases h

end Step

open Step (Reads Spans)

/-! ## Groups -/

namespace Nesting

theorem eq_closer_of_effect {angles : Bool} {d : Open} {p : Punctuation} (h : effect angles d p = .closes) :
    p = d.closer := by
  unfold effect at h
  split at h
  · assumption
  · split at h
    · split at h <;> cases h
    · split at h <;> cases h

/-- The delimiter that was opened first. -/
def outermost (d : Open) (outer : List Open) : Open := outer.getLast?.getD d

theorem outermost_cons (d e : Open) (outer : List Open) : outermost d (e :: outer) = outermost e outer := by
  rw [outermost, List.getLast?_cons]
  rfl

/-- A piece of reading takes the rest of a group up to its end, the mark `closer`, and yields what merges with
`first`. -/
def Closes (f : List Token → Step Span) (first : Span) (closer : Punctuation) (ts : List Token) (s : Span) : Prop :=
  ∃ init last, ts = init ++ last :: (f ts).rest ∧ s = first.merge last.span ∧ last.kind = .punctuation closer ∧
    ∀ rest, Reads f (init ++ [last]) rest s

theorem Closes.cons {f g : List Token → Step Span} {first s : Span} {closer : Punctuation} {t : Token}
    {ts : List Token} (h : Closes g first closer ts s) (ht : t.kind ≠ .endOfText) (hf : ∀ us, f (t :: us) = g us) :
    Closes f first closer (t :: ts) s := by
  obtain ⟨init, last, hts, hs, hlast, hreads⟩ := h
  exact ⟨t :: init, last, by rw [hf, List.cons_append, ← hts], hs, hlast, fun rest => (hreads rest).cons ht hf⟩

/-- A group is read to the delimiter that closes the outermost open one. -/
theorem closes_closeAll {angles : Bool} {first : Span} {d : Open} {outer : List Open} {ts : List Token} {s : Span}
    (h : (closeAll angles first d outer ts).result = .ok s) :
    Closes (closeAll angles first d outer) first (outermost d outer).closer ts s := by
  fun_induction closeAll angles first d outer ts with
  | case1 d outer => cases h
  | case2 d outer t ts hk => cases h
  | case3 d t ts p hk he =>
    cases h
    have hstep (us : List Token) : closeAll angles first d [] (t :: us) = .done (first.merge t.span) us := by
      simp [closeAll, hk, he]
    have hcloser : t.kind = .punctuation (outermost d []).closer := by rw [hk, eq_closer_of_effect he]; rfl
    have hinside : Inside [t] := Token.inside_singleton (by simp [hk])
    exact ⟨[], t, by rw [hstep]; rfl, rfl, hcloser, fun _ => ⟨fun us _ => hstep us, hinside⟩⟩
  | case4 d t ts p hk he e es ih =>
    rw [outermost_cons]
    exact (ih h).cons (by simp [hk]) fun us => by simp [closeAll, hk, he]
  | case5 d outer t ts p hk closer he ih =>
    have hmore := ih h
    rw [outermost_cons] at hmore
    exact hmore.cons (by simp [hk]) fun us => by simp [closeAll, hk, he]
  | case6 d outer t ts p hk he => cases h
  | case7 d outer t ts p hk he ih => exact (ih h).cons (by simp [hk]) fun us => by simp [closeAll, hk, he]
  | case8 d outer t ts h₁ h₂ ih =>
    refine (ih h).cons h₁ fun us => ?_
    cases hk : t.kind <;> simp_all [closeAll]

theorem of_ofToken? {t : Token} {d : Open} (h : Open.ofToken? t = some d) :
    t.kind = .punctuation d.opener ∧ d.opener.closer? = some d.closer ∧ d.span = t.span := by
  unfold Open.ofToken? at h
  obtain ⟨p, hp, hd⟩ := Option.bind_eq_some_iff.mp h
  obtain ⟨closer, hc, rfl⟩ := Option.map_eq_some_iff.mp hd
  refine ⟨?_, hc, rfl⟩
  cases hk : t.kind with
  | punctuation q =>
    rw [hk] at hp
    cases hp
    rfl
  | _ =>
    rw [hk] at hp
    cases hp

/-- A group takes its tokens from the opening delimiter to the closing one, whatever stands behind. -/
theorem spans_skipGroup {ts : List Token} {s : Span} (h : (skipGroup ts).result = .ok s) : ∃ used p closer,
    ts = used ++ (skipGroup ts).rest ∧ (front ts).kind = .punctuation p ∧ p.closer? = some closer ∧
      (back used).kind = .punctuation closer ∧ ∀ rest, Spans skipGroup used rest s := by
  cases ts with
  | nil => cases h
  | cons t ts =>
    unfold skipGroup at h
    split at h
    · next d hd =>
      obtain ⟨hopener, hcloser, hspan⟩ := of_ofToken? hd
      have hgroup (us : List Token) : skipGroup (t :: us) = closeAll (d.opener == .leftAngle) d.span d [] us := by
        have hopen : Open.ofToken? t = some d := hd
        simp [skipGroup, front, hopen]
      have hinside : Inside [t] := Token.inside_singleton (by rw [show t.kind = _ from hopener]; simp)
      obtain ⟨init, last, hts, rfl, hlast, hreads⟩ := closes_closeAll h
      refine ⟨t :: (init ++ [last]), d.opener, d.closer, ?_, hopener, hcloser, ?_, fun rest => ⟨⟨?_, ?_⟩, ?_, ?_⟩⟩
      · rw [hgroup]
        simpa using hts
      · rw [← List.cons_append, Token.back_concat]
        exact hlast
      · exact fun us hus => (hgroup _).trans ((hreads rest).again us hus)
      · exact hinside.append (hreads rest).inside
      · exact List.cons_ne_nil _ _
      · intro hordered
        have hordered : Ordered ((t :: init) ++ [last]) := hordered
        rw [hspan]
        exact Token.front_merge_extent hordered (List.cons_ne_nil last [])
    · cases h

/-! ## Passages -/

/-- A passage takes everything up to where it stops. -/
theorem reads_skipUntil {stops : Punctuation → Bool} {angles : Bool} {ts : List Token}
    (h : (skipUntil stops angles ts).result = .ok ()) : ∃ used, ts = used ++ (skipUntil stops angles ts).rest ∧
      Reads (skipUntil stops angles) used (skipUntil stops angles ts).rest () := by
  -- Whether a passage stops is told by the kind of the first token.
  have stopped {us vs : List Token} (ha : Alike us vs) :
      (atBodyEnd us || (front us).kind.punctuation?.any stops) =
        (atBodyEnd vs || (front vs).kind.punctuation?.any stops) := by rw [ha.atBodyEnd, ha]
  fun_induction skipUntil stops angles ts with
  | case1 ts hs =>
    refine ⟨[], rfl, fun us hus => ?_, Token.inside_nil⟩
    have hus : Alike us ts := hus
    rw [List.nil_append, skipUntil, stopped hus, if_pos hs]
  | case2 ts hs hg s a ha ih =>
    obtain ⟨group, p, closer, hts, -, -, -, hgroup⟩ := spans_skipGroup ha
    obtain ⟨used, hrest, hreads⟩ := ih h
    have hts : ts = group ++ s.rest := hts
    refine ⟨group ++ used, by rw [List.append_assoc, ← hrest, ← hts], .group (hgroup _) hreads fun us hskip => ?_⟩
    have halike := Token.alike_of_eq_append hts (hgroup []).ne_nil us
    rw [skipUntil, stopped halike, if_neg hs, halike.atGroup, if_pos hg]
    simp only [hskip, Step.done]
  | case3 ts hs hg s d hd => cases h
  | case4 ts hs hg ih =>
    obtain ⟨used, hrest, hreads⟩ := ih h
    have hmore : ¬ atEnd ts = true := fun he => hs (by simp [atBodyEnd, he])
    obtain ⟨hts, hend⟩ := Token.exists_cons hmore
    refine ⟨front ts :: used, by rw [List.cons_append, ← hrest, ← hts], hreads.cons hend fun us => ?_⟩
    have halike : Alike (front ts :: us) ts := rfl
    rw [skipUntil, stopped halike, if_neg hs, halike.atGroup, if_neg hg, List.tail_cons]

/-- A search for a semicolon takes everything up to it, whatever stands behind. -/
theorem spans_skipToSemicolon {ts : List Token} {s : Span} (h : (skipToSemicolon ts).result = .ok s) : ∃ used,
    ts = used ++ (skipToSemicolon ts).rest ∧ (back used).kind = .punctuation .semicolon ∧
      ∀ rest, Spans skipToSemicolon used rest s := by
  obtain ⟨_, hu, he⟩ := Step.andThen_eq_ok h
  have he : skipToSemicolon ts = _ := he
  obtain ⟨init, hts, hreads⟩ := reads_skipUntil hu
  rw [he] at h ⊢
  split at h
  · next hm =>
    cases h
    rw [if_pos hm]
    obtain ⟨hrest, -⟩ := Token.exists_cons (Token.not_atEnd_of_atMark hm)
    have hkind := Token.kind_of_atMark hm
    generalize (skipUntil (· == .semicolon) false ts).rest = rest at *
    generalize front rest = last at *
    rw [hrest] at hts hreads
    have hall : ts = init ++ [last] ++ rest.tail := by simpa using hts
    have hfront : front ts = front (init ++ [last]) := by rw [hall, Token.front_append (by simp)]
    have hback := Token.back_concat init last
    refine ⟨init ++ [last], hall, by rw [hback, hkind], fun _ => ⟨⟨fun us _ => ?_, ?_⟩, by simp, fun hordered => ?_⟩⟩
    · have hskip := hreads.again (last :: us) rfl
      have hsame : front (init ++ [last] ++ us) = front ts := by rw [hfront, Token.front_append (by simp)]
      unfold skipToSemicolon
      rw [hsame, List.append_assoc, List.singleton_append, hskip]
      simp [Step.andThen, Step.done, atMark, front, hkind]
    · exact hreads.inside.append (Token.inside_singleton (by simp [hkind]))
    · rw [hfront]
      exact Token.front_merge_extent hordered (List.cons_ne_nil last [])
  · cases h

end Nesting

/-! ## Members -/

namespace Head

/-- The head of a member takes everything up to the mark that decides. Where it takes nothing, it stays as it was. -/
theorem reads_read {h k : Head} {ts : List Token} (hr : (h.read ts).result = .ok k) : ∃ used,
    ts = used ++ (h.read ts).rest ∧ (used = [] → k = h) ∧ Reads h.read used (h.read ts).rest k := by
  fun_induction Head.read h ts with
  | case1 h ts => cases hr
  | case2 h ts hb ht =>
    cases hr
    refine ⟨[], rfl, fun _ => rfl, fun us hus => ?_, Token.inside_nil⟩
    have hus : Alike us ts := hus
    rw [List.nil_append, Head.read, hus.atBodyEnd, if_neg hb, hus]
    simp [ht]
  | case3 h ts hb ht s a ha ih =>
    obtain ⟨group, p, closer, hts, -, -, -, hgroup⟩ := Nesting.spans_skipGroup ha
    obtain ⟨used, hrest, -, hreads⟩ := ih hr
    have hts : ts = group ++ s.rest := hts
    refine ⟨group ++ used, by rw [List.append_assoc, ← hrest, ← hts], fun hnil => ?_, .group (hgroup _) hreads ?_⟩
    · exact absurd (List.append_eq_nil_iff.mp hnil).1 (hgroup []).ne_nil
    · intro us hskip
      have halike := Token.alike_of_eq_append hts (hgroup []).ne_nil us
      rw [Head.read, halike.atBodyEnd, if_neg hb, halike]
      simp only [ht, hskip, Step.done]
  | case4 h ts => cases hr
  | case5 h ts hb ht ih =>
    obtain ⟨used, hrest, -, hreads⟩ := ih hr
    obtain ⟨hts, hend⟩ := Token.exists_cons (Token.not_atEnd_of_not_atBodyEnd hb)
    refine ⟨front ts :: used, by rw [List.cons_append, ← hrest, ← hts], fun hnil => ?_, hreads.cons hend fun us => ?_⟩
    · cases hnil
    · have halike : Alike (front ts :: us) ts := rfl
      rw [Head.read, halike.atBodyEnd, if_neg hb, halike]
      simp only [ht, List.tail_cons]
  | case6 h ts hb ht ih =>
    obtain ⟨used, hrest, -, hreads⟩ := ih hr
    obtain ⟨hts, hend⟩ := Token.exists_cons (Token.not_atEnd_of_not_atBodyEnd hb)
    refine ⟨front ts :: used, by rw [List.cons_append, ← hrest, ← hts], fun hnil => ?_, hreads.cons hend fun us => ?_⟩
    · cases hnil
    · have halike : Alike (front ts :: us) ts := rfl
      rw [Head.read, halike.atBodyEnd, if_neg hb, halike]
      simp only [ht, List.tail_cons]

theorem kind_of_alike (h : Head) (typeName : String) {us vs : List Token} (ha : Alike us vs) :
    h.kind typeName us = h.kind typeName vs := by
  rw [Head.kind, Head.kind, ha.atMark, ha.atMark, ha.atMark]

end Head

namespace Member

/-- What follows the parameters and the constraints of a method. -/
def methodBody (parameters : Span) (ts : List Token) : Step Span :=
  if atMark .leftBrace ts then (Nesting.skipGroup ts).andThen fun body rest => .done (parameters.merge body) rest
  else if atMark .fatArrow ts || atMark .semicolon ts then
    (Nesting.skipToSemicolon ts).andThen fun body rest => .done (parameters.merge body) rest
  else .failExpecting .methodBody ts

theorem closed_of_braces {ts used : List Token} {p closer : Punctuation} (hb : atMark .leftBrace ts = true)
    (hp : (front ts).kind = .punctuation p) (hc : p.closer? = some closer)
    (hlast : (back used).kind = .punctuation closer) : Closed used := by
  rw [Token.kind_of_atMark hb] at hp
  cases hp
  cases hc
  exact .inr hlast

/-- The body of a method takes its tokens up to a semicolon or a closing brace, whatever stands behind. -/
theorem reads_methodBody {parameters : Span} {ts : List Token} {s : Span}
    (h : (methodBody parameters ts).result = .ok s) : ∃ used body, ts = used ++ (methodBody parameters ts).rest ∧
      used ≠ [] ∧ Closed used ∧ s = parameters.merge body ∧ (Ordered used → body = extent used) ∧
      ∀ rest, Reads (methodBody parameters) used rest s := by
  unfold methodBody at h
  split at h
  · next hb =>
    obtain ⟨body, hbody, rfl, hrest⟩ := Step.of_map h
    obtain ⟨used, p, closer, hts, hp, hc, hlast, hgroup⟩ := Nesting.spans_skipGroup hbody
    have hspans := hgroup []
    have hleft : (methodBody parameters ts).rest = (Nesting.skipGroup ts).rest := by rw [methodBody, if_pos hb, hrest]
    rw [hleft]
    refine ⟨used, body, hts, hspans.ne_nil, closed_of_braces hb hp hc hlast, rfl, hspans.eq_extent, fun rest => ?_⟩
    refine ((hgroup rest).toReads.map parameters.merge).congr fun us => ?_
    rw [methodBody, (Token.alike_of_eq_append hts hspans.ne_nil us).atMark, if_pos hb]
  · next hb =>
    split at h
    · next hs =>
      obtain ⟨body, hbody, rfl, hrest⟩ := Step.of_map h
      obtain ⟨used, hts, hlast, hall⟩ := Nesting.spans_skipToSemicolon hbody
      have hspans := hall []
      have hleft : (methodBody parameters ts).rest = (Nesting.skipToSemicolon ts).rest := by
        rw [methodBody, if_neg hb, if_pos hs, hrest]
      rw [hleft]
      refine ⟨used, body, hts, hspans.ne_nil, .inl hlast, rfl, hspans.eq_extent, fun rest => ?_⟩
      refine ((hall rest).toReads.map parameters.merge).congr fun us => ?_
      have halike := Token.alike_of_eq_append hts hspans.ne_nil us
      rw [methodBody, halike.atMark, halike.atMark, halike.atMark, if_neg hb, if_pos hs]
    · cases h

/-- The rest of a method takes its tokens up to a semicolon or a closing brace, whatever stands behind. -/
theorem spans_methodRest {ts : List Token} {s : Span} (h : (methodRest ts).result = .ok s) : ∃ used,
    ts = used ++ (methodRest ts).rest ∧ Closed used ∧ ∀ rest, Spans methodRest used rest s := by
  obtain ⟨parameters, hp, he⟩ := Step.andThen_eq_ok h
  have he : methodRest ts = _ := he
  obtain ⟨group, p, closer, hts, -, -, -, hgroup⟩ := Nesting.spans_skipGroup hp
  rw [he] at h ⊢
  obtain ⟨_, hu, he'⟩ := Step.andThen_eq_ok h
  obtain ⟨passed, hrest, hpassed⟩ := Nesting.reads_skipUntil hu
  rw [he'] at h ⊢
  obtain ⟨used, body, hrest', hne, hclosed, rfl, hbody, hreads⟩ := reads_methodBody h
  have halike (us : List Token) := Token.alike_of_eq_append hrest' hne us
  rw [hrest'] at hrest
  rw [hrest, ← List.append_assoc passed, ← List.append_assoc group] at hts
  refine ⟨group ++ (passed ++ used), hts, ?_, fun rest =>
    ⟨(hgroup _).toReads.andThen ((hpassed.of_alike (halike rest)).andThen (hreads rest)), ?_, fun hordered => ?_⟩⟩
  · rw [Closed, ← List.append_assoc, Token.back_append _ hne]
    exact hclosed
  · simp [hne]
  · rw [← List.append_assoc] at hordered ⊢
    rw [(hgroup []).eq_extent hordered.left.left, hbody hordered.right]
    exact Token.extent_merge hordered (hgroup []).ne_nil hne

/-- The rest of a property takes its tokens up to its closing brace, or up to the semicolon behind its
initializer. -/
theorem spans_propertyRest {ts : List Token} {s : Span} (hb : atMark .leftBrace ts = true)
    (h : (propertyRest ts).result = .ok s) : ∃ used, ts = used ++ (propertyRest ts).rest ∧ Closed used ∧
      ∀ us, Replaces False us (propertyRest ts).rest → Spans propertyRest used us s := by
  obtain ⟨accessors, ha, he⟩ := Step.andThen_eq_ok h
  have he : propertyRest ts = _ := he
  obtain ⟨group, p, closer, hts, hp, hc, hlast, hgroup⟩ := Nesting.spans_skipGroup ha
  have hne := (hgroup []).ne_nil
  rw [he] at h ⊢
  split at h
  · next heq =>
    rw [if_pos heq]
    obtain ⟨value, hvalue, rfl, hleft⟩ := Step.of_map h
    obtain ⟨used, hrest, hsemicolon, hall⟩ := Nesting.spans_skipToSemicolon hvalue
    have hspans := hall []
    have hafter := heq
    rw [hleft]
    rw [hrest] at hts hafter
    refine ⟨group ++ used, by rwa [List.append_assoc], .inl ?_, fun us _ => ⟨?_, ?_, fun hordered => ?_⟩⟩
    · rw [Token.back_append _ hspans.ne_nil, hsemicolon]
    · refine (hgroup _).toReads.andThen (((hall us).toReads.map accessors.merge).congr fun us => ?_)
      rw [if_pos]
      rw [← hafter, (Token.alike_append hspans.ne_nil us _).atMark]
    · simp [hne]
    · rw [(hgroup []).eq_extent hordered.left, hspans.eq_extent hordered.right]
      rw [← List.append_nil group] at hordered
      have hmerge := Token.extent_merge hordered hne hspans.ne_nil
      rwa [List.append_nil] at hmerge
  · next heq =>
    cases h
    rw [if_neg heq]
    refine ⟨group, hts, closed_of_braces hb hp hc hlast, fun us hus => ⟨⟨fun vs hvs => ?_, (hgroup []).inside⟩, hne,
      (hgroup []).eq_extent⟩⟩
    have hequals := (hvs.replaces hus).not_atMark (.inr rfl) heq
    rw [propertyRest, (hgroup vs).again vs (.refl vs)]
    simp only [Step.andThen, Step.done, hequals, Bool.false_eq_true, if_false]

/-- What follows the head of a member takes its tokens up to a semicolon or a closing brace. -/
theorem spans_rest {ts : List Token} {s : Span} (h : (rest ts).result = .ok s) : ∃ used,
    ts = used ++ (rest ts).rest ∧ Closed used ∧ ∀ us, Replaces False us (rest ts).rest → Spans rest used us s := by
  -- The deciding mark is the first token that is taken, so it decides again.
  have again {f : List Token → Step Span} {used : List Token} (hts : ts = used ++ (f ts).rest) (hclosed : Closed used)
      (hspans : ∀ us, Replaces False us (f ts).rest → Spans f used us s) (hrest : ∀ us, Alike us ts → rest us = f us) :
      ∃ used, ts = used ++ (rest ts).rest ∧ Closed used ∧
        ∀ us, Replaces False us (rest ts).rest → Spans rest used us s := by
    have hne := (hspans _ (.refl _)).ne_nil
    rw [hrest ts (.refl ts)]
    refine ⟨used, hts, hclosed, fun us hus => ⟨(hspans us hus).toReads.congr fun us => ?_, hne,
      (hspans us hus).eq_extent⟩⟩
    exact hrest _ (Token.alike_of_eq_append hts hne us)
  by_cases hm : atMark .leftParen ts = true
  · have hrest (us : List Token) (ha : Alike us ts) : rest us = methodRest us := by rw [rest, ha.atMark, if_pos hm]
    rw [hrest ts (.refl ts)] at h
    obtain ⟨used, hts, hclosed, hspans⟩ := spans_methodRest h
    exact again hts hclosed (fun us _ => hspans us) hrest
  by_cases hb : atMark .leftBrace ts = true
  · have hrest (us : List Token) (ha : Alike us ts) : rest us = propertyRest us := by
      rw [rest, ha.atMark, ha.atMark, if_neg hm, if_pos hb]
    rw [hrest ts (.refl ts)] at h
    obtain ⟨used, hts, hclosed, hspans⟩ := spans_propertyRest hb h
    exact again hts hclosed hspans hrest
  · have hrest (us : List Token) (ha : Alike us ts) : rest us = Nesting.skipToSemicolon us := by
      rw [rest, ha.atMark, ha.atMark, if_neg hm, if_neg hb]
    rw [hrest ts (.refl ts)] at h
    obtain ⟨used, hts, hlast, hspans⟩ := Nesting.spans_skipToSemicolon h
    exact again hts (.inl hlast) (fun us _ => hspans us) hrest

/-- A member takes at least two tokens, up to a semicolon or a closing brace. Where its first token is `start`, its
span is the stretch they take. -/
theorem reads_read {typeName : String} {mods : List Keyword} {start : Span} {forced : Option DeclarationKind}
    {ts : List Token} {d : Declaration} (h : (read typeName mods start forced ts).result = .ok d) : ∃ used,
    ts = used ++ (read typeName mods start forced ts).rest ∧ 2 ≤ used.length ∧ Closed used ∧
      (∀ before, Ordered (before ++ used) → (front (before ++ used)).span = start → d.span = extent (before ++ used)) ∧
      ∀ us, Replaces False us (read typeName mods start forced ts).rest →
        Reads (read typeName mods start forced) used us d := by
  obtain ⟨head, hhead, he⟩ := Step.andThen_eq_ok h
  have he : read typeName mods start forced ts = _ := he
  obtain ⟨taken, hts, hnil, hreads⟩ := Head.reads_read hhead
  rw [he] at h ⊢
  split at h
  · cases h
  · next name hname =>
    obtain ⟨stop, hstop, hd, hleft⟩ := Step.of_map h
    obtain ⟨used, hrest, hclosed, hspans⟩ := spans_rest hstop
    have hne := (hspans _ (.refl _)).ne_nil
    have hmore (us : List Token) : Alike (used ++ us) (Head.read {} ts).rest :=
      Token.alike_of_eq_append hrest hne us
    have htaken : taken ≠ [] := by
      intro hempty
      rw [hnil hempty] at hname
      cases hname
    rw [hleft]
    rw [hrest] at hts
    refine ⟨taken ++ used, by rwa [List.append_assoc], ?_, ?_, ?_, ?_⟩
    · have hone := List.length_pos_iff.mpr htaken
      have htwo := List.length_pos_iff.mpr hne
      rw [List.length_append]
      omega
    · rw [Closed, Token.back_append _ hne]
      exact hclosed
    · intro before hordered hstart
      rw [← List.append_assoc] at hordered hstart ⊢
      rw [hd, ← hstart, (hspans _ (.refl _)).eq_extent hordered.right]
      exact Token.front_merge_extent hordered hne
    · intro us hus
      have hspans := hspans us hus
      refine (hreads.of_alike (hmore us)).andThen ⟨fun us hus => ?_, hspans.inside⟩
      simp only [hname, hspans.again us hus, Step.andThen, Step.done, hd, head.kind_of_alike typeName (hmore us)]

end Member

end TestScaffold
