import TestScaffold.Proofs.Reading.Directives
import TestScaffold.Proofs.Reading.Laying

/-!
# Braces of an accepted text

Every piece of reading that meets no fault takes its braces in pairs: groups as units, bodies from the opening brace to
the closing one, and outside of these no brace at all. A text with a brace missing or left over is therefore rejected,
wherever that brace stands.

Results:
* `Nesting.BracesBalance`: no row of closing braces gets ahead of the opening ones, and in the end none is left open.
* `Nesting.bracesBalance_iff`: the same told by a running depth.
* `Nesting.sameDepth_skipGroup`, `Reader.sameDepth_item`, `Reader.keepsDepth_ofLevels`: what reading takes is balanced.
* `DeclarationTree.bracesBalance_of_ofTokens`: the tokens of an accepted text are balanced.
-/

namespace TestScaffold

open Token (front atEnd atMark atKeyword atBodyEnd skipMark)

namespace Nesting

/-! ## Balance and depth -/

/-- Whether the braces among `ks` are in balance: never more closing than opening ones from the left, and in the end
as many of the one as of the other. -/
structure BracesBalance (ks : List TokenKind) : Prop where
  closed_le : ∀ init, init <+: ks →
    init.count (.punctuation .rightBrace) ≤ init.count (.punctuation .leftBrace)
  closed_eq : ks.count (.punctuation .rightBrace) = ks.count (.punctuation .leftBrace)

/-- The number of open braces behind the token `k`, with `n` of them open in front; nothing if `k` closes a brace that
was never opened. -/
def braceStep (n : Nat) : TokenKind → Option Nat
  | .punctuation .leftBrace => some (n + 1)
  | .punctuation .rightBrace => if n = 0 then none else some (n - 1)
  | _ => some n

/-- The number of open braces behind the tokens `ks`, with `n` of them open in front. -/
def braceDepth? (n : Nat) (ks : List TokenKind) : Option Nat := ks.foldlM braceStep n

theorem braceDepth?_append (n : Nat) (ks ls : List TokenKind) :
    braceDepth? n (ks ++ ls) = (braceDepth? n ks).bind fun m => braceDepth? m ls :=
  List.foldlM_append

theorem braceStep_eq_some_iff {n m : Nat} {k : TokenKind} : braceStep n k = some m ↔
    n + (if k == .punctuation .leftBrace then 1 else 0) = m + if k == .punctuation .rightBrace then 1 else 0 := by
  unfold braceStep
  split
  · simp
  · simp
    omega
  · next hleft hright =>
    rw [if_neg (by simpa using hleft), if_neg (by simpa using hright)]
    simp

/-- The running depth counts the braces. -/
theorem braceDepth?_eq_some_iff {n m : Nat} {ks : List TokenKind} : braceDepth? n ks = some m ↔
    (∀ init, init <+: ks →
      init.count (.punctuation .rightBrace) ≤ n + init.count (.punctuation .leftBrace)) ∧
      n + ks.count (.punctuation .leftBrace) = m + ks.count (.punctuation .rightBrace) := by
  induction ks generalizing n with
  | nil => simp [braceDepth?]
  | cons k ks ih =>
    have hstep : braceDepth? n (k :: ks) = some m ↔ ∃ j, braceStep n k = some j ∧ braceDepth? j ks = some m := by
      rw [braceDepth?, List.foldlM_cons]
      exact Option.bind_eq_some_iff
    simp only [hstep, braceStep_eq_some_iff, ih, List.count_cons]
    constructor
    · rintro ⟨j, hj, hle, heq⟩
      refine ⟨fun init hinit => ?_, by omega⟩
      rcases List.prefix_cons_iff.mp hinit with rfl | ⟨more, rfl, hmore⟩
      · simp
      · have := hle more hmore
        simp only [List.count_cons]
        omega
    · rintro ⟨hle, heq⟩
      have hfirst := hle [k] (by simp)
      simp only [List.count_cons, List.count_nil] at hfirst
      refine ⟨n + (if k == .punctuation .leftBrace then 1 else 0) - if k == .punctuation .rightBrace then 1 else 0,
        by omega, fun init hinit => ?_, by omega⟩
      have hmore := hle (k :: init) (by simpa using hinit)
      simp only [List.count_cons] at hmore
      omega

theorem bracesBalance_iff {ks : List TokenKind} : BracesBalance ks ↔ braceDepth? 0 ks = some 0 := by
  rw [braceDepth?_eq_some_iff]
  simp only [Nat.zero_add]
  exact ⟨fun h => ⟨h.closed_le, h.closed_eq.symm⟩, fun h => ⟨h.1, h.2.symm⟩⟩

/-- Braces that are open in front stay open. -/
theorem BracesBalance.braceDepth?_eq {ks : List TokenKind} (h : BracesBalance ks) (n : Nat) :
    braceDepth? n ks = some n := by
  rw [braceDepth?_eq_some_iff]
  refine ⟨fun init hinit => ?_, by rw [h.closed_eq]⟩
  have := h.closed_le init hinit
  omega

theorem BracesBalance.append {ks ls : List TokenKind} (hk : BracesBalance ks) (hl : BracesBalance ls) :
    BracesBalance (ks ++ ls) := by
  rw [bracesBalance_iff, braceDepth?_append, hk.braceDepth?_eq, Option.bind_some, hl.braceDepth?_eq]

theorem bracesBalance_nil : BracesBalance [] := bracesBalance_iff.mpr rfl

/-- Whether a token is neither of the two braces. -/
def isBraceless (k : TokenKind) : Bool := k != .punctuation .leftBrace && k != .punctuation .rightBrace

theorem braceStep_of_isBraceless {k : TokenKind} (h : isBraceless k = true) (n : Nat) : braceStep n k = some n := by
  simp_all [braceStep_eq_some_iff, isBraceless]

theorem bracesBalance_singleton {k : TokenKind} (h : isBraceless k = true) : BracesBalance [k] := by
  rw [bracesBalance_iff, braceDepth?, List.foldlM_cons, braceStep_of_isBraceless h]
  rfl

/-- Balanced tokens in braces are balanced. -/
theorem BracesBalance.inBraces {ks : List TokenKind} (h : BracesBalance ks) :
    BracesBalance (.punctuation .leftBrace :: (ks ++ [.punctuation .rightBrace])) := by
  have hopen (ls : List TokenKind) : braceDepth? 0 (.punctuation .leftBrace :: ls) = braceDepth? 1 ls := rfl
  rw [bracesBalance_iff, hopen, braceDepth?_append, h.braceDepth?_eq]
  rfl

/-! ## Reading at one depth -/

/-- Whether the braces of `ts` in front of its end piece `rest` are in balance. -/
def SameDepth (ts rest : List Token) : Prop := ∃ used, ts = used ++ rest ∧ BracesBalance (used.map Token.kind)

namespace SameDepth

theorem refl (ts : List Token) : SameDepth ts ts := ⟨[], rfl, bracesBalance_nil⟩

theorem trans {ts us vs : List Token} (h : SameDepth ts us) (k : SameDepth us vs) : SameDepth ts vs := by
  obtain ⟨used, rfl, hused⟩ := h
  obtain ⟨more, rfl, hmore⟩ := k
  exact ⟨used ++ more, (List.append_assoc ..).symm, by rw [List.map_append]; exact hused.append hmore⟩

/-- A token that is no brace keeps the depth. -/
theorem tail {ts : List Token} (h : isBraceless (front ts).kind = true) : SameDepth ts ts.tail := by
  cases ts with
  | nil => exact refl []
  | cons t ts => exact ⟨[t], rfl, bracesBalance_singleton h⟩

theorem tail_of_atMark {p : Punctuation} {ts : List Token} (h : atMark p ts = true)
    (hp : isBraceless (.punctuation p) = true) : SameDepth ts ts.tail :=
  tail (by rwa [Token.kind_of_atMark h])

theorem tail_of_name? {n : String} {ts : List Token} (h : (front ts).kind.name? = some n) : SameDepth ts ts.tail := by
  refine tail ?_
  cases hk : (front ts).kind with
  | punctuation p =>
    rw [hk] at h
    cases h
  | _ => rfl

theorem skipMark {p : Punctuation} (hp : isBraceless (.punctuation p) = true) (ts : List Token) :
    SameDepth ts (Token.skipMark p ts) := by
  unfold Token.skipMark
  split
  · next h => exact tail_of_atMark h hp
  · exact refl ts

/-- A chain of reading keeps the depth where both of its parts do. -/
theorem andThen {α β : Type} {s : Step α} {next : α → List Token → Step β} {ts : List Token} {b : β}
    (h : (s.andThen next).result = .ok b)
    (hs : ∀ a, s.result = .ok a → (next a s.rest).result = .ok b → SameDepth ts s.rest)
    (hn : ∀ a, s.result = .ok a → (next a s.rest).result = .ok b → SameDepth s.rest (next a s.rest).rest) :
    SameDepth ts (s.andThen next).rest := by
  obtain ⟨a, ha, he⟩ := Step.andThen_eq_ok h
  rw [he] at h ⊢
  exact (hs a ha h).trans (hn a ha h)

end SameDepth

/-! ## Groups and passages -/

/-- How many braces an open delimiter accounts for. -/
def Open.braces (d : Open) : Nat := if d.opener = .leftBrace then 1 else 0

/-- How many braces open delimiters account for, innermost first. -/
def openBraces : List Open → Nat
  | [] => 0
  | d :: outer => openBraces outer + d.braces

theorem braceStep_opener {p closer : Punctuation} (h : p.closer? = some closer) (n : Nat) (s : Span) :
    braceStep n (.punctuation p) = some (n + Open.braces ⟨p, closer, s⟩) := by
  cases p <;> first | rfl | cases h

theorem braceStep_closer {d : Open} (h : d.opener.closer? = some d.closer) (n : Nat) :
    braceStep (n + d.braces) (.punctuation d.closer) = some n := by
  obtain ⟨opener, closer, s⟩ := d
  cases opener <;> cases h <;> rfl

theorem isBraceless_of_effect {angles : Bool} {d : Open} {p : Punctuation} (h : effect angles d p = .passes) :
    isBraceless (.punctuation p) = true := by
  cases p with
  | leftBrace | rightBrace =>
    simp only [effect, Punctuation.closer?, isCloser] at h
    split at h <;> cases h
  | _ => rfl

/-- Reading on to the end of a group closes the braces that are open in it. -/
theorem braceDepth?_closeAll {angles : Bool} {first : Span} {d : Open} {outer : List Open} {ts : List Token} {s : Span}
    (hd : d.opener.closer? = some d.closer) (ho : ∀ e ∈ outer, e.opener.closer? = some e.closer)
    (h : (closeAll angles first d outer ts).result = .ok s) : ∃ used,
    ts = used ++ (closeAll angles first d outer ts).rest ∧
      braceDepth? (openBraces (d :: outer)) (used.map Token.kind) = some 0 := by
  have step {n m : Nat} {t : Token} {us rest : List Token} (ht : braceStep n t.kind = some m)
      (hmore : ∃ used, us = used ++ rest ∧ braceDepth? m (used.map Token.kind) = some 0) :
      ∃ used, t :: us = used ++ rest ∧ braceDepth? n (used.map Token.kind) = some 0 := by
    obtain ⟨used, rfl, hused⟩ := hmore
    refine ⟨t :: used, rfl, ?_⟩
    rw [List.map_cons, braceDepth?, List.foldlM_cons, ht]
    exact hused
  fun_induction closeAll angles first d outer ts with
  | case1 d outer => cases h
  | case2 d outer t ts hk => cases h
  | case3 d t ts p hk he =>
    refine step ?_ ⟨[], rfl, rfl⟩
    rw [hk, eq_closer_of_effect he]
    exact braceStep_closer hd 0
  | case4 d t ts p hk he e es ih =>
    refine step ?_ (ih (ho e List.mem_cons_self) (fun o hmem => ho o (List.mem_cons_of_mem e hmem)) h)
    rw [hk, eq_closer_of_effect he]
    exact braceStep_closer hd (openBraces (e :: es))
  | case5 d outer t ts p hk closer he ih =>
    have hp : p.closer? = some closer := by
      unfold effect at he
      split at he
      · cases he
      · split at he
        · split at he <;> simp_all
        · split at he <;> cases he
    refine step ?_ (ih hp (fun o hmem => (List.mem_cons.mp hmem).elim (fun heq => heq ▸ hd) (ho o)) h)
    rw [hk]
    exact braceStep_opener hp (openBraces (d :: outer)) t.span
  | case6 d outer t ts p hk he => cases h
  | case7 d outer t ts p hk he ih =>
    exact step (by rw [hk, braceStep_of_isBraceless (isBraceless_of_effect he)]) (ih hd ho h)
  | case8 d outer t ts h₁ h₂ ih =>
    refine step (braceStep_of_isBraceless ?_ _) (ih hd ho h)
    cases hk : t.kind <;> simp_all [isBraceless]

/-- A group takes its braces in pairs. -/
theorem sameDepth_skipGroup {ts : List Token} {s : Span} (h : (skipGroup ts).result = .ok s) :
    SameDepth ts (skipGroup ts).rest := by
  cases ts with
  | nil => cases h
  | cons t ts =>
    unfold skipGroup at h ⊢
    split at h
    · next d hd =>
      obtain ⟨hopener, hcloser, -⟩ := of_ofToken? hd
      obtain ⟨used, hts, hused⟩ := braceDepth?_closeAll hcloser (by simp) h
      refine ⟨t :: used, by rw [List.cons_append, ← hts]; rfl, ?_⟩
      have hfirst : braceStep 0 t.kind = some (0 + d.braces) :=
        (congrArg (braceStep 0) hopener).trans (braceStep_opener hcloser 0 d.span)
      rw [bracesBalance_iff, List.map_cons, braceDepth?, List.foldlM_cons, hfirst]
      exact hused
    · cases h

/-- Inside a list of declarations, a token that begins no group is no brace. -/
theorem isBraceless_of_opensGroup {ts : List Token} (hb : ¬ atBodyEnd ts = true)
    (hg : (front ts).kind.opensGroup = false) : isBraceless (front ts).kind = true := by
  simp only [atBodyEnd, atMark] at hb
  cases hk : (front ts).kind with
  | punctuation p => cases p <;> simp_all [TokenKind.opensGroup, isBraceless]
  | _ => rfl

/-- A passage takes its braces in pairs. -/
theorem sameDepth_skipUntil {stops : Punctuation → Bool} {angles : Bool} {ts : List Token}
    (h : (skipUntil stops angles ts).result = .ok ()) : SameDepth ts (skipUntil stops angles ts).rest := by
  fun_induction skipUntil stops angles ts with
  | case1 ts hs => exact .refl ts
  | case2 ts hs hg s a ha ih => exact (sameDepth_skipGroup ha).trans (ih h)
  | case3 ts hs hg s d hd => cases h
  | case4 ts hs hg ih =>
    have hb : ¬ atBodyEnd ts = true := fun hb => hs (by rw [hb, Bool.true_or])
    have hgroup : (front ts).kind.opensGroup = false := by simp_all [atGroup]
    exact (SameDepth.tail (isBraceless_of_opensGroup hb hgroup)).trans (ih h)

theorem sameDepth_skipToSemicolon {ts : List Token} {s : Span} (h : (skipToSemicolon ts).result = .ok s) :
    SameDepth ts (skipToSemicolon ts).rest := by
  refine .andThen h (fun _ hu _ => sameDepth_skipUntil hu) fun _ _ hn => ?_
  split at hn
  · next hm =>
    rw [if_pos hm]
    exact .tail_of_atMark hm rfl
  · cases hn

end Nesting

open Nesting (SameDepth)

/-! ## Members -/

/-- Inside the head of a member stands no brace. -/
theorem Head.sameDepth_tail {h : Head} {ts : List Token} (hb : ¬ atBodyEnd ts = true)
    (ht : (front ts).kind.punctuation?.map h.turn = some .passes ∨ (front ts).kind.punctuation?.map h.turn = none) :
    SameDepth ts ts.tail := by
  refine .tail (Nesting.isBraceless_of_opensGroup hb ?_)
  cases hk : (front ts).kind with
  | punctuation p =>
    rw [hk] at ht
    cases p with
    | leftParen =>
      simp only [TokenKind.punctuation?, Option.map_some, turn] at ht
      split at ht <;> simp at ht
    | leftBracket | leftBrace => simp [TokenKind.punctuation?, turn] at ht
    | _ => rfl
  | _ => rfl

theorem Head.sameDepth_read {h k : Head} {ts : List Token} (hr : (h.read ts).result = .ok k) :
    SameDepth ts (h.read ts).rest := by
  fun_induction Head.read h ts with
  | case1 h ts => cases hr
  | case2 h ts hb ht => exact .refl ts
  | case3 h ts hb ht s a ha ih => exact (Nesting.sameDepth_skipGroup ha).trans (ih hr)
  | case4 h ts => cases hr
  | case5 h ts hb ht ih => exact (Head.sameDepth_tail hb (.inl ht)).trans (ih hr)
  | case6 h ts hb ht ih => exact (Head.sameDepth_tail hb (.inr ht)).trans (ih hr)

namespace Member

theorem sameDepth_methodRest {ts : List Token} {s : Span} (h : (methodRest ts).result = .ok s) :
    SameDepth ts (methodRest ts).rest := by
  refine .andThen h (fun _ hg _ => Nesting.sameDepth_skipGroup hg) fun parameters _ hn => ?_
  refine .andThen hn (fun _ hu _ => Nesting.sameDepth_skipUntil hu) fun _ _ hm => ?_
  split at hm
  · next hb =>
    rw [if_pos hb]
    exact .andThen hm (fun _ hg _ => Nesting.sameDepth_skipGroup hg) fun _ _ _ => .refl _
  · next hb =>
    split at hm
    · next hs =>
      rw [if_neg hb, if_pos hs]
      exact .andThen hm (fun _ hg _ => Nesting.sameDepth_skipToSemicolon hg) fun _ _ _ => .refl _
    · cases hm

theorem sameDepth_propertyRest {ts : List Token} {s : Span} (h : (propertyRest ts).result = .ok s) :
    SameDepth ts (propertyRest ts).rest := by
  refine .andThen h (fun _ hg _ => Nesting.sameDepth_skipGroup hg) fun accessors _ hn => ?_
  split at hn
  · next he =>
    rw [if_pos he]
    exact .andThen hn (fun _ hs _ => Nesting.sameDepth_skipToSemicolon hs) fun _ _ _ => .refl _
  · next he =>
    rw [if_neg he]
    exact .refl _

theorem sameDepth_rest {ts : List Token} {s : Span} (h : (rest ts).result = .ok s) : SameDepth ts (rest ts).rest := by
  unfold rest at h ⊢
  split
  · next hm => exact sameDepth_methodRest (by simpa only [if_pos hm] using h)
  · next hm =>
    rw [if_neg hm] at h
    split
    · next hb => exact sameDepth_propertyRest (by simpa only [if_pos hb] using h)
    · next hb => exact Nesting.sameDepth_skipToSemicolon (by simpa only [if_neg hb] using h)

/-- A member takes its braces in pairs. -/
theorem sameDepth_read {typeName : String} {mods : List Keyword} {start : Span} {forced : Option DeclarationKind}
    {ts : List Token} {d : Declaration} (h : (read typeName mods start forced ts).result = .ok d) :
    SameDepth ts (read typeName mods start forced ts).rest := by
  refine .andThen h (fun _ hr _ => Head.sameDepth_read hr) fun head _ hn => ?_
  split at hn
  · cases hn
  · exact .andThen hn (fun _ hr _ => sameDepth_rest hr) fun _ _ _ => .refl _

end Member

namespace Reader

/-! ## Names and words -/

theorem sameDepth_dottedName {name n : String} {ts : List Token} (h : (dottedName name ts).result = .ok n) :
    SameDepth ts (dottedName name ts).rest := by
  fun_induction dottedName name ts with
  | case1 name ts hm m hn ih => exact ((SameDepth.tail_of_atMark hm rfl).trans (.tail_of_name? hn)).trans (ih h)
  | case2 name ts => cases h
  | case3 name ts => exact .refl ts

theorem sameDepth_name {what : Expectation} {ts : List Token} {n : String} (h : (Step.name what ts).result = .ok n) :
    SameDepth ts (Step.name what ts).rest := by
  unfold Step.name at h ⊢
  split
  · next hn => exact .tail_of_name? hn
  · next hn =>
    rw [hn] at h
    cases h

theorem sameDepth_qualifiedName {ts : List Token} {n : String} (h : (qualifiedName ts).result = .ok n) :
    SameDepth ts (qualifiedName ts).rest :=
  .andThen h (fun _ hn _ => sameDepth_name hn) fun _ _ hn => sameDepth_dottedName hn

theorem sameDepth_skipAttributes {ts : List Token} (h : (skipAttributes ts).result = .ok ()) :
    SameDepth ts (skipAttributes ts).rest := by
  fun_induction skipAttributes ts with
  | case1 ts hm s a ha ih => exact (Nesting.sameDepth_skipGroup ha).trans (ih h)
  | case2 ts hm s d hd => cases h
  | case3 ts => exact .refl ts

theorem sameDepth_modifiers (ts : List Token) : SameDepth ts (modifiers ts).2 := by
  have step {t : Token} {us rest : List Token} (ht : Nesting.isBraceless t.kind = true) (h : SameDepth us rest) :
      SameDepth (t :: us) rest := by
    have hfirst : SameDepth (t :: us) us := .tail ht
    exact hfirst.trans h
  fun_induction modifiers ts with
  | case1 => exact .refl []
  | case2 t ts k hk _ ks rest he ih => exact step (by rw [hk]; rfl) (by simpa [he] using ih)
  | case4 t ts name hk _ ih => exact step (by rw [hk]; rfl) ih
  | _ => exact .refl _

/-! ## Bodies and declarations -/

/-- Whether reading takes braces in pairs wherever it meets no fault. -/
def KeepsDepth (reader : Reader) : Prop := ∀ scope braced owner ts,
  (reader.read scope braced owner ts).found.problems = #[] → SameDepth ts (reader.read scope braced owner ts).rest

variable {inner : Option Reader}

theorem sameDepth_inBraces {reader : Reader} (hk : reader.KeepsDepth) {scope : Scope} {owner : String}
    {ts : List Token} {x : Found} {stop : Span} (hb : atMark .leftBrace ts = true)
    (h : (inBraces reader scope owner ts).result = .ok (x, stop)) (hx : x.problems = #[]) :
    SameDepth ts (inBraces reader scope owner ts).rest := by
  unfold inBraces at h ⊢
  simp only at h ⊢
  split at h
  · next hc =>
    rw [if_pos hc, Step.rest_done]
    cases h
    obtain ⟨used, htail, hused⟩ := hk scope true owner ts.tail hx
    obtain ⟨hts, -⟩ := Token.exists_cons (Token.not_atEnd_of_atMark hb)
    obtain ⟨hrest, -⟩ := Token.exists_cons (Token.not_atEnd_of_atMark hc)
    generalize (reader.read scope true owner ts.tail).rest = rest at *
    refine ⟨front ts :: (used ++ [front rest]), ?_, ?_⟩
    · rw [List.cons_append, List.append_assoc, List.singleton_append, ← hrest, ← htail, ← hts]
    · rw [List.map_cons, List.map_append, List.map_singleton, Token.kind_of_atMark hb, Token.kind_of_atMark hc]
      exact hused.inBraces
  · cases h
    simp [Found.report] at hx

theorem sameDepth_namespaceDeclaration (hk : ∀ reader ∈ inner, reader.KeepsDepth) {scope : Scope} {start : Span}
    {ts : List Token} {x : Found} (hts : Nesting.isBraceless (front ts).kind = true)
    (h : (namespaceDeclaration inner scope start ts).result = .ok x) (hx : x.problems = #[]) :
    SameDepth ts (namespaceDeclaration inner scope start ts).rest := by
  refine (SameDepth.tail hts).trans (.andThen h (fun _ hn _ => sameDepth_qualifiedName hn) fun name _ hn => ?_)
  split at hn
  · cases hn
  · next hs =>
    rw [if_neg hs]
    cases inner with
    | none => cases hn
    | some reader =>
      simp only at hn ⊢
      split at hn
      · next hm =>
        rw [if_pos hm]
        cases hn
        exact (SameDepth.tail_of_atMark hm rfl).trans (hk reader rfl _ _ _ _ hx)
      · next hm =>
        rw [if_neg hm]
        split at hn
        · next hb =>
          rw [if_pos hb]
          refine .andThen hn (fun a ha hend => ?_) fun _ _ _ => .skipMark rfl _
          cases hend
          exact sameDepth_inBraces (hk reader rfl) hb ha hx
        · cases hn

theorem sameDepth_typeBody (hk : ∀ reader ∈ inner, reader.KeepsDepth) {kind : TypeKind} {name : String}
    {ts : List Token} {x : Found} {stop : Span} (hb : atMark .leftBrace ts = true)
    (h : (typeBody inner kind name ts).result = .ok (x, stop)) (hx : x.problems = #[]) :
    SameDepth ts (typeBody inner kind name ts).rest := by
  unfold typeBody at h ⊢
  split
  · next he =>
    rw [if_pos he] at h
    exact .andThen h (fun _ hg _ => Nesting.sameDepth_skipGroup hg) fun _ _ _ => .refl _
  · next he =>
    rw [if_neg he] at h
    cases inner with
    | none => cases h
    | some reader => exact sameDepth_inBraces (hk reader rfl) hb h hx

theorem sameDepth_typeDeclaration (hk : ∀ reader ∈ inner, reader.KeepsDepth) {kind : TypeKind} {mods : List Keyword}
    {start : Span} {ts : List Token} {x : Found} (hts : Nesting.isBraceless (front ts).kind = true)
    (h : (typeDeclaration inner kind mods start ts).result = .ok x) (hx : x.problems = #[]) :
    SameDepth ts (typeDeclaration inner kind mods start ts).rest := by
  refine (SameDepth.tail hts).trans (.andThen h (fun _ hn _ => sameDepth_name hn) fun name _ hn => ?_)
  refine .andThen hn (fun _ hu _ => Nesting.sameDepth_skipUntil hu) fun _ _ hn => ?_
  split at hn
  · next hm =>
    rw [if_pos hm]
    exact .tail_of_atMark hm rfl
  · next hm =>
    rw [if_neg hm]
    split at hn
    · next hb =>
      rw [if_pos hb]
      refine .andThen hn (fun a ha hend => ?_) fun _ _ _ => .skipMark rfl _
      cases hend
      exact sameDepth_typeBody hk hb ha hx
    · cases hn

theorem sameDepth_member {owner : String} {mods : List Keyword} {start : Span} {forced : Option DeclarationKind}
    {ts : List Token} {x : Found} (h : (member owner mods start forced ts).result = .ok x) :
    SameDepth ts (member owner mods start forced ts).rest :=
  .andThen h (fun _ hr _ => Member.sameDepth_read hr) fun _ _ _ => .refl _

theorem isBraceless_of_atKeyword {k : Keyword} {ts : List Token} (h : atKeyword k ts = true) :
    Nesting.isBraceless (front ts).kind = true := by
  rw [atKeyword, beq_iff_eq] at h
  rw [h]
  rfl

theorem isBraceless_tail {ts : List Token} (hr : atKeyword .recordKw ts = true) (hf : atRecordFlavour ts = true) :
    Nesting.isBraceless (front ts.tail).kind = true := by
  match ts with
  | [] => cases hr
  | [t] => rfl
  | t :: u :: us =>
    obtain hu | hu : u.kind = .keyword .classKw ∨ u.kind = .keyword .structKw := by
      simpa [atRecordFlavour, Token.second] using hf
    all_goals rw [List.tail_cons, front, hu]; rfl

theorem sameDepth_declaration (hk : ∀ reader ∈ inner, reader.KeepsDepth) {scope : Scope} {owner : String}
    {mods : List Keyword} {start : Span} {ts : List Token} {x : Found}
    (h : (declaration inner scope owner mods start ts).result = .ok x) (hx : x.problems = #[]) :
    SameDepth ts (declaration inner scope owner mods start ts).rest := by
  unfold declaration at h ⊢
  split
  · next kind hkind =>
    simp only [hkind] at h
    refine sameDepth_typeDeclaration hk ?_ h hx
    cases hf : (front ts).kind with
    | punctuation p =>
      rw [hf] at hkind
      cases hkind
    | _ => rfl
  · next hkind =>
    simp only [hkind] at h
    split
    · next hr =>
      rw [if_pos hr] at h
      have hrecord : atKeyword .recordKw ts = true := by simp_all [atRecord]
      have hfirst := isBraceless_of_atKeyword hrecord
      by_cases hf : atRecordFlavour ts = true
      · simp only [hf, if_true] at h ⊢
        exact (SameDepth.tail hfirst).trans (sameDepth_typeDeclaration hk (isBraceless_tail hrecord hf) h hx)
      · simp only [hf] at h ⊢
        exact sameDepth_typeDeclaration hk hfirst h hx
    · next hr =>
      rw [if_neg hr] at h
      split
      · next hn =>
        rw [if_pos hn] at h
        exact sameDepth_namespaceDeclaration hk (isBraceless_of_atKeyword (k := .namespaceKw) (by simp_all)) h hx
      · next hn =>
        rw [if_neg hn] at h
        split
        · next hd =>
          rw [if_pos hd] at h
          refine (SameDepth.tail ?_).trans (sameDepth_member h)
          rcases Bool.or_eq_true _ _ ▸ hd with hd | hd
          · exact isBraceless_of_atKeyword hd
          · exact isBraceless_of_atKeyword (Bool.and_eq_true _ _ ▸ hd : _ ∧ _).1
        · next hd =>
          rw [if_neg hd] at h
          split
          · next hs => exact sameDepth_member (by simpa only [if_pos hs] using h)
          · next hs =>
            rw [if_neg hs] at h
            cases h

/-- An item takes its braces in pairs. -/
theorem sameDepth_item (hk : ∀ reader ∈ inner, reader.KeepsDepth) {scope : Scope} {owner : String} {ts : List Token}
    {x : Found} (h : (item inner scope owner ts).result = .ok x) (hx : x.problems = #[]) :
    SameDepth ts (item inner scope owner ts).rest := by
  unfold item at h ⊢
  split
  · next hd =>
    rw [if_pos hd] at h
    exact .andThen h (fun _ hs _ => Nesting.sameDepth_skipToSemicolon hs) fun _ _ _ => .refl _
  · next hd =>
    rw [if_neg hd] at h
    refine .andThen h (fun _ ha _ => sameDepth_skipAttributes ha) fun _ _ hn => ?_
    split
    · exact .refl _
    · next hb =>
      rw [if_neg hb] at hn
      exact (sameDepth_modifiers _).trans (sameDepth_declaration hk hn hx)

/-! ## Lists and texts -/

/-- A list takes its braces in pairs. -/
theorem sameDepth_readFrom (hk : ∀ reader ∈ inner, reader.KeepsDepth) {scope : Scope} {braced : Bool} {owner : String}
    {found : Found} {ts : List Token} (hx : (readFrom inner scope braced owner found ts).found.problems = #[]) :
    SameDepth ts (readFrom inner scope braced owner found ts).rest := by
  fun_induction readFrom inner scope braced owner found ts with
  | case1 found ts => exact .refl ts
  | case2 found ts => exact .refl ts
  | case3 found ts hend hb hbraced ih => exact absurd (problems_eq_empty_of_readFrom hx) (by simp [Found.report])
  | case4 found ts hend hb s x hs ih =>
    have hproblems := (problems_append_eq_empty (problems_eq_empty_of_readFrom hx)).2
    exact (sameDepth_item hk hs hproblems).trans (ih hx)
  | case5 found ts hend hb s d hs ih => exact absurd (problems_eq_empty_of_readFrom hx) (by simp [Found.report])

theorem keepsDepth_ofLevels (levels : Nat) : (ofLevels levels).KeepsDepth := by
  induction levels with
  | zero =>
    intro scope braced owner ts hx
    exact sameDepth_readFrom (by simp) hx
  | succ levels ih =>
    intro scope braced owner ts hx
    exact sameDepth_readFrom (by simpa using ih) hx

end Reader

namespace DeclarationTree

open Nesting (BracesBalance)

/-- The tokens of an accepted text, up to its end, hold their braces in balance. -/
theorem bracesBalance_of_ofTokens {ts : List Token} {t : DeclarationTree} (h : ofTokens ts = .ok t) :
    BracesBalance ((ts.takeWhile fun t => t.kind != .endOfText).map Token.kind) := by
  obtain ⟨d, hd, -⟩ := ofTokens_eq_ok_iff.mp h
  have hx := (readDeclarations_eq_ok_iff.mp hd).1
  rw [← Reader.read_ofLevels] at hx
  obtain ⟨used, htakes⟩ := Reader.laysOut_ofLevels maxNesting (Nat.le_refl maxNesting) .text false "" ts hx
  obtain ⟨passed, hts, hpassed⟩ := Reader.keepsDepth_ofLevels maxNesting .text false "" ts hx
  obtain rfl : used = passed := List.append_cancel_right (htakes.eq_append.symm.trans hts)
  rw [hts, Reader.takeWhile_append htakes.inside (htakes.atEnd_rest rfl)]
  exact hpassed

/-- A type with braces in an attribute, its header, an initializer, parameters, accessors and an enumeration. -/
def bracedTokens : List Token :=
  [.punctuation .leftBracket, .identifier "Of", .punctuation .leftBrace, .punctuation .rightBrace,
    .punctuation .rightBracket,
  .keyword .classKw, .identifier "Box", .punctuation .colon, .identifier "Base", .punctuation .leftParen,
    .punctuation .leftBrace, .punctuation .rightBrace, .punctuation .rightParen, .punctuation .leftBrace,
    .identifier "int", .identifier "x", .punctuation .equals, .punctuation .leftBrace, .literal .number,
      .punctuation .rightBrace, .punctuation .semicolon,
    .identifier "int", .identifier "Y", .punctuation .leftBrace, .identifier "get", .punctuation .leftBrace,
      .punctuation .rightBrace, .punctuation .rightBrace,
    .keyword .enumKw, .identifier "State", .punctuation .leftBrace, .identifier "New", .punctuation .rightBrace,
    .identifier "void", .identifier "Run", .punctuation .leftParen, .punctuation .leftBrace, .punctuation .rightBrace,
      .punctuation .rightParen, .punctuation .semicolon,
  .punctuation .rightBrace, .endOfText].map fun k => ⟨k, .zero⟩

theorem bracesBalance_bracedTokens : ∃ t, ofTokens bracedTokens = .ok t ∧
    BracesBalance ((bracedTokens.takeWhile fun t => t.kind != .endOfText).map Token.kind) := by
  obtain ⟨t, h⟩ := @exists_eq_ok _ _ (ofTokens bracedTokens) (by decide +kernel)
  exact ⟨t, h, bracesBalance_of_ofTokens h⟩

end DeclarationTree

end TestScaffold
