import TestScaffold.Declaration.Reader
import TestScaffold.Proofs.Token.Moving

/-!
# Reading moves with the text

The offsets of tokens find their way into spans of declarations and of problem reports, and nowhere else. Reading
tokens that have been moved therefore gives what reading them at their old places gives, moved likewise.

Results:
* `Nesting.skipGroup_moved`, `Nesting.recover_moved`: groups are passed, and recovery leads, to the same token.
* `Reader.item_moved`, `Reader.ofLevels_moved`: the same declarations and problems are found.
* `readDeclarations_moved`: a whole text is accepted or refused alike, and declares the same.
* `readDeclarations_unplaced`: so it does when the places of its tokens are forgotten.
-/

namespace TestScaffold

/-! ## Moving what is found -/

/-- The delimiter moved with the token it stands for. -/
def Nesting.Open.moved (g : Move) (d : Nesting.Open) : Nesting.Open := { d with span := d.span.moved g }

namespace Declaration

mutual

/-- The declaration at its new place, and everything inside it likewise. -/
def moved (g : Move) : Declaration → Declaration
  | ⟨kind, name, modifiers, span, children⟩ => ⟨kind, name, modifiers, span.moved g, movedAll g children⟩

/-- Declarations at their new places. -/
def movedAll (g : Move) : List Declaration → List Declaration
  | [] => []
  | d :: ds => d.moved g :: movedAll g ds

end

theorem movedAll_eq_map (g : Move) (ds : List Declaration) : movedAll g ds = ds.map (moved g) := by
  induction ds with
  | nil => rfl
  | cons d ds ih => simp [movedAll, ih]

end Declaration

/-- What has been found, at its new place. -/
def Found.moved (g : Move) (a : Found) : Found :=
  ⟨a.declarations.map (Declaration.moved g), a.problems.map (Diagnostic.moved g)⟩

/-- The contents of a list of declarations, at their new place. -/
def Body.moved (g : Move) (b : Body) : Body := ⟨b.found.moved g, b.rest.map (Token.moved g)⟩

/-- What a body yields, at its new place. -/
def Found.movedWithStop (g : Move) (a : Found × Span) : Found × Span := (a.1.moved g, a.2.moved g)

variable (g : Move)

@[simp] theorem Found.moved_empty : Found.moved g {} = {} := by
  simp [Found.moved]

theorem Found.moved_append (a b : Found) : (a.append b).moved g = (a.moved g).append (b.moved g) := by
  simp [Found.append, Found.moved]

theorem Found.moved_report (a : Found) (d : Diagnostic) : (a.report d).moved g = (a.moved g).report (d.moved g) := by
  simp [Found.report, Found.moved]

theorem Found.moved_wrap (a : Found) (kind : DeclarationKind) (name : String) (modifiers : List Keyword) (span : Span) :
    (a.wrap kind name modifiers span).moved g = (a.moved g).wrap kind name modifiers (span.moved g) := by
  simp [Found.wrap, Found.moved, Declaration.moved, Declaration.movedAll_eq_map]

/-! ## Groups -/

namespace Nesting

theorem ofToken?_moved (t : Token) : Open.ofToken? (t.moved g) = (Open.ofToken? t).map (Open.moved g) := by
  simp only [Open.ofToken?, Token.kind_moved, Token.span_moved]
  cases t.kind.punctuation? with
  | none => rfl
  | some p => cases hc : p.closer? <;> simp [hc, Open.moved]

@[simp] theorem opener_moved (d : Open) : (d.moved g).opener = d.opener := rfl

@[simp] theorem closer_moved (d : Open) : (d.moved g).closer = d.closer := rfl

@[simp] theorem span_moved (d : Open) : (d.moved g).span = d.span.moved g := rfl

theorem effect_moved (angles : Bool) (d : Open) (p : Punctuation) :
    effect angles (d.moved g) p = effect angles d p := rfl

theorem closeAll_moved (angles : Bool) (first : Span) (d : Open) (outer : List Open) (ts : List Token) :
    closeAll angles (first.moved g) (d.moved g) (outer.map (Open.moved g)) (ts.map (Token.moved g)) =
      (closeAll angles first d outer ts).moved g (Span.moved g) := by
  fun_induction closeAll angles first d outer ts with
  | case1 d outer => rfl
  | case2 d outer t ts hk => simp [closeAll, hk, Step.moved_fail]
  | case3 d t ts p hk he => simp [closeAll, hk, effect_moved, he, Step.moved_done]
  | case4 d t ts p hk he e es ih => simp [closeAll, hk, effect_moved, he, ih]
  | case5 d outer t ts p hk closer he ih =>
    simp only [List.map_cons, closeAll, Token.kind_moved, hk, effect_moved, he]
    exact ih
  | case6 d outer t ts p hk he => simp [closeAll, hk, effect_moved, he, Step.moved_fail]
  | case7 d outer t ts p hk he ih => simp [closeAll, hk, effect_moved, he, ih]
  | case8 d outer t ts h₁ h₂ ih =>
    simp only [List.map_cons, closeAll, Token.kind_moved]
    exact ih

theorem skipGroup_moved (ts : List Token) :
    skipGroup (ts.map (Token.moved g)) = (skipGroup ts).moved g (Span.moved g) := by
  unfold skipGroup
  rw [Token.front_moved, ofToken?_moved, Token.atEnd_moved]
  cases Open.ofToken? (Token.front ts) with
  | none =>
    simp only [Option.map_none, Step.moved_fail, Token.kind_moved, Token.span_moved]
    split <;> simp [List.map_tail]
  | some d =>
    rw [Option.map_some]
    simpa [List.map_tail, Open.moved] using
      closeAll_moved g (d.opener == .leftAngle) d.span d [] ts.tail

@[simp] theorem atGroup_moved (angles : Bool) (ts : List Token) :
    atGroup angles (ts.map (Token.moved g)) = atGroup angles ts := by
  simp [atGroup]

theorem skipUntil_moved (stops : Punctuation → Bool) (angles : Bool) (ts : List Token) :
    skipUntil stops angles (ts.map (Token.moved g)) = (skipUntil stops angles ts).moved g id := by
  fun_induction skipUntil stops angles ts with
  | case1 ts h => rw [skipUntil]; simp [h, Step.moved_done]
  | case2 ts h hg s a ha ih =>
    have hr : (skipGroup (ts.map (Token.moved g))).result = .ok (a.moved g) := by
      rw [skipGroup_moved]; exact Step.result_moved_ok g _ ha
    rw [skipUntil]
    simp only [Token.atBodyEnd_moved, Token.front_moved, Token.kind_moved, h, atGroup_moved, hg, hr]
    rw [skipGroup_moved]
    exact ih
  | case3 ts h hg s d hd =>
    have hr : (skipGroup (ts.map (Token.moved g))).result = .error (d.moved g) := by
      rw [skipGroup_moved]; exact Step.result_moved_error g _ hd
    rw [skipUntil]
    simp only [Token.atBodyEnd_moved, Token.front_moved, Token.kind_moved, h, atGroup_moved, hg, hr]
    rw [skipGroup_moved]
    rfl
  | case4 ts h hg ih =>
    rw [skipUntil]
    simp only [Token.atBodyEnd_moved, Token.front_moved, Token.kind_moved, h, atGroup_moved, hg,
      ← List.map_tail]
    exact ih

theorem skipToSemicolon_moved (ts : List Token) :
    skipToSemicolon (ts.map (Token.moved g)) = (skipToSemicolon ts).moved g (Span.moved g) := by
  unfold skipToSemicolon
  rw [skipUntil_moved]
  refine Step.andThen_moved fun _ us => ?_
  rw [Token.atMark_moved]
  split
  · simp [Step.moved_done, List.map_tail]
  · rw [Step.moved_failExpecting]

theorem recover_moved (ts : List Token) :
    recover (ts.map (Token.moved g)) = (recover ts).map (Token.moved g) := by
  unfold recover
  simp only [skipUntil_moved, Step.rest_moved]
  cases hs : (skipUntil (fun p => p == .semicolon || p == .leftBrace) false ts).result with
  | error d => rw [Step.result_moved_error g _ hs]
  | ok a =>
    rw [Step.result_moved_ok g _ hs]
    simp only [Token.atMark_moved]
    split
    · rw [List.map_tail]
    · split
      · rw [skipGroup_moved]; rfl
      · rfl

end Nesting

/-! ## Members -/

namespace Head

theorem read_moved (h : Head) (ts : List Token) :
    h.read (ts.map (Token.moved g)) = (h.read ts).moved g id := by
  fun_induction Head.read h ts with
  | case1 h ts hb => rw [Head.read]; simp [hb, Step.moved_failExpecting]
  | case2 h ts hb ht => rw [Head.read]; simp [hb, ht, Step.moved_done]
  | case3 h ts hb ht s a ha ih =>
    have hr : (Nesting.skipGroup (ts.map (Token.moved g))).result = .ok (a.moved g) := by
      rw [Nesting.skipGroup_moved]; exact Step.result_moved_ok g _ ha
    rw [Head.read]
    simp only [Token.atBodyEnd_moved, hb, Token.front_moved, Token.kind_moved, ht, hr]
    rw [Nesting.skipGroup_moved]
    exact ih
  | case4 h ts hb ht s d hd =>
    have hr : (Nesting.skipGroup (ts.map (Token.moved g))).result = .error (d.moved g) := by
      rw [Nesting.skipGroup_moved]; exact Step.result_moved_error g _ hd
    rw [Head.read]
    simp only [Token.atBodyEnd_moved, hb, Token.front_moved, Token.kind_moved, ht, hr]
    rw [Nesting.skipGroup_moved]
    rfl
  | case5 h ts hb ht ih =>
    rw [Head.read]
    simp only [Token.atBodyEnd_moved, hb, Token.front_moved, Token.kind_moved, ht, ← List.map_tail]
    exact ih
  | case6 h ts hb ht ih =>
    rw [Head.read]
    simp only [Token.atBodyEnd_moved, hb, Token.front_moved, Token.kind_moved, ht, ← List.map_tail]
    exact ih

theorem kind_moved (h : Head) (typeName : String) (ts : List Token) :
    h.kind typeName (ts.map (Token.moved g)) = h.kind typeName ts := by
  simp [Head.kind]

end Head

namespace Member

theorem methodRest_moved (ts : List Token) :
    methodRest (ts.map (Token.moved g)) = (methodRest ts).moved g (Span.moved g) := by
  unfold methodRest
  rw [Nesting.skipGroup_moved]
  refine Step.andThen_moved fun _ us => ?_
  rw [Nesting.skipUntil_moved]
  refine Step.andThen_moved fun _ vs => ?_
  simp only [Token.atMark_moved]
  split
  · rw [Nesting.skipGroup_moved]
    exact Step.andThen_moved fun _ ws => by simp [Step.moved_done]
  · split
    · rw [Nesting.skipToSemicolon_moved]
      exact Step.andThen_moved fun _ ws => by simp [Step.moved_done]
    · rw [Step.moved_failExpecting]

theorem propertyRest_moved (ts : List Token) :
    propertyRest (ts.map (Token.moved g)) = (propertyRest ts).moved g (Span.moved g) := by
  unfold propertyRest
  rw [Nesting.skipGroup_moved]
  refine Step.andThen_moved fun _ us => ?_
  rw [Token.atMark_moved]
  split
  · rw [Nesting.skipToSemicolon_moved]
    exact Step.andThen_moved fun _ vs => by simp [Step.moved_done]
  · rfl

theorem rest_moved (ts : List Token) :
    rest (ts.map (Token.moved g)) = (rest ts).moved g (Span.moved g) := by
  simp only [rest, Token.atMark_moved, methodRest_moved, propertyRest_moved,
    Nesting.skipToSemicolon_moved]
  split
  · rfl
  · split <;> rfl

theorem read_moved (typeName : String) (modifiers : List Keyword) (start : Span)
    (forced : Option DeclarationKind) (ts : List Token) :
    read typeName modifiers (start.moved g) forced (ts.map (Token.moved g)) =
      (read typeName modifiers start forced ts).moved g (Declaration.moved g) := by
  unfold read
  rw [Head.read_moved]
  refine Step.andThen_moved fun head us => ?_
  rw [id_eq, rest_moved]
  cases head.name with
  | none => simp [Step.moved_fail]
  | some name =>
    refine Step.andThen_moved fun stop vs => ?_
    simp [Head.kind_moved, Step.moved_done, Declaration.moved, Declaration.movedAll]

end Member

/-! ## Declarations -/

namespace Reader

/-- What a reader finds moves with the tokens. -/
def Shifts (g : Move) (r : Reader) : Prop :=
  ∀ scope braced owner ts, r.read scope braced owner (ts.map (Token.moved g)) =
    (r.read scope braced owner ts).moved g

theorem dottedName_moved (name : String) (ts : List Token) :
    dottedName name (ts.map (Token.moved g)) = (dottedName name ts).moved g id := by
  fun_induction dottedName name ts with
  | case1 name ts hm n hn ih => rw [dottedName]; simpa [hm, hn, ← List.map_tail] using ih
  | case2 name ts hm hn =>
    rw [dottedName]
    simp [hm, hn, ← List.map_tail, Step.moved_failExpecting]
  | case3 name ts hm => rw [dottedName]; simp [hm, Step.moved_done]

theorem qualifiedName_moved (ts : List Token) :
    qualifiedName (ts.map (Token.moved g)) = (qualifiedName ts).moved g id := by
  unfold qualifiedName
  rw [Step.name_moved]
  exact Step.andThen_moved (dottedName_moved g)

theorem inBraces_moved {inner : Reader} (hi : inner.Shifts g) (scope : Scope) (owner : String)
    (ts : List Token) : inBraces inner scope owner (ts.map (Token.moved g)) =
      (inBraces inner scope owner ts).moved g (Found.movedWithStop g) := by
  unfold inBraces
  simp only [← List.map_tail, hi scope true owner ts.tail, Body.moved, Token.atMark_moved]
  split
  · simp [Step.moved_done, Found.movedWithStop]
  · simp [Step.moved_done, Found.movedWithStop, Found.moved_report, Fault.moved_report]

theorem lastToken_moved (ts : List Token) : lastToken (ts.map (Token.moved g)) = (lastToken ts).moved g := by
  have hf : (fun t : Token => t.kind != .endOfText) ∘ Token.moved g = fun t => t.kind != .endOfText := rfl
  unfold lastToken
  rw [List.takeWhile_map, hf, List.getLast?_map, Token.front_moved]
  cases (ts.takeWhile fun t => t.kind != .endOfText).getLast? <;> rfl

theorem namespaceDeclaration_moved {inner : Option Reader} (hi : ∀ r ∈ inner, r.Shifts g) (scope : Scope)
    (start : Span) (ts : List Token) : namespaceDeclaration inner scope (start.moved g) (ts.map (Token.moved g)) =
      (namespaceDeclaration inner scope start ts).moved g (Found.moved g) := by
  unfold namespaceDeclaration
  rw [← List.map_tail, qualifiedName_moved]
  refine Step.andThen_moved fun name us => ?_
  simp only [Token.atMark_moved]
  split
  · simp [Step.moved_fail]
  · cases inner with
    | none => simp [Step.moved_fail]
    | some reader =>
      have hr := hi reader rfl
      dsimp only
      split
      · simp [← List.map_tail, hr .namespaceBody false name us.tail, Body.moved, Step.moved_done,
          Found.moved_wrap, lastToken_moved]
      · split
        · rw [inBraces_moved g hr]
          refine Step.andThen_moved fun found vs => ?_
          simp [Step.moved_done, Found.movedWithStop, Found.moved_wrap]
        · rw [Step.moved_failExpecting]

theorem typeBody_moved {inner : Option Reader} (hi : ∀ r ∈ inner, r.Shifts g) (kind : TypeKind)
    (name : String) (ts : List Token) : typeBody inner kind name (ts.map (Token.moved g)) =
      (typeBody inner kind name ts).moved g (Found.movedWithStop g) := by
  unfold typeBody
  split
  · rw [Nesting.skipGroup_moved]
    refine Step.andThen_moved fun _ us => ?_
    simp [Step.moved_done, Found.movedWithStop]
  · cases inner with
    | none => simp [Step.moved_fail]
    | some reader => exact inBraces_moved g (hi reader rfl) _ _ _

theorem typeDeclaration_moved {inner : Option Reader} (hi : ∀ r ∈ inner, r.Shifts g) (kind : TypeKind)
    (mods : List Keyword) (start : Span) (ts : List Token) :
    typeDeclaration inner kind mods (start.moved g) (ts.map (Token.moved g)) =
      (typeDeclaration inner kind mods start ts).moved g (Found.moved g) := by
  unfold typeDeclaration
  rw [← List.map_tail, Step.name_moved]
  refine Step.andThen_moved fun name us => ?_
  rw [Nesting.skipUntil_moved]
  refine Step.andThen_moved fun _ vs => ?_
  simp only [Token.atMark_moved]
  split
  · simp [Step.moved_done, Found.moved_wrap, List.map_tail]
  · split
    · rw [typeBody_moved g hi]
      refine Step.andThen_moved fun found ws => ?_
      simp [Step.moved_done, Found.movedWithStop, Found.moved_wrap]
    · rw [Step.moved_failExpecting]

theorem skipAttributes_moved (ts : List Token) :
    skipAttributes (ts.map (Token.moved g)) = (skipAttributes ts).moved g id := by
  fun_induction skipAttributes ts with
  | case1 ts hm s a ha ih =>
    have hr : (Nesting.skipGroup (ts.map (Token.moved g))).result = .ok (a.moved g) := by
      rw [Nesting.skipGroup_moved]; exact Step.result_moved_ok g _ ha
    rw [skipAttributes]
    simp only [Token.atMark_moved, hm, hr]
    rw [Nesting.skipGroup_moved]
    exact ih
  | case2 ts hm s d hd =>
    have hr : (Nesting.skipGroup (ts.map (Token.moved g))).result = .error (d.moved g) := by
      rw [Nesting.skipGroup_moved]; exact Step.result_moved_error g _ hd
    rw [skipAttributes]
    simp only [Token.atMark_moved, hm, hr]
    rw [Nesting.skipGroup_moved]
    rfl
  | case3 ts hm => rw [skipAttributes]; simp [hm, Step.moved_done]

theorem modifiers_moved (ts : List Token) :
    modifiers (ts.map (Token.moved g)) = ((modifiers ts).1, (modifiers ts).2.map (Token.moved g)) := by
  fun_induction modifiers ts with
  | case1 => rfl
  | case2 t ts k hk hm ks rest hr ih => simp_all [modifiers]
  | case3 t ts k hk hm => simp_all [modifiers]
  | case4 t ts name hk hn ih => simp_all [modifiers]
  | case5 t ts name hk hn => simp_all [modifiers]
  | case6 t ts h₁ h₂ => simp_all [modifiers]

theorem member_moved (owner : String) (mods : List Keyword) (start : Span) (forced : Option DeclarationKind)
    (ts : List Token) : member owner mods (start.moved g) forced (ts.map (Token.moved g)) =
      (member owner mods start forced ts).moved g (Found.moved g) := by
  unfold member
  rw [Member.read_moved]
  refine Step.andThen_moved fun d us => ?_
  simp [Step.moved_done, Found.moved]

theorem declaration_moved {inner : Option Reader} (hi : ∀ r ∈ inner, r.Shifts g) (scope : Scope)
    (owner : String) (mods : List Keyword) (start : Span) (ts : List Token) :
    declaration inner scope owner mods (start.moved g) (ts.map (Token.moved g)) =
      (declaration inner scope owner mods start ts).moved g (Found.moved g) := by
  have hf : atRecordFlavour (ts.map (Token.moved g)) = atRecordFlavour ts := by simp [atRecordFlavour]
  have hr : atRecord (ts.map (Token.moved g)) = atRecord ts := by simp [atRecord, hf]
  unfold declaration
  simp only [Token.front_moved, Token.kind_moved, hf, hr, Token.atKeyword_moved]
  cases (Token.front ts).kind.keyword?.bind typeKind? with
  | some kind => exact typeDeclaration_moved g hi _ _ _ _
  | none =>
    dsimp only
    split
    · split
      · rw [← List.map_tail]; exact typeDeclaration_moved g hi _ _ _ _
      · exact typeDeclaration_moved g hi _ _ _ _
    · split
      · exact namespaceDeclaration_moved g hi _ _ _
      · split
        · rw [← List.map_tail]; exact member_moved g _ _ _ _ _
        · split
          · exact member_moved g _ _ _ _ _
          · rw [Step.moved_failExpecting]

theorem item_moved {inner : Option Reader} (hi : ∀ r ∈ inner, r.Shifts g) (scope : Scope) (owner : String)
    (ts : List Token) : item inner scope owner (ts.map (Token.moved g)) =
      (item inner scope owner ts).moved g (Found.moved g) := by
  have hd : atDirective (ts.map (Token.moved g)) = atDirective ts := by simp [atDirective]
  unfold item
  rw [hd]
  split
  · rw [Nesting.skipToSemicolon_moved]
    refine Step.andThen_moved fun _ us => ?_
    simp [Step.moved_done]
  · rw [skipAttributes_moved]
    refine Step.andThen_moved fun _ us => ?_
    rw [Token.atBodyEnd_moved]
    split
    · simp [Step.moved_done]
    · rw [modifiers_moved, Token.front_moved]
      exact declaration_moved g hi _ _ _ _ _

theorem readFrom_moved {inner : Option Reader} (hi : ∀ r ∈ inner, r.Shifts g) (scope : Scope)
    (braced : Bool) (owner : String) (found : Found) (ts : List Token) :
    readFrom inner scope braced owner (found.moved g) (ts.map (Token.moved g)) =
      (readFrom inner scope braced owner found ts).moved g := by
  fun_induction readFrom inner scope braced owner found ts with
  | case1 found ts he => rw [readFrom]; simp [he, Body.moved]
  | case2 found ts he hb hbr => rw [readFrom]; simp [he, hb, hbr, Body.moved]
  | case3 found ts he hb hbr ih =>
    rw [readFrom]
    simpa [he, hb, hbr, ← List.map_tail, Found.moved_report, Fault.moved_report] using ih
  | case4 found ts he hb s x hx ih =>
    have hr : (item inner scope owner (ts.map (Token.moved g))).result = .ok (x.moved g) := by
      rw [item_moved g hi]; exact Step.result_moved_ok g _ hx
    rw [readFrom_of_ok (by simp [Token.atBodyEnd, he, hb]) hr, item_moved g hi, ← Found.moved_append]
    exact ih
  | case5 found ts he hb s d hd ih =>
    have hr : (item inner scope owner (ts.map (Token.moved g))).result = .error (d.moved g) := by
      rw [item_moved g hi]; exact Step.result_moved_error g _ hd
    rw [readFrom_of_error (by simp [Token.atBodyEnd, he, hb]) hr, item_moved g hi, ← Found.moved_report,
      Step.rest_moved, Nesting.recover_moved]
    exact ih

theorem ofLevels_moved (levels : Nat) : (ofLevels levels).Shifts g := by
  induction levels with
  | zero =>
    intro scope braced owner ts
    have hi : ∀ r ∈ (none : Option Reader), r.Shifts g := by simp
    simpa [ofLevels] using readFrom_moved g hi scope braced owner {} ts
  | succ levels ih =>
    intro scope braced owner ts
    have hi : ∀ r ∈ some (ofLevels levels), r.Shifts g := by simpa using ih
    simpa [ofLevels] using readFrom_moved g hi scope braced owner {} ts

end Reader

/-- A text that is moved is accepted or refused as before, and what it declares is moved with it. -/
theorem readDeclarations_moved (ts : List Token) :
    readDeclarations (ts.map (Token.moved g)) =
      ((readDeclarations ts).map (Declaration.moved g)).mapError (·.map (Diagnostic.moved g)) := by
  unfold readDeclarations
  rw [Reader.ofLevels_moved]
  generalize (Reader.ofLevels maxNesting).read .text false "" ts = body
  have he : (body.found.problems.map (Diagnostic.moved g)).isEmpty = body.found.problems.isEmpty := by
    rw [Bool.eq_iff_iff]; simp
  simp only [Body.moved, Found.moved, he, Token.front_moved, Token.span_moved]
  split
  · refine congrArg Except.ok ?_
    simp [Declaration.moved, Declaration.movedAll_eq_map, Span.moved_merge]
  · exact congrArg Except.error (Array.toList_map ..)

/-! ## Forgetting places -/

/-- The token without its place. -/
def Token.unplaced (t : Token) : Token := ⟨t.kind, .zero⟩

/-- The report without its place. -/
def Diagnostic.unplaced (d : Diagnostic) : Diagnostic := { d with span := .zero }

namespace Declaration

mutual

/-- The declaration without places, and everything inside it likewise. -/
def unplaced : Declaration → Declaration
  | ⟨kind, name, modifiers, _, children⟩ => ⟨kind, name, modifiers, .zero, unplacedAll children⟩

/-- Declarations without places. -/
def unplacedAll : List Declaration → List Declaration
  | [] => []
  | d :: ds => d.unplaced :: unplacedAll ds

end

mutual

/-- Places are forgotten by moving all of them to the beginning of the text. -/
theorem moved_collapse (d : Declaration) : d.moved .collapse = d.unplaced := by
  obtain ⟨kind, name, modifiers, span, children⟩ := d
  rw [moved, unplaced, movedAll_collapse]
  rfl

theorem movedAll_collapse (ds : List Declaration) : movedAll .collapse ds = unplacedAll ds := by
  cases ds with
  | nil => rfl
  | cons d ds => rw [movedAll, unplacedAll, moved_collapse, movedAll_collapse]

end

end Declaration

/-- A text without its places is accepted or refused as with them. -/
theorem readDeclarations_unplaced (ts : List Token) :
    readDeclarations (ts.map Token.unplaced) =
      ((readDeclarations ts).map Declaration.unplaced).mapError (·.map Diagnostic.unplaced) := by
  have hd : Declaration.unplaced = Declaration.moved .collapse := funext fun d => d.moved_collapse.symm
  rw [hd]
  exact readDeclarations_moved .collapse ts

end TestScaffold
