import TestScaffold.Proofs.Reading.Admission
import TestScaffold.Proofs.Reading.Heads

/-!
# Bodies and the declarations they end

A namespace, a type or a member takes its tokens up to the end of its body. What stands inside the body is laid out in
them where lists of fewer levels are, and the span of the declaration is the stretch that its tokens take.

Results:
* `Reader.LaysOut`: what is known of lists whose bodies nest less deep.
* `Reader.Encloses`, `Reader.TakesBody`: bodies in braces, in place of a body, or up to the end of the text.
* `Reader.declares_typeDeclaration`, `Reader.declares_namespaceDeclaration`, `Reader.declares_member`: what the words
  in front of a body make of it.
-/

namespace TestScaffold

open Token (front back extent atEnd atMark atKeyword skipMark)
open Token (Ordered Alike Inside Closed Replaces Opens Ended)
open Step (Reads)

namespace Reader

/-! ## Bodies -/

/-- The reader of the bodies in lists whose bodies nest at most `levels` deep. -/
def below : (levels : Nat) → Option Reader
  | 0 => none
  | levels + 1 => some (ofLevels levels)

theorem read_ofLevels (levels : Nat) (scope : Scope) (braced : Bool) (owner : String) (ts : List Token) :
    (ofLevels levels).read scope braced owner ts = readFrom (below levels) scope braced owner {} ts := by
  cases levels <;> rfl

/-- Reading a list takes the tokens `used`, in which it lays out what it finds. It finds the same in front of tokens
that begin alike, and where bodies may nest deeper. -/
structure Takes (levels : Nat) (scope : Scope) (braced : Bool) (owner : String) (ts used : List Token) (b : Body) :
    Prop where
  eq_append : ts = used ++ b.rest
  inside : Inside used
  laidOut : LaidOut b.rest used b.found.declarations.toList
  atEnd_rest : braced = false → atEnd b.rest = true
  again : ∀ m, levels ≤ m → ∀ us, Alike us b.rest →
    (ofLevels m).read scope braced owner (used ++ us) = ⟨b.found, us⟩

/-- Whether lists whose bodies nest at most `levels` deep are laid out wherever reading meets no fault in them. -/
def LaysOut (levels : Nat) : Prop := ∀ scope braced owner ts,
  ((ofLevels levels).read scope braced owner ts).found.problems = #[] →
    ∃ used, Takes levels scope braced owner ts used ((ofLevels levels).read scope braced owner ts)

/-- The tokens `used` in front of `rest` hold the declarations `ds`, and a declaration that they end has its span
merged with `stop`. -/
structure Encloses (used rest : List Token) (stop : Span) (ds : List Declaration) : Prop where
  inside : Inside used
  ended : Ended used
  laidOut : ∃ head body foot, used = head ++ (body ++ foot) ∧ Opens head ∧ LaidOut (foot ++ rest) body ds
  merge : ∀ before, Ordered (before ++ used) → (front (before ++ used)).span.merge stop = extent (before ++ used)

theorem merge_back_span {used : List Token} (hne : used ≠ []) (before : List Token) (h : Ordered (before ++ used)) :
    (front (before ++ used)).span.merge (back used).span = extent (before ++ used) := by
  obtain ⟨init, last, rfl, hback⟩ := Token.exists_concat_back hne
  rw [hback]
  rw [← List.append_assoc] at h ⊢
  exact Token.front_merge_extent h (List.cons_ne_nil last [])

/-- A semicolon in place of a body. -/
theorem encloses_semicolon {t : Token} (ht : t.kind = .punctuation .semicolon) (rest : List Token) :
    Encloses [t] rest t.span [] where
  inside := Token.inside_singleton (by simp [ht])
  ended := .inl (.inl ht)
  laidOut := ⟨[t], [], [], rfl, .inl (.inl ht), .nil⟩
  merge := merge_back_span (List.cons_ne_nil t [])

/-- A body, which is read by `body m` on `m` levels, takes tokens that enclose what is found in it. It takes the same
tokens on more levels, whatever stands behind them. -/
def TakesBody (levels : Nat) (body : Nat → List Token → Step (Found × Span)) (ts : List Token) (x : Found)
    (stop : Span) : Prop :=
  ∃ used, ts = used ++ (body levels ts).rest ∧ Closed used ∧
    Encloses used (body levels ts).rest stop x.declarations.toList ∧
      ∀ m, levels ≤ m → ∀ us, body m (used ++ us) = .done (x, stop) us

/-- A body that is read one level deeper. -/
theorem TakesBody.succ {levels : Nat} {body deeper : Nat → List Token → Step (Found × Span)} {ts : List Token}
    {x : Found} {stop : Span} (h : TakesBody levels body ts x stop) (hdeeper : ∀ m, deeper (m + 1) = body m) :
    TakesBody (levels + 1) deeper ts x stop := by
  obtain ⟨used, hts, hclosed, hencloses, hagain⟩ := h
  rw [← hdeeper levels] at hts hencloses
  refine ⟨used, hts, hclosed, hencloses, fun m hm us => ?_⟩
  obtain ⟨m, rfl⟩ : ∃ l, m = l + 1 := ⟨m - 1, by omega⟩
  rw [hdeeper m]
  exact hagain m (Nat.le_of_succ_le_succ hm) us

/-- A body in braces takes its tokens from the opening brace to the closing one, whatever stands behind. -/
theorem takesBody_inBraces {levels : Nat} (hlays : LaysOut levels) {scope : Scope} {owner : String} {ts : List Token}
    {x : Found} {stop : Span} (hb : atMark .leftBrace ts = true)
    (h : (inBraces (ofLevels levels) scope owner ts).result = .ok (x, stop)) (hx : x.problems = #[]) :
    TakesBody levels (fun m => inBraces (ofLevels m) scope owner) ts x stop := by
  unfold TakesBody
  obtain ⟨hts, hfirst⟩ := Token.exists_cons (Token.not_atEnd_of_atMark hb)
  have hopening := Token.kind_of_atMark hb
  unfold inBraces at h ⊢
  simp only at h ⊢
  split at h
  · next hc =>
    cases h
    rw [if_pos hc, Step.rest_done]
    obtain ⟨body, htakes⟩ := hlays scope true owner ts.tail hx
    obtain ⟨hrest, hlast⟩ := Token.exists_cons (Token.not_atEnd_of_atMark hc)
    have hclosing := Token.kind_of_atMark hc
    generalize (ofLevels levels).read scope true owner ts.tail = b at htakes hc hrest hlast hclosing ⊢
    have hback : back (front ts :: (body ++ [front b.rest])) = front b.rest :=
      Token.back_concat (front ts :: body) (front b.rest)
    have hclosed : Closed (front ts :: (body ++ [front b.rest])) := .inr (by rw [hback, hclosing])
    refine ⟨front ts :: (body ++ [front b.rest]), ?_, hclosed, ⟨?_, .inl hclosed, ?_, ?_⟩, fun m hm us => ?_⟩
    · rw [List.cons_append, List.append_assoc, List.singleton_append, ← hrest, ← htakes.eq_append, ← hts]
    · exact (Token.inside_singleton hfirst).append (htakes.inside.append (Token.inside_singleton hlast))
    · refine ⟨[front ts], body, [front b.rest], rfl, .inr hopening, ?_⟩
      rw [List.singleton_append, ← hrest]
      exact htakes.laidOut
    · intro before hordered
      have hmerge := merge_back_span (List.cons_ne_nil _ _) before hordered
      rwa [hback] at hmerge
    · have hagain := htakes.again m hm (front b.rest :: us) rfl
      have hmark : atMark .rightBrace (front b.rest :: us) = true := hc
      simp only [List.cons_append, List.append_assoc, List.nil_append, List.tail_cons, hagain,
        hmark, if_true]
      rfl
  · cases h
    simp [Found.report] at hx

/-- The body of a type takes its tokens up to its closing brace, whatever stands behind. -/
theorem takesBody_typeBody {levels : Nat} (hlays : ∀ l, l < levels → LaysOut l) {kind : TypeKind} {name : String}
    {ts : List Token} {x : Found} {stop : Span} (hb : atMark .leftBrace ts = true)
    (h : (typeBody (below levels) kind name ts).result = .ok (x, stop)) (hx : x.problems = #[]) :
    TakesBody levels (fun m => typeBody (below m) kind name) ts x stop := by
  by_cases hk : (kind == .enumType) = true
  · have henum (inner : Option Reader) (us : List Token) : typeBody inner kind name us =
        (Nesting.skipGroup us).andThen fun body rest => .done ({}, body) rest := by
      unfold typeBody
      rw [if_pos hk]
    rw [henum] at h
    simp only [TakesBody, henum]
    obtain ⟨body, hbody, hpair, hrest⟩ := Step.of_map h
    cases hpair
    obtain ⟨used, p, closer, hts, hp, hc, hlast, hgroup⟩ := Nesting.spans_skipGroup hbody
    have hspans := hgroup []
    have hclosed : Closed used := Member.closed_of_braces hb hp hc hlast
    rw [hrest]
    refine ⟨used, hts, hclosed, ⟨hspans.inside, .inl hclosed, ⟨used, [], [], by simp, .inl hclosed, .nil⟩, ?_⟩, ?_⟩
    · intro before hordered
      rw [hspans.eq_extent hordered.right]
      exact Token.front_merge_extent hordered hspans.ne_nil
    · intro m _ us
      rw [(hgroup us).again us (.refl us)]
      rfl
  · have hbraces (reader : Reader) (us : List Token) : typeBody (some reader) kind name us =
        inBraces reader .typeBody name us := by simp [typeBody, hk]
    cases levels with
    | zero => simp [typeBody, hk, below, Step.fail] at h
    | succ levels =>
      rw [below, hbraces] at h
      exact (takesBody_inBraces (hlays levels (Nat.lt_succ_self levels)) hb h hx).succ fun m =>
        funext (hbraces (ofLevels m))

/-! ## Declarations -/

/-- A declaration takes the tokens `own`, and maybe a semicolon behind them. On `m` levels it is read by `f m`, and by
`g m` where it makes up the text. Where its first token is `start`, its span is the stretch that `own` takes. It does
not depend on what stands behind it unless it is `endless`. -/
structure Declares (levels : Nat) (f g : Nat → List Token → Step Found) (endless : Prop) (start : Span)
    (own trail rest : List Token) (d : Declaration) : Prop where
  again : ∀ m, levels ≤ m → ∀ us, Replaces endless us rest →
    Reads (f m) (own ++ trail) us { declarations := #[d] }
  alone : d.kind.standsAlone = true → ∀ m, levels ≤ m → ∀ us, atEnd us = true →
    g m (own ++ us) = .done { declarations := #[d] } us
  ended : Ended own
  closed : Closed own ∨ trail = [] ∧ atEnd rest = true
  trail_closed : trail = [] ∨ Closed trail
  laidOut : ∃ head body foot, own = head ++ (body ++ foot) ∧ Opens head ∧
    LaidOut (foot ++ (trail ++ rest)) body d.children
  span : ∀ before, Ordered (before ++ own) → (front (before ++ own)).span = start → d.span = extent (before ++ own)

namespace Declares

variable {levels : Nat} {f g f' g' : Nat → List Token → Step Found} {endless : Prop} {start : Span}
  {own trail rest : List Token} {d : Declaration}

theorem imp {p : Prop} (h : Declares levels f g endless start own trail rest d) (hp : endless → p) :
    Declares levels f g p start own trail rest d := { h with again := fun m hm us hus => h.again m hm us (hus.imp hp) }

/-- More tokens in front of those that a declaration takes. -/
theorem prepend (h : Declares levels f g endless start own trail rest d) {us : List Token} (hus : Inside us)
    (hf : ∀ m, ∀ vs, f' m (us ++ (own ++ vs)) = f m (own ++ vs))
    (hg : d.kind.standsAlone = true → ∀ m, ∀ vs, g' m (us ++ (own ++ vs)) = g m (own ++ vs)) :
    Declares levels f' g' endless start (us ++ own) trail rest d where
  again m hm ws hws := by
    refine ⟨fun vs hvs => ?_, by simpa using hus.append (h.again m hm ws hws).inside⟩
    have hsame := hf m (trail ++ vs)
    have hown := (h.again m hm ws hws).again vs hvs
    rw [List.append_assoc] at hown
    simpa [hown] using hsame
  alone hd m hm vs hvs := by rw [List.append_assoc, hg hd, h.alone hd m hm vs hvs]
  ended := h.ended.append us
  closed := h.closed.imp_left fun hown => hown.append us
  trail_closed := h.trail_closed
  laidOut := by
    obtain ⟨head, body, foot, rfl, hopens, hbody⟩ := h.laidOut
    exact ⟨us ++ head, body, foot, (List.append_assoc us head _).symm, hopens.append us, hbody⟩
  span before hordered hstart := by
    rw [← List.append_assoc] at hordered hstart ⊢
    exact h.span _ hordered hstart

end Declares

/-- Reading `ts` by `f` finds the declaration `d` and nothing else, which takes the tokens `own`. -/
def Finds (levels : Nat) (f g : Nat → List Token → Step Found) (endless : Prop) (mods : List Keyword) (start : Span)
    (ts : List Token) (x : Found) (own : List Token) (d : Declaration) : Prop :=
  x = { declarations := #[d] } ∧ d.modifiers = mods ∧ ∃ trail,
    ts = own ++ (trail ++ (f levels ts).rest) ∧ Declares levels f g endless start own trail (f levels ts).rest d

theorem Encloses.declares {levels : Nat} {f g : Nat → List Token → Step Found} {endless : Prop} {start stop : Span}
    {own trail rest : List Token} {d : Declaration} (h : Encloses own (trail ++ rest) stop d.children)
    (hspan : d.span = start.merge stop)
    (again : ∀ m, levels ≤ m → ∀ us, Replaces endless us rest →
      Reads (f m) (own ++ trail) us { declarations := #[d] })
    (alone : ∀ m, levels ≤ m → ∀ us, atEnd us = true → g m (own ++ us) = .done { declarations := #[d] } us)
    (closed : Closed own ∨ trail = [] ∧ atEnd rest = true) (htrail : trail = [] ∨ Closed trail) :
    Declares levels f g endless start own trail rest d where
  again := again
  alone _ := alone
  ended := h.ended
  closed := closed
  trail_closed := htrail
  laidOut := h.laidOut
  span before hordered hstart := by
    rw [hspan, ← hstart]
    exact h.merge before hordered

/-- A body that takes the same tokens whatever stands behind it ends a declaration, together with a semicolon if one
follows. -/
theorem Encloses.declares_skipMark {levels : Nat} {f g : Nat → List Token → Step Found} {endless : Prop}
    {start stop : Span} {own left : List Token} {d : Declaration} (h : Encloses own left stop d.children)
    (hspan : d.span = start.merge stop) (hclosed : Closed own)
    (hf : ∀ m, levels ≤ m → ∀ us, f m (own ++ us) = .done { declarations := #[d] } (skipMark .semicolon us))
    (hg : ∀ m, levels ≤ m → ∀ us, g m (own ++ us) = .done { declarations := #[d] } (skipMark .semicolon us)) :
    ∃ trail, left = trail ++ skipMark .semicolon left ∧
      Declares levels f g endless start own trail (skipMark .semicolon left) d := by
  obtain ⟨trail, hleft, htrail, hskip⟩ := Token.exists_skipMark left
  have hlast : trail = [] ∨ Closed trail := by
    rcases htrail with rfl | ⟨t, rfl, ht⟩
    · exact .inl rfl
    · exact .inr (.inl ht)
  have hinside : Inside trail := by
    rcases htrail with rfl | ⟨t, rfl, ht⟩
    · exact Token.inside_nil
    · exact Token.inside_singleton (by simp [ht])
  refine ⟨trail, hleft, Encloses.declares (by rwa [← hleft]) hspan (fun m hm us hus => ⟨fun vs hvs => ?_, ?_⟩) ?_
    (.inl hclosed) hlast⟩
  · rw [List.append_assoc, hf m hm, hskip endless vs (hvs.replaces hus)]
  · exact h.inside.append hinside
  · intro m hm us hus
    have hmark : ¬ atMark .semicolon us = true := fun hm => Token.not_atEnd_of_atMark hm hus
    rw [hg m hm, skipMark, if_neg hmark]

theorem wrap_eq {found : Found} {kind : DeclarationKind} {name : String} {mods : List Keyword} {span : Span}
    (h : (found.wrap kind name mods span).problems = #[]) : found.wrap kind name mods span =
      { declarations := #[⟨kind, name, mods, span, found.declarations.toList⟩] } ∧ found.problems = #[] := by
  have h : found.problems = #[] := h
  exact ⟨by rw [Found.wrap, h], h⟩

/-- A declaration that ends with its body, and maybe with a semicolon behind it. -/
theorem finds_of_takesBody {levels : Nat} {body : Nat → List Token → Step (Found × Span)}
    {f g : Nat → List Token → Step Found} {endless : Prop} {kind : DeclarationKind} {name : String}
    {mods : List Keyword} {start : Span} {ts : List Token} {x : Found}
    (hf : ∀ m us, levels ≤ m → Alike us ts → f m us = (body m us).andThen fun (found, stop) left =>
      .done (found.wrap kind name mods (start.merge stop)) (skipMark .semicolon left))
    (hg : ∀ m us, levels ≤ m → Alike us ts → g m us = (body m us).andThen fun (found, stop) left =>
      .done (found.wrap kind name mods (start.merge stop)) (skipMark .semicolon left))
    (hbody : ∀ found stop, (body levels ts).result = .ok (found, stop) → found.problems = #[] →
      TakesBody levels body ts found stop)
    (h : (f levels ts).result = .ok x) (hx : x.problems = #[]) :
    ∃ own d, Finds levels f g endless mods start ts x own d := by
  have hself := hf levels ts (Nat.le_refl levels) (.refl ts)
  rw [hself] at h
  obtain ⟨⟨found, stop⟩, hresult, he⟩ := Step.andThen_eq_ok h
  rw [he] at h hself
  obtain rfl := Except.ok.inj h
  obtain ⟨hwrap, hfound⟩ := wrap_eq hx
  obtain ⟨own, hts, hclosed, hencloses, hagain⟩ := hbody found stop hresult hfound
  have again {e : Nat → List Token → Step Found} (m : Nat) (hm : levels ≤ m) (us : List Token)
      (hread : e m (own ++ us) = (body m (own ++ us)).andThen fun (found, stop) left =>
        .done (found.wrap kind name mods (start.merge stop)) (skipMark .semicolon left)) :
      e m (own ++ us) = .done (found.wrap kind name mods (start.merge stop)) (skipMark .semicolon us) := by
    rw [hread, hagain m hm us]
    rfl
  have halike (us : List Token) := Token.alike_of_eq_append hts hencloses.ended.ne_nil us
  rw [hwrap] at again ⊢
  obtain ⟨trail, hleft, hdeclares⟩ := hencloses.declares_skipMark rfl hclosed
    (fun m hm us => again m hm us (hf m _ hm (halike us))) (fun m hm us => again m hm us (hg m _ hm (halike us)))
  rw [hleft] at hts
  refine ⟨own, _, rfl, rfl, trail, ?_⟩
  rw [hself, Step.rest_done]
  exact ⟨hts, hdeclares⟩

/-- What follows the header of a type. -/
def typeEnd (inner : Option Reader) (kind : TypeKind) (name : String) (mods : List Keyword) (start : Span)
    (ts : List Token) : Step Found :=
  if atMark .semicolon ts then
    .done (Found.wrap {} (.type kind) name mods (start.merge (front ts).span)) ts.tail
  else if atMark .leftBrace ts then
    (typeBody inner kind name ts).andThen fun (found, stop) left =>
      .done (found.wrap (.type kind) name mods (start.merge stop)) (skipMark .semicolon left)
  else .failExpecting .typeBody ts

section TypeEnd

variable {levels : Nat} {endless : Prop} {kind : TypeKind} {name : String} {mods : List Keyword} {start : Span}
  {ts : List Token} {x : Found}

/-- A type with a semicolon in place of a body. -/
theorem declares_semicolon (hm : atMark .semicolon ts = true)
    (h : (typeEnd (below levels) kind name mods start ts).result = .ok x) :
    ∃ own d, Finds levels (fun m => typeEnd (below m) kind name mods start)
      (fun m => typeEnd (below m) kind name mods start) endless mods start ts x own d := by
  have hend (m : Nat) {us : List Token} (hus : atMark .semicolon us = true) :
      typeEnd (below m) kind name mods start us =
        .done { declarations := #[⟨.type kind, name, mods, start.merge (front us).span, []⟩] } us.tail := by
    rw [typeEnd, if_pos hus]
    rfl
  have hagain (m : Nat) (us : List Token) : typeEnd (below m) kind name mods start (front ts :: us) = _ :=
    hend m (show atMark .semicolon (front ts :: us) = true from hm)
  rw [hend levels hm] at h
  obtain rfl := Except.ok.inj h
  obtain ⟨hts, -⟩ := Token.exists_cons (Token.not_atEnd_of_atMark hm)
  have hkind := Token.kind_of_atMark hm
  have hencloses := encloses_semicolon hkind ts.tail
  refine ⟨[front ts], _, rfl, rfl, [], ?_⟩
  simp only [hend levels hm, Step.rest_done]
  refine ⟨hts, hencloses.declares rfl ?_ ?_ (.inl (.inl hkind)) (.inl rfl)⟩
  · exact fun m _ _ _ => ⟨fun us _ => hagain m us, hencloses.inside⟩
  · exact fun m _ us _ => hagain m us

/-- A type with a body in braces. -/
theorem declares_typeBody (hlays : ∀ l, l < levels → LaysOut l) (hb : atMark .leftBrace ts = true)
    (h : (typeEnd (below levels) kind name mods start ts).result = .ok x) (hx : x.problems = #[]) :
    ∃ own d, Finds levels (fun m => typeEnd (below m) kind name mods start)
      (fun m => typeEnd (below m) kind name mods start) endless mods start ts x own d := by
  have hend (m : Nat) (us : List Token) (hus : Alike us ts) : typeEnd (below m) kind name mods start us =
      (typeBody (below m) kind name us).andThen fun (found, stop) left =>
        .done (found.wrap (.type kind) name mods (start.merge stop)) (skipMark .semicolon left) := by
    have hkind := Token.kind_of_atMark hb
    have hm : atMark .semicolon ts = false := by simp [atMark, hkind]
    simp [typeEnd, hus.atMark, hm, hb]
  exact finds_of_takesBody (fun m us _ hus => hend m us hus) (fun m us _ hus => hend m us hus)
    (fun found stop hbody hfound => takesBody_typeBody hlays hb hbody hfound) h hx

theorem declares_typeEnd (hlays : ∀ l, l < levels → LaysOut l)
    (h : (typeEnd (below levels) kind name mods start ts).result = .ok x) (hx : x.problems = #[]) :
    ∃ own d, Finds levels (fun m => typeEnd (below m) kind name mods start)
      (fun m => typeEnd (below m) kind name mods start) endless mods start ts x own d := by
  by_cases hm : atMark .semicolon ts = true
  · exact declares_semicolon hm h
  · by_cases hb : atMark .leftBrace ts = true
    · exact declares_typeBody hlays hb h hx
    · simp [typeEnd, hm, hb, Step.failExpecting, Step.fail] at h

end TypeEnd

/-- The tokens in front of the end of the text. -/
theorem takeWhile_append {ts us : List Token} (hts : Inside ts) (hus : atEnd us = true) :
    (ts ++ us).takeWhile (fun t => t.kind != .endOfText) = ts := by
  have hall : ∀ t ∈ ts, (t.kind != .endOfText) = true := fun t ht => by simpa using hts t ht
  have hnone : us.takeWhile (fun t => t.kind != .endOfText) = [] := by
    cases us with
    | nil => rfl
    | cons u us =>
      have hu : u.kind = .endOfText := eq_of_beq hus
      simp [hu]
  rw [List.takeWhile_append_of_pos hall, hnone, List.append_nil]

theorem lastToken_append {ts us : List Token} (hts : Inside ts) (hne : ts ≠ []) (hus : atEnd us = true) :
    lastToken (ts ++ us) = back ts := by
  rw [lastToken, takeWhile_append hts hus, Token.front_append hne, back, List.getLast?_eq_some_getLast hne]
  rfl

/-- What a namespace that is ended by a semicolon owns goes on to the end of the text. -/
theorem encloses_unbraced {levels : Nat} (hlays : LaysOut levels) {scope : Scope} {owner : String} {ts : List Token}
    (hm : atMark .semicolon ts = true)
    (hx : ((ofLevels levels).read scope false owner ts.tail).found.problems = #[]) : ∃ used,
    ts = used ++ ((ofLevels levels).read scope false owner ts.tail).rest ∧
      atEnd ((ofLevels levels).read scope false owner ts.tail).rest = true ∧
        Encloses used ((ofLevels levels).read scope false owner ts.tail).rest (lastToken ts).span
          ((ofLevels levels).read scope false owner ts.tail).found.declarations.toList ∧
          ∀ m, levels ≤ m → ∀ us, atEnd us = true → lastToken (used ++ us) = lastToken ts ∧
            (ofLevels m).read scope false owner (used ++ us).tail =
              ⟨((ofLevels levels).read scope false owner ts.tail).found, us⟩ := by
  obtain ⟨body, htakes⟩ := hlays scope false owner ts.tail hx
  obtain ⟨hts, hfirst⟩ := Token.exists_cons (Token.not_atEnd_of_atMark hm)
  have hkind := Token.kind_of_atMark hm
  have hend := htakes.atEnd_rest rfl
  generalize (ofLevels levels).read scope false owner ts.tail = b at htakes hend ⊢
  have hall : ts = front ts :: body ++ b.rest := by rw [List.cons_append, ← htakes.eq_append, ← hts]
  have hinside : Inside (front ts :: body) := (Token.inside_singleton hfirst).append htakes.inside
  have hlast := lastToken_append hinside (List.cons_ne_nil _ _) hend
  rw [← hall] at hlast
  have hended : Ended (front ts :: body) := by
    by_cases hbody : body = []
    · rw [hbody]
      exact .inl (.inl hkind)
    · exact (htakes.laidOut.ended hbody).append [front ts]
  refine ⟨front ts :: body, hall, hend, ⟨hinside, hended, ?_, ?_⟩, fun m hm us hus => ⟨?_, ?_⟩⟩
  · exact ⟨[front ts], body, [], by simp, .inl (.inl hkind), htakes.laidOut⟩
  · rw [hlast]
    exact merge_back_span (List.cons_ne_nil _ _)
  · rw [hlast, lastToken_append hinside (List.cons_ne_nil _ _) hus]
  · have halike : Alike us b.rest := by
      rw [atEnd, beq_iff_eq] at hus hend
      rw [Alike, hus, hend]
    exact htakes.again m hm us halike

/-- Whether a namespace that goes on to the end of the text begins here. Only the top level admits one. -/
def AtEndless (scope : Scope) (ts : List Token) : Prop :=
  scope = .text ∧ atKeyword .namespaceKw ts = true ∧ atMark .semicolon (qualifiedName ts.tail).rest = true

/-- What follows the name of a namespace. -/
def namespaceEnd (inner : Option Reader) (scope : Scope) (name : String) (start : Span) (ts : List Token) :
    Step Found :=
  if atMark .semicolon ts && scope != .text then
    .fail .misplacedFileNamespace (front ts).span ts.tail
  else
    match inner with
    | none => .fail .nestedTooDeeply (front ts).span ts
    | some reader =>
      if atMark .semicolon ts then
        let body := reader.read .namespaceBody false name ts.tail
        .done (body.found.wrap .namespaceBlock name [] (start.merge (lastToken ts).span)) body.rest
      else if atMark .leftBrace ts then
        (inBraces reader .namespaceBody name ts).andThen fun (found, stop) left =>
          .done (found.wrap .namespaceBlock name [] (start.merge stop)) (skipMark .semicolon left)
      else .failExpecting .namespaceBody ts

/-- A namespace that goes on to the end of the text. -/
theorem declares_unbraced {levels : Nat} (hlays : LaysOut levels) {name : String} {start : Span} {ts : List Token}
    {x : Found} (hm : atMark .semicolon ts = true)
    (h : (namespaceEnd (below (levels + 1)) .text name start ts).result = .ok x) (hx : x.problems = #[]) :
    ∃ own d, Finds (levels + 1) (fun m => namespaceEnd (below m) .text name start)
      (fun m => namespaceEnd (below m) .text name start) True [] start ts x own d := by
  have hend (m : Nat) {us : List Token} (hus : Alike us ts) : namespaceEnd (below (m + 1)) .text name start us =
      .done (((ofLevels m).read .namespaceBody false name us.tail).found.wrap .namespaceBlock name []
        (start.merge (lastToken us).span)) ((ofLevels m).read .namespaceBody false name us.tail).rest := by
    simp [namespaceEnd, below, hus.atMark, hm]
  rw [hend levels (.refl ts)] at h
  obtain rfl := Except.ok.inj h
  obtain ⟨hwrap, hfound⟩ := wrap_eq hx
  obtain ⟨own, hts, hleft, hencloses, hagain⟩ := encloses_unbraced hlays hm hfound
  have again (m : Nat) (hm' : levels + 1 ≤ m) (us : List Token) (hus : atEnd us = true) :
      namespaceEnd (below m) .text name start (own ++ us) =
        .done (((ofLevels levels).read .namespaceBody false name ts.tail).found.wrap .namespaceBlock name []
          (start.merge (lastToken ts).span)) us := by
    obtain ⟨m, rfl⟩ : ∃ l, m = l + 1 := ⟨m - 1, by omega⟩
    obtain ⟨hlast, hread⟩ := hagain m (Nat.le_of_succ_le_succ hm') us hus
    rw [hend m (Token.alike_of_eq_append hts hencloses.ended.ne_nil us), hread, hlast]
  rw [hwrap] at again ⊢
  refine ⟨own, _, rfl, rfl, [], ?_⟩
  simp only [hend levels (.refl ts), Step.rest_done]
  refine ⟨hts, hencloses.declares rfl (fun m hm' us hus => ⟨fun vs hvs => ?_, ?_⟩) again (.inr ⟨rfl, hleft⟩) (.inl rfl)⟩
  · rcases hvs.replaces hus with halike | ⟨hfalse, -⟩
    · rw [List.append_nil]
      exact again m hm' vs (halike.atEnd.trans hleft)
    · exact absurd trivial hfalse
  · simpa using hencloses.inside

/-- A namespace with a body in braces, which is read alike in the text and in any list that holds it. -/
theorem declares_braced {levels : Nat} {endless : Prop} (hlays : LaysOut levels) {scope : Scope} {name : String}
    {start : Span} {ts : List Token} {x : Found} (hb : atMark .leftBrace ts = true)
    (h : (namespaceEnd (below (levels + 1)) scope name start ts).result = .ok x) (hx : x.problems = #[]) :
    ∃ own d, Finds (levels + 1) (fun m => namespaceEnd (below m) scope name start)
      (fun m => namespaceEnd (below m) .text name start) endless [] start ts x own d := by
  have hend (scope : Scope) (m : Nat) (us : List Token) (hm : levels + 1 ≤ m) (hus : Alike us ts) :
      namespaceEnd (below m) scope name start us =
        (inBraces (ofLevels (m - 1)) .namespaceBody name us).andThen fun (found, stop) left =>
          .done (found.wrap .namespaceBlock name [] (start.merge stop)) (skipMark .semicolon left) := by
    obtain ⟨m, rfl⟩ : ∃ l, m = l + 1 := ⟨m - 1, by omega⟩
    have hkind := Token.kind_of_atMark hb
    have hm : atMark .semicolon ts = false := by simp [atMark, hkind]
    simp [namespaceEnd, below, hus.atMark, hm, hb]
  exact finds_of_takesBody (hend scope) (hend .text)
    (fun found stop hbody hfound => (takesBody_inBraces hlays hb hbody hfound).succ fun _ => rfl) h hx

theorem declares_namespaceEnd {levels : Nat} (hlays : ∀ l, l < levels → LaysOut l) {scope : Scope} {name : String}
    {start : Span} {ts : List Token} {x : Found}
    (h : (namespaceEnd (below levels) scope name start ts).result = .ok x) (hx : x.problems = #[]) :
    ∃ own d, Finds levels (fun m => namespaceEnd (below m) scope name start)
      (fun m => namespaceEnd (below m) .text name start) (scope = .text ∧ atMark .semicolon ts = true) [] start ts x
        own d := by
  have hunfold := h
  unfold namespaceEnd at hunfold
  split at hunfold
  · cases hunfold
  · next hscope =>
    cases levels with
    | zero => cases hunfold
    | succ levels =>
      have hlays := hlays levels (Nat.lt_succ_self levels)
      by_cases hm : atMark .semicolon ts = true
      · obtain rfl : scope = .text := by simpa [hm] using hscope
        rw [eq_true (⟨rfl, hm⟩ : Scope.text = .text ∧ _)]
        exact declares_unbraced hlays hm h hx
      · by_cases hb : atMark .leftBrace ts = true
        · exact declares_braced hlays hb h hx
        · simp [below, hm, hb, Step.failExpecting, Step.fail] at hunfold

theorem typeDeclaration_eq (inner : Option Reader) (kind : TypeKind) (mods : List Keyword) (start : Span)
    (ts : List Token) : typeDeclaration inner kind mods start ts =
      (Step.name (.typeName kind) ts.tail).andThen fun name header =>
        (Nesting.skipUntil (fun p => p == .leftBrace || p == .semicolon) true header).andThen fun _ rest =>
          typeEnd inner kind name mods start rest := rfl

theorem declares_typeDeclaration {levels : Nat} {endless : Prop} (hlays : ∀ l, l < levels → LaysOut l) {kind : TypeKind}
    {mods : List Keyword} {start : Span} {ts : List Token} {x : Found} (hend : ¬ atEnd ts = true)
    (h : (typeDeclaration (below levels) kind mods start ts).result = .ok x) (hx : x.problems = #[]) :
    ∃ own d, 2 ≤ own.length ∧ Finds levels (fun m => typeDeclaration (below m) kind mods start)
      (fun m => typeDeclaration (below m) kind mods start) endless mods start ts x own d := by
  obtain ⟨hts, hfirst⟩ := Token.exists_cons hend
  rw [typeDeclaration_eq] at h
  obtain ⟨name, hname, he⟩ := Step.andThen_eq_ok h
  obtain ⟨t, htail, -, hreads⟩ := Step.reads_name hname
  rw [he] at h
  obtain ⟨_, hu, he'⟩ := Step.andThen_eq_ok h
  obtain ⟨header, hheader, hpassed⟩ := Nesting.reads_skipUntil hu
  rw [he'] at h
  obtain ⟨own, d, rfl, hmods, trail, hrest, hdeclares⟩ := declares_typeEnd hlays h hx
  have hinside : Inside (front ts :: t :: header) :=
    (Token.inside_singleton hfirst).append (hreads.inside.append hpassed.inside)
  have again (m : Nat) (us : List Token) : typeDeclaration (below m) kind mods start
      (front ts :: t :: header ++ (own ++ us)) = typeEnd (below m) kind name mods start (own ++ us) := by
    have halike := Token.alike_of_eq_append hrest hdeclares.ended.ne_nil us
    have hnamed := hreads.again (header ++ (own ++ us)) (by rw [hheader]; exact halike.append header)
    have hskipped := hpassed.again (own ++ us) halike
    have hnamed : Step.name (.typeName kind) (t :: (header ++ (own ++ us))) = _ := hnamed
    rw [typeDeclaration_eq, List.cons_append, List.cons_append, List.tail_cons, hnamed]
    simp only [Step.andThen, Step.done, hskipped]
  refine ⟨front ts :: t :: header ++ own, d, by simp, rfl, hmods, trail, ?_⟩
  simp only [typeDeclaration_eq, he, he']
  refine ⟨?_, hdeclares.prepend hinside again fun _ => again⟩
  rw [hheader, hrest] at htail
  rw [List.append_assoc, List.cons_append, List.cons_append, ← htail, ← hts]

theorem namespaceDeclaration_eq (inner : Option Reader) (scope : Scope) (start : Span) (ts : List Token) :
    namespaceDeclaration inner scope start ts =
      (qualifiedName ts.tail).andThen fun name rest => namespaceEnd inner scope name start rest := rfl

theorem declares_namespaceDeclaration {levels : Nat} (hlays : ∀ l, l < levels → LaysOut l) {scope : Scope}
    {start : Span} {ts : List Token} {x : Found} (hn : atKeyword .namespaceKw ts = true)
    (h : (namespaceDeclaration (below levels) scope start ts).result = .ok x) (hx : x.problems = #[]) :
    ∃ own d, 2 ≤ own.length ∧ Finds levels (fun m => namespaceDeclaration (below m) scope start)
      (fun m => namespaceDeclaration (below m) .text start) (AtEndless scope ts) [] start ts x own d := by
  obtain ⟨hts, hfirst⟩ := Token.exists_cons (Token.not_atEnd_of_atKeyword hn)
  rw [namespaceDeclaration_eq] at h
  obtain ⟨name, hname, he⟩ := Step.andThen_eq_ok h
  obtain ⟨used, htail, hne, -, hreads⟩ := reads_qualifiedName hname
  rw [he] at h
  obtain ⟨own, d, rfl, hmods, trail, hrest, hdeclares⟩ := declares_namespaceEnd hlays h hx
  have hinside : Inside (front ts :: used) := (Token.inside_singleton hfirst).append hreads.inside
  have again (scope : Scope) (m : Nat) (us : List Token) : namespaceDeclaration (below m) scope start
      (front ts :: used ++ (own ++ us)) = namespaceEnd (below m) scope name start (own ++ us) := by
    have halike := Token.alike_of_eq_append hrest hdeclares.ended.ne_nil us
    rw [namespaceDeclaration_eq, List.cons_append, List.tail_cons, hreads.again _ halike]
    rfl
  have hlength := List.length_pos_iff.mpr hne
  have htwo : 2 ≤ (front ts :: used ++ own).length := by
    simp
    omega
  refine ⟨front ts :: used ++ own, d, htwo, rfl, hmods, trail, ?_⟩
  have hendless : AtEndless scope ts = (scope = .text ∧ atMark .semicolon (qualifiedName ts.tail).rest = true) :=
    propext (and_congr_right' (and_iff_right hn))
  rw [hendless]
  simp only [namespaceDeclaration_eq, he]
  refine ⟨?_, hdeclares.prepend hinside (again scope) fun _ => again .text⟩
  rw [hrest] at htail
  rw [List.append_assoc, List.cons_append, ← htail, ← hts]

theorem standsAlone_of_isMember {kind : DeclarationKind} (h : kind.isMember = true) : kind.standsAlone = false := by
  cases kind with
  | type _ | namespaceBlock => cases h
  | _ => rfl

/-- A member takes its tokens like any declaration, but is none outside of types. -/
theorem declares_member {levels : Nat} {endless : Prop} {owner : String} {mods : List Keyword} {start : Span}
    {forced : Option DeclarationKind} {ts : List Token} {x : Found} (hforced : forced = some .other ∨ forced = none)
    (h : (member owner mods start forced ts).result = .ok x) :
    ∃ own d, 2 ≤ own.length ∧ d.kind.standsAlone = false ∧ Finds levels (fun _ => member owner mods start forced)
      (fun _ => member owner mods start forced) endless mods start ts x own d := by
  obtain ⟨d, hd, rfl, hleft⟩ := Step.of_map h
  have hleft : (member owner mods start forced ts).rest = _ := hleft
  have hwords : Words (fun _ => True) ts := fun _ _ _ _ => trivial
  obtain ⟨-, hmods, hchildren, head, us, -, hkind⟩ := Member.of_read trivial trivial hwords hd
  obtain ⟨own, hts, htwo, hclosed, hspan, hreads⟩ := Member.reads_read hd
  have halone : d.kind.standsAlone = false := by
    rw [hkind]
    rcases hforced with rfl | rfl
    · rfl
    · rcases head.kind_eq_other_or_isMember owner us with ho | ho
      · rw [Option.getD_none, ho]
        rfl
      · rw [Option.getD_none]
        exact standsAlone_of_isMember ho
  refine ⟨own, d, htwo, halone, rfl, hmods, [], ?_⟩
  simp only [hleft]
  refine ⟨hts, ?_, ?_, .inl hclosed, .inl hclosed, .inl rfl, ?_, hspan⟩
  · intro m _ us hus
    rw [List.append_nil]
    exact (hreads us (hus.imp False.elim)).map fun d => ({ declarations := #[d] } : Found)
  · simp [halone]
  · refine ⟨own, [], [], by simp, .inl hclosed, ?_⟩
    rw [hchildren]
    exact .nil

namespace Finds

variable {levels : Nat} {f g f' g' : Nat → List Token → Step Found} {endless : Prop} {mods : List Keyword}
  {start : Span} {ts own : List Token} {x : Found} {d : Declaration}

theorem imp {p : Prop} (h : Finds levels f g endless mods start ts x own d) (hp : endless → p) :
    Finds levels f g p mods start ts x own d := by
  obtain ⟨hx, hmods, trail, hts, hdeclares⟩ := h
  exact ⟨hx, hmods, trail, hts, hdeclares.imp hp⟩

/-- A declaration is found likewise by what reads likewise in front of two tokens. -/
theorem congr (h : Finds levels f g endless mods start ts x own d) (htwo : 2 ≤ own.length)
    (hf : ∀ m us, SameHead us ts → f' m us = f m us)
    (hg : d.kind.standsAlone = true → ∀ m us, SameHead us ts → g' m us = g m us) :
    Finds levels f' g' endless mods start ts x own d := by
  obtain ⟨rfl, hmods, trail, hts, hdeclares⟩ := h
  refine ⟨rfl, hmods, trail, ?_⟩
  rw [hf levels ts (.refl ts)]
  refine ⟨hts, hdeclares.prepend Token.inside_nil (fun m us => ?_) fun hd m us => ?_⟩
  · exact hf m _ (.of_append hts htwo us)
  · exact hg hd m _ (.of_append hts htwo us)

/-- A declaration is found behind a token by what reads on behind it. -/
theorem behind (h : Finds levels f g endless mods start ts.tail x own d) (hend : ¬ atEnd ts = true)
    (hf : ∀ m us, SameHead us ts → f' m us = f m us.tail)
    (hg : d.kind.standsAlone = true → ∀ m us, SameHead us ts → g' m us = g m us.tail) :
    Finds levels f' g' endless mods start ts x (front ts :: own) d := by
  obtain ⟨rfl, hmods, trail, htail, hdeclares⟩ := h
  obtain ⟨hts, hfirst⟩ := Token.exists_cons hend
  have hhead (us : List Token) : SameHead (front ts :: (own ++ us)) ts := by
    have hall : ts = front ts :: own ++ (trail ++ (f levels ts.tail).rest) := by rw [List.cons_append, ← htail, ← hts]
    exact .of_append hall (Nat.succ_le_succ (List.length_pos_iff.mpr hdeclares.ended.ne_nil)) us
  refine ⟨rfl, hmods, trail, ?_⟩
  rw [hf levels ts (.refl ts)]
  refine ⟨by rw [List.cons_append, ← htail, ← hts],
    hdeclares.prepend (Token.inside_singleton hfirst) (fun m us => ?_) fun hd m us => ?_⟩
  · exact hf m _ (hhead us)
  · exact hg hd m _ (hhead us)

end Finds

end Reader

end TestScaffold
