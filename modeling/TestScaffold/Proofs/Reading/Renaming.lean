import TestScaffold.Proofs.Reading.Respelling

/-!
# Names after a change of words

Where a change of words leaves the fronts of declarations alone, and tells names apart that were told apart before, an
accepted list is read as before: the same declarations with the same modifiers in the same places, under names that are
made of the new words. Whether a member is a constructor is where names are compared, so the owner of a list is renamed
with it.

Results:
* `Respelling.Renames`, `Respelling.RenamesBody`: what is found after a change, against what was found before.
* `Respelling.renames_form`: one declaration, from its body.
* `Respelling.renames_read`: a list, by its items and the bodies in these.
-/

namespace TestScaffold

open Token (front second atEnd atMark wordAt)
open Nesting (skipUntil skipToSemicolon)
open Written (endsHeader)
open Declaration (anonymousAll namesAll)

namespace Respelling

variable {r : Respelling}

/-! ## What is found -/

/-- What was found after the change is what was found before it, but for the names: these are made of the words that
stand at the spots `rows` then. -/
structure Renames (r : Respelling) (x x' : Found) (rows : List (List (List Token))) : Prop where
  problems_eq : x'.problems = #[]
  anonymous_eq : anonymousAll x'.declarations.toList = anonymousAll x.declarations.toList
  names_eq : namesAll x'.declarations.toList = rows.map r.spelled

namespace Renames

variable {x x' y y' : Found} {rows more : List (List (List Token))}

theorem empty : r.Renames {} {} [] := ⟨rfl, rfl, rfl⟩

theorem append (h : r.Renames x x' rows) (k : r.Renames y y' more) :
    r.Renames (x.append y) (x'.append y') (rows ++ more) := by
  refine ⟨?_, ?_, ?_⟩
  · rw [Found.append, h.problems_eq, k.problems_eq]
    rfl
  · simp only [Found.append, Array.toList_append, Declaration.anonymousAll_append, h.anonymous_eq, k.anonymous_eq]
  · simp only [Found.append, Array.toList_append, Declaration.namesAll_append, h.names_eq, k.names_eq, List.map_append]

theorem wrap (h : r.Renames x x' rows) (kind : DeclarationKind) (name : String) (row : List (List Token))
    (mods : List Keyword) (span : Span) :
    r.Renames (x.wrap kind name mods span) (x'.wrap kind (r.spelled row) mods span) (row :: rows) := by
  refine ⟨h.problems_eq, ?_, ?_⟩
  · simp [Found.wrap, anonymousAll, Declaration.anonymous, h.anonymous_eq]
  · simp [Found.wrap, namesAll, Declaration.names, h.names_eq]

end Renames

/-- What was read after the change, likewise, and what is left. -/
structure RenamesBody (r : Respelling) (b b' : Body) (rows : List (List (List Token))) : Prop where
  found : r.Renames b.found b'.found rows
  rest_eq : b'.rest = r.tokens b.rest

end Respelling

namespace Reader

/-- Where the names stand that are declared in the body of a declaration. -/
def Form.insideSpots (f : Form) : (levels : Nat) → List (List (List Token))
  | 0 => []
  | levels + 1 => f.contents?.elim [] (nameSpots levels)

/-- Where the names stand that an item declares, its own in front of those in its body. -/
def Site.names (s : Site) (levels : Nat) : List (List (List Token)) :=
  s.form?.elim [] fun f => f.spots :: f.insideSpots levels

theorem Items.Begins.nameSpots_eq {c : Items} {levels : Nat} {x : Found} (h : c.Begins levels x) :
    nameSpots levels c = (c.first levels).names levels ++ nameSpots levels (c.from (c.first levels).rest) := by
  have hinside : ((c.first levels).inside levels).filterMap (fun s => s.form?.map Form.spots) =
      (c.first levels).form?.elim [] fun f => f.insideSpots levels := by
    cases levels with
    | zero => cases (c.first 0).form? <;> rfl
    | succ l =>
      rw [Site.inside, Site.contents?]
      cases (c.first (l + 1)).form? with
      | none => rfl
      | some f =>
        rw [Option.bind_some, Option.elim_some, Form.insideSpots]
        cases f.contents? <;> rfl
  rw [nameSpots, h.sites_eq, List.filterMap_cons, List.filterMap_append, hinside, ← nameSpots, Site.names]
  cases (c.first levels).form? <;> rfl

/-- The list after a change of words, in which its owner is called `owner`. -/
def Items.respelled (c : Items) (r : Respelling) (owner : String) : Items :=
  ⟨c.scope, c.braced, owner, r.tokens c.tokens⟩

end Reader

namespace Respelling

open Reader

variable {r : Respelling}

/-! ## Declarations -/

section

variable {levels : Nat} {scope : Scope} {owner owner' : String} {mods : List Keyword} {start : Span}
  {ts left : List Token} {x : Found}

theorem spelled_singleton (r : Respelling) (us : List Token) : r.spelled [us] = r.word us := by
  simp [spelled]

theorem renames_type (r : Respelling) {kind : TypeKind}
    (hread : typeDeclaration (below levels) kind mods start ts = .done x left) (hx : x.problems = #[])
    (hbody : ∀ l d, levels = l + 1 → (Form.type kind ts).contents? = some d → (d.read l).found.problems = #[] →
      r.RenamesBody (d.read l) ((d.respelled r (r.word ts.tail)).read l) (nameSpots l d)) :
    ∃ x', typeDeclaration (below levels) kind mods start (r.tokens ts) = .done x' (r.tokens left) ∧
      r.Renames x x' ((Form.type kind ts).spots :: (Form.type kind ts).insideSpots levels) := by
  have hok : (typeDeclaration (below levels) kind mods start ts).result = .ok x := by rw [hread]; rfl
  obtain ⟨hname, hpassed, he⟩ := typeDeclaration_cases hok
  have hpassed' := r.carries_skipUntil endsHeader true ts.tail.tail () hpassed
  generalize hrest : (skipUntil endsHeader true ts.tail.tail).rest = rest at he hpassed'
  have hname' : (front (r.tokens ts).tail).kind.name? = some (r.word ts.tail) := by
    rw [tail_tokens, front_tokens]
    exact r.name?_token hname
  have he' : typeDeclaration (below levels) kind mods start (r.tokens ts) =
      typeEnd (below levels) kind (r.spelled [ts.tail]) mods start (r.tokens rest) := by
    rw [typeDeclaration_of_header _ _ _ _ hname', tail_tokens, tail_tokens, hpassed', spelled_singleton]
    · rfl
    · rw [tail_tokens, tail_tokens, hpassed']
      rfl
  have hcontents {d : Items} : (Form.type kind ts).contents? = some d ↔ atMark .leftBrace rest = true ∧
      kind ≠ .enumType ∧ ⟨.typeBody, true, wordAt ts.tail, rest.tail⟩ = d := hrest ▸ Form.contents?_type_eq_some
  have hleaf (h : (Form.type kind ts).contents? = none) (levels : Nat) :
      (Form.type kind ts).insideSpots levels = [] := by
    cases levels with
    | zero => rfl
    | succ l => rw [Form.insideSpots, h]; rfl
  rw [he] at hread hok
  rw [he']
  rcases typeEnd_cases hok hx with hm | ⟨hb, ⟨rfl, group, hgroup⟩ | ⟨hk, l, rfl, hproblems, hclosed⟩⟩
  · have hnone : (Form.type kind ts).contents? = none := Option.eq_none_iff_forall_ne_some.mpr fun d hd =>
      not_atMark_of_atMark hm (by simp) (hcontents.mp hd).1
    rw [typeEnd_of_semicolon _ hm] at hread
    rw [typeEnd_of_semicolon _ (by rwa [atMark_tokens]), front_tokens, span_token, tail_tokens, hleaf hnone]
    cases hread
    exact ⟨_, rfl, Renames.empty.wrap _ _ _ _ _⟩
  · have hnone : (Form.type .enumType ts).contents? = none := Option.eq_none_iff_forall_ne_some.mpr fun d hd =>
      (hcontents.mp hd).2.1 rfl
    have hgroup' := r.carries_skipGroup rest group hgroup
    rw [typeEnd_of_enum _ hb hgroup] at hread
    rw [typeEnd_of_enum _ (by rwa [atMark_tokens]) (by rw [hgroup']; rfl), hgroup', Step.rest_done, skipMark_tokens,
      hleaf hnone]
    cases hread
    exact ⟨_, rfl, Renames.empty.wrap _ _ _ _ _⟩
  · have hd := hcontents.mpr ⟨hb, hk, rfl⟩
    obtain ⟨hfound, hleft⟩ := hbody l _ rfl hd hproblems
    rw [typeEnd_of_body hb hk hclosed] at hread
    have hsame : (⟨.typeBody, true, r.spelled [ts.tail], (r.tokens rest).tail⟩ : Items) =
        (⟨.typeBody, true, wordAt ts.tail, rest.tail⟩ : Items).respelled r (r.word ts.tail) := by
      rw [spelled_singleton, tail_tokens]
      rfl
    rw [typeEnd_of_body (by rwa [atMark_tokens]) hk (by rwa [hsame, hleft, atMark_tokens]), hsame, hleft, front_tokens,
      span_token, tail_tokens, skipMark_tokens, Form.insideSpots, hd]
    cases hread
    exact ⟨_, rfl, hfound.wrap _ _ _ _ _⟩

theorem qualifiedName_tokens (r : Respelling) {name : String} (h : (qualifiedName ts).result = .ok name) :
    qualifiedName (r.tokens ts) =
      .done (r.spelled (ts :: dottedSpots ts.tail)) (r.tokens (qualifiedName ts).rest) := by
  obtain ⟨hname, hdotted, he⟩ := qualifiedName_cases h
  have hname' : (front (r.tokens ts)).kind.name? = some (r.word ts) := by
    rw [front_tokens]
    exact r.name?_token hname
  have hread : Step.name .namespaceName (r.tokens ts) = .done (r.word ts) (r.tokens ts.tail) := by
    simp only [Step.name, hname', tail_tokens]
  rw [he, qualifiedName, hread]
  exact r.dottedName_tokens (r.word ts) hdotted

/-- The end of a text stays where it is. -/
theorem span_lastToken (r : Respelling) (ts : List Token) : (lastToken (r.tokens ts)).span = (lastToken ts).span := by
  have htaken (ts : List Token) : ((r.tokens ts).takeWhile fun t => t.kind != .endOfText).map Token.span =
      (ts.takeWhile fun t => t.kind != .endOfText).map Token.span := by
    induction ts with
    | nil => rfl
    | cons t ts ih =>
      have hend : ((r.token (t :: ts)).kind != .endOfText) = (t.kind != .endOfText) := by
        have hsame := r.atEnd_tokens (t :: ts)
        rw [atEnd, atEnd, front_tokens] at hsame
        exact congrArg not hsame
      rw [tokens, List.takeWhile_cons, List.takeWhile_cons, hend]
      split
      · rw [List.map_cons, List.map_cons, ih, span_token]
        rfl
      · rfl
  have hspan (us : List Token) : (lastToken us).span =
      ((us.takeWhile fun t => t.kind != .endOfText).map Token.span).getLast?.getD (front us).span := by
    rw [lastToken, List.getLast?_map]
    cases (us.takeWhile fun t => t.kind != .endOfText).getLast? <;> rfl
  rw [hspan, hspan, htaken, front_tokens, span_token]

theorem renames_namespace (r : Respelling)
    (hread : namespaceDeclaration (below levels) scope start ts = .done x left) (hx : x.problems = #[])
    (hbody : ∀ l d, levels = l + 1 → (Form.namespaceBlock ts).contents? = some d → (d.read l).found.problems = #[] →
      r.RenamesBody (d.read l) ((d.respelled r "").read l) (nameSpots l d)) :
    ∃ x', namespaceDeclaration (below levels) scope start (r.tokens ts) = .done x' (r.tokens left) ∧
      r.Renames x x' ((Form.namespaceBlock ts).spots :: (Form.namespaceBlock ts).insideSpots levels) := by
  have hok : (namespaceDeclaration (below levels) scope start ts).result = .ok x := by rw [hread]; rfl
  obtain ⟨name, hname, he⟩ := namespaceDeclaration_cases hok
  have hname' := r.qualifiedName_tokens hname
  have he' : namespaceDeclaration (below levels) scope start (r.tokens ts) =
      namespaceEnd (below levels) scope (r.spelled (Form.namespaceBlock ts).spots) start
        (r.tokens (qualifiedName ts.tail).rest) := by
    rw [namespaceDeclaration_eq, tail_tokens, hname']
    rfl
  have hd : (Form.namespaceBlock ts).contents? = some (namespaceContents (qualifiedName ts.tail).rest) := rfl
  generalize (qualifiedName ts.tail).rest = rest at he he' hd
  rw [he] at hread hok
  have hsame : namespaceContents (r.tokens rest) = (namespaceContents rest).respelled r "" := by
    rw [namespaceContents, atMark_tokens, tail_tokens]
    rfl
  rw [he']
  obtain ⟨l, rfl, hproblems, ⟨hm, rfl⟩ | ⟨hb, hclosed⟩⟩ := namespaceEnd_cases hok hx
  · obtain ⟨hfound, hleft⟩ := hbody l _ rfl hd hproblems
    rw [namespaceEnd_of_semicolon hm] at hread
    rw [namespaceEnd_of_semicolon (by rwa [atMark_tokens]), hsame, hleft, span_lastToken, Form.insideSpots, hd]
    cases hread
    exact ⟨_, rfl, hfound.wrap _ _ _ _ _⟩
  · obtain ⟨hfound, hleft⟩ := hbody l _ rfl hd hproblems
    rw [namespaceEnd_of_body hb hclosed] at hread
    rw [namespaceEnd_of_body (by rwa [atMark_tokens]) (by rwa [hsame, hleft, atMark_tokens]), hsame, hleft,
      front_tokens, span_token, tail_tokens, skipMark_tokens, Form.insideSpots, hd]
    cases hread
    exact ⟨_, rfl, hfound.wrap _ _ _ _ _⟩

theorem renames_member (r : Respelling) {forced : Option DeclarationKind}
    (hread : member owner mods start forced ts = .done x left)
    (howner : forced = none → ∀ us, Head.spot {} none ts = some us → (wordAt us = owner ↔ r.word us = owner')) :
    ∃ x', member owner' mods start forced (r.tokens ts) = .done x' (r.tokens left) ∧
      r.Renames x x' [(Form.member forced ts).spots] := by
  have hok : (member owner mods start forced ts).result = .ok x := by rw [hread]; rfl
  obtain ⟨d, hd, he⟩ := Step.andThen_eq_ok hok
  have he : member owner mods start forced ts =
      .done { declarations := #[d] } (Member.read owner mods start forced ts).rest := he
  obtain ⟨us, hspot, hagain⟩ := r.memberRead_tokens hd howner
  have hwords : Words (fun _ => True) ts := fun _ _ _ _ => trivial
  obtain ⟨-, -, hchildren, -⟩ := Member.of_read trivial trivial hwords hd
  obtain ⟨kind, name, modifiers, span, children⟩ := d
  obtain rfl : children = [] := hchildren
  rw [he] at hread
  cases hread
  refine ⟨{ declarations := #[⟨kind, r.word us, modifiers, span, []⟩] }, ?_, rfl, rfl, ?_⟩
  · rw [member, hagain]
    rfl
  · simp [Form.spots, hspot, spelled_singleton, namesAll, Declaration.names]

/-- A declaration is read after the change as before, but for the names. A member that may be a constructor is asked
whether it is called like its type. -/
theorem renames_form (r : Respelling) {f : Form}
    (hread : f.read (below levels) scope owner mods start = .done x left) (hx : x.problems = #[])
    (howner : ∀ us vs, f = .member none us → Head.spot {} none us = some vs → (wordAt vs = owner ↔ r.word vs = owner'))
    (hbody : ∀ l d, levels = l + 1 → f.contents? = some d → (d.read l).found.problems = #[] → ∀ owner',
      (d.scope = .typeBody → ∃ us ∈ f.spots, d.owner = wordAt us ∧ owner' = r.word us) →
        r.RenamesBody (d.read l) ((d.respelled r owner').read l) (nameSpots l d)) :
    ∃ x', (f.map r.tokens).read (below levels) scope owner' mods start = .done x' (r.tokens left) ∧
      r.Renames x x' (f.spots :: f.insideSpots levels) := by
  cases f with
  | type kind ts =>
    refine r.renames_type hread hx fun l d hl hd hproblems => hbody l d hl hd hproblems _ fun _ => ?_
    obtain ⟨-, -, rfl⟩ := Form.contents?_type_eq_some.mp hd
    exact ⟨ts.tail, List.mem_singleton_self _, rfl, rfl⟩
  | namespaceBlock ts =>
    refine r.renames_namespace hread hx fun l d hl hd hproblems => hbody l d hl hd hproblems _ fun hscope => ?_
    obtain rfl : namespaceContents _ = d := Option.some.inj hd
    cases hscope
  | member forced ts =>
    have hmember := r.renames_member hread fun hforced vs => howner ts vs (by rw [hforced])
    cases levels <;> exact hmember
  | unknown ts => cases hread

end

/-! ## Lists -/

/-- A change of words leaves alone what stands in front of the heading of an item, and puts no word there that would be
read as a modifier or as the beginning of a record. The words of the item's name are among those of `named`. -/
structure Allows (r : Respelling) (named : List Token → Prop) (s : Site) : Prop where
  named : ∀ us ∈ s.spots, named us
  kept : ∀ us, us <:+ s.tokens → s.heading.length < us.length → r.token us = front us
  heading : s.form? ≠ none → r.token s.heading = front s.heading ∨ ¬ r.keyword.isModifier = true ∧
    (r.keyword = .recordKw → atRecordFlavour s.heading = false ∧ (second s.heading).kind.name?.isSome = false)

/-- The owner of a list after the change is called by the word that names it then. Outside of types it does not
matter. -/
def Calls (r : Respelling) (named : List Token → Prop) (c : Items) (owner : String) : Prop :=
  c.scope = .typeBody → ∃ us, named us ∧ c.owner = wordAt us ∧ owner = r.word us

/-- The words of names are told apart after the change as they were before. -/
def Separates (r : Respelling) (named : List Token → Prop) : Prop :=
  ∀ us vs, named us → named vs → (wordAt us = wordAt vs ↔ r.word us = r.word vs)

variable {named : List Token → Prop} {c : Items} {levels : Nat} {x : Found} {owner : String}

/-- No directive begins where none began before the change. -/
theorem not_directive_tokens (hd : (c.first levels).isDirective = false) :
    ¬ (c.scope != .typeBody && atDirective (r.tokens c.tokens)) = true := by
  intro h
  obtain ⟨hscope, hdirective⟩ := (Bool.and_eq_true _ _ ▸ h : _ ∧ _)
  have hd' : (c.first levels).isDirective = true := by
    rw [Site.isDirective, Bool.and_eq_true]
    exact ⟨hscope, atDirective_of_atDirective_tokens hdirective⟩
  rw [hd] at hd'
  cases hd'

/-- A directive is one after the change: the words that make it stand in front of its heading. -/
theorem item_directive_tokens (hbegins : c.Begins levels x) (hallows : r.Allows named (c.first levels)) {s : Span}
    (hd : (c.first levels).isDirective = true) (hs : (skipToSemicolon c.tokens).result = .ok s) :
    item (below levels) c.scope owner (r.tokens c.tokens) = .done {} (r.tokens (skipToSemicolon c.tokens).rest) := by
  obtain ⟨hscope, hdirective⟩ := (Bool.and_eq_true _ _ ▸ hd : _ ∧ _)
  have hheading : (c.first levels).heading = c.tokens.tail.tail := by rw [Site.heading, if_pos hd]; rfl
  have hkept := hallows.kept
  rw [hheading] at hkept
  have hfirst : r.token c.tokens = front c.tokens := by
    refine hkept _ (List.suffix_refl _) ?_
    have hlt := Token.length_tail_lt (Token.not_atEnd_of_not_atBodyEnd hbegins.not_atBodyEnd)
    exact Nat.lt_of_le_of_lt (List.tail_suffix _).length_le hlt
  have hsecond : r.token c.tokens.tail = front c.tokens.tail := by
    by_cases hend : atEnd c.tokens.tail = true
    · exact token_of_ne_identifier fun name hname => by rw [Token.kind_of_atEnd hend] at hname; cases hname
    · exact hkept _ (List.tail_suffix _) (Token.length_tail_lt hend)
  have hdirective' : (c.scope != .typeBody && atDirective (r.tokens c.tokens)) = true := by
    rw [Bool.and_eq_true]
    exact ⟨hscope, atDirective_tokens hdirective hfirst hsecond⟩
  rw [item, if_pos hdirective', r.carries_skipToSemicolon c.tokens _ hs]
  rfl

/-- Modifiers are read after the change as before, and what follows them is of the same form. -/
theorem heading_tokens {f : Form} (hallows : r.Allows named (c.first levels))
    (hd : (c.first levels).isDirective = false) (hform : (c.first levels).form? = some f)
    (hf : f = form c.scope (modifiers (skipAttributes c.tokens).rest).1 (c.first levels).heading) :
    modifiers (r.tokens (skipAttributes c.tokens).rest) =
        ((modifiers (skipAttributes c.tokens).rest).1, r.tokens (c.first levels).heading) ∧
      form c.scope (modifiers (skipAttributes c.tokens).rest).1 (r.tokens (c.first levels).heading) =
        f.map r.tokens := by
  have hheading : (c.first levels).heading = (modifiers (skipAttributes c.tokens).rest).2 := Site.heading_eq hd
  have hallowed := hallows.heading (by rw [hform]; exact Option.some_ne_none f)
  constructor
  · rw [hheading] at hallowed ⊢
    refine r.modifiers_tokens (fun us hus hlt => ?_) (hallowed.imp_right And.left)
    exact hallows.kept us (hus.trans (rest_skipAttributes_suffix _)) (by rwa [hheading])
  · rw [hf]
    exact r.form_tokens _ _ (hallowed.imp_right And.right)

/-- The first item of a list is read after the change as before, but for the names. -/
theorem renames_first (hseparates : r.Separates named) (hbegins : c.Begins levels x)
    (hallows : r.Allows named (c.first levels)) (hcalls : r.Calls named c owner)
    (hbody : ∀ l d, levels = l + 1 → (c.first levels).contents? = some d → (d.read l).found.problems = #[] →
      ∀ owner', r.Calls named d owner' → r.RenamesBody (d.read l) ((d.respelled r owner').read l) (nameSpots l d)) :
    ∃ x', item (below levels) c.scope owner (r.tokens c.tokens) = .done x' (r.tokens (c.first levels).rest) ∧
      r.Renames x x' ((c.first levels).names levels) := by
  cases hbegins.readsFirst with
  | directive hd hs hrest =>
    refine ⟨{}, ?_, ?_⟩
    · rw [item_directive_tokens hbegins hallows hd hs, hrest]
    · rw [Site.names, Site.form?_eq_none (.inl hd)]
      exact .empty
  | attributes hd ha hb hrest =>
    have hattributes := r.carries_skipAttributes c.tokens () ha
    refine ⟨{}, ?_, ?_⟩
    · rw [item, if_neg (not_directive_tokens hd), hattributes, hrest]
      simp only [Step.andThen, Step.done, atBodyEnd_tokens, hb, if_true]
    · rw [Site.names, Site.form?_eq_none (.inr hb)]
      exact .empty
  | @declaration x f hd ha hb hf hread =>
    have hattributes := r.carries_skipAttributes c.tokens () ha
    have hform : (c.first levels).form? = some f := (Site.form?_eq hd hb).trans (congrArg some hf.symm)
    obtain ⟨hmods, hform'⟩ := heading_tokens hallows hd hform hf
    have hspots : (c.first levels).spots = f.spots := by rw [Site.spots, hform]; rfl
    have hnamed (us : List Token) (hus : us ∈ f.spots) : named us := hallows.named us (hspots ▸ hus)
    -- The type that a constructor belongs to is called by a name, too.
    have howner (us vs : List Token) (hmember : f = .member none us) (hspot : Head.spot {} none us = some vs) :
        wordAt vs = c.owner ↔ r.word vs = owner := by
      rw [hf] at hmember
      obtain ⟨v, hv, howner, howner'⟩ := hcalls (form_eq_member_none hmember).1
      rw [howner, howner']
      refine hseparates vs v (hnamed vs ?_) hv
      rw [hf, hmember]
      exact Option.mem_toList.mpr hspot
    obtain ⟨x', hx', hrenames⟩ := r.renames_form hread hbegins.problems_eq howner
      fun l d hl hd hproblems owner' hcall => by
        refine hbody l d hl (by rw [Site.contents?, hform]; exact hd) hproblems owner' fun hscope => ?_
        obtain ⟨us, hus, hcalled⟩ := hcall hscope
        exact ⟨us, hnamed us hus, hcalled⟩
    refine ⟨x', ?_, ?_⟩
    · rw [item, if_neg (not_directive_tokens hd), hattributes]
      simp only [Step.andThen, Step.done, atBodyEnd_tokens, hb, Bool.false_eq_true, if_false, hmods,
        declaration_eq_form, hform', front_tokens, span_token]
      exact hx'
    · rw [Site.names, hform]
      exact hrenames

/-- What is read without a fault is read after the change as before, but for the names. -/
theorem renames_read (hseparates : r.Separates named) (h : (c.read levels).found.problems = #[])
    (hallows : ∀ s ∈ sites levels c, r.Allows named s) (hcalls : r.Calls named c owner) :
    r.RenamesBody (c.read levels) ((c.respelled r owner).read levels) (nameSpots levels c) := by
  refine Items.accepted_induction (motive := fun levels c => (∀ s ∈ sites levels c, r.Allows named s) →
    ∀ owner, r.Calls named c owner → r.RenamesBody (c.read levels) ((c.respelled r owner).read levels)
      (nameSpots levels c)) ?_ ?_ h hallows owner hcalls
  · intro levels c hb hbraced _ owner _
    have hread : c.read levels = ⟨{}, c.tokens⟩ := readFrom_atBodyEnd hb hbraced
    have hread' : (c.respelled r owner).read levels = ⟨{}, r.tokens c.tokens⟩ :=
      readFrom_atBodyEnd ((r.atBodyEnd_tokens c.tokens).trans hb) fun hfalse =>
        (r.atEnd_tokens c.tokens).trans (hbraced hfalse)
    rw [hread, hread', nameSpots, Items.sites_eq_nil levels hb]
    exact ⟨.empty, rfl⟩
  · intro levels c x hbegins hmore ih ihbody hallows owner hcalls
    have hsites := hbegins.sites_eq
    have hfirst : c.first levels ∈ sites levels c := by
      rw [hsites]
      exact List.mem_cons_self
    have hbehind (s : Site) (hs : s ∈ sites levels (c.from (c.first levels).rest)) : s ∈ sites levels c := by
      rw [hsites]
      exact List.mem_cons_of_mem _ (List.mem_append_right _ hs)
    have hinside (l : Nat) (d : Items) (hl : levels = l + 1) (hd : (c.first levels).contents? = some d) (s : Site)
        (hs : s ∈ sites l d) : s ∈ sites levels c := by
      subst hl
      rw [hsites]
      refine List.mem_cons_of_mem _ (List.mem_append_left _ ?_)
      rw [Site.inside, hd]
      exact hs
    obtain ⟨x', hitem, hrenames⟩ := renames_first hseparates hbegins (hallows _ hfirst) hcalls
      fun l d hl hd hproblems => ihbody l d hl hd hproblems fun s hs => hallows s (hinside l d hl hd s hs)
    have hbegins' : (c.respelled r owner).Begins levels x' :=
      ⟨fun hb => hbegins.not_atBodyEnd ((r.atBodyEnd_tokens c.tokens).symm.trans hb), congrArg Step.result hitem,
        hrenames.problems_eq⟩
    have hrest : ((c.respelled r owner).first levels).rest = r.tokens (c.first levels).rest := congrArg Step.rest hitem
    obtain ⟨hfound, hleft⟩ := ih (fun s hs => hallows s (hbehind s hs)) owner hcalls
    rw [hbegins.read_eq, hbegins'.read_eq, hbegins.nameSpots_eq, hrest]
    exact ⟨hrenames.append hfound, hleft⟩

end Respelling

end TestScaffold
