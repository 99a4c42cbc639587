import Mathlib.Data.List.Forall2
import TestScaffold.Proofs.Reading.Passing

/-!
# What is reported of broken declarations

Recovery leads exactly behind a broken declaration, so each of them is reported once and the declarations around it are
read as if it were not there. This holds of types without a name and of statements that stand where declarations should,
in any number and any order, at the top of a text and in the bodies of namespaces.

Results:
* `Reader.WellFormed`, `Reader.passes_of_wellFormed`: what is read with nothing behind it is passed without a report,
  whatever stands around it.
* `Reader.wellFormed_of_item`: what is written as a namespace or a type with its body is well-formed.
* `Written.Broken`, `Reader.exists_passes_broken`: a broken declaration is passed with one report of one of its tokens.
* `Written.Listing`, `Reader.exists_passes_listing`: so is every row of declarations, with one report for each broken
  one.
* `broken_declarations_reported_once`: what is reported of texts made of such rows.
-/

namespace TestScaffold

open Token (front second atEnd atMark atKeyword atIdentifier atBodyEnd)
open Token (Closed Follows Starts)
open Nesting (Nested Row isFree endsItem)

/-! ## The body of a namespace and the top of a text -/

/-- Reading goes on likewise where this makes no difference to what can be read. -/
theorem Step.andThen_congr {α β : Type} {s : Step α} {f g : α → List Token → Step β} {b : β}
    (h : (s.andThen f).result = .ok b) (hfg : ∀ a us, (f a us).result = .ok b → g a us = f a us) :
    s.andThen g = s.andThen f := by
  obtain ⟨a, ha, he⟩ := Step.andThen_eq_ok h
  rw [he] at h
  rw [he, ← hfg a s.rest h]
  unfold Step.andThen
  rw [ha]

namespace Reader

variable {inner : Option Reader} {scope : Scope} {levels : Nat} {ts : List Token} {x : Found}

/-- Where a semicolon may not end the name of a namespace, what is read is read alike where it may. -/
theorem namespaceEnd_text {name : String} {start : Span}
    (h : (namespaceEnd inner .namespaceBody name start ts).result = .ok x) :
    namespaceEnd inner .text name start ts = namespaceEnd inner .namespaceBody name start ts := by
  by_cases hm : atMark .semicolon ts = true
  · simp [namespaceEnd, hm, Step.fail] at h
  · simp [namespaceEnd, hm]

theorem declaration_text {owner : String} {mods : List Keyword} {start : Span}
    (h : (declaration inner .namespaceBody owner mods start ts).result = .ok x) :
    declaration inner .text owner mods start ts = declaration inner .namespaceBody owner mods start ts := by
  unfold declaration at h ⊢
  cases hk : (front ts).kind.keyword?.bind typeKind? with
  | some kind => rfl
  | none =>
    simp only [hk] at h ⊢
    by_cases hr : atRecord ts = true
    · simp only [hr, if_true]
    · by_cases hn : atKeyword .namespaceKw ts = true ∧ mods = []
      · simp only [hr, hn.1, hn.2] at h ⊢
        exact Step.andThen_congr h fun name us hend => namespaceEnd_text hend
      · simp [hr, hn]

/-- What is read in the body of a namespace is read alike at the top of a text. -/
theorem item_text {owner : String} (h : (item inner .namespaceBody owner ts).result = .ok x) :
    item inner .text owner ts = item inner .namespaceBody owner ts := by
  rw [item_eq] at h
  rw [item_eq, item_eq]
  by_cases hd : atDirective ts = true
  · simp [hd]
  · simp only [hd, Bool.and_false, Bool.false_eq_true, if_false] at h ⊢
    refine Step.andThen_congr h fun _ us hus => ?_
    unfold behindAttributes at hus ⊢
    split
    · rfl
    · next hb =>
      rw [if_neg hb] at hus
      exact declaration_text hus

/-! ## What is read with nothing behind it -/

/-- Tokens are well-formed, with bodies that nest at most `levels` deep, if they end as a declaration does and, in the
body of a namespace, are read in full and without a fault where nothing stands behind them. -/
structure WellFormed (levels : Nat) (ts : List Token) : Prop where
  closed : Closed ts
  read : ∃ x : Found, x.problems = #[] ∧
    item (below levels) .namespaceBody "" (ts ++ [Token.final]) = .done x [Token.final]

/-- Where a list ends nothing is read. -/
theorem item_atBodyEnd (inner : Option Reader) (scope : Scope) (owner : String) (hend : atBodyEnd ts = true) :
    item inner scope owner ts = .done {} ts := by
  have hfront : (front ts).kind = .endOfText ∨ (front ts).kind = .punctuation .rightBrace := by
    simpa [atBodyEnd, atEnd, atMark] using hend
  have hattributes : skipAttributes ts = .done () ts := by
    rw [skipAttributes, if_neg]
    rcases hfront with hk | hk <;> simp [atMark, hk]
  have hdirective : atDirective ts = false := by
    rcases hfront with hk | hk <;> simp [atDirective, atKeyword, atIdentifier, hk]
  simp [item_eq, hdirective, hattributes, behindAttributes, hend, Step.andThen, Step.done]

/-- What is read in full begins as a declaration does. -/
theorem starts_of_item {owner : String} (hclosed : Closed ts) (hx : x.problems = #[])
    (h : item (below levels) scope owner (ts ++ [Token.final]) = .done x [Token.final]) : Starts ts := by
  have hne := hclosed.ne_nil
  have halike : Token.Alike ts (ts ++ [Token.final]) := by
    simpa using Token.alike_append hne [] [Token.final]
  have hend : ¬ atBodyEnd (ts ++ [Token.final]) = true := by
    intro hend
    rw [item_atBodyEnd _ _ _ hend] at h
    have hrest : ts ++ [Token.final] = [Token.final] := congrArg Step.rest h
    simp [hne] at hrest
  have hread : readFrom (below levels) scope true owner {} (ts ++ [Token.final]) =
      ⟨Found.append {} x, [Token.final]⟩ := by
    rw [Written.readFrom_of_item hend h, readFrom_atBodyEnd rfl (by simp)]
  have hproblems : (readFrom (below levels) scope true owner {} (ts ++ [Token.final])).found.problems = #[] := by
    rw [hread]
    simp [Found.append, hx]
  refine ⟨?_, halike.follows (follows_of_readFrom hproblems)⟩
  rw [halike.atBodyEnd]
  simpa using hend

/-- In a body, what is read with nothing behind it is read likewise in front of what may follow, and with more levels
below it. -/
theorem item_resumes {owner : String} (hscope : scope ≠ .text) (hn : levels ≤ maxNesting) (hclosed : Closed ts)
    (hx : x.problems = #[]) (h : item (below levels) scope owner (ts ++ [Token.final]) = .done x [Token.final])
    {m : Nat} (hm : levels ≤ m) {rest : List Token} (hrest : Follows rest) :
    item (below m) scope owner (ts ++ rest) = .done x rest := by
  have hlays (l : Nat) (hl : l < levels) : LaysOut l := laysOut_ofLevels l (Nat.le_trans (Nat.le_of_lt hl) hn)
  have hend : ¬ atBodyEnd (ts ++ [Token.final]) = true := by simp [((starts_of_item hclosed hx h).append _).1]
  have hok : (item (below levels) scope owner (ts ++ [Token.final])).result = .ok x := by rw [h]; rfl
  obtain ⟨used, hused, htakes⟩ := takesItem_item hn hlays hend hok hx
  rw [h] at hused
  obtain rfl : ts = used := List.append_cancel_right hused
  have hendless : ¬ AtEndless scope (skipAttributes (ts ++ [Token.final])).rest := by simp [AtEndless, hscope]
  have hmay : MayEnd ts rest := by
    right
    rcases hclosed with hlast | hlast <;> simp [hlast]
  exact (htakes.resumes hendless rest hrest hmay m hm).again rest (.refl rest)

theorem WellFormed.starts (h : WellFormed levels ts) : Starts ts := by
  obtain ⟨x, hx, hitem⟩ := h.read
  exact starts_of_item h.closed hx hitem

/-- With more levels below it, what is well-formed stays so. -/
theorem WellFormed.mono (hn : levels ≤ maxNesting) (h : WellFormed levels ts) {m : Nat} (hm : levels ≤ m) :
    WellFormed m ts := by
  obtain ⟨x, hx, hitem⟩ := h.read
  exact ⟨h.closed, x, hx, item_resumes (by simp) hn h.closed hx hitem hm ⟨rfl, rfl⟩⟩

/-- Outside of types, what is well-formed is passed without a report. -/
theorem passes_of_wellFormed (hscope : scope ≠ .typeBody) (hn : levels ≤ maxNesting) (h : WellFormed levels ts) :
    Passes levels scope ts [] := by
  obtain ⟨x, hx, hitem⟩ := h.read
  refine passes_of_item h.starts fun owner rest hrest => ⟨x, Array.toList_eq_nil_iff.mpr hx, ?_⟩
  have hread := item_resumes (by simp) hn h.closed hx hitem (Nat.le_refl levels) hrest
  have hok : (item (below levels) .namespaceBody "" (ts ++ rest)).result = .ok x := by rw [hread]; rfl
  rw [item_owner hscope owner ""]
  cases scope with
  | text => rw [item_text hok, hread]
  | namespaceBody => exact hread
  | typeBody => exact absurd rfl hscope

end Reader

namespace Written

/-- A written item ends with the closing brace of its body. -/
theorem Item.exists_tokens_eq (x : Item) : ∃ ks, x.tokens = ks ++ [.punctuation .rightBrace] := by
  cases x with
  | type mods kind hasBody name members =>
    refine ⟨modifierTokens mods ++ .keyword (typeKeyword kind) :: .identifier name ::
      .punctuation .leftBrace :: memberTokens name members, ?_⟩
    simp [tokens, typeTokens, inBraces]
  | namespaceBlock name more items =>
    refine ⟨.keyword .namespaceKw :: .identifier name ::
      (dottedTokens more ++ .punctuation .leftBrace :: itemTokens items), ?_⟩
    simp [tokens, inBraces]

theorem Item.closed {x : Item} {ts : List Token} (hts : ts.map Token.kind = x.tokens) : Closed ts := by
  obtain ⟨ks, hks⟩ := x.exists_tokens_eq
  obtain ⟨us, vs, rfl, -, hvs⟩ := List.map_eq_append_iff.mp (hts.trans hks)
  obtain ⟨c, vs, rfl, hc, hnil⟩ := List.map_eq_cons_iff.mp hvs
  obtain rfl := List.map_eq_nil_iff.mp hnil
  right
  simpa [Token.back] using hc

end Written

namespace Reader

variable {scope : Scope} {levels : Nat} {ts : List Token}

/-- What is read in full without its places is read in full with them. -/
theorem exists_item_of_bare {owner : String} {ds : List Declaration}
    (h : item (below levels) scope owner (Written.bare (ts.map Token.kind) ++ [Token.final]) =
      .done (Written.foundAll ds) [Token.final]) : ∃ x : Found, x.problems = #[] ∧
    item (below levels) scope owner (ts ++ [Token.final]) = .done x [Token.final] := by
  have hshifts : ∀ r ∈ below levels, r.Shifts .collapse := by
    cases levels with
    | zero => simp [below]
    | succ levels => simpa [below] using ofLevels_moved .collapse levels
  have hplaces : (ts ++ [Token.final]).map (Token.moved .collapse) =
      Written.bare (ts.map Token.kind) ++ [Token.final] := by
    rw [List.map_append, ← Written.map_unplaced_eq_bare]
    rfl
  -- As much is left with the places as without them, so nothing but the end of the text is.
  have hread := item_moved .collapse hshifts scope owner (ts ++ [Token.final])
  rw [hplaces, h] at hread
  have hrest := congrArg Step.rest hread
  have hsuffix := rest_item_suffix (below levels) scope owner (ts ++ [Token.final])
  generalize item (below levels) scope owner (ts ++ [Token.final]) = s at hread hrest hsuffix ⊢
  obtain ⟨result, rest⟩ := s
  cases result with
  | error d => cases congrArg Step.result hread
  | ok x =>
    have hx : Written.foundAll ds = x.moved .collapse := Except.ok.inj (congrArg Step.result hread)
    have hproblems : #[] = x.problems.map (Diagnostic.moved .collapse) := congrArg Found.problems hx
    have hlength : rest.length = 1 := by simpa using (congrArg List.length hrest).symm
    have hfinal : rest <:+ [Token.final] :=
      List.suffix_of_suffix_length_le hsuffix (List.suffix_append ts _) (Nat.le_of_eq hlength)
    exact ⟨x, by simpa using hproblems.symm, by rw [hfinal.eq_of_length hlength]; rfl⟩

/-- The tokens of a written item are well-formed, wherever they stand. -/
theorem wellFormed_of_item {written : Written.Item} (hd : written.depth ≤ levels)
    (hts : ts.map Token.kind = written.tokens) : WellFormed levels ts := by
  have hscope : Scope.namespaceBody ≠ .typeBody := by simp
  have hfollows : Follows [Token.final] := ⟨rfl, rfl⟩
  have hread := Written.item_item hscope "" written hd hfollows
  rw [← hts] at hread
  exact ⟨Written.Item.closed hts, exists_item_of_bare hread⟩

end Reader

/-! ## Broken declarations -/

namespace Written

/-- Declarations that are broken: types without a name, where a body in braces stands in its place, and statements. The
word `ref` may stand among the modifiers of a type. -/
inductive Broken : List TokenKind → Prop
  | nameless {words content : List TokenKind} (kind : TypeKind)
      (modifiers : ∀ k ∈ words, (∃ m, k = .keyword m ∧ m.isModifier = true) ∨ k = .identifier "ref")
      (nested : Nested false .rightBrace content) : Broken (words ++ .keyword (typeKeyword kind) :: inBraces content)
  | statement {name : String} {content : List TokenKind} (notGlobal : name ≠ "global") (notRef : name ≠ "ref")
      (nested : Nested false .rightBrace content)
      (plain : ∀ p ∈ [Punctuation.leftBrace, .rightBrace, .semicolon], .punctuation p ∉ content) :
      Broken (.identifier name :: (content ++ [.punctuation .semicolon]))

end Written

open Written (Broken typeKeyword)

namespace Reader

/-- Words in front of a type are passed as modifiers up to a `ref` that is not followed by `struct`. -/
theorem exists_modifiers_words {words : List Token} (hw : ∀ t ∈ words, IsModifier t) {t : Token} {k : Keyword}
    (ht : t.kind = .keyword k) (hk : k.isModifier = false) : ∃ left, left <:+ words ∧
      (left = [] ∨ ∃ r more, left = r :: more ∧ r.kind = .identifier "ref") ∧
        ∀ rest, (modifiers (words ++ t :: rest)).2 = left ++ t :: rest := by
  induction words with
  | nil => exact ⟨[], List.suffix_refl [], .inl rfl, fun rest => by rw [List.nil_append, modifiers, ht]; simp [hk]⟩
  | cons w words ih =>
    rw [List.forall_mem_cons] at hw
    obtain ⟨left, hsuffix, hleft, hmodifiers⟩ := ih hw.2
    have hstep := hsuffix.trans (List.suffix_cons w words)
    rcases hw.1 with ⟨m, hm, hmod⟩ | href
    · refine ⟨left, hstep, hleft, fun rest => ?_⟩
      rw [List.cons_append, modifiers, hm, ← hmodifiers rest]
      simp [hmod]
    · have hahead (rest : List Token) :
          atKeyword .structKw (words ++ t :: rest) = atKeyword .structKw (words ++ [t]) := by
        have hsplit : words ++ t :: rest = words ++ [t] ++ rest := by simp
        rw [hsplit, atKeyword, Token.front_append (by simp)]
        rfl
      by_cases hstruct : atKeyword .structKw (words ++ [t]) = true
      · refine ⟨left, hstep, hleft, fun rest => ?_⟩
        rw [List.cons_append, modifiers, href, ← hmodifiers rest]
        simp [hahead, hstruct]
      · refine ⟨w :: words, List.suffix_refl _, .inr ⟨w, words, rfl, href⟩, fun rest => ?_⟩
        rw [List.cons_append, modifiers, href]
        simp [hahead, hstruct]

/-- Outside of types, a type without a name fails at a word in front of its body or at the body. -/
theorem exists_item_nameless (hscope : scope ≠ .typeBody) {words : List Token} (hw : ∀ t ∈ words, IsModifier t)
    {t o : Token} {kind : TypeKind} (ht : t.kind = .keyword (typeKeyword kind))
    (ho : o.kind = .punctuation .leftBrace) : ∃ what us, us <:+ words ++ [t] ∧ ∀ inner owner rest,
      item inner scope owner (words ++ t :: o :: rest) = .failExpecting what (us ++ o :: rest) := by
  have hb : BeginsDeclaration t.kind := ht ▸ beginsDeclaration_typeKeyword kind
  obtain ⟨left, hsuffix, hleft, hmods⟩ := exists_modifiers_words hw ht (isModifier_typeKeyword kind)
  have hitem (inner : Option Reader) (owner : String) (rest : List Token) :
      item inner scope owner (words ++ t :: o :: rest) =
        declaration inner scope owner (modifiers (words ++ t :: o :: rest)).1 (front (words ++ t :: o :: rest)).span
          (left ++ t :: o :: rest) := by
    rw [← hmods]
    exact @item_of_beginsDeclaration inner scope owner [] words (t :: o :: rest) .nil hw hb
  rcases hleft with rfl | ⟨r, more, rfl, hr⟩
  · by_cases hrecord : kind = .recordType
    · subst hrecord
      refine ⟨.declaration, [t], List.suffix_append words [t], fun inner owner rest => ?_⟩
      simp [hitem, declaration, front, second, ht, ho, typeKeyword, typeKind?, TokenKind.keyword?, TokenKind.name?,
        atRecord, atRecordFlavour, atKeyword, hscope]
    · refine ⟨.typeName kind, [], List.nil_suffix, fun inner owner rest => ?_⟩
      rw [hitem]
      cases kind with
      | recordType => exact absurd rfl hrecord
      | _ => simp [declaration, front, ht, ho, typeKeyword, typeKind?, TokenKind.keyword?, typeDeclaration, Step.name,
          TokenKind.name?, Step.andThen, Step.failExpecting, Step.fail]
  · refine ⟨.declaration, r :: more ++ [t], ?_, fun inner owner rest => ?_⟩
    · obtain ⟨passed, rfl⟩ := hsuffix
      exact ⟨passed, by simp⟩
    · simp [hitem, declaration, front, hr, TokenKind.keyword?, atRecord, atKeyword, hscope]

/-- What fails at one of its tokens, and is left behind by recovery, is passed with one report of that token. -/
theorem exists_passes_of_failExpecting {us : List Token} (hstarts : Starts ts) (hsuffix : us <:+ ts) (hne : us ≠ [])
    {what : Expectation}
    (hitem : ∀ inner owner rest, item inner scope owner (ts ++ rest) = .failExpecting what (us ++ rest))
    (hrecover : ∀ rest, Nesting.recover (us ++ rest) = rest) :
    ∃ d, (∃ t ∈ ts, d.span = t.span) ∧ Passes levels scope ts [d] := by
  have hmem : front us ∈ ts := hsuffix.subset (Token.front_mem hne)
  refine ⟨(Fault.expected what (front us).kind).report (front us).span, ⟨front us, hmem, rfl⟩,
    passes_of_error hstarts fun owner rest _ => ?_⟩
  rw [hitem, Step.failExpecting, Token.front_append hne]
  exact ⟨rfl, hrecover rest⟩

/-- Outside of types, a type without a name is passed with one report of one of its tokens. -/
theorem exists_passes_nameless (hscope : scope ≠ .typeBody) {words content : List Token}
    (hw : ∀ t ∈ words, IsModifier t) {t o c : Token} {kind : TypeKind} (ht : t.kind = .keyword (typeKeyword kind))
    (ho : o.kind = .punctuation .leftBrace) (hc : c.kind = .punctuation .rightBrace)
    (hcontent : Nested false .rightBrace (content.map Token.kind)) :
    ∃ d, (∃ u ∈ words ++ t :: o :: (content ++ [c]), d.span = u.span) ∧
      Passes levels scope (words ++ t :: o :: (content ++ [c])) [d] := by
  have hb : BeginsDeclaration t.kind := ht ▸ beginsDeclaration_typeKeyword kind
  obtain ⟨what, us, hsuffix, hitem⟩ := exists_item_nameless hscope hw ht ho
  have hstarts : Starts (words ++ t :: o :: (content ++ [c])) :=
    @starts_append [] words (t :: o :: (content ++ [c])) .nil hw hb
  have hrow : Row endsItem false (us.map Token.kind) := by
    refine Nesting.row_of_forall fun k hk => ?_
    obtain ⟨u, hu, rfl⟩ := List.mem_map.mp hk
    rcases List.mem_append.mp (hsuffix.subset hu) with hu | hu
    · exact (hw u hu).imp (fun ⟨m, hm, _⟩ => ⟨m, hm⟩) fun href => ⟨_, href⟩
    · obtain rfl := List.mem_singleton.mp hu
      exact .inl ⟨_, ht⟩
  have hall : us ++ o :: (content ++ [c]) <:+ words ++ t :: o :: (content ++ [c]) := by
    obtain ⟨passed, hpassed⟩ := hsuffix
    refine ⟨passed, ?_⟩
    rw [← List.append_assoc, hpassed, List.append_assoc, List.singleton_append]
  have hfails (inner : Option Reader) (owner : String) (rest : List Token) :
      item inner scope owner (words ++ t :: o :: (content ++ [c]) ++ rest) =
        .failExpecting what (us ++ o :: (content ++ [c]) ++ rest) := by
    simpa using hitem inner owner (content ++ c :: rest)
  refine exists_passes_of_failExpecting hstarts hall (by simp) hfails fun rest => ?_
  simpa using Nesting.recover_group hrow ho hc hcontent rest

/-- Outside of types, a statement is passed with one report of one of its tokens. -/
theorem exists_passes_statement (hscope : scope ≠ .typeBody) {t s : Token} {content : List Token} {name : String}
    (ht : t.kind = .identifier name) (notGlobal : name ≠ "global") (notRef : name ≠ "ref")
    (hs : s.kind = .punctuation .semicolon) (hcontent : Nested false .rightBrace (content.map Token.kind))
    (hplain : ∀ p ∈ [Punctuation.leftBrace, .rightBrace, .semicolon], .punctuation p ∉ content.map Token.kind) :
    ∃ d, (∃ u ∈ t :: (content ++ [s]), d.span = u.span) ∧ Passes levels scope (t :: (content ++ [s])) [d] := by
  have hfront (us : List Token) : (front (t :: us)).kind = .identifier name := ht
  have hitem (inner : Option Reader) (owner : String) (us : List Token) :
      item inner scope owner (t :: us) = .failExpecting .declaration (t :: us) := by
    have hattributes : skipAttributes (t :: us) = .done () (t :: us) := by
      rw [skipAttributes, if_neg]
      simp [atMark, hfront]
    have hmods : modifiers (t :: us) = ([], t :: us) := modifiers_eq_nil (by simp [hfront]) (by simp [hfront, notRef])
    simp [item_eq, atDirective, atKeyword, atIdentifier, hfront, notGlobal, hattributes, behindAttributes, atBodyEnd,
      atEnd, atMark, declaration, hmods, TokenKind.keyword?, atRecord, Step.andThen, Step.done, hscope]
  have hmark : ∀ k ∈ content.map Token.kind, k.punctuation?.any endsItem = false := by
    intro k hk
    cases k with
    | punctuation p =>
      rw [Bool.eq_false_iff]
      intro hp
      have hmem : p ∈ [Punctuation.leftBrace, .rightBrace, .semicolon] := by
        cases p <;> simp_all [TokenKind.punctuation?, endsItem]
      exact hplain p hmem hk
    | _ => rfl
  have hrow : Row endsItem false ((t :: content).map Token.kind) := by
    rw [List.map_cons, ht]
    exact .free rfl rfl (Nesting.row_of_nested hcontent rfl hmark (hplain .rightBrace (by simp)))
  have hstarts : Starts (t :: (content ++ [s])) := Token.starts_of_front (hfront _) (by simp) (by simp)
  refine exists_passes_of_failExpecting hstarts (List.suffix_refl _) (by simp)
    (fun inner owner rest => hitem inner owner _) fun rest => ?_
  simpa using Nesting.recover_semicolon hrow hs rest

/-- Outside of types, a broken declaration is passed with one report of one of its tokens. -/
theorem exists_passes_broken (hscope : scope ≠ .typeBody) (h : Broken (ts.map Token.kind)) :
    ∃ d, (∃ t ∈ ts, d.span = t.span) ∧ Passes levels scope ts [d] := by
  generalize hks : ts.map Token.kind = ks at h
  cases h with
  | nameless kind hmods nested =>
    obtain ⟨words, own, rfl, rfl, hown⟩ := List.map_eq_append_iff.mp hks
    obtain ⟨t, own, rfl, ht, hown⟩ := List.map_eq_cons_iff.mp hown
    obtain ⟨o, own, rfl, ho, hown⟩ := List.map_eq_cons_iff.mp hown
    obtain ⟨content, own, rfl, rfl, hclosing⟩ := List.map_eq_append_iff.mp hown
    obtain ⟨c, own, rfl, hc, hnil⟩ := List.map_eq_cons_iff.mp hclosing
    obtain rfl := List.map_eq_nil_iff.mp hnil
    have hw : ∀ t ∈ words, IsModifier t := fun t ht => hmods t.kind (List.mem_map_of_mem ht)
    exact exists_passes_nameless hscope hw ht ho hc nested
  | statement notGlobal notRef nested hplain =>
    obtain ⟨t, own, rfl, ht, hown⟩ := List.map_eq_cons_iff.mp hks
    obtain ⟨content, own, rfl, rfl, hending⟩ := List.map_eq_append_iff.mp hown
    obtain ⟨s, own, rfl, hs, hnil⟩ := List.map_eq_cons_iff.mp hending
    obtain rfl := List.map_eq_nil_iff.mp hnil
    exact exists_passes_statement hscope ht notGlobal notRef hs nested hplain

end Reader

/-! ## Rows of declarations -/

open Reader (WellFormed Passes)
open Written (NamespaceHeader)

namespace Written

/-- Declarations in a row, some of them broken, with bodies that nest at most `levels` deep. The row may hold namespaces
whose bodies are such rows again. The broken ones are listed in their order. -/
inductive Listing : (levels : Nat) → (ts : List Token) → (broken : List (List Token)) → Prop
  | nil {levels : Nat} : Listing levels [] []
  | wellFormed {levels : Nat} {item ts : List Token} {broken : List (List Token)} (h : WellFormed levels item)
      (rest : Listing levels ts broken) : Listing levels (item ++ ts) broken
  | broken {levels : Nat} {item ts : List Token} {broken : List (List Token)} (h : Broken (item.map Token.kind))
      (rest : Listing levels ts broken) : Listing levels (item ++ ts) (item :: broken)
  | namespaceBlock {levels : Nat} {header body ts : List Token} {o c : Token} {inside broken : List (List Token)}
      (hheader : NamespaceHeader (header.map Token.kind)) (ho : o.kind = .punctuation .leftBrace)
      (hc : c.kind = .punctuation .rightBrace) (inner : Listing levels body inside)
      (rest : Listing (levels + 1) ts broken) :
      Listing (levels + 1) (header ++ o :: (body ++ [c]) ++ ts) (inside ++ broken)

/-- The declarations of a text. The last one may be a namespace that goes on to the end of the text. -/
inductive Sheet : (ts : List Token) → (broken : List (List Token)) → Prop
  | listing {ts : List Token} {broken : List (List Token)} (h : Listing maxNesting ts broken) : Sheet ts broken
  | file {before header body : List Token} {semicolon : Token} {broken inside : List (List Token)}
      (h : Listing maxNesting before broken) (hheader : NamespaceHeader (header.map Token.kind))
      (hs : semicolon.kind = .punctuation .semicolon) (inner : Listing (maxNesting - 1) body inside) :
      Sheet (before ++ (header ++ semicolon :: body)) (broken ++ inside)

end Written

open Written (Listing Sheet)

/-- The reports `ds` are one for each of the pieces `items`, in their order, of a token in it. -/
def ReportsEach (ds : List Diagnostic) (items : List (List Token)) : Prop :=
  List.Forall₂ (fun d item => ∃ t ∈ item, d.span = t.span) ds items

/-- Outside of types, a row of declarations is passed with one report for each broken one. -/
theorem Reader.exists_passes_listing {levels : Nat} {scope : Scope} {ts : List Token} {broken : List (List Token)}
    (hscope : scope ≠ .typeBody) (hn : levels ≤ maxNesting) (h : Listing levels ts broken) :
    ∃ ds, ReportsEach ds broken ∧ Passes levels scope ts ds := by
  induction h generalizing scope with
  | nil => exact ⟨[], List.Forall₂.nil, .nil⟩
  | wellFormed h rest ih =>
    obtain ⟨ds, hds, hpasses⟩ := ih hscope hn
    exact ⟨ds, hds, (passes_of_wellFormed hscope hn h).append hpasses⟩
  | broken h rest ih =>
    obtain ⟨d, hd, hfirst⟩ := exists_passes_broken hscope h
    obtain ⟨ds, hds, hpasses⟩ := ih hscope hn
    exact ⟨d :: ds, List.Forall₂.cons hd hds, hfirst.append hpasses⟩
  | namespaceBlock hheader ho hc inner rest ihInner ih =>
    have hbodyScope : Scope.namespaceBody ≠ .typeBody := by simp
    obtain ⟨inside, hinside, hbody⟩ := ihInner hbodyScope (Nat.le_of_succ_le hn)
    obtain ⟨ds, hds, hpasses⟩ := ih hscope hn
    have hblock := hbody.body (readsHeader_namespace hscope hheader) ho hc
    exact ⟨inside ++ ds, List.rel_append hinside hds, hblock.append hpasses⟩

/-- Where the declarations of a text, and of the namespaces in it, are well-formed or broken, exactly one fault is
reported of each broken one, in their order and each at a token of the declaration it is about, and nothing is reported
of the others. The text is accepted if none is broken. -/
theorem broken_declarations_reported_once {ts : List Token} {broken : List (List Token)} {last : Token}
    (h : Sheet ts broken) (hlast : last.kind = .endOfText) :
    ∃ ds, ReportsEach ds broken ∧
      (broken = [] → ∃ t, DeclarationTree.ofTokens (ts ++ [last]) = .ok t) ∧
      (broken ≠ [] → DeclarationTree.ofTokens (ts ++ [last]) = .error ds) := by
  obtain ⟨ds, hds, hreports⟩ : ∃ ds, ReportsEach ds broken ∧ DeclarationTree.Reports (ts ++ [last]) ds := by
    have hscope : Scope.text ≠ .typeBody := by simp
    cases h with
    | listing h =>
      obtain ⟨ds, hds, hpasses⟩ := Reader.exists_passes_listing hscope (Nat.le_refl _) h
      exact ⟨ds, hds, reports_of_passes hpasses hlast⟩
    | file h hheader hs inner =>
      obtain ⟨ds, hds, hpasses⟩ := Reader.exists_passes_listing hscope (Nat.le_refl _) h
      have hbodyScope : Scope.namespaceBody ≠ .typeBody := by simp
      obtain ⟨es, hes, hinner⟩ := Reader.exists_passes_listing hbodyScope (Nat.sub_le _ _) inner
      refine ⟨ds ++ es, List.rel_append hds hes, ?_⟩
      simpa using reports_of_passes_file hpasses hheader hs hinner hlast
  refine ⟨ds, hds, fun hnone => hreports.accepted ?_, fun hsome => hreports.refused ?_⟩
  · subst hnone
    exact List.forall₂_nil_right_iff.mp hds
  · rintro rfl
    exact hsome (List.forall₂_nil_left_iff.mp hds)

namespace Written

/-- The tokens of `class A { }`. -/
def soundClass : List Token :=
  [⟨.keyword .classKw, ⟨0, 5⟩⟩, ⟨.identifier "A", ⟨6, 7⟩⟩, ⟨.punctuation .leftBrace, ⟨8, 9⟩⟩,
    ⟨.punctuation .rightBrace, ⟨10, 11⟩⟩]

/-- The tokens of `public struct { }`. -/
def namelessStruct : List Token :=
  [⟨.keyword .publicKw, ⟨12, 18⟩⟩, ⟨.keyword .structKw, ⟨19, 25⟩⟩, ⟨.punctuation .leftBrace, ⟨26, 27⟩⟩,
    ⟨.punctuation .rightBrace, ⟨28, 29⟩⟩]

/-- The tokens of `x(a);`. -/
def statementCall : List Token :=
  [⟨.identifier "x", ⟨44, 45⟩⟩, ⟨.punctuation .leftParen, ⟨45, 46⟩⟩, ⟨.identifier "a", ⟨46, 47⟩⟩,
    ⟨.punctuation .rightParen, ⟨47, 48⟩⟩, ⟨.punctuation .semicolon, ⟨48, 49⟩⟩]

/-- The tokens of `namespace N`. -/
def namespaceN : List Token := [⟨.keyword .namespaceKw, ⟨30, 39⟩⟩, ⟨.identifier "N", ⟨40, 41⟩⟩]

/-- The tokens of `namespace N { x(a); }`. -/
def namespaceAround : List Token :=
  namespaceN ++ ⟨.punctuation .leftBrace, ⟨42, 43⟩⟩ :: (statementCall ++ [⟨.punctuation .rightBrace, ⟨50, 51⟩⟩])

theorem sheet_namespaceAround :
    Sheet (soundClass ++ (namelessStruct ++ namespaceAround)) [namelessStruct, statementCall] := by
  have hsound : WellFormed maxNesting soundClass :=
    @Reader.wellFormed_of_item _ _ (.type [] .classType (by decide) "A" []) (by decide) rfl
  have hmodifier : Keyword.isModifier .publicKw = true := rfl
  have hnameless : Broken (namelessStruct.map Token.kind) :=
    @Broken.nameless [.keyword .publicKw] [] .structType (by simp [hmodifier]) .nil
  have hparentheses : Nested false .rightBrace [.punctuation .leftParen, .identifier "a", .punctuation .rightParen] :=
    .group rfl (.free rfl .nil) .nil
  have hstatement : Broken (statementCall.map Token.kind) :=
    .statement (by decide) (by decide) hparentheses (by decide)
  have hheader : NamespaceHeader (namespaceN.map Token.kind) := @NamespaceHeader.mk [] [] _ .nil rfl (by simp)
  have hbody : Listing 254 statementCall [statementCall] := by simpa using Listing.broken hstatement .nil
  have hnamespace : Listing maxNesting namespaceAround [statementCall] := by
    rw [← List.append_nil namespaceAround, ← List.append_nil [statementCall]]
    exact .namespaceBlock hheader rfl rfl hbody .nil
  exact .listing (.wellFormed hsound (.broken hnameless hnamespace))

end Written

theorem broken_declarations_reported_once_namespaceAround : ∃ ds,
    ReportsEach ds [Written.namelessStruct, Written.statementCall] ∧
      DeclarationTree.ofTokens
        (Written.soundClass ++ (Written.namelessStruct ++ Written.namespaceAround) ++ [Token.final]) = .error ds := by
  have hlast : Token.final.kind = .endOfText := rfl
  obtain ⟨ds, hds, -, hrefused⟩ := broken_declarations_reported_once Written.sheet_namespaceAround hlast
  exact ⟨ds, hds, hrefused (by simp)⟩

end TestScaffold
