import TestScaffold.Proofs.Declaration.Kinds
import TestScaffold.Proofs.Reading.Sites

/-!
# What stands around a list

A list of declarations is read among other tokens: behind items of the list that goes on with it, or in the body of an
item. These are read as before when other tokens are put in its place, as long as no item in front of them goes on with
them. So what is read of all depends on what is read of the list.

Results:
* `Reader.Wraps`: what reads a list in a body, and makes a declaration of it.
* `Reader.Items.Begins.exists_wraps`, `Reader.Items.Begins.exists_resumes`: the first item around its body, and in front
  of the items behind it.
* `Reader.Surrounds`: what stands around a list that is read in another one.
* `Reader.Items.exists_surrounds`: each item of a list is the first one of a list that others surround.
-/

namespace TestScaffold

open Token (front second back atEnd atMark atKeyword atBodyEnd wordAt)
open Token (Alike Follows Closed)
open Nesting (skipUntil)
open Written (endsHeader)

/-! ## The end of a text -/

namespace Token

/-- Two rows with the same last token in front of the end of the text, if there is one. -/
def EndsAlike (us vs : List Token) : Prop :=
  (us.takeWhile fun t => t.kind != .endOfText).getLast? = (vs.takeWhile fun t => t.kind != .endOfText).getLast?

variable {us vs : List Token}

theorem EndsAlike.cons (h : EndsAlike us vs) (t : Token) : EndsAlike (t :: us) (t :: vs) := by
  have h : _ = _ := h
  rw [EndsAlike, List.takeWhile_cons, List.takeWhile_cons]
  split
  · rw [List.getLast?_cons, List.getLast?_cons, h]
  · rfl

theorem EndsAlike.append (h : EndsAlike us vs) (ts : List Token) : EndsAlike (ts ++ us) (ts ++ vs) := by
  induction ts with
  | nil => exact h
  | cons t ts ih => exact ih.cons t

theorem EndsAlike.lastToken_cons (h : EndsAlike us vs) (t : Token) :
    Reader.lastToken (t :: us) = Reader.lastToken (t :: vs) := by
  have h : _ = _ := h.cons t
  rw [Reader.lastToken, Reader.lastToken, h]
  rfl

/-- Whether `us` may be put in the place of `vs`: it ends alike, and it begins alike or with what belongs to nothing in
front of it. -/
structure Plugs (us vs : List Token) : Prop where
  ends : EndsAlike us vs
  begins : Alike us vs ∨ Follows us

theorem Plugs.append (h : Plugs us vs) (ts : List Token) : Plugs (ts ++ us) (ts ++ vs) where
  ends := h.ends.append ts
  begins := by
    cases ts with
    | nil => exact h.begins
    | cons t ts => exact .inl rfl

end Token

open Token (EndsAlike Plugs)

namespace Reader

/-! ## Headers in front of other tokens -/

section

variable {inner : Option Reader} {scope : Scope} {kind : TypeKind} {mods : List Keyword} {start : Span}
  {ts : List Token} {x : Found}

/-- The header of a type is read in front of whatever begins like what ends it. -/
theorem exists_typeHeader (h : (typeDeclaration inner kind mods start ts).result = .ok x) : ∃ header,
    ts = header ++ (skipUntil endsHeader true ts.tail.tail).rest ∧ 2 ≤ header.length ∧
      ∀ us, Alike us (skipUntil endsHeader true ts.tail.tail).rest →
        typeDeclaration inner kind mods start (header ++ us) = typeEnd inner kind (wordAt ts.tail) mods start us := by
  obtain ⟨hname, hpassed, -⟩ := typeDeclaration_cases h
  obtain ⟨row, hrow, hreads⟩ := Nesting.reads_skipUntil hpassed
  generalize (skipUntil endsHeader true ts.tail.tail).rest = rest at hrow hreads ⊢
  match ts, hname, hrow with
  | [], hname, _ => cases hname
  | [_], hname, _ => cases hname
  | t :: u :: more, hname, hrow =>
    refine ⟨t :: u :: row, congrArg (t :: u :: ·) hrow, by simp, fun us hus => ?_⟩
    have hname : (front (t :: u :: (row ++ us)).tail).kind.name? = some (wordAt (t :: u :: more).tail) := hname
    have hagain : skipUntil endsHeader true (t :: u :: (row ++ us)).tail.tail = .done () us := hreads.again us hus
    have hpassed : (skipUntil endsHeader true (t :: u :: (row ++ us)).tail.tail).result = .ok () := by
      rw [hagain]
      rfl
    have hheader := typeDeclaration_of_header inner kind mods start hname hpassed
    rwa [hagain] at hheader

/-- So is the header of a namespace. -/
theorem exists_namespaceHeader (h : (namespaceDeclaration inner scope start ts).result = .ok x) : ∃ header name,
    ts = header ++ (qualifiedName ts.tail).rest ∧ 2 ≤ header.length ∧
      ∀ us, Alike us (qualifiedName ts.tail).rest →
        namespaceDeclaration inner scope start (header ++ us) = namespaceEnd inner scope name start us := by
  obtain ⟨name, hname, -⟩ := namespaceDeclaration_cases h
  obtain ⟨words, hwords, hne, -, hreads⟩ := reads_qualifiedName hname
  generalize (qualifiedName ts.tail).rest = rest at hwords hreads ⊢
  match ts, hwords with
  | [], hwords => exact absurd (List.append_eq_nil_iff.mp hwords.symm).1 hne
  | t :: more, hwords =>
    refine ⟨t :: words, name, congrArg (t :: ·) hwords, ?_, fun us hus => ?_⟩
    · exact Nat.succ_le_succ (List.length_pos_iff.mpr hne)
    · have hagain : qualifiedName (t :: (words ++ us)).tail = .done name us := hreads.again us hus
      rw [List.cons_append, namespaceDeclaration_eq, hagain]
      rfl

/-- What a declaration is read as is told by its first two tokens. The first of them may be passed for it. -/
theorem exists_form_drop (scope : Scope) (mods : List Keyword) (ts : List Token) : ∃ n, n ≤ 1 ∧
    ∀ us, SameHead us ts → form scope mods us = (form scope mods ts).map fun _ => us.drop n := by
  have drops (f : List Token → Form) {n : Nat} (hn : n ≤ 1) (hmap : ∀ us vs, f us = (f vs).map fun _ => us)
      (hf : ∀ us, SameHead us ts → form scope mods us = f (us.drop n)) : ∃ n, n ≤ 1 ∧
        ∀ us, SameHead us ts → form scope mods us = (form scope mods ts).map fun _ => us.drop n := by
    refine ⟨n, hn, fun us hus => ?_⟩
    rw [hf us hus, hf ts (.refl ts)]
    exact hmap _ _
  cases hk : (front ts).kind.keyword?.bind typeKind? with
  | some kind =>
    exact drops (.type kind) (Nat.zero_le 1) (fun _ _ => rfl) fun us hus => by
      simp only [form, hus.1, hk, List.drop_zero]
  | none =>
    have hform (us : List Token) (hus : SameHead us ts) : form scope mods us =
        if atRecord ts then .type .recordType (if atRecordFlavour ts then us.drop 1 else us)
        else if atKeyword .namespaceKw ts && scope != .typeBody && mods.isEmpty then .namespaceBlock us
        else if atKeyword .delegateKw ts || (atKeyword .eventKw ts && scope == .typeBody) then
          .member (some .other) (us.drop 1)
        else if scope == .typeBody then .member none us
        else .unknown us := by
      simp only [form, hus.1, hk, hus.atRecord, hus.atRecordFlavour, hus.alike.atKeyword, List.drop_one]
    split at hform
    · split at hform
      · exact drops (.type .recordType) (Nat.le_refl 1) (fun _ _ => rfl) hform
      · exact drops (.type .recordType) (Nat.zero_le 1) (fun _ _ => rfl) hform
    · split at hform
      · exact drops .namespaceBlock (Nat.zero_le 1) (fun _ _ => rfl) hform
      · split at hform
        · exact drops (.member (some .other)) (Nat.le_refl 1) (fun _ _ => rfl) hform
        · split at hform
          · exact drops (.member none) (Nat.zero_le 1) (fun _ _ => rfl) hform
          · exact drops .unknown (Nat.zero_le 1) (fun _ _ => rfl) hform

end

/-! ## Bodies around lists -/

/-- The list `d` is read by `f` in the body of a declaration: this depends on nothing else of the tokens behind the
opening mark but on the last one of them, and where nothing is reported it holds what is read of the list. -/
structure Wraps (l : Nat) (f : List Token → Step Found) (d : Items) : Prop where
  same : ∀ us, EndsAlike us d.tokens → (d.from us).read l = d.read l → f us = f d.tokens
  wraps : ∃ kind name mods, ∀ us x, (f us).result = .ok x → x.problems = #[] →
    ((d.from us).read l).found.problems = #[] ∧ ∃ span, x = ((d.from us).read l).found.wrap kind name mods span

theorem Wraps.congr {l : Nat} {f g : List Token → Step Found} {d : Items} (h : Wraps l f d) (hg : ∀ us, g us = f us) :
    Wraps l g d := by
  rwa [show g = f from funext hg]

section

variable {l : Nat} {scope : Scope} {name : String} {kind : TypeKind} {mods : List Keyword} {start : Span} {t : Token}

theorem inBraces_congr {us vs : List Token} (h : (⟨scope, true, name, us⟩ : Items).read l =
    (⟨scope, true, name, vs⟩ : Items).read l) :
    inBraces (ofLevels l) scope name (t :: us) = inBraces (ofLevels l) scope name (t :: vs) := by
  have h : readFrom (below l) scope true name {} us = readFrom (below l) scope true name {} vs := h
  rw [inBraces, inBraces, List.tail_cons, List.tail_cons, read_ofLevels, read_ofLevels, h]
  rfl

theorem wraps_typeEnd (hb : t.kind = .punctuation .leftBrace) (hk : kind ≠ .enumType) (ts : List Token) :
    Wraps l (fun us => typeEnd (below (l + 1)) kind name mods start (t :: us)) ⟨.typeBody, true, name, ts⟩ := by
  have hbrace (us : List Token) : atMark .leftBrace (t :: us) = true := by simp [atMark, front, hb]
  have hsemicolon (us : List Token) : ¬ atMark .semicolon (t :: us) = true :=
    not_atMark_of_atMark (hbrace us) (by simp)
  refine ⟨fun us _ hread => ?_, .type kind, name, mods, fun us x hx hproblems => ?_⟩
  · have hbody : inBraces (ofLevels l) .typeBody name (t :: us) = inBraces (ofLevels l) .typeBody name (t :: ts) :=
      inBraces_congr hread
    simp [typeEnd, hsemicolon, hbrace, typeBody, hk, below, hbody]
  · obtain hm | ⟨-, ⟨henum, -⟩ | ⟨-, m, hm, hfound, hclosed⟩⟩ := typeEnd_cases hx hproblems
    · exact absurd hm (hsemicolon us)
    · exact absurd henum hk
    · obtain rfl : l = m := Nat.succ.inj hm
      rw [typeEnd_of_body (hbrace us) hk hclosed] at hx
      exact ⟨hfound, _, (Except.ok.inj hx).symm⟩

theorem wraps_namespaceEnd (hend : t.kind = .punctuation .leftBrace ∨ t.kind = .punctuation .semicolon ∧ scope = .text)
    (ts : List Token) :
    Wraps l (fun us => namespaceEnd (below (l + 1)) scope name start (t :: us)) (namespaceContents (t :: ts)) := by
  refine ⟨fun us hends hread => ?_, .namespaceBlock, name, [], fun us x hx hproblems => ?_⟩
  · have hread : (namespaceContents (t :: us)).read l = (namespaceContents (t :: ts)).read l := hread
    rcases hend with hb | ⟨hm, rfl⟩
    · have hbrace (us : List Token) : atMark .leftBrace (t :: us) = true := by simp [atMark, front, hb]
      have hsemicolon (us : List Token) : ¬ atMark .semicolon (t :: us) = true :=
        not_atMark_of_atMark (hbrace us) (by simp)
      rw [read_namespaceContents l name, read_namespaceContents l name, hbrace, hbrace] at hread
      have hbody : inBraces (ofLevels l) .namespaceBody name (t :: us) =
          inBraces (ofLevels l) .namespaceBody name (t :: ts) := inBraces_congr hread
      simp [namespaceEnd, hsemicolon, hbrace, below, hbody, namespaceContents]
    · have hsemicolon (us : List Token) : atMark .semicolon (t :: us) = true := by simp [atMark, front, hm]
      have hlast : lastToken (t :: us) = lastToken (t :: ts) := hends.lastToken_cons t
      simp only [namespaceContents, List.tail_cons]
      rw [namespaceEnd_of_semicolon (hsemicolon us), namespaceEnd_of_semicolon (hsemicolon ts), hread, hlast]
  · obtain ⟨m, hm, hfound, ⟨hsemicolon, rfl⟩ | ⟨hbrace, hclosed⟩⟩ := namespaceEnd_cases hx hproblems
    · obtain rfl : l = m := Nat.succ.inj hm
      rw [namespaceEnd_of_semicolon hsemicolon] at hx
      exact ⟨hfound, _, (Except.ok.inj hx).symm⟩
    · obtain rfl : l = m := Nat.succ.inj hm
      rw [namespaceEnd_of_body hbrace hclosed] at hx
      exact ⟨hfound, _, (Except.ok.inj hx).symm⟩

end

theorem Form.tokens_map (f : Form) (g : List Token → List Token) : (f.map g).tokens = g f.tokens := by
  cases f <;> rfl

section

variable {l : Nat} {scope : Scope} {owner name : String} {mods : List Keyword} {start : Span} {ts : List Token}
  {x : Found} {d : Items}

/-- A namespace is read without a fault only behind a mark that ends its header. -/
theorem kind_of_namespaceEnd {levels : Nat} (h : (namespaceEnd (below levels) scope name start ts).result = .ok x)
    (hx : x.problems = #[]) : (front ts).kind = .punctuation .leftBrace ∨
      (front ts).kind = .punctuation .semicolon ∧ scope = .text := by
  obtain ⟨l, -, -, ⟨hm, hscope⟩ | ⟨hb, -⟩⟩ := namespaceEnd_cases h hx
  · exact .inr ⟨Token.kind_of_atMark hm, hscope⟩
  · exact .inl (Token.kind_of_atMark hb)

/-- A form that is read without a fault is read around the list in its body, behind a mark that ends its header. -/
theorem Form.exists_wraps {f : Form} (h : (f.read (below (l + 1)) scope owner mods start).result = .ok x)
    (hx : x.problems = #[]) (hd : f.contents? = some d) : ∃ header t, f.tokens = header ++ t :: d.tokens ∧
      2 ≤ header.length ∧
        Wraps l (fun us => (f.map fun _ => header ++ t :: us).read (below (l + 1)) scope owner mods start) d := by
  cases f with
  | type kind ts =>
    obtain ⟨header, hheader, htwo, hread⟩ := exists_typeHeader h
    obtain ⟨hb, hk, rfl⟩ := Form.contents?_type_eq_some.mp hd
    obtain ⟨hrest, -⟩ := Token.exists_cons (Token.not_atEnd_of_atMark hb)
    rw [hrest] at hheader
    exact ⟨header, _, hheader, htwo, (wraps_typeEnd (Token.kind_of_atMark hb) hk _).congr fun us => hread _ rfl⟩
  | namespaceBlock ts =>
    obtain ⟨header, name, hheader, htwo, hread⟩ := exists_namespaceHeader h
    obtain rfl : namespaceContents (qualifiedName ts.tail).rest = d := Option.some.inj hd
    have hself := hread _ (.refl _)
    rw [← hheader] at hself
    have hends : (namespaceEnd (below (l + 1)) scope name start (qualifiedName ts.tail).rest).result = .ok x := by
      rw [← hself]
      exact h
    generalize (qualifiedName ts.tail).rest = rest at hheader hread hends ⊢
    have hkind := kind_of_namespaceEnd hends hx
    have hend : ¬ atEnd rest = true := by
      rcases hkind with hb | ⟨hm, -⟩
      · simp [atEnd, hb]
      · simp [atEnd, hm]
    obtain ⟨hrest, -⟩ := Token.exists_cons hend
    have hwraps : Wraps l (fun us => namespaceEnd (below (l + 1)) scope name start (front rest :: us))
      (namespaceContents (front rest :: rest.tail)) := wraps_namespaceEnd hkind rest.tail
    rw [← hrest] at hwraps
    rw [hrest] at hheader
    exact ⟨header, front rest, hheader, htwo, hwraps.congr fun us => hread _ rfl⟩
  | member forced ts => cases hd
  | unknown ts => cases hd

/-- So is a declaration, as its first two tokens tell its form and stand in front of the body. -/
theorem exists_wraps_declaration (h : (declaration (below (l + 1)) scope owner mods start ts).result = .ok x)
    (hx : x.problems = #[]) (hd : (form scope mods ts).contents? = some d) : ∃ own, ts = own ++ d.tokens ∧
      2 ≤ own.length ∧ Wraps l (fun us => declaration (below (l + 1)) scope owner mods start (own ++ us)) d := by
  rw [declaration_eq_form] at h
  obtain ⟨header, t, hheader, htwo, hwraps⟩ := Form.exists_wraps h hx hd
  obtain ⟨n, hn, hform⟩ := exists_form_drop scope mods ts
  have htokens : (form scope mods ts).tokens = ts.drop n := by
    rw [hform ts (.refl ts), Form.tokens_map]
  rw [htokens] at hheader
  have hlength : (ts.take n).length = n := by
    have hdrop := congrArg List.length hheader
    rw [List.length_drop, List.length_append] at hdrop
    rw [List.length_take]
    omega
  have hts : ts = ts.take n ++ (header ++ [t]) ++ d.tokens := by
    rw [List.append_assoc, List.append_assoc, List.singleton_append, ← hheader, List.take_append_drop]
  have hown : 2 ≤ (ts.take n ++ (header ++ [t])).length := by
    rw [List.length_append, List.length_append]
    omega
  refine ⟨ts.take n ++ (header ++ [t]), hts, hown, hwraps.congr fun us => ?_⟩
  have hdrop : (ts.take n ++ (header ++ [t]) ++ us).drop n = header ++ t :: us := by
    rw [List.append_assoc, List.drop_left' hlength, List.append_assoc, List.singleton_append]
  rw [declaration_eq_form, hform _ (.of_append hts hown us), hdrop]

end

namespace Items

variable {c d : Items} {levels l : Nat} {x : Found}

/-- The first item is read around the list in its body. -/
theorem Begins.exists_wraps (h : c.Begins (l + 1) x) (hd : (c.first (l + 1)).contents? = some d) : ∃ head,
    c.tokens = head ++ d.tokens ∧ 2 ≤ head.length ∧
      Wraps l (fun us => item (below (l + 1)) c.scope c.owner (head ++ us)) d := by
  obtain ⟨f, hf, hcontents⟩ := Option.bind_eq_some_iff.mp hd
  cases h.readsFirst with
  | directive hdirective => rw [Site.form?_eq_none (.inl hdirective)] at hf; cases hf
  | attributes hdirective ha hb => rw [Site.form?_eq_none (.inr hb)] at hf; cases hf
  | @declaration x g hdirective ha hb hg hread =>
    rw [Site.form?_eq hdirective hb] at hf
    obtain rfl : form c.scope (modifiers (skipAttributes c.tokens).rest).1 (c.first (l + 1)).heading = f :=
      Option.some.inj hf
    rw [hg, ← declaration_eq_form] at hread
    obtain ⟨own, hown, htwo, hwraps⟩ := exists_wraps_declaration (congrArg Step.result hread) h.problems_eq hcontents
    have hheading : (c.first (l + 1)).heading = (modifiers (skipAttributes c.tokens).rest).2 :=
      Site.heading_eq hdirective
    rw [hheading] at hown
    obtain ⟨attributes, htokens, -, -, hstop, hattributes⟩ := reads_skipAttributes ha
    obtain ⟨passed, hpassed, -, hmodifiers⟩ := exists_modifiers_append hown htwo
    have hall : c.tokens = attributes ++ (passed ++ own) ++ d.tokens := by
      rw [List.append_assoc, ← hpassed]
      exact htokens
    have hhead : 2 ≤ (attributes ++ (passed ++ own)).length := by
      rw [List.length_append, List.length_append]
      omega
    refine ⟨attributes ++ (passed ++ own), hall, hhead, hwraps.congr fun us => ?_⟩
    obtain ⟨hsame, hmods⟩ := hmodifiers us
    have hnot : (c.scope != .typeBody && atDirective (attributes ++ (passed ++ own) ++ us)) = false := by
      rw [(SameHead.of_append hall hhead us).atDirective]
      exact hdirective
    have hpass : skipAttributes (attributes ++ (passed ++ own) ++ us) = .done () (passed ++ (own ++ us)) := by
      rw [List.append_assoc, List.append_assoc]
      exact (hattributes _ hstop).again _ hsame.alike
    rw [item_eq, hnot, hpass, if_neg Bool.false_ne_true]
    have hbehind : behindAttributes (below (l + 1)) c.scope c.owner (passed ++ (own ++ us)) =
        declaration (below (l + 1)) c.scope c.owner (modifiers (skipAttributes c.tokens).rest).1
          (front (skipAttributes c.tokens).rest).span (own ++ us) := by
      rw [behindAttributes, hsame.alike.atBodyEnd, hb, if_neg Bool.false_ne_true, hmods, hsame.1]
    exact hbehind

/-- Behind a namespace that goes on to the end of the text nothing is left. -/
theorem Begins.atEnd_rest (h : c.Begins levels x) (hendless : AtEndless c.scope (skipAttributes c.tokens).rest) :
    atEnd (c.first levels).rest = true := by
  obtain ⟨hscope, hkeyword, hsemicolon⟩ := hendless
  have hresult := h.result_eq
  rw [hscope] at hresult
  have hitem := item_eq_namespaceDeclaration hresult hkeyword
  rw [hitem] at hresult
  obtain ⟨name, -, hends⟩ := namespaceDeclaration_cases hresult
  rw [hends] at hresult
  obtain ⟨l, rfl, -, -⟩ := namespaceEnd_cases hresult h.problems_eq
  rw [hends, namespaceEnd_of_semicolon hsemicolon, ← hscope] at hitem
  have hrest : (c.first (l + 1)).rest = _ := congrArg Step.rest hitem
  have hbrace : atMark .leftBrace (qualifiedName (skipAttributes c.tokens).rest.tail).rest = false := by
    simpa using not_atMark_of_atMark hsemicolon (by simp)
  rw [hrest, Step.rest_done, Items.read, namespaceContents, hbrace]
  exact atEnd_rest_readFrom _ _ _ _ _

/-- In front of other items the first one ends with a semicolon or a brace. -/
theorem Begins.closed (hn : levels ≤ maxNesting) (h : c.Begins levels x) {used : List Token}
    (hrest : ¬ atBodyEnd (c.first levels).rest = true) (htokens : c.tokens = used ++ (c.first levels).rest) :
    Closed used := by
  cases h.readsFirst with
  | directive hd hs hleft =>
    obtain ⟨passed, hpassed, hlast, -⟩ := Nesting.spans_skipToSemicolon hs
    rw [← hleft] at hpassed
    obtain rfl : used = passed := List.append_cancel_right (htokens.symm.trans hpassed)
    exact .inl hlast
  | attributes hd ha hb hleft => exact absurd (hleft ▸ hb) hrest
  | declaration hd ha hb hf hread =>
    have hlays (l : Nat) (hl : l < levels) : LaysOut l := laysOut_ofLevels l (Nat.le_trans (Nat.le_of_lt hl) hn)
    have hheading : (c.first levels).heading = (modifiers (skipAttributes c.tokens).rest).2 := Site.heading_eq hd
    have hbehind : behindAttributes (below levels) c.scope c.owner (skipAttributes c.tokens).rest =
        .done x (c.first levels).rest := by
      rw [← hread, hf, hheading, ← declaration_eq_form, behindAttributes, hb]
      rfl
    obtain ⟨own, d, -, -, -, -, -, trail, hown, hdeclares⟩ :=
      finds_behindAttributes hlays (by simp [hb]) (congrArg Step.result hbehind) h.problems_eq
    simp only [hbehind, Step.rest_done] at hown hdeclares
    obtain ⟨attributes, hattributes, -⟩ := reads_skipAttributes ha
    have hall : used ++ (c.first levels).rest = attributes ++ (own ++ trail) ++ (c.first levels).rest := by
      rw [← htokens, List.append_assoc, List.append_assoc, ← hown]
      exact hattributes
    rw [List.append_cancel_right hall]
    refine Closed.append ?_ attributes
    rcases hdeclares.trail_closed with rfl | htrail
    · rw [List.append_nil]
      refine hdeclares.closed.resolve_right fun hend => hrest ?_
      rw [atBodyEnd, hend.2, Bool.true_or]
    · exact htrail.append own

/-- The first item is read in front of other tokens that begin like those behind it, or with what cannot belong to
it. -/
theorem Begins.exists_resumes (hn : levels ≤ maxNesting) (h : c.Begins levels x)
    (hrest : ¬ atBodyEnd (c.first levels).rest = true) : ∃ used, used ≠ [] ∧
      c.tokens = used ++ (c.first levels).rest ∧ ∀ us, Alike us (c.first levels).rest ∨ Follows us →
        item (below levels) c.scope c.owner (used ++ us) = .done x us := by
  have hlays (l : Nat) (hl : l < levels) : LaysOut l := laysOut_ofLevels l (Nat.le_trans (Nat.le_of_lt hl) hn)
  obtain ⟨used, htokens, hitem⟩ := takesItem_item hn hlays h.not_atBodyEnd h.result_eq h.problems_eq
  refine ⟨used, hitem.ne_nil, htokens, fun us hus => ?_⟩
  rcases hus with halike | hfollows
  · exact (hitem.again levels (Nat.le_refl levels)).again us halike
  · have hends : ¬ AtEndless c.scope (skipAttributes c.tokens).rest := fun hendless =>
      hrest (by rw [atBodyEnd, h.atEnd_rest hendless, Bool.true_or])
    have hmay : MayEnd used us := by
      refine .inr fun hback => ?_
      rcases h.closed hn hrest htokens with hlast | hlast <;> rw [hback] at hlast <;> cases hlast
    exact (hitem.resumes hends us hfollows hmay levels (Nat.le_refl levels)).again us (.refl us)

/-- What is read of a list with other tokens is the same where its first item is. -/
theorem Begins.read_congr (h : c.Begins levels x) {us : List Token} (hus : ¬ atBodyEnd us = true)
    (hsame : item (below levels) c.scope c.owner us = item (below levels) c.scope c.owner c.tokens) :
    (c.from us).read levels = c.read levels := by
  have hbegins : (c.from us).Begins levels x := ⟨hus, (congrArg Step.result hsame).trans h.result_eq, h.problems_eq⟩
  have hrest : ((c.from us).first levels).rest = (c.first levels).rest := congrArg Step.rest hsame
  rw [hbegins.read_eq, h.read_eq, hrest]
  rfl

end Items

/-! ## Lists in lists -/

/-- Unless something is reported of `e'`, the kinds that are read of it depart from those that are read of `e`. -/
def Items.Diverges (e e' : Items) (m : Nat) : Prop :=
  (e'.read m).found.problems = #[] →
    Departs (Declaration.kindsAll (e.read m).found.declarations.toList)
      (Declaration.kindsAll (e'.read m).found.declarations.toList)

/-- The tokens `around` stand in front of the list `e` in the list `c`. What is read of `c` stays the same where what is
read of `e` does, and it departs from that where `e` does. -/
structure Surrounds (around : List Token) (c : Items) (levels : Nat) (e : Items) (m : Nat) : Prop where
  eq_append : c.tokens = around ++ e.tokens
  same : ∀ us, Plugs us e.tokens → (e.from us).read m = e.read m → (c.from (around ++ us)).read levels = c.read levels
  diverges : ∀ us, Plugs us e.tokens → e.Diverges (e.from us) m → c.Diverges (c.from (around ++ us)) levels

namespace Surrounds

variable {c d e : Items} {levels l m : Nat} {outer around : List Token}

theorem refl (c : Items) (levels : Nat) : Surrounds [] c levels c levels := ⟨rfl, fun _ _ h => h, fun _ _ h => h⟩

theorem trans (h : Surrounds outer c levels d l) (k : Surrounds around d l e m) :
    Surrounds (outer ++ around) c levels e m where
  eq_append := by rw [h.eq_append, k.eq_append, List.append_assoc]
  same us hus hread := by
    rw [List.append_assoc]
    exact h.same _ (k.eq_append ▸ hus.append around) (k.same us hus hread)
  diverges us hus hread := by
    rw [List.append_assoc]
    exact h.diverges _ (k.eq_append ▸ hus.append around) (k.diverges us hus hread)

end Surrounds

namespace Items

variable {c d : Items} {levels l : Nat} {x : Found}

/-- The first item surrounds the list in its body. -/
theorem Begins.surrounds_inside (h : c.Begins (l + 1) x) (hd : (c.first (l + 1)).contents? = some d) :
    ∃ head, Surrounds head c (l + 1) d l := by
  obtain ⟨head, htokens, htwo, hwraps⟩ := h.exists_wraps hd
  have hne : head ≠ [] := by
    rintro rfl
    cases htwo
  have hend (us : List Token) : ¬ atBodyEnd (head ++ us) = true := by
    rw [(Token.alike_of_eq_append htokens hne us).atBodyEnd]
    exact h.not_atBodyEnd
  refine ⟨head, htokens, fun us hus hread => ?_, fun us hus hread hproblems => ?_⟩
  · refine h.read_congr (hend us) ?_
    rw [htokens]
    exact hwraps.same us hus.ends hread
  · obtain ⟨x', hx', hproblems'⟩ := exists_item_of_readFrom (hend us) hproblems
    have hbegins : (c.from (head ++ us)).Begins (l + 1) x' := ⟨hend us, hx', hproblems'⟩
    obtain ⟨kind, name, mods, hcases⟩ := hwraps.wraps
    have hx := h.result_eq
    rw [htokens] at hx
    obtain ⟨-, span, rfl⟩ := hcases d.tokens x hx h.problems_eq
    obtain ⟨hbody, span', rfl⟩ := hcases us x' hx' hproblems'
    have hdeparts := (hread hbody).prepend [kind]
    rw [h.read_eq, hbegins.read_eq]
    simp only [Found.append, Found.wrap, Array.toList_append, Declaration.kindsAll_append,
      Declaration.kindsAll_singleton]
    exact hdeparts.append _ _

/-- The first item stands around the list behind it, if there is one. -/
theorem Begins.surrounds_behind (hn : levels ≤ maxNesting) (h : c.Begins levels x)
    (hrest : ¬ atBodyEnd (c.first levels).rest = true) :
    ∃ used, Surrounds used c levels (c.from (c.first levels).rest) levels := by
  obtain ⟨used, hne, htokens, hresumes⟩ := h.exists_resumes hn hrest
  have hread (us : List Token) (hus : Plugs us (c.first levels).rest) : (c.from (used ++ us)).read levels =
      ⟨x.append ((c.from us).read levels).found, ((c.from us).read levels).rest⟩ := by
    have hitem := hresumes us hus.begins
    have hbegins : (c.from (used ++ us)).Begins levels x := by
      refine ⟨?_, congrArg Step.result hitem, h.problems_eq⟩
      have halike := Token.alike_of_eq_append htokens hne us
      rw [Items.from, halike.atBodyEnd]
      exact h.not_atBodyEnd
    have hleft : ((c.from (used ++ us)).first levels).rest = us := congrArg Step.rest hitem
    rw [hbegins.read_eq, hleft]
    rfl
  refine ⟨used, htokens, fun us hus hsame => ?_, fun us hus hdiverges hproblems => ?_⟩
  · have hsame : (c.from us).read levels = (c.from (c.first levels).rest).read levels := hsame
    rw [hread us hus, hsame, ← h.read_eq]
  · rw [hread us hus] at hproblems ⊢
    rw [h.read_eq]
    have hdeparts := hdiverges (problems_append_eq_empty hproblems).2
    simp only [Found.append, Array.toList_append, Declaration.kindsAll_append]
    exact hdeparts.prepend _

/-- Each item of a list is the first one of a list that others surround. -/
theorem exists_surrounds (hn : levels ≤ maxNesting) (h : (c.read levels).found.problems = #[]) :
    ∀ s ∈ sites levels c, ∃ m e x around, e.Begins m x ∧ s = e.first m ∧ Surrounds around c levels e m := by
  refine accepted_induction (motive := fun levels c => levels ≤ maxNesting → ∀ s ∈ sites levels c,
    ∃ m e x around, Begins e m x ∧ s = e.first m ∧ Surrounds around c levels e m) ?_ ?_ h hn
  · intro levels c hb _ _ s hs
    rw [sites_eq_nil levels hb] at hs
    cases hs
  · intro levels c x hbegins _ ih ihbody hn s hs
    rw [hbegins.sites_eq, List.mem_cons, List.mem_append] at hs
    rcases hs with rfl | hs | hs
    · exact ⟨levels, c, x, [], hbegins, rfl, .refl c levels⟩
    -- What stands around an item of the body, or of the rest, stands in what surrounds these.
    · obtain ⟨l, d, rfl, hd, hs⟩ := mem_inside hs
      obtain ⟨head, hhead⟩ := hbegins.surrounds_inside hd
      obtain ⟨m, e, y, around, he, rfl, haround⟩ :=
        ihbody l d rfl hd (hbegins.body hd).1 (Nat.le_of_succ_le hn) s hs
      exact ⟨m, e, y, head ++ around, he, rfl, hhead.trans haround⟩
    · have hrest : ¬ atBodyEnd (c.first levels).rest = true := by
        intro hend
        rw [sites_eq_nil levels hend] at hs
        cases hs
      obtain ⟨used, hused⟩ := hbegins.surrounds_behind hn hrest
      obtain ⟨m, e, y, around, he, rfl, haround⟩ := ih hn s hs
      exact ⟨m, e, y, used ++ around, he, rfl, hused.trans haround⟩

end Items

end Reader

end TestScaffold
