import TestScaffold.Proofs.Reading.Layout

/-!
# What stands in front of a declaration

Names, attribute lists and modifiers are read up to a token that ends them, and read again in front of tokens that
begin alike. What a declaration is told by are its first two tokens.

Results:
* `Reader.reads_qualifiedName`, `Reader.reads_skipAttributes`, `Reader.exists_modifiers`: what is read in front.
* `Reader.SameHead`: tokens that are told alike.
* `Reader.not_atDirective`: a namespace or a type is no directive, whatever modifiers it has.
-/

namespace TestScaffold

open Token (front second back atEnd atMark atKeyword atIdentifier skipMark)
open Token (Alike Inside Ended AttributeLists)
open Step (Reads)

/-! ## Names, attributes and modifiers -/

namespace Token

theorem second_append {ts : List Token} (h : 2 ≤ ts.length) (us : List Token) : second (ts ++ us) = second ts := by
  match ts, h with
  | t :: u :: ts, _ => rfl

theorem AttributeLists.append {ks ls : List TokenKind} (h : AttributeLists ks) (k : AttributeLists ls) :
    AttributeLists (ks ++ ls) := by
  induction h with
  | nil => exact k
  | cons balanced _ ih => simpa using AttributeLists.cons balanced ih

/-- What a semicolon that may be missing takes. -/
theorem exists_skipMark (ts : List Token) : ∃ trail, ts = trail ++ skipMark .semicolon ts ∧
    (trail = [] ∨ ∃ t, trail = [t] ∧ t.kind = .punctuation .semicolon) ∧
      ∀ endless us, Replaces endless us (skipMark .semicolon ts) → skipMark .semicolon (trail ++ us) = us := by
  by_cases hm : atMark .semicolon ts = true
  · have hkind := kind_of_atMark hm
    refine ⟨[front ts], ?_, .inr ⟨front ts, rfl, hkind⟩, fun _ us _ => ?_⟩
    · rw [skipMark, if_pos hm]
      exact (exists_cons (not_atEnd_of_atMark hm)).1
    · have hm' : atMark .semicolon (front ts :: us) = true := by simpa [atMark, front] using hkind
      rw [List.singleton_append, skipMark, if_pos hm', List.tail_cons]
  · refine ⟨[], by rw [skipMark, if_neg hm]; rfl, .inl rfl, fun _ us hus => ?_⟩
    rw [skipMark, if_neg hm] at hus
    rw [List.nil_append, skipMark, if_neg (hus.not_atMark (.inl rfl) hm)]

end Token

namespace Reader

/-- Whether a token may stand in a dotted name. -/
def IsNamePart (t : Token) : Prop := t.kind.name?.isSome = true ∨ t.kind = .punctuation .dot

theorem reads_dottedName {name s : String} {ts : List Token} (h : (dottedName name ts).result = .ok s) : ∃ used,
    ts = used ++ (dottedName name ts).rest ∧ (∀ t ∈ used, IsNamePart t) ∧
      Reads (dottedName name) used (dottedName name ts).rest s := by
  fun_induction dottedName name ts with
  | case1 name ts hm n hn ih =>
    obtain ⟨used, hrest, hparts, hreads⟩ := ih h
    obtain ⟨hts, hdot⟩ := Token.exists_cons (Token.not_atEnd_of_atMark hm)
    have hmore : ¬ atEnd ts.tail = true := by
      intro hend
      rw [atEnd, beq_iff_eq] at hend
      rw [hend] at hn
      cases hn
    obtain ⟨hts', hname⟩ := Token.exists_cons hmore
    refine ⟨front ts :: front ts.tail :: used, ?_, ?_, fun us hus => ?_, ?_⟩
    · rw [List.cons_append, List.cons_append, ← hrest, ← hts', ← hts]
    · simpa using ⟨.inr (Token.kind_of_atMark hm), .inl (by rw [hn]; rfl), hparts⟩
    · have hm' : atMark .dot (front ts :: front ts.tail :: (used ++ us)) = true := hm
      have hn' : (front (front ts.tail :: (used ++ us))).kind.name? = some n := hn
      rw [List.cons_append, List.cons_append, dottedName, if_pos hm']
      simp only [List.tail_cons, hn']
      exact hreads.again us hus
    · exact (Token.inside_singleton hdot).append ((Token.inside_singleton hname).append hreads.inside)
  | case2 name ts => cases h
  | case3 name ts hm =>
    cases h
    refine ⟨[], rfl, by simp, fun us hus => ?_, Token.inside_nil⟩
    have hus : Alike us ts := hus
    rw [List.nil_append, dottedName, hus.atMark, if_neg hm]

theorem reads_qualifiedName {s : String} {ts : List Token} (h : (qualifiedName ts).result = .ok s) : ∃ used,
    ts = used ++ (qualifiedName ts).rest ∧ used ≠ [] ∧ (∀ t ∈ used, IsNamePart t) ∧
      Reads qualifiedName used (qualifiedName ts).rest s := by
  obtain ⟨name, hname, he⟩ := Step.andThen_eq_ok h
  have he : qualifiedName ts = _ := he
  obtain ⟨t, hts, hname, hfirst⟩ := Step.reads_name hname
  rw [he] at h ⊢
  obtain ⟨used, hrest, hparts, hmore⟩ := reads_dottedName h
  rw [hrest] at hts hfirst
  refine ⟨[t] ++ used, by rwa [List.append_assoc], by simp, ?_, hfirst.andThen hmore⟩
  simpa using ⟨.inl (by rw [hname]; rfl), hparts⟩

/-- Attribute lists are passed up to any token that begins no further one. -/
theorem reads_skipAttributes {ts : List Token} (h : (skipAttributes ts).result = .ok ()) : ∃ used,
    ts = used ++ (skipAttributes ts).rest ∧ AttributeLists (used.map Token.kind) ∧
      (used = [] ∨ (back used).kind = .punctuation .rightBracket) ∧
      ¬ atMark .leftBracket (skipAttributes ts).rest = true ∧
        ∀ us, ¬ atMark .leftBracket us = true → Reads skipAttributes used us () := by
  fun_induction skipAttributes ts with
  | case1 ts hm s a ha ih =>
    obtain ⟨used, hrest, hlists, hended, hstop, hreads⟩ := ih h
    obtain ⟨group, p, closer, hts, hp, hc, hlast, hgroup⟩ := Nesting.spans_skipGroup ha
    have hbracket := Token.kind_of_atMark hm
    rw [hbracket] at hp
    cases hp
    cases hc
    obtain ⟨group', content, hts', hcontent, hkinds⟩ := Nesting.exists_balanced_of_skipGroup ha hbracket rfl
    obtain rfl : group = group' := List.append_cancel_right (hts.symm.trans hts')
    have hts : ts = group ++ s.rest := hts
    have hfirst : AttributeLists (group.map Token.kind) := by
      rw [hkinds]
      exact .cons hcontent .nil
    refine ⟨group ++ used, by rw [List.append_assoc, ← hrest, ← hts], ?_, .inr ?_, hstop,
      fun us hus => .group (hgroup _) (hreads us hus) ?_⟩
    · rw [List.map_append]
      exact hfirst.append hlists
    · by_cases hnone : used = []
      · rw [hnone, List.append_nil]
        exact hlast
      · rw [Token.back_append group hnone]
        exact hended.resolve_left hnone
    · intro us hskip
      have halike := Token.alike_of_eq_append hts (hgroup []).ne_nil us
      rw [skipAttributes, halike.atMark, if_pos hm]
      simp only [hskip, Step.done]
  | case2 ts hm s d hd => cases h
  | case3 ts hm =>
    refine ⟨[], rfl, .nil, .inl rfl, hm, fun us hus => ⟨fun vs hvs => ?_, Token.inside_nil⟩⟩
    rw [List.nil_append, skipAttributes, hvs.atMark, if_neg hus]

/-- Whether a token may stand among the modifiers. -/
def IsModifier (t : Token) : Prop :=
  (∃ k, t.kind = .keyword k ∧ k.isModifier = true) ∨ t.kind = .identifier "ref"

/-- The token behind an identifier is a keyword where the second one is. -/
theorem atKeyword_iff_second {t : Token} {name : String} (ht : t.kind = .identifier name) (k : Keyword)
    (ts : List Token) : atKeyword k ts = true ↔ (second (t :: ts)).kind = .keyword k := by
  cases ts with
  | nil => simp [atKeyword, front, second, Token.final, ht]
  | cons u ts => simp [atKeyword, front, second]

/-- No modifiers are read where none stands in front. -/
theorem modifiers_eq_nil {ts : List Token} (hk : ∀ k, (front ts).kind = .keyword k → ¬ k.isModifier = true)
    (href : (front ts).kind = .identifier "ref" → (second ts).kind ≠ .keyword .structKw) :
    modifiers ts = ([], ts) := by
  cases ts with
  | nil => rfl
  | cons t ts =>
    have hk : ∀ k, t.kind = .keyword k → ¬ k.isModifier = true := hk
    have href : t.kind = .identifier "ref" → (second (t :: ts)).kind ≠ .keyword .structKw := href
    rw [modifiers]
    cases hkind : t.kind with
    | keyword k => simp [hk k hkind]
    | identifier name =>
      have hstruct : ¬ (name == "ref" && atKeyword .structKw ts) = true := by
        intro hboth
        obtain ⟨hname, hstruct⟩ := (Bool.and_eq_true _ _ ▸ hboth : _ ∧ _)
        exact href (by rw [hkind, eq_of_beq hname]) ((atKeyword_iff_second hkind _ ts).mp hstruct)
      simp [hstruct]
    | _ => rfl

/-- Where no modifiers are read, nothing is passed but the word `ref` in front of a structure. -/
theorem modifiers_eq_self {ts : List Token} (hnone : (modifiers ts).1 = [])
    (hstruct : ¬ atKeyword .structKw (modifiers ts).2 = true) : (modifiers ts).2 = ts := by
  fun_induction modifiers ts with
  | case2 t ts k hk hm ks rest hr ih => cases hnone
  | case4 t ts name hk hn ih =>
    obtain ⟨-, hahead⟩ := (Bool.and_eq_true _ _ ▸ hn : _ ∧ _)
    have hsame := ih hnone hstruct
    rw [hsame] at hstruct
    exact absurd hahead hstruct
  | _ => rfl

/-- In front of tokens that are no modifiers, none are read again. -/
theorem exists_modifiers_of_nil {ts : List Token} (hk : ∀ k, (front ts).kind = .keyword k → ¬ k.isModifier = true)
    (href : (front ts).kind = .identifier "ref" → (second ts).kind ≠ .keyword .structKw) : ∃ passed,
    ts = passed ++ ts ∧ (∀ t ∈ passed, IsModifier t) ∧ ∀ us, front us = front ts → second us = second ts →
      modifiers (passed ++ us) = ([], us) := by
  refine ⟨[], rfl, by simp, fun us hfront hsecond => ?_⟩
  rw [← hfront] at hk href
  rw [← hsecond] at href
  exact modifiers_eq_nil hk href

/-- The modifiers are read again in front of tokens whose first two are the same. -/
theorem exists_modifiers (ts : List Token) : ∃ passed, ts = passed ++ (modifiers ts).2 ∧
    (∀ t ∈ passed, IsModifier t) ∧ ∀ us, front us = front (modifiers ts).2 → second us = second (modifiers ts).2 →
      modifiers (passed ++ us) = ((modifiers ts).1, us) := by
  fun_induction modifiers ts with
  | case1 => exact exists_modifiers_of_nil (by simp [front, Token.final]) (by simp [front, Token.final])
  | case2 t ts k hk hm ks rest hr ih =>
    rw [hr] at ih
    obtain ⟨passed, hts, hpassed, hagain⟩ := ih
    refine ⟨t :: passed, by rw [List.cons_append, ← hts], ?_, fun us hfront hsecond => ?_⟩
    · simpa using ⟨.inl ⟨k, hk, hm⟩, hpassed⟩
    · rw [List.cons_append, modifiers]
      simp [hk, hm, hagain us hfront hsecond]
  | case3 t ts k hk hm =>
    refine exists_modifiers_of_nil (fun j hj => ?_) (fun href => ?_)
    · have hj : t.kind = .keyword j := hj
      rw [hk] at hj
      cases hj
      exact hm
    · have href : t.kind = .identifier "ref" := href
      rw [hk] at href
      cases href
  | case4 t ts name hk hn ih =>
    obtain ⟨passed, hts, hpassed, hagain⟩ := ih
    obtain ⟨hname, hstruct⟩ := (Bool.and_eq_true _ _ ▸ hn : _ ∧ _)
    refine ⟨t :: passed, by rw [List.cons_append, ← hts], ?_, fun us hfront hsecond => ?_⟩
    · simpa using ⟨.inr (by rw [hk, eq_of_beq hname]), hpassed⟩
    · have halike : Alike (passed ++ us) (passed ++ (modifiers ts).2) :=
        Alike.append (congrArg Token.kind hfront) passed
      rw [← hts] at halike
      rw [List.cons_append, modifiers]
      simp [hk, hname, halike.atKeyword, hstruct, hagain us hfront hsecond]
  | case5 t ts name hk hn =>
    refine exists_modifiers_of_nil (fun j hj => ?_) (fun href hstruct => hn ?_)
    · have hj : t.kind = .keyword j := hj
      rw [hk] at hj
      cases hj
    · have href : t.kind = .identifier "ref" := href
      rw [hk] at href
      cases href
      exact (atKeyword_iff_second hk _ ts).mpr hstruct
  | case6 t ts h₁ h₂ => exact exists_modifiers_of_nil (fun j hj => absurd hj (h₁ j)) (fun href => absurd href (h₂ _))

/-! ## Two tokens in front -/

/-- Two rows of tokens whose first two tokens are the same, as far as they have so many. -/
def SameHead (us vs : List Token) : Prop := front us = front vs ∧ second us = second vs

namespace SameHead

variable {us vs : List Token}

theorem refl (ts : List Token) : SameHead ts ts := ⟨rfl, rfl⟩

theorem of_append {ts own rest : List Token} (hts : ts = own ++ rest) (h : 2 ≤ own.length) (us : List Token) :
    SameHead (own ++ us) ts := by
  have hne : own ≠ [] := by
    rintro rfl
    cases h
  rw [hts, SameHead, Token.front_append hne, Token.front_append hne, Token.second_append h, Token.second_append h]
  exact ⟨rfl, rfl⟩

theorem alike (h : SameHead us vs) : Alike us vs := congrArg Token.kind h.1

theorem atRecordFlavour (h : SameHead us vs) : atRecordFlavour us = atRecordFlavour vs := by
  rw [Reader.atRecordFlavour, Reader.atRecordFlavour, h.2]

theorem atRecord (h : SameHead us vs) : atRecord us = atRecord vs := by
  rw [Reader.atRecord, Reader.atRecord, h.alike.atKeyword, h.atRecordFlavour, h.2]

theorem atDirective (h : SameHead us vs) : atDirective us = atDirective vs := by
  rw [Reader.atDirective, Reader.atDirective, h.alike.atKeyword, h.alike.atKeyword, atIdentifier, atIdentifier, h.1,
    h.2]

end SameHead

/-- The modifiers in front of at least two tokens of a declaration are read again in front of these. -/
theorem exists_modifiers_append {ts own rest : List Token} (hts : (modifiers ts).2 = own ++ rest)
    (htwo : 2 ≤ own.length) : ∃ passed, ts = passed ++ own ++ rest ∧ (∀ t ∈ passed, IsModifier t) ∧
      ∀ us, SameHead (passed ++ (own ++ us)) ts ∧
        modifiers (passed ++ (own ++ us)) = ((modifiers ts).1, own ++ us) := by
  obtain ⟨passed, hall, hpassed, hagain⟩ := exists_modifiers ts
  rw [hts, ← List.append_assoc] at hall
  refine ⟨passed, hall, hpassed, fun us => ⟨?_, ?_⟩⟩
  · rw [← List.append_assoc]
    exact .of_append hall (by simpa using Nat.le_add_left_of_le htwo) us
  · obtain ⟨hfront, hsecond⟩ := SameHead.of_append hts htwo us
    exact hagain _ hfront hsecond

theorem inside_of_isModifier {passed : List Token} (h : ∀ t ∈ passed, IsModifier t) : Inside passed := by
  intro t ht hkind
  rcases h t ht with ⟨k, hk, -⟩ | hk <;> rw [hkind] at hk <;> cases hk

/-! ## Words in front of declarations -/

/-- Whether a keyword begins a namespace or a type, and so no directive. -/
def BeginsDeclaration (kind : TokenKind) : Prop := ∃ k, kind = .keyword k ∧ k ≠ .usingKw ∧ k ≠ .externKw

theorem beginsDeclaration_of_typeKind? {k : TokenKind} {kind : TypeKind}
    (h : k.keyword?.bind typeKind? = some kind) : BeginsDeclaration k := by
  cases k with
  | keyword word =>
    refine ⟨word, rfl, ?_, ?_⟩ <;> rintro rfl <;> cases h
  | _ => cases h

theorem BeginsDeclaration.not_atEnd {ts : List Token} (h : BeginsDeclaration (front ts).kind) : ¬ atEnd ts = true := by
  obtain ⟨k, hk, -⟩ := h
  simp [atEnd, hk]

theorem not_atEnd_tail_of_atRecordFlavour {ts : List Token} (hr : atKeyword .recordKw ts = true)
    (hf : atRecordFlavour ts = true) : ¬ atEnd ts.tail = true := by
  match ts with
  | [] => cases hr
  | [t] =>
    have ht : t.kind = .keyword .recordKw := eq_of_beq hr
    simp [atRecordFlavour, second, front, ht] at hf
  | t :: u :: ts =>
    intro hend
    have hu : u.kind = .endOfText := eq_of_beq hend
    simp [atRecordFlavour, second, hu] at hf

/-- What stands in front of a namespace or a type, its attribute lists aside: a keyword or `ref`. -/
theorem keyword_or_ref {passed own : List Token} (hp : ∀ t ∈ passed, IsModifier t)
    (hb : BeginsDeclaration (front own).kind) :
    (∃ k, (front (passed ++ own)).kind = .keyword k) ∨ (front (passed ++ own)).kind = .identifier "ref" := by
  cases passed with
  | nil =>
    obtain ⟨k, hk, -⟩ := hb
    exact .inl ⟨k, hk⟩
  | cons t passed =>
    rcases hp t List.mem_cons_self with ⟨k, hk, -⟩ | hk
    · exact .inl ⟨k, hk⟩
    · exact .inr hk

/-- A namespace or a type is no directive. -/
theorem not_atDirective {passed own : List Token} (hp : ∀ t ∈ passed, IsModifier t)
    (hb : BeginsDeclaration (front own).kind) : atDirective (passed ++ own) = false := by
  cases passed with
  | nil =>
    obtain ⟨k, hk, husing, hextern⟩ := hb
    simp [atDirective, atKeyword, atIdentifier, hk, husing, hextern]
  | cons t passed =>
    have hsecond : second (t :: (passed ++ own)) = front (passed ++ own) := by
      cases hmore : passed ++ own with
      | nil =>
        obtain ⟨-, rfl⟩ := List.append_eq_nil_iff.mp hmore
        obtain ⟨k, hk, -⟩ := hb
        cases hk
      | cons u us => rfl
    have hword := keyword_or_ref (fun u hu => hp u (List.mem_cons_of_mem t hu)) hb
    rcases hp t List.mem_cons_self with ⟨k, hk, hm⟩ | hk
    · have husing : k ≠ .usingKw := by
        rintro rfl
        cases hm
      have halias : (second (t :: (passed ++ own))).kind ≠ .identifier "alias" := by
        rw [hsecond]
        rcases hword with ⟨k, hk⟩ | hk <;> simp [hk]
      simp [atDirective, atKeyword, atIdentifier, front, hk, husing, halias]
    · simp [atDirective, atKeyword, atIdentifier, front, hk]

theorem two_le_of_atDirective {used rest : List Token} (hd : atDirective (used ++ rest) = true)
    (hlast : (back used).kind = .punctuation .semicolon) : 2 ≤ used.length := by
  match used with
  | [] => cases hlast
  | [t] =>
    have hlast : t.kind = .punctuation .semicolon := hlast
    simp [atDirective, atKeyword, atIdentifier, front, hlast] at hd
  | t :: u :: used => simp

theorem two_le_length_of_attributeLists {ks : List TokenKind} (h : AttributeLists ks) (hne : ks ≠ []) :
    2 ≤ ks.length := by
  cases h with
  | nil => exact absurd rfl hne
  | cons balanced more =>
    rw [List.length_cons, List.length_append, List.length_cons]
    omega

end Reader

end TestScaffold
