import TestScaffold.Proofs.Reading.NamespaceForms
import TestScaffold.Proofs.Reading.Rows

/-!
# What stands in front of a body

A namespace and a type are told by what stands in front of their braces: attribute lists, modifiers, the words that
introduce them, a name, and for a type everything else up to the body. Where such a header stands in front of a brace it
is read in full, and the body is read next.

Results:
* `Written.NamespaceHeader`, `Written.TypeHeader`: what headers are made of.
* `Reader.PassedToBody`: what is passed between the name of a type and its body.
* `Reader.readsHeader_namespace`, `Reader.readsHeader_type`: a header is read up to the body.
-/

namespace TestScaffold

open Token (front second atEnd atMark atKeyword atBodyEnd skipMark)
open Token (Follows AttributeLists)
open Nesting (Nested Row isFree)

/-! ## Where a declaration begins -/

namespace Token

/-- Whether a declaration may begin with these tokens: no list ends here, and nothing goes on that was read before. -/
def Starts (ts : List Token) : Prop := atBodyEnd ts = false ∧ Follows ts

theorem Starts.ne_nil {ts : List Token} (h : Starts ts) : ts ≠ [] := by
  rintro rfl
  cases h.1

theorem Starts.append {ts : List Token} (h : Starts ts) (us : List Token) : Starts (ts ++ us) := by
  have halike : Alike (ts ++ us) (ts ++ []) := alike_append h.ne_nil us []
  rw [List.append_nil] at halike
  exact ⟨halike.atBodyEnd.trans h.1, halike.follows h.2⟩

theorem starts_of_front {ts : List Token} {k : TokenKind} (h : (front ts).kind = k) (hend : k ≠ .endOfText)
    (hmark : ∀ p, k = .punctuation p → p ∉ [.rightBrace, .semicolon, .equals]) : Starts ts := by
  have hnot {p : Punctuation} (hp : p ∈ [Punctuation.rightBrace, .semicolon, .equals]) : Token.atMark p ts = false := by
    simp only [Token.atMark, h, beq_eq_false_iff_ne]
    exact fun hk => hmark p hk hp
  have hstays : Token.atEnd ts = false := by simpa [Token.atEnd, h] using hend
  exact ⟨by rw [atBodyEnd, hstays, hnot (by simp), Bool.or_false], hnot (by simp), hnot (by simp)⟩

end Token

open Token (Starts)

/-! ## Spelling -/

namespace Written

/-- The marks that end the header of a type. -/
def endsHeader (p : Punctuation) : Bool := p == .leftBrace || p == .semicolon

/-- The words that introduce a type of a kind. A `ref` in front of `struct` changes nothing about the type, and neither
does `class` or `struct` behind `record`. -/
inductive Introduces : TypeKind → List TokenKind → Prop
  | keyword (kind : TypeKind) : Introduces kind [.keyword (typeKeyword kind)]
  | refStruct : Introduces .structType [.identifier "ref", .keyword .structKw]
  | recordFlavour {k : Keyword} (hk : k = .classKw ∨ k = .structKw) :
      Introduces .recordType [.keyword .recordKw, .keyword k]

/-- What stands in front of the body of a namespace: attribute lists, the keyword and a dotted name. -/
inductive NamespaceHeader : List TokenKind → Prop
  | mk {attributes ks : List TokenKind} {k : TokenKind} (lists : AttributeLists attributes)
      (hname : k.name?.isSome = true) (hmore : ∀ k ∈ ks, k.name?.isSome = true) :
      NamespaceHeader (attributes ++ .keyword .namespaceKw :: nameKinds k ks)

/-- What stands in front of the body of a type: attribute lists, modifiers, the words that introduce it, its name, and
then type parameters, parameters, bases and constraints in any order. -/
inductive TypeHeader (kind : TypeKind) : List TokenKind → Prop
  | mk {attributes intro row : List TokenKind} {mods : List Modifier} {name : TokenKind}
      (lists : AttributeLists attributes) (introduces : Introduces kind intro) (hname : name.name?.isSome = true)
      (hrow : Row endsHeader true row) :
      TypeHeader kind (attributes ++ (modifierTokens mods ++ (intro ++ name :: row)))

end Written

open Written (Introduces NamespaceHeader TypeHeader Modifier modifierTokens modifierKeywords nameKinds endsHeader)

/-! ## Nesting -/

namespace Nesting

theorem nested_of_attributeLists {ks : List TokenKind} (h : AttributeLists ks) : Nested false .rightBrace ks := by
  induction h with
  | nil => exact .nil
  | cons balanced _ ih =>
    have hc : closing? false .leftBracket = some .rightBracket := rfl
    exact .group hc (nested_of_balanced balanced rfl) ih

theorem nested_nameKinds {k : TokenKind} {ks : List TokenKind} (hname : k.name?.isSome = true)
    (hmore : ∀ k ∈ ks, k.name?.isSome = true) : Nested false .rightBrace (nameKinds k ks) := by
  refine nested_of_forall ?_
  simp only [nameKinds, List.forall_mem_cons, List.forall_mem_flatMap]
  refine ⟨isFree_of_name? hname, fun l hl => ⟨rfl, isFree_of_name? (hmore l hl), by simp⟩⟩

theorem nested_of_namespaceHeader {ks : List TokenKind} (h : NamespaceHeader ks) : Nested false .rightBrace ks := by
  cases h with
  | mk lists hname hmore =>
    exact (nested_of_attributeLists lists).append (.free rfl (nested_nameKinds hname hmore))

theorem nested_of_typeHeader {kind : TypeKind} {ks : List TokenKind} (h : TypeHeader kind ks) :
    Nested false .rightBrace ks := by
  cases h with
  | @mk attributes intro row mods name lists introduces hname hrow =>
    have hmods : Nested false .rightBrace (modifierTokens mods) := by
      refine nested_of_forall fun k hk => ?_
      obtain ⟨m, -, rfl⟩ := List.mem_map.mp hk
      rfl
    have hintro : Nested false .rightBrace intro := by
      cases introduces with
      | keyword => exact .free rfl .nil
      | refStruct => exact .free rfl (.free rfl .nil)
      | recordFlavour => exact .free rfl (.free rfl .nil)
    have hnamed : Nested false .rightBrace (name :: row) := .free (isFree_of_name? hname) hrow.nested
    exact (nested_of_attributeLists lists).append (hmods.append (hintro.append hnamed))

end Nesting

/-! ## Reading up to a body -/

namespace Reader

variable {scope bodyScope : Scope} {owner name : String} {mods : List Keyword} {start : Span} {ts rest : List Token}

/-- Attribute lists are passed. -/
theorem skipAttributes_append {us : List Token} (h : AttributeLists (us.map Token.kind))
    (hr : ¬ atMark .leftBracket rest = true) : skipAttributes (us ++ rest) = .done () rest := by
  generalize hks : us.map Token.kind = ks at h
  induction h generalizing us with
  | nil =>
    rw [List.map_eq_nil_iff.mp hks, List.nil_append, skipAttributes, if_neg hr]
  | cons balanced _ ih =>
    obtain ⟨o, us, rfl, ho, hus⟩ := List.map_eq_cons_iff.mp hks
    obtain ⟨content, us, rfl, hcontent, hus⟩ := List.map_eq_append_iff.mp hus
    obtain ⟨c, us, rfl, hc, hus⟩ := List.map_eq_cons_iff.mp hus
    have hts : o :: (content ++ c :: us) ++ rest = o :: (content ++ c :: (us ++ rest)) := by simp
    have hmark : atMark .leftBracket (o :: (content ++ c :: (us ++ rest))) = true := by simp [atMark, front, ho]
    have hgroup := Nesting.skipGroup_of_balanced rfl ho hc (hcontent ▸ balanced) (us ++ rest)
    rw [hts, skipAttributes, if_pos hmark, hgroup]
    exact ih hus

/-- Modifiers are read as such. -/
theorem modifiers_append {us : List Token} {ms : List Modifier} (hu : us.map Token.kind = modifierTokens ms)
    (rest : List Token) :
    modifiers (us ++ rest) = (modifierKeywords ms ++ (modifiers rest).1, (modifiers rest).2) := by
  induction ms generalizing us with
  | nil =>
    rw [List.map_eq_nil_iff.mp hu]
    rfl
  | cons m ms ih =>
    obtain ⟨t, us, rfl, ht, hus⟩ := List.map_eq_cons_iff.mp hu
    rw [List.cons_append, modifiers, ht]
    simp only [m.2, if_true, ih hus]
    rfl

theorem isModifier_of_map_eq {us : List Token} {ms : List Modifier} (hu : us.map Token.kind = modifierTokens ms) :
    ∀ t ∈ us, IsModifier t := by
  intro t ht
  have hmem : t.kind ∈ modifierTokens ms := hu ▸ List.mem_map_of_mem ht
  obtain ⟨m, -, hm⟩ := List.mem_map.mp hmem
  exact .inl ⟨m.1, hm.symm, m.2⟩

/-- Behind attribute lists and modifiers a declaration is read from its keyword on. -/
theorem item_of_beginsDeclaration (inner : Option Reader) (scope : Scope) (owner : String)
    {attributes passed own : List Token} (lists : AttributeLists (attributes.map Token.kind))
    (hp : ∀ t ∈ passed, IsModifier t) (hb : BeginsDeclaration (front own).kind) :
    item inner scope owner (attributes ++ (passed ++ own)) =
      declaration inner scope owner (modifiers (passed ++ own)).1 (front (passed ++ own)).span
        (modifiers (passed ++ own)).2 := by
  have hword : ¬ atMark .leftBracket (passed ++ own) = true ∧ ¬ atBodyEnd (passed ++ own) = true := by
    rcases keyword_or_ref hp hb with ⟨k, hk⟩ | hk <;> simp [atMark, atBodyEnd, atEnd, hk]
  have hdirective : atDirective (attributes ++ (passed ++ own)) = false := by
    cases attributes with
    | nil =>
      rw [List.nil_append]
      exact not_atDirective hp hb
    | cons o attributes =>
      rw [Bool.eq_false_iff]
      intro hd
      refine not_atMark_of_atDirective hd ?_
      generalize hks : (o :: attributes).map Token.kind = ks at lists
      cases lists with
      | nil => cases hks
      | cons => simp [atMark, front, (List.cons.inj hks).1]
  rw [item_eq, hdirective, skipAttributes_append lists hword.1, if_neg (by simp)]
  exact if_neg hword.2

/-- Reads the body of a namespace or a type with a body in braces, which stand here. -/
def namedBody (inner : Option Reader) (bodyScope : Scope) (kind : DeclarationKind) (name : String)
    (mods : List Keyword) (start : Span) (ts : List Token) : Step Found :=
  match inner with
  | none => .fail .nestedTooDeeply (front ts).span ts
  | some reader => (inBraces reader bodyScope name ts).andThen fun (found, stop) left =>
      .done (found.wrap kind name mods (start.merge stop)) (skipMark .semicolon left)

/-- A declaration begins with the tokens `header`, which are read up to a body in braces for `bodyScope`. -/
structure ReadsHeader (scope bodyScope : Scope) (header : List Token) : Prop where
  starts : Starts header
  read : ∀ owner rest, atMark .leftBrace rest = true → ∃ kind name mods start, ∀ inner,
    item inner scope owner (header ++ rest) = namedBody inner bodyScope kind name mods start rest

theorem starts_append {attributes passed own : List Token} (lists : AttributeLists (attributes.map Token.kind))
    (hp : ∀ t ∈ passed, IsModifier t) (hb : BeginsDeclaration (front own).kind) :
    Starts (attributes ++ (passed ++ own)) := by
  cases attributes with
  | nil =>
    rcases keyword_or_ref hp hb with ⟨k, hk⟩ | hk
    · exact Token.starts_of_front hk (by simp) (by simp)
    · exact Token.starts_of_front hk (by simp) (by simp)
  | cons o attributes =>
    generalize hks : (o :: attributes).map Token.kind = ks at lists
    cases lists with
    | nil => cases hks
    | cons =>
      have ho : o.kind = .punctuation .leftBracket := (List.cons.inj hks).1
      exact Token.starts_of_front ho (by simp) (by rintro p ⟨⟩; decide)

/-! ## Namespaces -/

/-- A dotted name goes on up to the first token that is no dot. -/
theorem exists_dottedName {us : List Token} {ks : List TokenKind} (hks : ∀ k ∈ ks, k.name?.isSome = true)
    (hu : us.map Token.kind = ks.flatMap fun k => [.punctuation .dot, k]) (name : String)
    (hr : atMark .dot rest = false) : ∃ s, dottedName name (us ++ rest) = .done s rest := by
  induction ks generalizing us name with
  | nil =>
    rw [List.map_eq_nil_iff.mp hu, List.nil_append, dottedName, if_neg (by simp [hr])]
    exact ⟨name, rfl⟩
  | cons k ks ih =>
    rw [List.forall_mem_cons] at hks
    obtain ⟨dot, us, rfl, hdot, hus⟩ := List.map_eq_cons_iff.mp hu
    obtain ⟨t, us, rfl, ht, hus⟩ := List.map_eq_cons_iff.mp hus
    obtain ⟨n, hn⟩ := Option.isSome_iff_exists.mp hks.1
    have hm : atMark .dot (dot :: t :: (us ++ rest)) = true := by simp [atMark, front, hdot]
    have hfront : (front (t :: (us ++ rest))).kind.name? = some n := by rw [← hn, ← ht]; rfl
    rw [List.cons_append, List.cons_append, dottedName, if_pos hm, List.tail_cons]
    simp only [hfront]
    exact ih hks.2 hus _

theorem exists_qualifiedName {us : List Token} {k : TokenKind} {ks : List TokenKind} (hname : k.name?.isSome = true)
    (hmore : ∀ k ∈ ks, k.name?.isSome = true) (hu : us.map Token.kind = nameKinds k ks)
    (hr : atMark .dot rest = false) : ∃ s, qualifiedName (us ++ rest) = .done s rest := by
  obtain ⟨t, us, rfl, rfl, hus⟩ := List.map_eq_cons_iff.mp hu
  obtain ⟨n, hn⟩ := Option.isSome_iff_exists.mp hname
  obtain ⟨s, hs⟩ := exists_dottedName hmore hus n hr
  have hfront : (front (t :: (us ++ rest))).kind.name? = some n := hn
  refine ⟨s, ?_⟩
  rw [List.cons_append, qualifiedName, Step.name]
  simp only [hfront]
  exact hs

/-- Outside of types the header of a namespace is read up to what ends it: a body in braces, or a semicolon. -/
theorem item_namespaceHeader (hscope : scope ≠ .typeBody) {header : List Token}
    (h : NamespaceHeader (header.map Token.kind)) : Starts header ∧ ∀ owner rest, atMark .dot rest = false →
      ∃ name start, ∀ inner, item inner scope owner (header ++ rest) = namespaceEnd inner scope name start rest := by
  generalize hks : header.map Token.kind = ks at h
  cases h with
  | mk lists hname hmore =>
    obtain ⟨attributes, own, rfl, rfl, hown⟩ := List.map_eq_append_iff.mp hks
    obtain ⟨t, words, rfl, ht, hwords⟩ := List.map_eq_cons_iff.mp hown
    have hb (us : List Token) : BeginsDeclaration (front (t :: us)).kind :=
      ⟨.namespaceKw, ht, by decide, by decide⟩
    have hp : ∀ u ∈ ([] : List Token), IsModifier u := by simp
    refine ⟨starts_append lists hp (hb words), fun owner rest hr => ?_⟩
    obtain ⟨name, hqualified⟩ := exists_qualifiedName hname hmore hwords hr
    have hmods : modifiers (t :: (words ++ rest)) = ([], t :: (words ++ rest)) := by
      simp [modifiers, ht, show Keyword.namespaceKw.isModifier = false from rfl]
    refine ⟨name, t.span, fun inner => ?_⟩
    have hitem := item_of_beginsDeclaration inner scope owner lists hp (hb (words ++ rest))
    rw [List.append_assoc, List.cons_append]
    rw [List.nil_append, hmods] at hitem
    rw [hitem]
    have hdeclaration : declaration inner scope owner [] (front (t :: (words ++ rest))).span (t :: (words ++ rest)) =
        namespaceDeclaration inner scope t.span (t :: (words ++ rest)) := by
      simp [declaration, front, ht, TokenKind.keyword?, typeKind?, atRecord, atKeyword, hscope]
    rw [hdeclaration, namespaceDeclaration_eq, List.tail_cons, hqualified]
    rfl

/-- Outside of types the header of a namespace is read up to its body. -/
theorem readsHeader_namespace (hscope : scope ≠ .typeBody) {header : List Token}
    (h : NamespaceHeader (header.map Token.kind)) : ReadsHeader scope .namespaceBody header := by
  obtain ⟨hstarts, hread⟩ := item_namespaceHeader hscope h
  refine ⟨hstarts, fun owner rest hr => ?_⟩
  have hkind := Token.kind_of_atMark hr
  have hsemicolon : atMark .semicolon rest = false := by simp [atMark, hkind]
  obtain ⟨name, start, hitem⟩ := hread owner rest (by simp [atMark, hkind])
  refine ⟨.namespaceBlock, name, [], start, fun inner => ?_⟩
  rw [hitem]
  simp only [namespaceEnd, hsemicolon, hr, Bool.false_and, Bool.false_eq_true, if_false, if_true]
  rfl

/-! ## Types -/

/-- The tokens `row` are passed in the header of a type up to the brace that opens its body. -/
def PassedToBody (row : List Token) : Prop :=
  ∀ rest, atMark .leftBrace rest = true → Nesting.skipUntil endsHeader true (row ++ rest) = .done () rest

theorem passedToBody_of_row {row : List Token} (hrow : Row endsHeader true (row.map Token.kind)) :
    PassedToBody row := by
  intro rest hr
  have hstop : Nesting.skipUntil endsHeader true rest = .done () rest := by
    rw [Nesting.skipUntil, if_pos (by simp [Token.kind_of_atMark hr, TokenKind.punctuation?, endsHeader])]
  exact (Nesting.skipUntil_of_row hrow rfl rest).trans hstop

/-- What is passed up to one brace is passed up to any. -/
theorem passedToBody_of_brace {row : List Token} {o : Token} (ho : o.kind = .punctuation .leftBrace)
    (h : Nesting.skipUntil endsHeader true (row ++ [o]) = .done () [o]) : PassedToBody row := by
  intro rest hr
  have hok : (Nesting.skipUntil endsHeader true (row ++ [o])).result = .ok () := by rw [h]; rfl
  obtain ⟨used, hused, hreads⟩ := Nesting.reads_skipUntil hok
  rw [h] at hused hreads
  obtain rfl : row = used := List.append_cancel_right hused
  have hfront : (front rest).kind = (front [o]).kind := (Token.kind_of_atMark hr).trans ho.symm
  exact hreads.again rest hfront

/-- Behind its keyword and its name, the header of a type is passed up to the body. -/
theorem typeDeclaration_append (inner : Option Reader) {kind : TypeKind} (hkind : kind ≠ .enumType)
    {t nameToken : Token} {row : List Token} (hname : nameToken.kind.name? = some name)
    (hrow : PassedToBody row) (hr : atMark .leftBrace rest = true) :
    typeDeclaration inner kind mods start (t :: nameToken :: (row ++ rest)) =
      namedBody inner .typeBody (.type kind) name mods start rest := by
  have hword : Step.name (.typeName kind) (nameToken :: (row ++ rest)) = .done name (row ++ rest) := by
    simp [Step.name, front, hname]
  have hskip : Nesting.skipUntil (fun p => p == .leftBrace || p == .semicolon) true (row ++ rest) = .done () rest :=
    hrow rest hr
  have hsemicolon : atMark .semicolon rest = false := by simp [atMark, Token.kind_of_atMark hr]
  rw [typeDeclaration_eq, List.tail_cons, hword]
  simp only [Step.andThen, Step.done, hskip, typeEnd, hsemicolon, hr, Bool.false_eq_true, if_false, if_true]
  have hnot : (kind == .enumType) = false := by simpa using hkind
  cases inner <;> simp only [typeBody, hnot, Bool.false_eq_true, if_false] <;> rfl

theorem isModifier_typeKeyword (kind : TypeKind) : (Written.typeKeyword kind).isModifier = false := by
  cases kind <;> rfl

theorem beginsDeclaration_typeKeyword (kind : TypeKind) : BeginsDeclaration (.keyword (Written.typeKeyword kind)) :=
  ⟨_, rfl, by cases kind <;> decide, by cases kind <;> decide⟩

/-- The words that introduce a type, with a name behind them, begin its declaration. A `ref` in front of them is passed
with the modifiers. -/
theorem exists_introduced {kind : TypeKind} {intro : List Token} (h : Introduces kind (intro.map Token.kind)) :
    ∃ passed own, intro = passed ++ own ∧ (∀ t ∈ passed, IsModifier t) ∧ BeginsDeclaration (front own).kind ∧
      own ≠ [] ∧ (∀ us, modifiers (passed ++ (own ++ us)) = ([], own ++ us)) ∧
      ∀ inner scope owner mods start nameToken us, nameToken.kind.name?.isSome = true →
        ∃ t, declaration inner scope owner mods start (own ++ nameToken :: us) =
          typeDeclaration inner kind mods start (t :: nameToken :: us) := by
  generalize hks : intro.map Token.kind = ks at h
  cases h with
  | keyword =>
    obtain ⟨t, us, rfl, ht, hus⟩ := List.map_eq_cons_iff.mp hks
    obtain rfl := List.map_eq_nil_iff.mp hus
    have hb : BeginsDeclaration t.kind := ht ▸ beginsDeclaration_typeKeyword kind
    refine ⟨[], [t], rfl, by simp, hb, by simp, fun us => ?_, ?_⟩
    · simp [modifiers, ht, isModifier_typeKeyword]
    · intro inner scope owner mods start nameToken us hname
      have hclass : nameToken.kind ≠ .keyword .classKw := fun hk => absurd (hk ▸ hname) (by decide)
      have hstruct : nameToken.kind ≠ .keyword .structKw := fun hk => absurd (hk ▸ hname) (by decide)
      refine ⟨t, ?_⟩
      cases kind <;> simp [declaration, front, second, ht, hname, hclass, hstruct, TokenKind.keyword?,
        Written.typeKeyword, typeKind?, atRecord, atRecordFlavour, atKeyword]
  | refStruct =>
    obtain ⟨r, us, rfl, hr, hus⟩ := List.map_eq_cons_iff.mp hks
    obtain ⟨t, us, rfl, ht, hus⟩ := List.map_eq_cons_iff.mp hus
    obtain rfl := List.map_eq_nil_iff.mp hus
    refine ⟨[r], [t], rfl, by simpa using .inr hr, ⟨_, ht, by decide, by decide⟩, by simp, fun us => ?_, ?_⟩
    · simp [modifiers, hr, ht, atKeyword, front, show Keyword.structKw.isModifier = false from rfl]
    · intro inner scope owner mods start nameToken us hname
      exact ⟨t, by simp [declaration, front, ht, TokenKind.keyword?, typeKind?]⟩
  | @recordFlavour k hk =>
    obtain ⟨r, us, rfl, hr, hus⟩ := List.map_eq_cons_iff.mp hks
    obtain ⟨t, us, rfl, ht, hus⟩ := List.map_eq_cons_iff.mp hus
    obtain rfl := List.map_eq_nil_iff.mp hus
    refine ⟨[], [r, t], rfl, by simp, ⟨_, hr, by decide, by decide⟩, by simp, fun us => ?_, ?_⟩
    · simp [modifiers, hr, show Keyword.recordKw.isModifier = false from rfl]
    · intro inner scope owner mods start nameToken us hname
      refine ⟨t, ?_⟩
      rcases hk with rfl | rfl <;>
        simp [declaration, front, second, hr, ht, TokenKind.keyword?, typeKind?, atRecord, atRecordFlavour, atKeyword]

/-- A type is read up to its body: its attribute lists, its modifiers, the words that introduce it, its name and
whatever is passed behind that. -/
theorem readsHeader_typeTokens {kind : TypeKind} (hkind : kind ≠ .enumType) (scope : Scope)
    {attributes words intro row : List Token} {nameToken : Token} {ms : List Modifier}
    (lists : AttributeLists (attributes.map Token.kind)) (hwords : words.map Token.kind = modifierTokens ms)
    (introduces : Introduces kind (intro.map Token.kind)) (hname : nameToken.kind.name?.isSome = true)
    (hrow : PassedToBody row) :
    ReadsHeader scope .typeBody (attributes ++ (words ++ (intro ++ nameToken :: row))) := by
  obtain ⟨passed, own, rfl, hpassed, hb, hne, hmods, hdeclaration⟩ := exists_introduced introduces
  obtain ⟨name, hn⟩ := Option.isSome_iff_exists.mp hname
  have hp : ∀ t ∈ words ++ passed, IsModifier t := by
    intro t ht
    exact (List.mem_append.mp ht).elim (isModifier_of_map_eq hwords t) (hpassed t)
  have hbegins (us : List Token) : BeginsDeclaration (front (own ++ us)).kind := by rwa [Token.front_append hne]
  refine ⟨?_, fun owner rest hr => ?_⟩
  · have hsplit : words ++ (passed ++ own ++ nameToken :: row) = words ++ passed ++ (own ++ nameToken :: row) := by
      simp
    rw [hsplit]
    exact starts_append lists hp (hbegins _)
  · have hsplit : attributes ++ (words ++ (passed ++ own ++ nameToken :: row)) ++ rest =
        attributes ++ (words ++ passed ++ (own ++ nameToken :: (row ++ rest))) := by simp
    have hread := modifiers_append hwords (passed ++ (own ++ nameToken :: (row ++ rest)))
    rw [hmods, ← List.append_assoc, List.append_nil] at hread
    refine ⟨.type kind, name, modifierKeywords ms,
      (front (words ++ passed ++ (own ++ nameToken :: (row ++ rest)))).span, fun inner => ?_⟩
    obtain ⟨t, ht⟩ := hdeclaration inner scope owner (modifierKeywords ms) _ nameToken (row ++ rest) hname
    rw [hsplit, item_of_beginsDeclaration inner scope owner lists hp (hbegins _), hread, ht]
    exact typeDeclaration_append inner hkind hn hrow hr

/-- The header of a type is read up to its body. -/
theorem readsHeader_type {kind : TypeKind} (hkind : kind ≠ .enumType) (scope : Scope) {header : List Token}
    (h : TypeHeader kind (header.map Token.kind)) : ReadsHeader scope .typeBody header := by
  generalize hks : header.map Token.kind = ks at h
  cases h with
  | @mk _ _ _ ms _ lists introduces hname hrow =>
    obtain ⟨attributes, own, rfl, hattributes, hown⟩ := List.map_eq_append_iff.mp hks
    obtain ⟨words, own, rfl, hwords, hown⟩ := List.map_eq_append_iff.mp hown
    obtain ⟨intro, own, rfl, hintro, hown⟩ := List.map_eq_append_iff.mp hown
    obtain ⟨nameToken, row, rfl, rfl, rfl⟩ := List.map_eq_cons_iff.mp hown
    exact readsHeader_typeTokens hkind scope (hattributes ▸ lists) hwords (hintro ▸ introduces) hname
      (passedToBody_of_row hrow)

end Reader

end TestScaffold
