import TestScaffold.Proofs.Declaration.Preorder
import TestScaffold.Proofs.Reading.Bodies
import TestScaffold.Proofs.Reading.Places
import TestScaffold.Proofs.Reading.Written

/-!
# Reading what has been written

A text that is spelled in tokens declares what it was written to declare. Each written form has an equation that
says what reading makes of it and that the reading ends right behind it; lists of declarations are read by
induction on how they are written, with one level of nesting spent on each body.

Results:
* `Written.item_member`, `Written.item_item`: one written declaration is read in full, and nothing behind it.
* `Written.readDeclarations_tokens`: a written text declares exactly what it says.
* `Written.headings_ofTokens_itemTokens`: its tree lists these declarations in their order, and nothing else.
-/

namespace TestScaffold.Written

open Token (front second atEnd atMark atKeyword atIdentifier atBodyEnd skipMark Follows)
open Nesting (skipGroup skipUntil skipToSemicolon)
open Reader (readFrom ofLevels below read_ofLevels item declaration typeDeclaration dottedName)

/-- Tokens without places. -/
def bare (ks : List TokenKind) : List Token := ks.map fun k => ⟨k, .zero⟩

@[simp] theorem bare_nil : bare [] = [] := rfl

@[simp] theorem bare_cons (k : TokenKind) (ks : List TokenKind) : bare (k :: ks) = ⟨k, .zero⟩ :: bare ks := rfl

@[simp] theorem bare_append (ks ls : List TokenKind) : bare (ks ++ ls) = bare ks ++ bare ls := List.map_append

@[simp] theorem map_kind_bare (ks : List TokenKind) : (bare ks).map Token.kind = ks := by
  simp [bare, Function.comp_def]

theorem map_unplaced_eq_bare (ts : List Token) : ts.map Token.unplaced = bare (ts.map Token.kind) := by
  simp [bare, Function.comp_def, Token.unplaced]

theorem merge_zero : Span.zero.merge .zero = .zero := rfl

/-! ## Groups -/

theorem skipGroup_inParens (content : Content) (rest : List Token) :
    skipGroup (bare (inParens content.1) ++ rest) = .done .zero rest := by
  have hb : Nesting.Balanced (fun _ => true) ((bare content.1).map Token.kind) := by
    rw [map_kind_bare]
    exact content.2
  have hs := @Nesting.skipGroup_of_balanced _ .leftParen .rightParen rfl ⟨_, .zero⟩ ⟨_, .zero⟩ rfl rfl _ hb rest
  simpa [inParens, merge_zero] using hs

theorem skipGroup_inBraces (content : Content) (rest : List Token) :
    skipGroup (bare (inBraces content.1) ++ rest) = .done .zero rest := by
  have hb : Nesting.Balanced (fun _ => true) ((bare content.1).map Token.kind) := by
    rw [map_kind_bare]
    exact content.2
  have hs := @Nesting.skipGroup_of_balanced _ .leftBrace .rightBrace rfl ⟨_, .zero⟩ ⟨_, .zero⟩ rfl rfl _ hb rest
  simpa [inBraces, merge_zero] using hs

/-- A field ends behind its semicolon, whether or not it has an initializer. -/
theorem skipToSemicolon_valueTokens (value : Option Value) (rest : List Token) :
    skipToSemicolon (bare (valueTokens value) ++ rest) = .done .zero rest := by
  cases value with
  | none =>
    have hskip : skipUntil (· == .semicolon) false (⟨.punctuation .semicolon, .zero⟩ :: rest)
        = .done () (⟨.punctuation .semicolon, .zero⟩ :: rest) := by
      rw [skipUntil]
      simp [front, TokenKind.punctuation?]
    simp [valueTokens, skipToSemicolon, hskip, Step.andThen, Step.done, atMark, front]
  | some value =>
    have hb : Nesting.Balanced (· != .punctuation .semicolon) ((bare value.1).map Token.kind) := by
      rw [map_kind_bare]
      exact value.2
    have hs := @Nesting.skipToSemicolon_of_balanced ⟨.punctuation .equals, .zero⟩ ⟨.punctuation .semicolon, .zero⟩
      rfl (by simp) rfl _ hb rest
    simpa [valueTokens, merge_zero] using hs

/-! ## Heads and rests of members -/

/-- A mark that decides the kind of a member is left in place. -/
theorem read_head_of_decides {h : Head} {p : Punctuation} (hp : h.turn p = .decides) (hb : p ≠ .rightBrace)
    (s : Span) (us : List Token) :
    h.read (⟨.punctuation p, s⟩ :: us) = .done h (⟨.punctuation p, s⟩ :: us) := by
  rw [Head.read]
  simp [atBodyEnd, atEnd, atMark, front, TokenKind.punctuation?, hp, hb]

theorem read_head_identifier (h : Head) (name : String) (s : Span) (us : List Token) :
    h.read (⟨.identifier name, s⟩ :: us) = (h.note (.identifier name)).read us := by
  rw [Head.read]
  simp [atBodyEnd, atEnd, atMark, front, TokenKind.punctuation?]

theorem note_identifier {h : Head} (ho : h.isOperator = false) (name : String) :
    h.note (.identifier name) = { h with name := some name, names := h.names + 1 } := by
  simp [Head.note, ho]

theorem methodRest_tokens (parameters body : Content) (rest : List Token) :
    Member.methodRest (bare (inParens parameters.1) ++ (bare (inBraces body.1) ++ rest)) = .done .zero rest := by
  have hskip : skipUntil (fun p => p == .leftBrace || p == .fatArrow || p == .semicolon) true
      (bare (inBraces body.1) ++ rest) = .done () (bare (inBraces body.1) ++ rest) := by
    rw [skipUntil]
    simp [inBraces, front, TokenKind.punctuation?]
  have hmark : atMark .leftBrace (bare (inBraces body.1) ++ rest) = true := rfl
  unfold Member.methodRest
  rw [skipGroup_inParens]
  simp only [Step.andThen, Step.done, hskip, hmark, if_true]
  rw [skipGroup_inBraces]
  rfl

theorem propertyRest_tokens (accessors : Content) {rest : List Token} (hr : atMark .equals rest = false) :
    Member.propertyRest (bare (inBraces accessors.1) ++ rest) = .done .zero rest := by
  unfold Member.propertyRest
  rw [skipGroup_inBraces]
  simp [Step.andThen, Step.done, hr]

/-- Behind the modifiers, a method declares its name. -/
theorem read_method (owner : String) (mods : List Keyword) (returns name : String) (parameters body : Content)
    (rest : List Token) :
    Member.read owner mods .zero none (⟨.identifier returns, .zero⟩ :: ⟨.identifier name, .zero⟩ ::
      (bare (inParens parameters.1) ++ (bare (inBraces body.1) ++ rest)))
      = .done ⟨.method, name, mods, .zero, []⟩ rest := by
  have hhead : Head.read {} (⟨.identifier returns, .zero⟩ :: ⟨.identifier name, .zero⟩ ::
      (bare (inParens parameters.1) ++ (bare (inBraces body.1) ++ rest)))
      = .done { name := some name, names := 2 }
          (bare (inParens parameters.1) ++ (bare (inBraces body.1) ++ rest)) := by
    rw [read_head_identifier, read_head_identifier, note_identifier rfl, note_identifier rfl]
    exact read_head_of_decides rfl (by simp) _ _
  have hrest : Member.rest (bare (inParens parameters.1) ++ (bare (inBraces body.1) ++ rest)) = .done .zero rest :=
    methodRest_tokens parameters body rest
  unfold Member.read
  rw [hhead]
  simp only [Step.andThen, Step.done]
  rw [hrest]
  rfl

/-- A single name before a parenthesis, being that of the type around it, makes a constructor. -/
theorem read_constructor (owner : String) (mods : List Keyword) (parameters body : Content) (rest : List Token) :
    Member.read owner mods .zero none (⟨.identifier owner, .zero⟩ ::
      (bare (inParens parameters.1) ++ (bare (inBraces body.1) ++ rest)))
      = .done ⟨.constructor, owner, mods, .zero, []⟩ rest := by
  have hhead : Head.read {} (⟨.identifier owner, .zero⟩ ::
      (bare (inParens parameters.1) ++ (bare (inBraces body.1) ++ rest)))
      = .done { name := some owner, names := 1 }
          (bare (inParens parameters.1) ++ (bare (inBraces body.1) ++ rest)) := by
    rw [read_head_identifier, note_identifier rfl]
    exact read_head_of_decides rfl (by simp) _ _
  have hkind : Head.kind { name := some owner, names := 1 } owner
      (bare (inParens parameters.1) ++ (bare (inBraces body.1) ++ rest)) = .constructor := by
    simp [Head.kind, inParens, atMark, front]
  have hrest : Member.rest (bare (inParens parameters.1) ++ (bare (inBraces body.1) ++ rest)) = .done .zero rest :=
    methodRest_tokens parameters body rest
  unfold Member.read
  rw [hhead]
  simp only [Step.andThen, Step.done]
  rw [hrest, hkind]
  rfl

/-- A property declares its name, unless what follows it would be its initializer. -/
theorem read_property (owner : String) (mods : List Keyword) (type name : String) (accessors : Content)
    {rest : List Token} (hr : atMark .equals rest = false) :
    Member.read owner mods .zero none (⟨.identifier type, .zero⟩ :: ⟨.identifier name, .zero⟩ ::
      (bare (inBraces accessors.1) ++ rest)) = .done ⟨.property, name, mods, .zero, []⟩ rest := by
  have hhead : Head.read {} (⟨.identifier type, .zero⟩ :: ⟨.identifier name, .zero⟩ ::
      (bare (inBraces accessors.1) ++ rest))
      = .done { name := some name, names := 2 } (bare (inBraces accessors.1) ++ rest) := by
    rw [read_head_identifier, read_head_identifier, note_identifier rfl, note_identifier rfl]
    exact read_head_of_decides rfl (by simp) _ _
  have hrest : Member.rest (bare (inBraces accessors.1) ++ rest) = .done .zero rest :=
    propertyRest_tokens accessors hr
  unfold Member.read
  rw [hhead]
  simp only [Step.andThen, Step.done]
  rw [hrest]
  rfl

/-- A field declares its name. -/
theorem read_field (owner : String) (mods : List Keyword) (type name : String) (value : Option Value)
    (rest : List Token) :
    Member.read owner mods .zero none (⟨.identifier type, .zero⟩ :: ⟨.identifier name, .zero⟩ ::
      (bare (valueTokens value) ++ rest)) = .done ⟨.field, name, mods, .zero, []⟩ rest := by
  have hhead : Head.read {} (⟨.identifier type, .zero⟩ :: ⟨.identifier name, .zero⟩ ::
      (bare (valueTokens value) ++ rest))
      = .done { name := some name, names := 2 } (bare (valueTokens value) ++ rest) := by
    rw [read_head_identifier, read_head_identifier, note_identifier rfl, note_identifier rfl]
    cases value with
    | none => exact read_head_of_decides rfl (by simp) _ _
    | some value => exact read_head_of_decides rfl (by simp) _ _
  have hkind : Head.kind { name := some name, names := 2 } owner (bare (valueTokens value) ++ rest) = .field := by
    cases value <;> simp [Head.kind, valueTokens, atMark, front]
  have hrest : Member.rest (bare (valueTokens value) ++ rest) = .done .zero rest := by
    have hskip := skipToSemicolon_valueTokens value rest
    cases value <;> exact hskip
  unfold Member.read
  rw [hhead]
  simp only [Step.andThen, Step.done]
  rw [hrest, hkind]
  rfl

/-! ## What stands in front -/

@[simp] theorem modifierTokens_cons (m : Modifier) (ms : List Modifier) :
    modifierTokens (m :: ms) = .keyword m.1 :: modifierTokens ms := rfl

@[simp] theorem modifierKeywords_cons (m : Modifier) (ms : List Modifier) :
    modifierKeywords (m :: ms) = m.1 :: modifierKeywords ms := rfl

theorem modifiers_modifierTokens (ms : List Modifier) {us : List Token} (hu : Reader.modifiers us = ([], us)) :
    Reader.modifiers (bare (modifierTokens ms) ++ us) = (modifierKeywords ms, us) := by
  induction ms with
  | nil => exact hu
  | cons m ms ih => simp [Reader.modifiers, m.2, ih]

/-- Behind its modifiers, a declaration begins with the keyword of a type or a namespace, or, inside a type, with
a name that no such keyword follows. -/
def Begins (scope : Scope) : (first : TokenKind) → (rest : List Token) → Prop
  | .keyword k, _ => k.isModifier = false ∧ k ≠ .usingKw
  | .identifier _, rest => scope = .typeBody ∧ atKeyword .structKw rest = false
  | _, _ => False

theorem modifiers_of_begins {scope : Scope} {k : TokenKind} {s : Span} {us : List Token} (h : Begins scope k us) :
    Reader.modifiers (⟨k, s⟩ :: us) = ([], ⟨k, s⟩ :: us) := by
  cases k with
  | keyword k => simp [Reader.modifiers, h.1]
  | identifier name => simp [Reader.modifiers, h.2]
  | _ => exact absurd h id

theorem atDirective_of_begins {scope : Scope} {k : TokenKind} {us : List Token} (h : Begins scope k us)
    (ms : List Modifier) :
    (scope != .typeBody && Reader.atDirective (bare (modifierTokens ms) ++ ⟨k, .zero⟩ :: us)) = false := by
  by_cases hs : scope = .typeBody
  · simp [hs]
  · obtain ⟨kw, rfl⟩ : ∃ kw, k = .keyword kw := by
      cases k with
      | keyword kw => exact ⟨kw, rfl⟩
      | identifier name => exact absurd h.1 hs
      | _ => exact absurd h id
    have hm {kw : Keyword} (hkw : kw.isModifier = true) : kw ≠ .usingKw := by
      rintro rfl
      exact absurd hkw (by decide)
    rcases ms with - | ⟨m, - | ⟨m', ms⟩⟩
    · have hne : kw ≠ .externKw := by rintro rfl; exact absurd h.1 (by decide)
      simp [Reader.atDirective, atKeyword, atIdentifier, front, modifierTokens, h.2, hne]
    · simp [Reader.atDirective, atKeyword, atIdentifier, front, second, modifierTokens, hm m.2]
    · simp [Reader.atDirective, atKeyword, atIdentifier, front, second, hm m.2]

/-- What stands in front of a declaration, and its first token, are neither a directive nor attributes, and do not
end the list. -/
theorem item_of_begins (inner : Option Reader) {scope : Scope} (owner : String) (ms : List Modifier)
    {k : TokenKind} {us : List Token} (h : Begins scope k us) :
    item inner scope owner (bare (modifierTokens ms) ++ ⟨k, .zero⟩ :: us)
      = declaration inner scope owner (modifierKeywords ms) .zero (⟨k, .zero⟩ :: us) := by
  have hfront : atMark .leftBracket (bare (modifierTokens ms) ++ ⟨k, .zero⟩ :: us) = false
      ∧ atBodyEnd (bare (modifierTokens ms) ++ ⟨k, .zero⟩ :: us) = false
      ∧ (front (bare (modifierTokens ms) ++ ⟨k, .zero⟩ :: us)).span = .zero := by
    cases ms with
    | nil => cases k <;> simp_all [Begins, modifierTokens, atMark, atBodyEnd, atEnd, front]
    | cons m ms => simp [atMark, atBodyEnd, atEnd, front]
  obtain ⟨hattr, hend, hspan⟩ := hfront
  have hskip : Reader.skipAttributes (bare (modifierTokens ms) ++ ⟨k, .zero⟩ :: us)
      = .done () (bare (modifierTokens ms) ++ ⟨k, .zero⟩ :: us) := by
    rw [Reader.skipAttributes]
    simp [hattr]
  unfold item
  rw [atDirective_of_begins h, hskip]
  simp only [Step.andThen, Step.done, hend, hspan, modifiers_modifierTokens ms (modifiers_of_begins h),
    Bool.false_eq_true, if_false]

/-! ## Declarations -/

/-- Inside a type, modifiers and a name begin a member. -/
theorem item_identifier (inner : Option Reader) (owner : String) (ms : List Modifier) (name : String)
    {us : List Token} (hu : atKeyword .structKw us = false) :
    item inner .typeBody owner (bare (modifierTokens ms) ++ ⟨.identifier name, .zero⟩ :: us)
      = Reader.member owner (modifierKeywords ms) .zero none (⟨.identifier name, .zero⟩ :: us) := by
  have hk : Begins .typeBody (.identifier name) us := ⟨rfl, hu⟩
  rw [item_of_begins inner owner ms hk]
  simp [declaration, front, TokenKind.keyword?, Reader.atRecord, atKeyword]

theorem begins_typeKeyword (scope : Scope) (kind : TypeKind) (us : List Token) :
    Begins scope (.keyword (typeKeyword kind)) us := by
  cases kind <;> exact ⟨rfl, by simp [typeKeyword]⟩

/-- Wherever they stand, modifiers, the keyword of a type and a name begin this type. -/
theorem item_typeKeyword (inner : Option Reader) (scope : Scope) (owner : String) (ms : List Modifier)
    (kind : TypeKind) (name : String) (us : List Token) :
    item inner scope owner (bare (modifierTokens ms)
        ++ ⟨.keyword (typeKeyword kind), .zero⟩ :: ⟨.identifier name, .zero⟩ :: us)
      = typeDeclaration inner kind (modifierKeywords ms) .zero
          (⟨.keyword (typeKeyword kind), .zero⟩ :: ⟨.identifier name, .zero⟩ :: us) := by
  rw [item_of_begins inner owner ms (begins_typeKeyword scope kind _)]
  cases kind <;> simp [declaration, front, second, TokenKind.keyword?, typeKeyword, Reader.typeKind?,
    Reader.atRecord, Reader.atRecordFlavour, atKeyword]

/-- Outside of types, the keyword of a namespace begins one. -/
theorem item_namespaceKw (inner : Option Reader) {scope : Scope} (hs : scope ≠ .typeBody) (owner : String)
    (us : List Token) : item inner scope owner (⟨.keyword .namespaceKw, .zero⟩ :: us)
      = Reader.namespaceDeclaration inner scope .zero (⟨.keyword .namespaceKw, .zero⟩ :: us) := by
  have hk : Begins scope (.keyword .namespaceKw) us := ⟨rfl, by simp⟩
  have hitem := item_of_begins inner owner [] hk
  simp only [modifierTokens, List.map_nil, bare_nil, List.nil_append] at hitem
  rw [hitem]
  simp [declaration, front, TokenKind.keyword?, Reader.typeKind?, Reader.atRecord, atKeyword, modifierKeywords, hs]

/-- A body in braces holds what the list inside it holds. -/
theorem inBraces_of_readFrom {levels : Nat} {scope : Scope} {owner : String} {body : List TokenKind} {found : Found}
    {rest : List Token}
    (h : readFrom (below levels) scope true owner {} (bare body ++ ⟨.punctuation .rightBrace, .zero⟩ :: rest)
      = ⟨found, ⟨.punctuation .rightBrace, .zero⟩ :: rest⟩) :
    Reader.inBraces (ofLevels levels) scope owner (bare (inBraces body) ++ rest) = .done (found, .zero) rest := by
  have hread : (ofLevels levels).read scope true owner (bare (inBraces body) ++ rest).tail
      = ⟨found, ⟨.punctuation .rightBrace, .zero⟩ :: rest⟩ := by
    rw [read_ofLevels, ← h]
    simp [inBraces]
  unfold Reader.inBraces
  simp only [hread]
  rfl

/-- A type declares itself around what its body holds. -/
theorem typeDeclaration_tokens {levels : Nat} {kind : TypeKind} (hasBody : kind ≠ .enumType) (mods : List Keyword)
    (name : String) {body : List TokenKind} {found : Found} {rest : List Token}
    (h : readFrom (below levels) .typeBody true name {} (bare body ++ ⟨.punctuation .rightBrace, .zero⟩ :: rest)
      = ⟨found, ⟨.punctuation .rightBrace, .zero⟩ :: rest⟩) (hr : Follows rest) :
    typeDeclaration (below (levels + 1)) kind mods .zero
        (⟨.keyword (typeKeyword kind), .zero⟩ :: ⟨.identifier name, .zero⟩ :: (bare (inBraces body) ++ rest))
      = .done (found.wrap (.type kind) name mods .zero) rest := by
  have hskip : skipUntil (fun p => p == .leftBrace || p == .semicolon) true (bare (inBraces body) ++ rest)
      = .done () (bare (inBraces body) ++ rest) := by
    rw [skipUntil]
    simp [inBraces, front, TokenKind.punctuation?]
  have hbody : Reader.typeBody (below (levels + 1)) kind name (bare (inBraces body) ++ rest)
      = .done (found, .zero) rest := by
    have hk : (kind == .enumType) = false := by simpa using hasBody
    simp only [Reader.typeBody, hk, below, Bool.false_eq_true, if_false]
    exact inBraces_of_readFrom h
  have hsemi : atMark .semicolon (bare (inBraces body) ++ rest) = false := rfl
  have hbrace : atMark .leftBrace (bare (inBraces body) ++ rest) = true := rfl
  unfold typeDeclaration
  simp only [Step.name, front, List.tail_cons, TokenKind.name?_identifier, Step.andThen, Step.done, hskip, hsemi,
    hbrace, hbody, skipMark, hr.1, merge_zero, Bool.false_eq_true, if_false, if_true]

/-- A dotted name goes on up to the first token that is no dot. Whatever may stand for a name may stand in it. -/
theorem dottedName_names (name : String) {ks : List TokenKind} {more : List String}
    (hks : ks.map TokenKind.name? = more.map some) {rest : List Token} (hr : atMark .dot rest = false) :
    dottedName name (bare (ks.flatMap fun k => [.punctuation .dot, k]) ++ rest)
      = .done (".".intercalate (name :: more)) rest := by
  induction ks generalizing name more with
  | nil =>
    obtain rfl : more = [] := List.map_eq_nil_iff.mp hks.symm
    rw [dottedName]
    simp [hr]
  | cons k ks ih =>
    obtain ⟨n, more, rfl, hn, hks⟩ := List.map_eq_cons_iff.mp hks.symm
    have hstep : dottedName name (bare ((k :: ks).flatMap fun k => [.punctuation .dot, k]) ++ rest)
        = dottedName s!"{name}.{n}" (bare (ks.flatMap fun k => [.punctuation .dot, k]) ++ rest) := by
      rw [dottedName]
      simp [atMark, front, hn.symm]
    rw [hstep, ih _ hks.symm]
    rfl

/-- A namespace declares itself around what its body holds. -/
theorem namespaceDeclaration_names {levels : Nat} {scope : Scope} {name : String} {more : List String}
    {k : TokenKind} (hk : k.name? = some name) {ks : List TokenKind} (hks : ks.map TokenKind.name? = more.map some)
    {body : List TokenKind} {found : Found} {rest : List Token}
    (h : readFrom (below levels) .namespaceBody true (".".intercalate (name :: more)) {}
      (bare body ++ ⟨.punctuation .rightBrace, .zero⟩ :: rest)
        = ⟨found, ⟨.punctuation .rightBrace, .zero⟩ :: rest⟩) (hr : Follows rest) :
    Reader.namespaceDeclaration (below (levels + 1)) scope .zero
        (⟨.keyword .namespaceKw, .zero⟩ :: ⟨k, .zero⟩
          :: (bare (ks.flatMap fun k => [.punctuation .dot, k]) ++ (bare (inBraces body) ++ rest)))
      = .done (found.wrap .namespaceBlock (".".intercalate (name :: more)) [] .zero) rest := by
  have hname : Reader.qualifiedName (⟨k, .zero⟩
      :: (bare (ks.flatMap fun k => [.punctuation .dot, k]) ++ (bare (inBraces body) ++ rest)))
      = .done (".".intercalate (name :: more)) (bare (inBraces body) ++ rest) := by
    unfold Reader.qualifiedName Step.name
    simp only [front, hk]
    exact dottedName_names name hks rfl
  have hsemi : atMark .semicolon (bare (inBraces body) ++ rest) = false := rfl
  have hbrace : atMark .leftBrace (bare (inBraces body) ++ rest) = true := rfl
  unfold Reader.namespaceDeclaration
  simp only [List.tail_cons, hname, Step.andThen, Step.done, hsemi, hbrace, below, inBraces_of_readFrom h,
    skipMark, hr.1, merge_zero, Bool.false_and, Bool.false_eq_true, if_false, if_true]

/-- A namespace whose name is made of plain names declares itself around what its body holds. -/
theorem namespaceDeclaration_tokens {levels : Nat} {scope : Scope} (name : String) (more : List String)
    {body : List TokenKind} {found : Found} {rest : List Token}
    (h : readFrom (below levels) .namespaceBody true (".".intercalate (name :: more)) {}
      (bare body ++ ⟨.punctuation .rightBrace, .zero⟩ :: rest)
        = ⟨found, ⟨.punctuation .rightBrace, .zero⟩ :: rest⟩) (hr : Follows rest) :
    Reader.namespaceDeclaration (below (levels + 1)) scope .zero
        (⟨.keyword .namespaceKw, .zero⟩ :: ⟨.identifier name, .zero⟩
          :: (bare (dottedTokens more) ++ (bare (inBraces body) ++ rest)))
      = .done (found.wrap .namespaceBlock (".".intercalate (name :: more)) [] .zero) rest := by
  have hks : (more.map TokenKind.identifier).map TokenKind.name? = more.map some := by simp [Function.comp_def]
  have hdots : dottedTokens more = (more.map TokenKind.identifier).flatMap fun k => [.punctuation .dot, k] := by
    simp [dottedTokens, List.flatMap_map]
  rw [hdots]
  exact namespaceDeclaration_names rfl hks h hr

/-! ## Lists of declarations -/

theorem follows_modifierTokens (ms : List Modifier) {scope : Scope} {k : TokenKind} {us : List Token}
    (h : Begins scope k us) : Follows (bare (modifierTokens ms) ++ ⟨k, .zero⟩ :: us) := by
  cases ms with
  | nil => cases k <;> simp_all [Begins, Follows, modifierTokens, atMark, front]
  | cons m ms => simp [Follows, atMark, front]

theorem not_atBodyEnd_modifierTokens (ms : List Modifier) {scope : Scope} {k : TokenKind} {us : List Token}
    (h : Begins scope k us) : ¬ atBodyEnd (bare (modifierTokens ms) ++ ⟨k, .zero⟩ :: us) = true := by
  cases ms with
  | nil => cases k <;> simp_all [Begins, modifierTokens, atMark, atBodyEnd, atEnd, front]
  | cons m ms => simp [atMark, atBodyEnd, atEnd, front]

/-- However a member is written, it begins like a declaration. -/
theorem exists_begins_member (owner : String) (m : Member) (rest : List Token) :
    ∃ ms k us, Begins .typeBody k us ∧
      bare (m.tokens owner) ++ rest = bare (modifierTokens ms) ++ ⟨k, .zero⟩ :: us := by
  cases m with
  | method ms returns name parameters body =>
    exact ⟨ms, .identifier returns, _, ⟨rfl, rfl⟩, by simp [Member.tokens]; rfl⟩
  | constructor ms parameters body =>
    exact ⟨ms, .identifier owner, _, ⟨rfl, rfl⟩, by simp [Member.tokens]; rfl⟩
  | property ms type name accessors =>
    exact ⟨ms, .identifier type, _, ⟨rfl, rfl⟩, by simp [Member.tokens]; rfl⟩
  | field ms type name value =>
    exact ⟨ms, .identifier type, _, ⟨rfl, rfl⟩, by simp [Member.tokens]; rfl⟩
  | type ms kind hasBody name members =>
    exact ⟨ms, .keyword (typeKeyword kind), _, begins_typeKeyword _ kind _, by
      simp [Member.tokens, typeTokens]; rfl⟩

theorem exists_begins_item (x : Item) (rest : List Token) :
    ∃ ms k us, Begins .text k us ∧ bare x.tokens ++ rest = bare (modifierTokens ms) ++ ⟨k, .zero⟩ :: us := by
  cases x with
  | type ms kind hasBody name members =>
    exact ⟨ms, .keyword (typeKeyword kind), _, begins_typeKeyword _ kind _, by
      simp [Item.tokens, typeTokens]; rfl⟩
  | namespaceBlock name more items =>
    exact ⟨[], .keyword .namespaceKw, _, ⟨rfl, by simp⟩, by simp [Item.tokens, modifierTokens]; rfl⟩

theorem follows_memberTokens (owner : String) (ms : List Member) {rest : List Token} (hr : Follows rest) :
    Follows (bare (memberTokens owner ms) ++ rest) := by
  cases ms with
  | nil => exact hr
  | cons m ms =>
    obtain ⟨mods, k, us, hk, hts⟩ := exists_begins_member owner m (bare (memberTokens owner ms) ++ rest)
    rw [memberTokens, bare_append, List.append_assoc, hts]
    exact follows_modifierTokens mods hk

theorem follows_itemTokens (xs : List Item) {rest : List Token} (hr : Follows rest) :
    Follows (bare (itemTokens xs) ++ rest) := by
  cases xs with
  | nil => exact hr
  | cons x xs =>
    obtain ⟨mods, k, us, hk, hts⟩ := exists_begins_item x (bare (itemTokens xs) ++ rest)
    rw [itemTokens, bare_append, List.append_assoc, hts]
    exact follows_modifierTokens mods hk

/-- A list goes on behind an item that is read. -/
theorem readFrom_of_item {inner : Option Reader} {scope : Scope} {braced : Bool} {owner : String} {found x : Found}
    {ts us : List Token} (hb : ¬ atBodyEnd ts = true) (h : item inner scope owner ts = .done x us) :
    readFrom inner scope braced owner found ts = readFrom inner scope braced owner (found.append x) us := by
  rw [Reader.readFrom_of_ok hb (by rw [h]; rfl), h]
  rfl

theorem readFrom_rightBrace (inner : Option Reader) (scope : Scope) (owner : String) (found : Found)
    (rest : List Token) : readFrom inner scope true owner found (⟨.punctuation .rightBrace, .zero⟩ :: rest)
      = ⟨found, ⟨.punctuation .rightBrace, .zero⟩ :: rest⟩ := by
  rw [readFrom]
  simp [atEnd, atMark, front]

theorem follows_rightBrace (rest : List Token) : Follows (⟨.punctuation .rightBrace, .zero⟩ :: rest) :=
  ⟨rfl, rfl⟩

/-- Declarations without faults. -/
def foundAll (ds : List Declaration) : Found := ⟨ds.toArray, #[]⟩

theorem append_foundAll_cons (found : Found) (d : Declaration) (ds : List Declaration) :
    (found.append (foundAll [d])).append (foundAll ds) = found.append (foundAll (d :: ds)) := by
  simp [Found.append, foundAll]

theorem append_foundAll_nil (found : Found) : found.append (foundAll []) = found := by
  simp [Found.append, foundAll]

theorem wrap_foundAll (ds : List Declaration) (kind : DeclarationKind) (name : String) (mods : List Keyword) :
    (Found.append {} (foundAll ds)).wrap kind name mods .zero = foundAll [⟨kind, name, mods, .zero, ds⟩] := by
  simp [Found.append, Found.wrap, foundAll]

mutual

/-- A written member is read in full, and nothing behind it. -/
theorem item_member {levels : Nat} (owner : String) (m : Member) (hd : m.depth ≤ levels) {rest : List Token}
    (hr : Follows rest) : item (below levels) .typeBody owner (bare (m.tokens owner) ++ rest)
      = .done (foundAll [m.declaration owner]) rest := by
  cases m with
  | method ms returns name parameters body =>
    simp only [Member.tokens, bare_append, bare_cons, List.append_assoc, List.cons_append]
    rw [item_identifier _ owner ms _ rfl, Reader.member, read_method]
    rfl
  | constructor ms parameters body =>
    simp only [Member.tokens, bare_append, bare_cons, List.append_assoc, List.cons_append]
    rw [item_identifier _ owner ms _ rfl, Reader.member, read_constructor]
    rfl
  | property ms type name accessors =>
    simp only [Member.tokens, bare_append, bare_cons, List.append_assoc, List.cons_append]
    rw [item_identifier _ owner ms _ rfl, Reader.member, read_property owner _ type name accessors hr.2]
    rfl
  | field ms type name value =>
    simp only [Member.tokens, bare_append, bare_cons, List.append_assoc, List.cons_append]
    rw [item_identifier _ owner ms _ rfl, Reader.member, read_field]
    rfl
  | type ms kind hasBody name members =>
    -- The body takes one level, so there is one to take.
    obtain ⟨l, rfl⟩ : ∃ l, levels = l + 1 := ⟨levels - 1, by simp only [Member.depth] at hd; omega⟩
    have hl : memberDepth members ≤ l := by simpa [Member.depth] using hd
    have hbody := readFrom_members name true {} members hl (follows_rightBrace rest)
    rw [readFrom_rightBrace] at hbody
    simp only [Member.tokens, typeTokens, bare_append, bare_cons, List.append_assoc, List.cons_append]
    rw [item_typeKeyword, typeDeclaration_tokens hasBody _ name hbody hr, wrap_foundAll]
    rfl

/-- Written members are read one after the other. -/
theorem readFrom_members {levels : Nat} (owner : String) (braced : Bool) (found : Found) (ms : List Member)
    (hd : memberDepth ms ≤ levels) {rest : List Token} (hr : Follows rest) :
    readFrom (below levels) .typeBody braced owner found (bare (memberTokens owner ms) ++ rest)
      = readFrom (below levels) .typeBody braced owner (found.append (foundAll (memberDeclarations owner ms)))
          rest := by
  cases ms with
  | nil => rw [memberDeclarations, append_foundAll_nil, memberTokens, bare_nil, List.nil_append]
  | cons m ms =>
    obtain ⟨hm, hms⟩ : m.depth ≤ levels ∧ memberDepth ms ≤ levels := by
      simp only [memberDepth] at hd
      omega
    obtain ⟨mods, k, us, hk, hts⟩ := exists_begins_member owner m (bare (memberTokens owner ms) ++ rest)
    have hend : ¬ atBodyEnd (bare (m.tokens owner) ++ (bare (memberTokens owner ms) ++ rest)) = true := by
      rw [hts]
      exact not_atBodyEnd_modifierTokens mods hk
    rw [memberTokens, memberDeclarations, bare_append, List.append_assoc,
      readFrom_of_item hend (item_member owner m hm (follows_memberTokens owner ms hr)),
      readFrom_members owner braced _ ms hms hr, append_foundAll_cons]

end

mutual

/-- A written item is read in full, and nothing behind it. -/
theorem item_item {levels : Nat} {scope : Scope} (hs : scope ≠ .typeBody) (owner : String) (x : Item)
    (hd : x.depth ≤ levels) {rest : List Token} (hr : Follows rest) :
    item (below levels) scope owner (bare x.tokens ++ rest) = .done (foundAll [x.declaration]) rest := by
  obtain ⟨l, rfl⟩ : ∃ l, levels = l + 1 :=
    ⟨levels - 1, by cases x <;> simp only [Item.depth] at hd <;> omega⟩
  cases x with
  | type ms kind hasBody name members =>
    have hl : memberDepth members ≤ l := by simpa [Item.depth] using hd
    have hbody := readFrom_members name true {} members hl (follows_rightBrace rest)
    rw [readFrom_rightBrace] at hbody
    simp only [Item.tokens, typeTokens, bare_append, bare_cons, List.append_assoc, List.cons_append]
    rw [item_typeKeyword, typeDeclaration_tokens hasBody _ name hbody hr, wrap_foundAll]
    rfl
  | namespaceBlock name more items =>
    have hl : itemDepth items ≤ l := by simpa [Item.depth] using hd
    have hscope : Scope.namespaceBody ≠ .typeBody := by simp
    have hbody := readFrom_items hscope (".".intercalate (name :: more)) true {} items hl (follows_rightBrace rest)
    rw [readFrom_rightBrace] at hbody
    simp only [Item.tokens, bare_append, bare_cons, List.append_assoc, List.cons_append]
    rw [item_namespaceKw _ hs, namespaceDeclaration_tokens name more hbody hr, wrap_foundAll]
    rfl

/-- Written items are read one after the other. -/
theorem readFrom_items {levels : Nat} {scope : Scope} (hs : scope ≠ .typeBody) (owner : String) (braced : Bool)
    (found : Found) (xs : List Item) (hd : itemDepth xs ≤ levels) {rest : List Token} (hr : Follows rest) :
    readFrom (below levels) scope braced owner found (bare (itemTokens xs) ++ rest)
      = readFrom (below levels) scope braced owner (found.append (foundAll (itemDeclarations xs))) rest := by
  cases xs with
  | nil => rw [itemDeclarations, append_foundAll_nil, itemTokens, bare_nil, List.nil_append]
  | cons x xs =>
    obtain ⟨hx, hxs⟩ : x.depth ≤ levels ∧ itemDepth xs ≤ levels := by
      simp only [itemDepth] at hd
      omega
    obtain ⟨mods, k, us, hk, hts⟩ := exists_begins_item x (bare (itemTokens xs) ++ rest)
    have hend : ¬ atBodyEnd (bare x.tokens ++ (bare (itemTokens xs) ++ rest)) = true := by
      rw [hts]
      exact not_atBodyEnd_modifierTokens mods hk
    rw [itemTokens, itemDeclarations, bare_append, List.append_assoc,
      readFrom_of_item hend (item_item hs owner x hx (follows_itemTokens xs hr)),
      readFrom_items hs owner braced _ xs hxs hr, append_foundAll_cons]

end

/-! ## Whole texts -/

/-- A written text declares exactly what it says. -/
theorem readDeclarations_tokens {items : List Item} (hd : itemDepth items ≤ maxNesting) :
    readDeclarations (bare (itemTokens items ++ [.endOfText])) = .ok (textDeclaration items) := by
  have hscope : Scope.text ≠ .typeBody := by simp
  have hend : Follows [⟨.endOfText, .zero⟩] := ⟨rfl, rfl⟩
  have hread : (ofLevels maxNesting).read .text false "" (bare (itemTokens items ++ [.endOfText]))
      = ⟨foundAll (itemDeclarations items), [⟨.endOfText, .zero⟩]⟩ := by
    rw [read_ofLevels, bare_append, bare_cons, bare_nil, readFrom_items hscope "" false {} items hd hend, readFrom]
    simp [atEnd, front, Found.append, foundAll]
  unfold readDeclarations
  simp only [hread]
  rfl

/-! ## Trees -/

mutual

theorem size_unplaced (d : Declaration) : d.unplaced.size = d.size := by
  obtain ⟨kind, name, modifiers, span, children⟩ := d
  rw [Declaration.unplaced, Declaration.size, Declaration.size, sizeAll_unplacedAll]

theorem sizeAll_unplacedAll (ds : List Declaration) :
    Declaration.sizeAll (Declaration.unplacedAll ds) = Declaration.sizeAll ds := by
  cases ds with
  | nil => rfl
  | cons d ds =>
    rw [Declaration.unplacedAll, Declaration.sizeAll, Declaration.sizeAll, size_unplaced, sizeAll_unplacedAll]

end

mutual

theorem headings_unplaced (d : Declaration) (parent : Option Nat) (id : Nat) :
    d.unplaced.headings parent id = d.headings parent id := by
  obtain ⟨kind, name, modifiers, span, children⟩ := d
  rw [Declaration.unplaced, Declaration.headings, Declaration.headings, headingsAll_unplacedAll]

theorem headingsAll_unplacedAll (ds : List Declaration) (parent next : Nat) :
    Declaration.headingsAll parent next (Declaration.unplacedAll ds) = Declaration.headingsAll parent next ds := by
  cases ds with
  | nil => rfl
  | cons d ds =>
    rw [Declaration.unplacedAll, Declaration.headingsAll, Declaration.headingsAll, headings_unplaced, size_unplaced,
      headingsAll_unplacedAll]

end

/-- Wherever its tokens stand, a text declares what it declares without places. -/
theorem readDeclarations_bare_eq_ok_iff {ts : List Token} {d : Declaration} :
    readDeclarations (bare (ts.map Token.kind)) = .ok d ↔ ∃ e, readDeclarations ts = .ok e ∧ e.unplaced = d := by
  rw [← map_unplaced_eq_bare, readDeclarations_unplaced]
  cases readDeclarations ts with
  | error ds =>
    constructor
    · intro h
      cases h
    · rintro ⟨_, h, -⟩
      cases h
  | ok e =>
    constructor
    · intro h
      exact ⟨e, rfl, Except.ok.inj h⟩
    · rintro ⟨_, ⟨⟩, rfl⟩
      rfl

/-- Reading undoes writing: wherever its tokens stand, a written text is accepted, and its tree lists exactly the
declarations that were written, in their order, each with its kind, its name, its modifiers and its parent. -/
theorem headings_ofTokens_itemTokens {items : List Item} (hd : itemDepth items ≤ maxNesting) {ts : List Token}
    (hts : ts.map Token.kind = itemTokens items ++ [.endOfText]) :
    ∃ t, DeclarationTree.ofTokens ts = .ok t ∧ t.headings = (textDeclaration items).headings none 0 := by
  have hread := readDeclarations_tokens hd
  rw [← hts, ← map_unplaced_eq_bare, readDeclarations_unplaced] at hread
  cases hr : readDeclarations ts with
  | error ds =>
    rw [hr] at hread
    cases hread
  | ok d =>
    rw [hr] at hread
    have hd : d.unplaced = textDeclaration items := Except.ok.inj hread
    refine ⟨.ofDeclaration d, by simp [DeclarationTree.ofTokens, hr, Except.map], ?_⟩
    rw [DeclarationTree.headings_ofDeclaration, ← hd, headings_unplaced]

/-- A class with a constructor whose body looks like another class, and a field without initializer, inside a
namespace. -/
def sample : List Item :=
  [.namespaceBlock "Shop" ["Data"]
    [.type [⟨.publicKw, rfl⟩] .classType (by decide) "Order"
      [.constructor [] ⟨[], .nil⟩
        ⟨[.keyword .classKw, .identifier "Hidden", .punctuation .leftBrace, .punctuation .rightBrace],
          .plain rfl rfl (.plain rfl rfl (.group rfl .nil .nil))⟩,
        .field [⟨.staticKw, rfl⟩] "int" "count" none]]]

theorem headings_ofTokens_sample : ∃ t,
    DeclarationTree.ofTokens (bare (itemTokens sample ++ [.endOfText])) = .ok t ∧
      t.headings = [⟨.unit, "", [], none⟩, ⟨.namespaceBlock, "Shop.Data", [], some 0⟩,
        ⟨.type .classType, "Order", [.publicKw], some 1⟩, ⟨.constructor, "Order", [], some 2⟩,
        ⟨.field, "count", [.staticKw], some 2⟩] := by
  have hd : itemDepth sample ≤ maxNesting := by decide
  obtain ⟨t, ht, hheadings⟩ := headings_ofTokens_itemTokens hd (map_kind_bare (itemTokens sample ++ [.endOfText]))
  refine ⟨t, ht, ?_⟩
  rw [hheadings]
  decide

end TestScaffold.Written
