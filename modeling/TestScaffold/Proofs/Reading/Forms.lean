import TestScaffold.Proofs.Reading.EndOfText
import TestScaffold.Proofs.Reading.Headers

/-!
# Forms of declarations

What stands behind its modifiers decides as what a declaration is read: as a type, as a namespace, as a member, or not
at all. Each form has its own place for the name, and types and namespaces hold a list of declarations behind theirs.

Results:
* `Head.spot`, `Reader.dottedSpots`: where the words stand that make up the name of a member or of a namespace.
* `Reader.Form`, `Reader.declaration_eq_form`: what a declaration is read as.
* `Reader.typeEnd_cases`, `Reader.namespaceEnd_cases`: how a type and a namespace end of which nothing is reported.
* `Reader.Form.takes`: such a declaration takes its name, then its body, and leaves what is behind them.
-/

namespace TestScaffold

open Token (front atMark atKeyword atBodyEnd skipMark)
open Nesting (skipGroup skipUntil)
open Written (endsHeader)

/-- The word that a token is: an identifier, or the spelling of a keyword. -/
def TokenKind.word : TokenKind → String
  | .identifier name => name
  | .keyword k => k.spelling
  | _ => ""

theorem TokenKind.word_of_name? {k : TokenKind} {n : String} (h : k.name? = some n) : k.word = n := by
  cases k with
  | identifier name => exact Option.some.inj h
  | keyword k =>
    by_cases hk : k.isContextual = true
    · exact Option.some.inj ((name?_keyword_of_isContextual hk).symm.trans h)
    · simp [name?, hk] at h
  | _ => cases h

/-- The word at the front. -/
def Token.wordAt (ts : List Token) : String := (front ts).kind.word

open Token (wordAt)

/-! ## Names of members -/

namespace Head

/-- Where the name stands by which the head is called with one more token, the front one. So far it is `last`. -/
def noteSpot (h : Head) (last : Option (List Token)) (ts : List Token) : Option (List Token) :=
  match (front ts).kind with
  | .keyword .operatorKw | .keyword .thisKw => some ts
  | kind => if kind.name?.isSome && !h.isOperator then some ts else last

/-- Where the name stands by which the whole head is called. -/
def spot (h : Head) (last : Option (List Token)) (ts : List Token) : Option (List Token) :=
  if atBodyEnd ts then last
  else
    match (front ts).kind.punctuation?.map h.turn with
    | some .decides => last
    | some .begins =>
      let s := skipGroup ts
      match s.result with
      | .ok _ => h.spot last s.rest
      | .error _ => last
    | some .passes | none => (h.note (front ts).kind).spot (h.noteSpot last ts) ts.tail
termination_by ts.length
decreasing_by
  · exact Nesting.length_rest_skipGroup_lt (by simp_all [atBodyEnd])
  all_goals exact Token.length_tail_lt (by simp_all [atBodyEnd])

theorem noteSpot_eq_or (h : Head) (last : Option (List Token)) (ts : List Token) :
    h.noteSpot last ts = some ts ∨ h.noteSpot last ts = last := by
  unfold noteSpot
  split
  · exact .inl rfl
  · exact .inl rfl
  · split
    · exact .inl rfl
    · exact .inr rfl

theorem note_of_name? (h : Head) {k : TokenKind} {n : String} (hn : k.name? = some n) :
    h.note k = if h.isOperator then h else { h with name := some n, names := h.names + 1 } := by
  cases k with
  | identifier name => simp only [note, hn]
  | keyword k => cases k <;> first | (cases hn; done) | simp only [note, hn]
  | _ => cases hn

theorem noteSpot_of_name? (h : Head) (last : Option (List Token)) {ts : List Token} {n : String}
    (hn : (front ts).kind.name? = some n) : h.noteSpot last ts = if h.isOperator then last else some ts := by
  unfold noteSpot
  split
  · next hk => rw [hk] at hn; cases hn
  · next hk => rw [hk] at hn; cases hn
  · rw [hn]
    cases h.isOperator <;> rfl

/-- A token that names nothing leaves the name of a head as it is, whatever that is. -/
theorem note_of_unnamed (h : Head) (name : Option String) {k : TokenKind} (hn : k.name? = none)
    (hoperator : k ≠ .keyword .operatorKw) (hthis : k ≠ .keyword .thisKw) :
    (h.note k).name = h.name ∧ note { h with name := name } k = { h.note k with name := name } := by
  unfold note
  split
  · exact ⟨rfl, rfl⟩
  · exact absurd rfl hoperator
  · exact absurd rfl hthis
  · rw [hn]
    exact ⟨rfl, rfl⟩

theorem noteSpot_of_unnamed (h : Head) (last : Option (List Token)) {ts : List Token}
    (hn : (front ts).kind.name? = none) (hoperator : (front ts).kind ≠ .keyword .operatorKw)
    (hthis : (front ts).kind ≠ .keyword .thisKw) : h.noteSpot last ts = last := by
  unfold noteSpot
  split
  · next hk => exact absurd hk hoperator
  · next hk => exact absurd hk hthis
  · rw [hn]
    rfl

theorem turn_withName (h : Head) (name : Option String) : turn { h with name := name } = h.turn := by
  funext p
  cases p <;> rfl

theorem spot_of_name? (h : Head) (last : Option (List Token)) {ts : List Token} {n : String}
    (hn : (front ts).kind.name? = some n) :
    h.spot last ts = (h.note (front ts).kind).spot (if h.isOperator then last else some ts) ts.tail := by
  have hend : ¬ atBodyEnd ts = true := by
    intro hb
    rcases Bool.or_eq_true _ _ ▸ hb with hend | hmark
    · rw [Token.kind_of_atEnd hend] at hn
      cases hn
    · rw [Token.kind_of_atMark hmark] at hn
      cases hn
  have hmark : (front ts).kind.punctuation? = none := by
    cases hk : (front ts).kind with
    | punctuation p => rw [hk] at hn; cases hn
    | _ => rfl
  rw [spot, if_neg hend, hmark, noteSpot_of_name? h last hn]
  rfl

/-- A group in a head is passed. -/
theorem read_of_begins {h : Head} {ts : List Token} {a : Span} (hb : ¬ atBodyEnd ts = true)
    (ht : (front ts).kind.punctuation?.map h.turn = some .begins) (ha : (skipGroup ts).result = .ok a) :
    h.read ts = h.read (skipGroup ts).rest := by
  rw [read, if_neg hb, ht]
  simp only [ha]

/-- The name stands in front of the mark that decides the kind of the member. -/
theorem suffix_of_spot {h : Head} {last : Option (List Token)} {ts us : List Token}
    (hspot : h.spot last ts = some us) : last = some us ∨ (h.read ts).rest.length < us.length ∧ us <:+ ts := by
  fun_induction Head.spot h last ts with
  | case1 h last ts hb => exact .inl hspot
  | case2 h last ts hb ht => exact .inl hspot
  | case3 h last ts hb ht s a ha ih =>
    rw [read_of_begins hb ht ha]
    exact (ih hspot).imp_right fun hus => ⟨hus.1, hus.2.trans (Nesting.rest_skipGroup_suffix ts)⟩
  | case4 h last ts hb ht s d hd => exact .inl hspot
  | case5 h last ts hb ht ih | case6 h last ts hb ht ih =>
    have hread : h.read ts = (h.note (front ts).kind).read ts.tail := by rw [read, if_neg hb, ht]
    have hrest := (rest_read_suffix (h.note (front ts).kind) ts.tail).length_le
    have hlt := Token.length_tail_lt (Token.not_atEnd_of_not_atBodyEnd hb)
    rw [hread]
    rcases ih hspot with hlast | hus
    · rcases noteSpot_eq_or h last ts with hnote | hnote
      · obtain rfl := Option.some.inj (hnote.symm.trans hlast)
        exact .inr ⟨Nat.lt_of_le_of_lt hrest hlt, List.suffix_refl _⟩
      · exact .inl (hnote.symm.trans hlast)
    · exact .inr ⟨hus.1, hus.2.trans (List.tail_suffix ts)⟩

end Head

namespace Reader

/-! ## Names of namespaces -/

/-- Where the names stand in the rest of a dotted name. -/
def dottedSpots (ts : List Token) : List (List Token) :=
  if atMark .dot ts then ts.tail :: dottedSpots ts.tail.tail else []
termination_by ts.length
decreasing_by
  refine Nat.lt_of_le_of_lt ?_ (Token.length_tail_lt (Token.not_atEnd_of_atMark ‹_›))
  simp

theorem suffix_of_mem_dottedSpots {name s : String} {ts us : List Token} (hs : (dottedName name ts).result = .ok s)
    (hus : us ∈ dottedSpots ts) : (dottedName name ts).rest.length < us.length ∧ us <:+ ts.tail := by
  fun_induction dottedName name ts with
  | case1 name ts hm n hn ih =>
    have hlt := Token.length_tail_lt (Token.not_atEnd_of_name? hn)
    rw [dottedSpots, if_pos hm, List.mem_cons] at hus
    rcases hus with rfl | hus
    · exact ⟨Nat.lt_of_le_of_lt (rest_dottedName_suffix _ _).length_le hlt, List.suffix_refl _⟩
    · obtain ⟨hrest, hsuffix⟩ := ih hs hus
      exact ⟨hrest, (hsuffix.trans (List.tail_suffix _)).trans (List.tail_suffix _)⟩
  | case2 name ts hm hn => cases hs
  | case3 name ts hm =>
    rw [dottedSpots, if_neg hm] at hus
    cases hus

/-! ## Lists -/

/-- A list of declarations that is still to be read: where it stands, whether it is in braces, what its owner is
called, and its tokens with all that stand behind it. -/
structure Items where
  scope : Scope
  braced : Bool
  owner : String
  tokens : List Token

/-- What is read of a list in which bodies nest at most `levels` deep. -/
def Items.read (c : Items) (levels : Nat) : Body := readFrom (below levels) c.scope c.braced c.owner {} c.tokens

/-- The list from another token on. -/
def Items.from (c : Items) (ts : List Token) : Items := { c with tokens := ts }

/-- The list in the body of a namespace, whose opening mark stands here. Nothing in it depends on what the namespace is
called. -/
def namespaceContents (ts : List Token) : Items := ⟨.namespaceBody, atMark .leftBrace ts, "", ts.tail⟩

/-! ## Forms of declarations -/

/-- What a declaration is read as behind its modifiers, and the tokens that are read so. The word that introduces a type
or a namespace is the first of them. -/
inductive Form
  | type (kind : TypeKind) (ts : List Token)
  | namespaceBlock (ts : List Token)
  | member (forced : Option DeclarationKind) (ts : List Token)
  | unknown (ts : List Token)

/-- What the declaration at the front is read as. -/
def form (scope : Scope) (mods : List Keyword) (ts : List Token) : Form :=
  match (front ts).kind.keyword?.bind typeKind? with
  | some kind => .type kind ts
  | none =>
    if atRecord ts then .type .recordType (if atRecordFlavour ts then ts.tail else ts)
    else if atKeyword .namespaceKw ts && scope != .typeBody && mods.isEmpty then .namespaceBlock ts
    else if atKeyword .delegateKw ts || (atKeyword .eventKw ts && scope == .typeBody) then .member (some .other) ts.tail
    else if scope == .typeBody then .member none ts
    else .unknown ts

namespace Form

/-- The tokens that are read. -/
def tokens : Form → List Token
  | type _ ts | namespaceBlock ts | member _ ts | unknown ts => ts

/-- The form with other tokens. -/
def map (g : List Token → List Token) : Form → Form
  | type kind ts => type kind (g ts)
  | namespaceBlock ts => namespaceBlock (g ts)
  | member forced ts => member forced (g ts)
  | unknown ts => unknown (g ts)

/-- Reads a declaration of a known form. -/
def read (inner : Option Reader) (scope : Scope) (owner : String) (mods : List Keyword) (start : Span) :
    Form → Step Found
  | type kind ts => typeDeclaration inner kind mods start ts
  | namespaceBlock ts => namespaceDeclaration inner scope start ts
  | member forced ts => Reader.member owner mods start forced ts
  | unknown ts => .failExpecting .declaration ts

/-- Where the words stand that make up the name of the declaration. -/
def spots : Form → List (List Token)
  | type _ ts => [ts.tail]
  | namespaceBlock ts => ts.tail :: dottedSpots ts.tail.tail
  | member _ ts => (Head.spot {} none ts).toList
  | unknown _ => []

/-- The list of declarations in the body, if there is one. -/
def contents? : Form → Option Items
  | type kind ts =>
    let rest := (skipUntil endsHeader true ts.tail.tail).rest
    if atMark .leftBrace rest && kind != .enumType then some ⟨.typeBody, true, wordAt ts.tail, rest.tail⟩ else none
  | namespaceBlock ts => some (namespaceContents (qualifiedName ts.tail).rest)
  | member _ _ | unknown _ => none

end Form

/-- What has a body has a name. -/
theorem Form.spots_ne_nil {f : Form} {c : Items} (hc : f.contents? = some c) : f.spots ≠ [] := by
  cases f with
  | type kind ts => exact List.cons_ne_nil _ _
  | namespaceBlock ts => exact List.cons_ne_nil _ _
  | member forced ts => cases hc
  | unknown ts => cases hc

theorem Form.contents?_type_eq_some {kind : TypeKind} {ts : List Token} {c : Items} :
    (Form.type kind ts).contents? = some c ↔
      atMark .leftBrace (skipUntil endsHeader true ts.tail.tail).rest = true ∧ kind ≠ .enumType ∧
        ⟨.typeBody, true, wordAt ts.tail, (skipUntil endsHeader true ts.tail.tail).rest.tail⟩ = c := by
  simp only [contents?, Option.ite_none_right_eq_some, Bool.and_eq_true, bne_iff_ne, Option.some.injEq, and_assoc]

theorem declaration_eq_form (inner : Option Reader) (scope : Scope) (owner : String) (mods : List Keyword)
    (start : Span) (ts : List Token) :
    declaration inner scope owner mods start ts = (form scope mods ts).read inner scope owner mods start := by
  unfold declaration form
  cases (front ts).kind.keyword?.bind typeKind? with
  | some kind => rfl
  | none =>
    dsimp only
    split
    · rfl
    · split
      · rfl
      · split
        · rfl
        · split <;> rfl

/-- The tokens that are read in a form are an end piece of those of the declaration. -/
theorem form_tokens_suffix (scope : Scope) (mods : List Keyword) (ts : List Token) :
    (form scope mods ts).tokens <:+ ts := by
  unfold form
  cases (front ts).kind.keyword?.bind typeKind? with
  | some kind => exact List.suffix_refl ts
  | none =>
    dsimp only
    split
    · rw [Form.tokens]
      split
      · exact List.tail_suffix ts
      · exact List.suffix_refl ts
    · split
      · exact List.suffix_refl ts
      · split
        · exact List.tail_suffix ts
        · split <;> exact List.suffix_refl ts

/-- Only in a type a member begins without a word for it. -/
theorem form_eq_member_none {scope : Scope} {mods : List Keyword} {ts us : List Token}
    (h : form scope mods ts = .member none us) : scope = .typeBody ∧ us = ts := by
  unfold form at h
  split at h
  · cases h
  · split at h
    · cases h
    · split at h
      · cases h
      · split at h
        · cases h
        · split at h
          · next hscope =>
            cases h
            exact ⟨eq_of_beq hscope, rfl⟩
          · cases h

/-- Where no word introduces a declaration, a member begins. -/
theorem form_of_plain (scope : Scope) (mods : List Keyword) {ts : List Token}
    (hk : ∀ k, (front ts).kind = .keyword k → k.isContextual = true) (hr : atRecord ts = false) :
    form scope mods ts = if scope == .typeBody then .member none ts else .unknown ts := by
  have hplain {k : Keyword} (hcontextual : k.isContextual = false) : atKeyword k ts = false := by
    rw [atKeyword, beq_eq_false_iff_ne]
    intro hkind
    rw [hk k hkind] at hcontextual
    cases hcontextual
  have hnone : (front ts).kind.keyword?.bind typeKind? = none := by
    cases hkind : (front ts).kind with
    | keyword k =>
      have hcontextual := hk k hkind
      cases k <;> first | rfl | cases hcontextual
    | _ => rfl
  rw [form, hnone]
  simp [hr, hplain (k := .namespaceKw) rfl, hplain (k := .delegateKw) rfl, hplain (k := .eventKw) rfl]

/-! ## Headers -/

/-- A type whose name and header are read goes on with what follows these. -/
theorem typeDeclaration_of_header (inner : Option Reader) (kind : TypeKind) (mods : List Keyword) (start : Span)
    {ts : List Token} {n : String} (hname : (front ts.tail).kind.name? = some n)
    (hpassed : (skipUntil endsHeader true ts.tail.tail).result = .ok ()) :
    typeDeclaration inner kind mods start ts =
      typeEnd inner kind n mods start (skipUntil endsHeader true ts.tail.tail).rest := by
  have hpassed : (skipUntil (fun p => p == .leftBrace || p == .semicolon) true ts.tail.tail).result = .ok () := hpassed
  simp only [typeDeclaration_eq, Step.name, hname, Step.andThen, Step.done, hpassed]
  rfl

theorem typeDeclaration_cases {inner : Option Reader} {kind : TypeKind} {mods : List Keyword} {start : Span}
    {ts : List Token} {x : Found} (h : (typeDeclaration inner kind mods start ts).result = .ok x) :
    (front ts.tail).kind.name? = some (wordAt ts.tail) ∧
      (skipUntil endsHeader true ts.tail.tail).result = .ok () ∧ typeDeclaration inner kind mods start ts =
        typeEnd inner kind (wordAt ts.tail) mods start (skipUntil endsHeader true ts.tail.tail).rest := by
  have hread := h
  rw [typeDeclaration_eq] at h
  obtain ⟨n, hn, he⟩ := Step.andThen_eq_ok h
  obtain ⟨t, htail, hword, -⟩ := Step.reads_name hn
  have hname : (front ts.tail).kind.name? = some n := by rw [htail]; exact hword
  have hrest : (Step.name (.typeName kind) ts.tail).rest = ts.tail.tail := by simp [Step.name, hname]
  rw [he, hrest] at h
  obtain ⟨_, hpassed, -⟩ := Step.andThen_eq_ok h
  obtain rfl : wordAt ts.tail = n := TokenKind.word_of_name? hname
  exact ⟨hname, hpassed, typeDeclaration_of_header inner kind mods start hname hpassed⟩

theorem qualifiedName_cases {ts : List Token} {s : String} (h : (qualifiedName ts).result = .ok s) :
    (front ts).kind.name? = some (wordAt ts) ∧ (dottedName (wordAt ts) ts.tail).result = .ok s ∧
      qualifiedName ts = dottedName (wordAt ts) ts.tail := by
  obtain ⟨n, hn, he⟩ := Step.andThen_eq_ok h
  have he : qualifiedName ts = dottedName n (Step.name .namespaceName ts).rest := he
  obtain ⟨t, htail, hword, -⟩ := Step.reads_name hn
  have hname : (front ts).kind.name? = some n := by rw [htail]; exact hword
  have hrest : (Step.name .namespaceName ts).rest = ts.tail := by simp [Step.name, hname]
  obtain rfl : wordAt ts = n := TokenKind.word_of_name? hname
  rw [hrest] at he
  rw [he] at h
  exact ⟨hname, h, he⟩

theorem namespaceDeclaration_cases {inner : Option Reader} {scope : Scope} {start : Span} {ts : List Token} {x : Found}
    (h : (namespaceDeclaration inner scope start ts).result = .ok x) :
    ∃ name, (qualifiedName ts.tail).result = .ok name ∧ namespaceDeclaration inner scope start ts =
      namespaceEnd inner scope name start (qualifiedName ts.tail).rest := by
  rw [namespaceDeclaration_eq] at h ⊢
  obtain ⟨name, hname, he⟩ := Step.andThen_eq_ok h
  exact ⟨name, hname, he⟩

/-! ## Bodies that are read without a fault -/

section

variable {levels : Nat} {scope : Scope} {owner name : String} {kind : TypeKind} {mods : List Keyword}
  {start stop : Span} {ts us : List Token} {x : Found}

/-- A body in braces of which nothing is reported is closed. -/
theorem inBraces_cases {l : Nat} (h : (inBraces (ofLevels l) scope owner ts).result = .ok (x, stop))
    (hx : x.problems = #[]) : ((⟨scope, true, owner, ts.tail⟩ : Items).read l).found.problems = #[] ∧
      atMark .rightBrace ((⟨scope, true, owner, ts.tail⟩ : Items).read l).rest = true := by
  unfold inBraces at h
  simp only [read_ofLevels] at h
  split at h
  · next hb =>
    cases h
    exact ⟨hx, hb⟩
  · cases h
    simp [Found.report] at hx

theorem inBraces_of_closed {l : Nat}
    (hb : atMark .rightBrace ((⟨scope, true, owner, ts.tail⟩ : Items).read l).rest = true) :
    inBraces (ofLevels l) scope owner ts = .done
      (((⟨scope, true, owner, ts.tail⟩ : Items).read l).found,
        (front ((⟨scope, true, owner, ts.tail⟩ : Items).read l).rest).span)
      ((⟨scope, true, owner, ts.tail⟩ : Items).read l).rest.tail := by
  unfold inBraces
  simp only [read_ofLevels]
  exact if_pos hb

/-- A type ends with a semicolon, with the group of an enumeration, or with a body one level further in. -/
theorem typeEnd_cases (h : (typeEnd (below levels) kind name mods start ts).result = .ok x) (hx : x.problems = #[]) :
    atMark .semicolon ts = true ∨
      atMark .leftBrace ts = true ∧
        (kind = .enumType ∧ (∃ group, (skipGroup ts).result = .ok group) ∨
          kind ≠ .enumType ∧ ∃ l, levels = l + 1 ∧
            ((⟨.typeBody, true, name, ts.tail⟩ : Items).read l).found.problems = #[] ∧
            atMark .rightBrace ((⟨.typeBody, true, name, ts.tail⟩ : Items).read l).rest = true) := by
  unfold typeEnd at h
  split at h
  · next hm => exact .inl hm
  · split at h
    · next hb =>
      refine .inr ⟨hb, ?_⟩
      obtain ⟨⟨found, stop⟩, hbody, he⟩ := Step.andThen_eq_ok h
      rw [he] at h
      cases h
      unfold typeBody at hbody
      split at hbody
      · next hk =>
        obtain ⟨group, hgroup, -⟩ := Step.andThen_eq_ok hbody
        exact .inl ⟨eq_of_beq hk, group, hgroup⟩
      · next hk =>
        cases levels with
        | zero => cases hbody
        | succ l => exact .inr ⟨by simpa using hk, l, rfl, inBraces_cases hbody hx⟩
    · cases h

theorem typeEnd_of_semicolon (inner : Option Reader) (hm : atMark .semicolon ts = true) :
    typeEnd inner kind name mods start ts =
      .done (Found.wrap {} (.type kind) name mods (start.merge (front ts).span)) ts.tail := if_pos hm

theorem not_atMark_of_atMark {p q : Punctuation} (hp : atMark p ts = true) (hne : p ≠ q) : ¬ atMark q ts = true := by
  intro hq
  have hkind := (Token.kind_of_atMark hp).symm.trans (Token.kind_of_atMark hq)
  exact hne (TokenKind.punctuation.inj hkind)

theorem typeEnd_of_enum (inner : Option Reader) (hb : atMark .leftBrace ts = true) {group : Span}
    (hgroup : (skipGroup ts).result = .ok group) : typeEnd inner .enumType name mods start ts =
      .done (Found.wrap {} (.type .enumType) name mods (start.merge group))
        (skipMark .semicolon (skipGroup ts).rest) := by
  have hm : ¬ atMark .semicolon ts = true := not_atMark_of_atMark hb (by simp)
  simp [typeEnd, typeBody, hm, hb, Step.andThen, hgroup, Step.done]

theorem typeEnd_of_body {l : Nat} (hb : atMark .leftBrace ts = true) (hk : kind ≠ .enumType)
    (hclosed : atMark .rightBrace ((⟨.typeBody, true, name, ts.tail⟩ : Items).read l).rest = true) :
    typeEnd (below (l + 1)) kind name mods start ts =
      .done (((⟨.typeBody, true, name, ts.tail⟩ : Items).read l).found.wrap (.type kind) name mods
          (start.merge (front ((⟨.typeBody, true, name, ts.tail⟩ : Items).read l).rest).span))
        (skipMark .semicolon ((⟨.typeBody, true, name, ts.tail⟩ : Items).read l).rest.tail) := by
  have hm : ¬ atMark .semicolon ts = true := not_atMark_of_atMark hb (by simp)
  have hbraces := inBraces_of_closed hclosed
  simp [typeEnd, typeBody, below, hm, hb, hk, hbraces, Step.andThen, Step.done]

theorem read_namespaceContents (l : Nat) (name : String) (ts : List Token) : (namespaceContents ts).read l =
    (⟨.namespaceBody, atMark .leftBrace ts, name, ts.tail⟩ : Items).read l :=
  readFrom_owner (by simp [namespaceContents]) "" name

/-- A namespace ends with a body in braces, or at the top of a text with the rest of it. -/
theorem namespaceEnd_cases (h : (namespaceEnd (below levels) scope name start ts).result = .ok x)
    (hx : x.problems = #[]) : ∃ l, levels = l + 1 ∧ ((namespaceContents ts).read l).found.problems = #[] ∧
      (atMark .semicolon ts = true ∧ scope = .text ∨
        atMark .leftBrace ts = true ∧ atMark .rightBrace ((namespaceContents ts).read l).rest = true) := by
  unfold namespaceEnd at h
  split at h
  · cases h
  · next hscope =>
    cases levels with
    | zero => cases h
    | succ l =>
      refine ⟨l, rfl, ?_⟩
      rw [read_namespaceContents l name]
      simp only [below, read_ofLevels] at h
      split at h
      · next hm =>
        cases h
        have hbrace : atMark .leftBrace ts = false := by simpa using not_atMark_of_atMark hm (by simp)
        rw [hbrace]
        exact ⟨hx, .inl ⟨hm, by simpa [hm] using hscope⟩⟩
      · split at h
        · next hb =>
          obtain ⟨⟨found, stop⟩, hbody, he⟩ := Step.andThen_eq_ok h
          rw [he] at h
          cases h
          rw [hb]
          obtain ⟨hproblems, hclosed⟩ := inBraces_cases hbody hx
          exact ⟨hproblems, .inr ⟨rfl, hclosed⟩⟩
        · cases h

theorem namespaceEnd_of_semicolon {l : Nat} (hm : atMark .semicolon ts = true) :
    namespaceEnd (below (l + 1)) .text name start ts =
      .done (((namespaceContents ts).read l).found.wrap .namespaceBlock name [] (start.merge (lastToken ts).span))
        ((namespaceContents ts).read l).rest := by
  have hbrace : atMark .leftBrace ts = false := by simpa using not_atMark_of_atMark hm (by simp)
  rw [read_namespaceContents l name, hbrace]
  simp [namespaceEnd, below, hm, read_ofLevels, Items.read]

theorem namespaceEnd_of_body {l : Nat} (hb : atMark .leftBrace ts = true)
    (hclosed : atMark .rightBrace ((namespaceContents ts).read l).rest = true) :
    namespaceEnd (below (l + 1)) scope name start ts =
      .done (((namespaceContents ts).read l).found.wrap .namespaceBlock name []
          (start.merge (front ((namespaceContents ts).read l).rest).span))
        (skipMark .semicolon ((namespaceContents ts).read l).rest.tail) := by
  have hm : ¬ atMark .semicolon ts = true := not_atMark_of_atMark hb (by simp)
  rw [read_namespaceContents l name, hb] at hclosed ⊢
  have hbraces := inBraces_of_closed hclosed
  simp [namespaceEnd, below, hm, hb, hbraces, Step.andThen, Step.done]

end

/-! ## What a declaration takes -/

theorem rest_typeEnd_suffix (inner : Option Reader) (kind : TypeKind) (name : String) (mods : List Keyword)
    (start : Span) (ts : List Token) : (typeEnd inner kind name mods start ts).rest <:+ ts := by
  unfold typeEnd
  split
  · exact List.tail_suffix ts
  · split
    · exact Step.rest_andThen_suffix (rest_typeBody_suffix _ _ _ ts) fun _ us => Token.skipMark_suffix _ us
    · exact List.suffix_refl ts

theorem rest_namespaceEnd_suffix (inner : Option Reader) (scope : Scope) (name : String) (start : Span)
    (ts : List Token) : (namespaceEnd inner scope name start ts).rest <:+ ts := by
  unfold namespaceEnd
  split
  · exact List.tail_suffix ts
  · split
    · exact List.suffix_refl ts
    · split
      · exact (Reader.rest_suffix _ _ _ _ _).trans (List.tail_suffix ts)
      · split
        · exact Step.rest_andThen_suffix (rest_inBraces_suffix _ _ _ ts) fun _ us => Token.skipMark_suffix _ us
        · exact List.suffix_refl ts

/-- What a declaration that is read without a fault takes: its name and then its body stand in front of what it
leaves. -/
structure Form.Takes (f : Form) (levels : Nat) (rest : List Token) : Prop where
  spot : ∀ us ∈ f.spots, rest.length < us.length ∧ us <:+ f.tokens
  body : ∀ c, f.contents? = some c → c.tokens <:+ f.tokens ∧ (∀ us ∈ f.spots, c.tokens.length < us.length) ∧
    ∃ l, levels = l + 1 ∧ (c.read l).found.problems = #[] ∧ rest.length ≤ (c.read l).rest.length

section

variable {levels : Nat} {scope : Scope} {owner name : String} {kind : TypeKind} {mods : List Keyword}
  {start stop : Span} {ts : List Token} {x : Found}

theorem takes_typeDeclaration (h : (typeDeclaration (below levels) kind mods start ts).result = .ok x)
    (hx : x.problems = #[]) :
    (Form.type kind ts).Takes levels (typeDeclaration (below levels) kind mods start ts).rest := by
  obtain ⟨hname, hpassed, he⟩ := typeDeclaration_cases h
  rw [he] at h ⊢
  have hlt := Token.length_tail_lt (Token.not_atEnd_of_name? hname)
  have hheader := (Nesting.rest_skipUntil_suffix endsHeader true ts.tail.tail).length_le
  have hrest := (rest_typeEnd_suffix (below levels) kind (wordAt ts.tail) mods start
    (skipUntil endsHeader true ts.tail.tail).rest).length_le
  refine ⟨fun us hus => ?_, fun c hc => ⟨?_, fun us hus => ?_, ?_⟩⟩
  · obtain rfl : us = ts.tail := List.mem_singleton.mp hus
    exact ⟨by omega, List.tail_suffix ts⟩
  · obtain ⟨-, -, rfl⟩ := Form.contents?_type_eq_some.mp hc
    exact (((List.tail_suffix _).trans (Nesting.rest_skipUntil_suffix endsHeader true ts.tail.tail)).trans
      (List.tail_suffix _)).trans (List.tail_suffix _)
  · obtain rfl : us = ts.tail := List.mem_singleton.mp hus
    obtain ⟨-, -, rfl⟩ := Form.contents?_type_eq_some.mp hc
    exact Nat.lt_of_le_of_lt (Nat.le_trans (List.tail_suffix _).length_le hheader) hlt
  · obtain ⟨hb, hk, rfl⟩ := Form.contents?_type_eq_some.mp hc
    rcases typeEnd_cases h hx with hm | ⟨-, ⟨henum, -⟩ | ⟨-, l, rfl, hproblems, hclosed⟩⟩
    · exact absurd hm (not_atMark_of_atMark hb (by simp))
    · exact absurd henum hk
    · refine ⟨l, rfl, hproblems, ?_⟩
      rw [typeEnd_of_body hb hk hclosed]
      exact ((Token.skipMark_suffix _ _).trans (List.tail_suffix _)).length_le

theorem takes_namespaceDeclaration (h : (namespaceDeclaration (below levels) scope start ts).result = .ok x)
    (hx : x.problems = #[]) :
    (Form.namespaceBlock ts).Takes levels (namespaceDeclaration (below levels) scope start ts).rest := by
  obtain ⟨name, hqualified, he⟩ := namespaceDeclaration_cases h
  obtain ⟨hname, hdotted, hread⟩ := qualifiedName_cases hqualified
  rw [he] at h ⊢
  have hlt := Token.length_tail_lt (Token.not_atEnd_of_name? hname)
  have hdots := (rest_dottedName_suffix (wordAt ts.tail) ts.tail.tail).length_le
  have hrest := (rest_namespaceEnd_suffix (below levels) scope name start (qualifiedName ts.tail).rest).length_le
  have hspots (us : List Token) (hus : us ∈ (Form.namespaceBlock ts).spots) :
      (qualifiedName ts.tail).rest.length < us.length ∧ us <:+ ts := by
    rw [hread]
    rcases List.mem_cons.mp hus with rfl | hus
    · exact ⟨Nat.lt_of_le_of_lt hdots hlt, List.tail_suffix ts⟩
    · obtain ⟨hmore, hsuffix⟩ := suffix_of_mem_dottedSpots hdotted hus
      exact ⟨hmore, ((hsuffix.trans (List.tail_suffix _)).trans (List.tail_suffix _)).trans (List.tail_suffix _)⟩
  refine ⟨fun us hus => ?_, fun c hc => ?_⟩
  · obtain ⟨hmore, hsuffix⟩ := hspots us hus
    exact ⟨Nat.lt_of_le_of_lt hrest hmore, hsuffix⟩
  · obtain rfl : namespaceContents (qualifiedName ts.tail).rest = c := Option.some.inj hc
    refine ⟨?_, fun us hus => Nat.lt_of_le_of_lt (List.tail_suffix _).length_le (hspots us hus).1, ?_⟩
    · rw [hread]
      exact (((List.tail_suffix _).trans (rest_dottedName_suffix _ _)).trans (List.tail_suffix _)).trans
        (List.tail_suffix _)
    obtain ⟨l, rfl, hproblems, ⟨hm, rfl⟩ | ⟨hb, hclosed⟩⟩ := namespaceEnd_cases h hx
    · refine ⟨l, rfl, hproblems, ?_⟩
      rw [namespaceEnd_of_semicolon hm]
      exact Nat.le_refl _
    · refine ⟨l, rfl, hproblems, ?_⟩
      rw [namespaceEnd_of_body hb hclosed]
      exact ((Token.skipMark_suffix _ _).trans (List.tail_suffix _)).length_le

theorem takes_member {forced : Option DeclarationKind} (h : (member owner mods start forced ts).result = .ok x) :
    (Form.member forced ts).Takes levels (member owner mods start forced ts).rest := by
  obtain ⟨d, hd, he⟩ := Step.andThen_eq_ok h
  have he : member owner mods start forced ts = .done _ (Member.read owner mods start forced ts).rest := he
  obtain ⟨k, hk, hmember⟩ := Step.andThen_eq_ok hd
  have hmember : Member.read owner mods start forced ts = _ := hmember
  have hrest : (Member.read owner mods start forced ts).rest <:+ (Head.read {} ts).rest := by
    rw [hmember]
    split
    · exact List.suffix_refl _
    · exact Step.rest_andThen_suffix (Member.rest_rest_suffix _) fun _ us => List.suffix_refl us
  rw [he, Step.rest_done]
  refine ⟨fun us hus => ?_, fun c hc => by cases hc⟩
  obtain hnone | ⟨hmore, hsuffix⟩ := Head.suffix_of_spot (Option.mem_toList.mp hus)
  · cases hnone
  · exact ⟨Nat.lt_of_le_of_lt hrest.length_le hmore, hsuffix⟩

theorem Form.takes (f : Form) (h : (f.read (below levels) scope owner mods start).result = .ok x)
    (hx : x.problems = #[]) : f.Takes levels (f.read (below levels) scope owner mods start).rest := by
  cases f with
  | type kind ts => exact takes_typeDeclaration h hx
  | namespaceBlock ts => exact takes_namespaceDeclaration h hx
  | member forced ts => exact takes_member h
  | unknown ts => cases h

end

end Reader

end TestScaffold
