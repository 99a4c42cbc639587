import TestScaffold.Declaration.Member
import TestScaffold.Declaration.Tree
import TestScaffold.Token.Lexer

/-!
# From tokens to declarations

One pass over the tokens reads every declaration and reports every fault: behind a broken declaration the reading
goes on at the next one. A body in braces is read by a reader with one level less to go, so nesting is bounded.

* `Reader.ofLevels n`: reads lists of declarations whose bodies nest at most `n` deep.
* `readDeclarations`: the declarations of a whole text, or all of its faults.
* `Reader.length_rest_item_lt`: an item that is read takes at least one token; where reading fails, recovery does
  (`Nesting.length_recover_lt`).
* `DeclarationTree.ofTokens`: the tree that a list of tokens declares, or all faults found.
* `DeclarationTree.ofSource`: the tree that a text declares. A text that cannot be cut into tokens is reported by its
  lexical faults alone.
-/

namespace TestScaffold

open Token (front second atEnd atMark atKeyword atIdentifier atBodyEnd skipMark)
open Nesting (skipGroup skipUntil skipToSemicolon recover)

/-- Where a list of declarations stands, which decides what it may hold. -/
inductive Scope
  | text
  | namespaceBody
  | typeBody
  deriving DecidableEq, Repr

/-- What has been found so far, in source order. -/
structure Found where
  declarations : Array Declaration := #[]
  problems : Array Diagnostic := #[]

namespace Found

/-- What was found first, and what was found then. -/
def append (a b : Found) : Found := ⟨a.declarations ++ b.declarations, a.problems ++ b.problems⟩

/-- One more problem. -/
def report (a : Found) (d : Diagnostic) : Found := { a with problems := a.problems.push d }

/-- What was found, wrapped into the declaration it was found in. -/
def wrap (a : Found) (kind : DeclarationKind) (name : String) (modifiers : List Keyword) (span : Span) : Found :=
  { a with declarations := #[⟨kind, name, modifiers, span, a.declarations.toList⟩] }

end Found

/-- The contents of a list of declarations, and the tokens behind it. -/
structure Body where
  found : Found
  rest : List Token

/-- A way to read a list of declarations that belongs to `owner`. A list in braces ends before its closing brace;
any other goes on to the end of the text. What is left is an end piece of the tokens given. -/
structure Reader where
  read : (scope : Scope) → (braced : Bool) → (owner : String) → List Token → Body
  rest_suffix : ∀ scope braced owner ts, (read scope braced owner ts).rest <:+ ts

namespace Reader

/-! ## Namespaces -/

/-- Reads the rest of a dotted name that begins with `name`. -/
def dottedName (name : String) (ts : List Token) : Step String :=
  if atMark .dot ts then
    match (front ts.tail).kind.name? with
    | some n => dottedName s!"{name}.{n}" ts.tail.tail
    | none => .failExpecting .nameAfterDot ts.tail
  else .done name ts
termination_by ts.length
decreasing_by
  refine Nat.lt_of_le_of_lt ?_ (Token.length_tail_lt (Token.not_atEnd_of_atMark ‹_›))
  simp

/-- Reads a dotted name. -/
def qualifiedName (ts : List Token) : Step String :=
  (Step.name .namespaceName ts).andThen dottedName

/-- The last token before the end of the text. -/
def lastToken (ts : List Token) : Token :=
  (ts.takeWhile fun t => t.kind != .endOfText).getLast?.getD (front ts)

/-- Reads the body whose opening brace stands here, up to and including its closing brace, and yields the span of
that brace. A body that never closes is reported together with what it holds. -/
def inBraces (inner : Reader) (scope : Scope) (owner : String) (ts : List Token) : Step (Found × Span) :=
  let body := inner.read scope true owner ts.tail
  if atMark .rightBrace body.rest then .done (body.found, (front body.rest).span) body.rest.tail
  else
    let opening := (front ts).span
    .done (body.found.report ((Fault.unclosed .leftBrace .rightBrace).report opening), opening) body.rest

/-- Reads a namespace whose keyword stands here. Ended by a semicolon, which only the top level admits, it owns
everything up to the end of the text. -/
def namespaceDeclaration (inner : Option Reader) (scope : Scope) (start : Span) (ts : List Token) : Step Found :=
  (qualifiedName ts.tail).andThen fun name rest =>
    if atMark .semicolon rest && scope != .text then
      .fail .misplacedFileNamespace (front rest).span rest.tail
    else
      match inner with
      | none => .fail .nestedTooDeeply (front rest).span rest
      | some reader =>
        if atMark .semicolon rest then
          let body := reader.read .namespaceBody false name rest.tail
          .done (body.found.wrap .namespaceBlock name [] (start.merge (lastToken rest).span)) body.rest
        else if atMark .leftBrace rest then
          (inBraces reader .namespaceBody name rest).andThen fun (found, stop) left =>
            .done (found.wrap .namespaceBlock name [] (start.merge stop)) (skipMark .semicolon left)
        else .failExpecting .namespaceBody rest

/-! ## Types -/

/-- Reads the body of a type, whose opening brace stands here, and yields the span up to its end. The body of an
enumeration holds no declarations. -/
def typeBody (inner : Option Reader) (kind : TypeKind) (name : String) (ts : List Token) : Step (Found × Span) :=
  if kind == .enumType then (skipGroup ts).andThen fun body rest => .done ({}, body) rest
  else
    match inner with
    | none => .fail .nestedTooDeeply (front ts).span ts
    | some reader => inBraces reader .typeBody name ts

/-- Reads a type whose keyword stands here. Its header runs up to its body, or up to a semicolon where it has
none. -/
def typeDeclaration (inner : Option Reader) (kind : TypeKind) (modifiers : List Keyword) (start : Span)
    (ts : List Token) : Step Found :=
  (Step.name (.typeName kind) ts.tail).andThen fun name header =>
    (skipUntil (fun p => p == .leftBrace || p == .semicolon) true header).andThen fun _ rest =>
      if atMark .semicolon rest then
        .done (Found.wrap {} (.type kind) name modifiers (start.merge (front rest).span)) rest.tail
      else if atMark .leftBrace rest then
        (typeBody inner kind name rest).andThen fun (found, stop) left =>
          .done (found.wrap (.type kind) name modifiers (start.merge stop)) (skipMark .semicolon left)
      else .failExpecting .typeBody rest

/-- The type a keyword always introduces, if it introduces one. -/
def typeKind? : Keyword → Option TypeKind
  | .classKw => some .classType
  | .structKw => some .structType
  | .interfaceKw => some .interfaceType
  | .enumKw => some .enumType
  | _ => none

/-- Whether the word behind `record` says that it is `class` or `struct`, which makes no difference. -/
def atRecordFlavour (ts : List Token) : Bool :=
  (second ts).kind == .keyword .classKw || (second ts).kind == .keyword .structKw

/-- Whether the word `record` stands here and introduces a type: its flavour or a name follows. -/
def atRecord (ts : List Token) : Bool :=
  atKeyword .recordKw ts && (atRecordFlavour ts || (second ts).kind.name?.isSome)

/-! ## One item of a list -/

/-- Whether a `using` or `extern alias` directive stands here. -/
def atDirective (ts : List Token) : Bool :=
  atKeyword .usingKw ts
    || (atIdentifier "global" ts && (second ts).kind == .keyword .usingKw)
    || (atKeyword .externKw ts && (second ts).kind == .identifier "alias")

/-- Passes attribute lists. -/
def skipAttributes (ts : List Token) : Step Unit :=
  if atMark .leftBracket ts then
    let s := skipGroup ts
    match s.result with
    | .ok _ => skipAttributes s.rest
    | .error d => ⟨.error d, s.rest⟩
  else .done () ts
termination_by ts.length
decreasing_by exact Nesting.length_rest_skipGroup_lt (Token.not_atEnd_of_atMark ‹_›)

/-- The modifiers at the front, and the tokens behind them. The word `ref` before `struct` is passed without being
a modifier. -/
def modifiers : List Token → List Keyword × List Token
  | [] => ([], [])
  | t :: ts =>
    match t.kind with
    | .keyword k =>
      if k.isModifier then
        let (ks, rest) := modifiers ts
        (k :: ks, rest)
      else ([], t :: ts)
    | .identifier name => if name == "ref" && atKeyword .structKw ts then modifiers ts else ([], t :: ts)
    | _ => ([], t :: ts)

/-- Reads a member into a list of its own. -/
def member (owner : String) (modifiers : List Keyword) (start : Span) (forced : Option DeclarationKind)
    (ts : List Token) : Step Found :=
  (Member.read owner modifiers start forced ts).andThen fun d rest => .done { declarations := #[d] } rest

/-- Reads a declaration whose modifiers have been read. Delegates, and events inside a type, have the form of
members but are neither methods nor fields. -/
def declaration (inner : Option Reader) (scope : Scope) (owner : String) (mods : List Keyword) (start : Span)
    (ts : List Token) : Step Found :=
  match (front ts).kind.keyword?.bind typeKind? with
  | some kind => typeDeclaration inner kind mods start ts
  | none =>
    if atRecord ts then
      typeDeclaration inner .recordType mods start (if atRecordFlavour ts then ts.tail else ts)
    else if atKeyword .namespaceKw ts && scope != .typeBody && mods.isEmpty then
      namespaceDeclaration inner scope start ts
    else if atKeyword .delegateKw ts || (atKeyword .eventKw ts && scope == .typeBody) then
      member owner mods start (some .other) ts.tail
    else if scope == .typeBody then member owner mods start none ts
    else .failExpecting .declaration ts

/-- Reads a directive or a declaration with its attributes. Attributes may stand at the end of a list with nothing
behind them. -/
def item (inner : Option Reader) (scope : Scope) (owner : String) (ts : List Token) : Step Found :=
  if scope != .typeBody && atDirective ts then (skipToSemicolon ts).andThen fun _ rest => .done {} rest
  else
    (skipAttributes ts).andThen fun _ rest =>
      if atBodyEnd rest then .done {} rest
      else declaration inner scope owner (modifiers rest).1 (front rest).span (modifiers rest).2

/-! ## What is left -/

theorem rest_dottedName_suffix (name : String) (ts : List Token) : (dottedName name ts).rest <:+ ts := by
  fun_induction dottedName name ts with
  | case1 name ts _ n _ ih => exact ih.trans ((List.tail_suffix _).trans (List.tail_suffix ts))
  | case2 name ts => exact List.tail_suffix ts
  | case3 name ts => exact List.suffix_refl ts

theorem rest_inBraces_suffix (inner : Reader) (scope : Scope) (owner : String) (ts : List Token) :
    (inBraces inner scope owner ts).rest <:+ ts := by
  have h := (inner.rest_suffix scope true owner ts.tail).trans (List.tail_suffix ts)
  unfold inBraces
  simp only
  split
  · exact (List.tail_suffix _).trans h
  · exact h

theorem rest_namespaceDeclaration_suffix (inner : Option Reader) (scope : Scope) (start : Span)
    (ts : List Token) : (namespaceDeclaration inner scope start ts).rest <:+ ts.tail := by
  refine Step.rest_andThen_suffix
    (Step.rest_andThen_suffix (Step.rest_name_suffix _ _) rest_dottedName_suffix) fun name us => ?_
  split
  · exact List.tail_suffix us
  · split
    · exact List.suffix_refl us
    · next reader =>
      split
      · exact (reader.rest_suffix _ _ _ _).trans (List.tail_suffix us)
      · split
        · exact Step.rest_andThen_suffix (rest_inBraces_suffix _ _ _ us) fun _ vs =>
            Token.skipMark_suffix _ vs
        · exact List.suffix_refl us

theorem rest_typeBody_suffix (inner : Option Reader) (kind : TypeKind) (name : String) (ts : List Token) :
    (typeBody inner kind name ts).rest <:+ ts := by
  unfold typeBody
  split
  · exact Step.rest_andThen_suffix (Nesting.rest_skipGroup_suffix ts) fun _ us => List.suffix_refl us
  · split
    · exact List.suffix_refl ts
    · exact rest_inBraces_suffix _ _ _ _

theorem rest_typeDeclaration_suffix (inner : Option Reader) (kind : TypeKind) (modifiers : List Keyword)
    (start : Span) (ts : List Token) :
    (typeDeclaration inner kind modifiers start ts).rest <:+ ts.tail := by
  refine Step.rest_andThen_suffix (Step.rest_name_suffix _ _) fun name us => ?_
  refine Step.rest_andThen_suffix (Nesting.rest_skipUntil_suffix _ _ us) fun _ vs => ?_
  split
  · exact List.tail_suffix vs
  · split
    · exact Step.rest_andThen_suffix (rest_typeBody_suffix _ _ _ vs) fun _ ws => Token.skipMark_suffix _ ws
    · exact List.suffix_refl vs

theorem rest_skipAttributes_suffix (ts : List Token) : (skipAttributes ts).rest <:+ ts := by
  fun_induction skipAttributes ts with
  | case1 ts _ s _ _ ih => exact ih.trans (Nesting.rest_skipGroup_suffix ts)
  | case2 ts => exact Nesting.rest_skipGroup_suffix ts
  | case3 ts => exact List.suffix_refl ts

theorem modifiers_suffix (ts : List Token) : (modifiers ts).2 <:+ ts := by
  fun_induction modifiers ts <;> simp_all [List.suffix_cons_iff]

theorem rest_member_suffix (owner : String) (mods : List Keyword) (start : Span)
    (forced : Option DeclarationKind) (ts : List Token) : (member owner mods start forced ts).rest <:+ ts :=
  Step.rest_andThen_suffix (Member.rest_read_suffix _ _ _ _ ts) fun _ us => List.suffix_refl us

theorem rest_declaration_suffix (inner : Option Reader) (scope : Scope) (owner : String) (mods : List Keyword)
    (start : Span) (ts : List Token) : (declaration inner scope owner mods start ts).rest <:+ ts := by
  unfold declaration
  split
  · exact (rest_typeDeclaration_suffix _ _ _ _ ts).trans (List.tail_suffix ts)
  · split
    · refine (rest_typeDeclaration_suffix _ _ _ _ _).trans ?_
      split
      · exact (List.tail_suffix _).trans (List.tail_suffix ts)
      · exact List.tail_suffix ts
    · split
      · exact (rest_namespaceDeclaration_suffix _ _ _ ts).trans (List.tail_suffix ts)
      · split
        · exact (rest_member_suffix _ _ _ _ _).trans (List.tail_suffix ts)
        · split
          · exact rest_member_suffix _ _ _ _ ts
          · exact List.suffix_refl ts

theorem rest_item_suffix (inner : Option Reader) (scope : Scope) (owner : String) (ts : List Token) :
    (item inner scope owner ts).rest <:+ ts := by
  unfold item
  split
  · exact Step.rest_andThen_suffix (Nesting.rest_skipToSemicolon_suffix ts) fun _ us => List.suffix_refl us
  · refine Step.rest_andThen_suffix (rest_skipAttributes_suffix ts) fun _ us => ?_
    split
    · exact List.suffix_refl us
    · exact (rest_declaration_suffix _ _ _ _ _ _).trans (modifiers_suffix us)

/-! ## Every item takes at least one token -/

theorem length_rest_member_lt {owner : String} {mods : List Keyword} {start : Span}
    {forced : Option DeclarationKind} {ts : List Token} {x : Found}
    (h : (member owner mods start forced ts).result = .ok x) :
    (member owner mods start forced ts).rest.length < ts.length := by
  obtain ⟨d, hd, he⟩ := Step.andThen_eq_ok h
  have he : member owner mods start forced ts = _ := he
  rw [he]
  exact Member.length_rest_read_lt hd

theorem length_rest_declaration_lt {inner : Option Reader} {scope : Scope} {owner : String}
    {mods : List Keyword} {start : Span} {ts : List Token} {x : Found}
    (h : (declaration inner scope owner mods start ts).result = .ok x) :
    (declaration inner scope owner mods start ts).rest.length < ts.length := by
  have drop {us : List Token} (hs : us <:+ ts.tail) (he : ¬ atEnd ts = true) : us.length < ts.length :=
    Nat.lt_of_le_of_lt hs.length_le (Token.length_tail_lt he)
  unfold declaration at h ⊢
  split
  · next kind hk =>
    refine drop (rest_typeDeclaration_suffix _ _ _ _ ts) ?_
    intro he
    simp_all [atEnd, TokenKind.keyword?]
  · next hk =>
    simp only [hk] at h
    split
    · next hr =>
      have hend : ¬ atEnd ts = true :=
        Token.not_atEnd_of_atKeyword (k := .recordKw) (by simp_all [atRecord])
      refine drop ((rest_typeDeclaration_suffix _ _ _ _ _).trans ?_) hend
      split
      · exact List.tail_suffix _
      · exact List.suffix_refl _
    · next hr =>
      simp only [hr] at h
      split
      · next hn =>
        exact drop (rest_namespaceDeclaration_suffix _ _ _ ts)
          (Token.not_atEnd_of_atKeyword (k := .namespaceKw) (by simp_all))
      · next hn =>
        simp only [hn] at h
        split
        · next hd =>
          refine drop (rest_member_suffix _ _ _ _ _) ?_
          rcases Bool.or_eq_true _ _ ▸ hd with hd | hd
          · exact Token.not_atEnd_of_atKeyword hd
          · exact Token.not_atEnd_of_atKeyword (k := .eventKw) (by simp_all)
        · next hd =>
          simp only [hd] at h
          split
          · next hs => exact length_rest_member_lt (by simpa [hs] using h)
          · next hs => simp [hs, Step.failExpecting, Step.fail] at h

/-- An item that is read in full takes at least one token. -/
theorem length_rest_item_lt {inner : Option Reader} {scope : Scope} {owner : String} {ts : List Token}
    {x : Found} (hend : ¬ atBodyEnd ts = true) (h : (item inner scope owner ts).result = .ok x) :
    (item inner scope owner ts).rest.length < ts.length := by
  unfold item at h ⊢
  split at h
  · next hd =>
    rw [if_pos hd]
    obtain ⟨s, hs, he⟩ := Step.andThen_eq_ok h
    rw [he]
    exact Nesting.length_rest_skipToSemicolon_lt hs
  · next hd =>
    rw [if_neg hd]
    obtain ⟨_, _, he⟩ := Step.andThen_eq_ok h
    have ha := rest_skipAttributes_suffix ts
    rw [he] at h ⊢
    split at h
    · next hb =>
      rw [if_pos hb]
      refine Nat.lt_of_le_of_ne ha.length_le fun hl => hend ?_
      rwa [ha.eq_of_length hl] at hb
    · next hb =>
      rw [if_neg hb]
      exact Nat.lt_of_lt_of_le (length_rest_declaration_lt h)
        ((modifiers_suffix _).trans ha).length_le

/-- After an item that is not read, recovery has taken at least one token. -/
theorem length_recover_item_lt {inner : Option Reader} {scope : Scope} {owner : String} {ts : List Token}
    (hend : ¬ atBodyEnd ts = true) : (recover (item inner scope owner ts).rest).length < ts.length := by
  have hs := rest_item_suffix inner scope owner ts
  by_cases hl : (item inner scope owner ts).rest.length = ts.length
  · rw [hs.eq_of_length hl]
    exact Nesting.length_recover_lt hend
  · exact Nat.lt_of_le_of_lt (Nesting.recover_suffix _).length_le (Nat.lt_of_le_of_ne hs.length_le hl)

/-! ## Lists of declarations -/

/-- Reads a list of declarations on from what has been found. Behind an item that cannot be read the reading goes
on where recovery leads. -/
def readFrom (inner : Option Reader) (scope : Scope) (braced : Bool) (owner : String) (found : Found)
    (ts : List Token) : Body :=
  if atEnd ts then ⟨found, ts⟩
  else if atMark .rightBrace ts then
    if braced then ⟨found, ts⟩
    else readFrom inner scope braced owner (found.report (Fault.strayBrace.report (front ts).span)) ts.tail
  else
    let s := item inner scope owner ts
    match _h : s.result with
    | .ok x => readFrom inner scope braced owner (found.append x) s.rest
    | .error d => readFrom inner scope braced owner (found.report d) (recover s.rest)
termination_by ts.length
decreasing_by
  · exact Token.length_tail_lt ‹_›
  · exact length_rest_item_lt (by simp_all [atBodyEnd]) _h
  · exact length_recover_item_lt (by simp_all [atBodyEnd])

/-- Behind an item that is read, the reading goes on with what the item holds. -/
theorem readFrom_of_ok {inner : Option Reader} {scope : Scope} {braced : Bool} {owner : String} {found x : Found}
    {ts : List Token} (hb : ¬ atBodyEnd ts = true) (h : (item inner scope owner ts).result = .ok x) :
    readFrom inner scope braced owner found ts =
      readFrom inner scope braced owner (found.append x) (item inner scope owner ts).rest := by
  have he : atEnd ts = false ∧ atMark .rightBrace ts = false := by simpa [atBodyEnd] using hb
  rw [readFrom]
  simp only [he.1, he.2, Bool.false_eq_true, if_false]
  split <;> simp_all

/-- Behind an item that cannot be read, the reading goes on where recovery leads. -/
theorem readFrom_of_error {inner : Option Reader} {scope : Scope} {braced : Bool} {owner : String} {found : Found}
    {d : Diagnostic} {ts : List Token} (hb : ¬ atBodyEnd ts = true)
    (h : (item inner scope owner ts).result = .error d) :
    readFrom inner scope braced owner found ts =
      readFrom inner scope braced owner (found.report d) (recover (item inner scope owner ts).rest) := by
  have he : atEnd ts = false ∧ atMark .rightBrace ts = false := by simpa [atBodyEnd] using hb
  rw [readFrom]
  simp only [he.1, he.2, Bool.false_eq_true, if_false]
  split <;> simp_all

theorem rest_readFrom_suffix (inner : Option Reader) (scope : Scope) (braced : Bool) (owner : String)
    (found : Found) (ts : List Token) : (readFrom inner scope braced owner found ts).rest <:+ ts := by
  fun_induction readFrom inner scope braced owner found ts with
  | case1 found ts => exact List.suffix_refl ts
  | case2 found ts => exact List.suffix_refl ts
  | case3 found ts _ _ _ ih => exact ih.trans (List.tail_suffix ts)
  | case4 found ts _ _ s x _ ih => exact ih.trans (rest_item_suffix _ _ _ ts)
  | case5 found ts _ _ s d _ ih =>
    exact ih.trans ((Nesting.recover_suffix _).trans (rest_item_suffix _ _ _ ts))

/-- The reader of lists of declarations in which bodies nest at most `levels` deep. -/
def ofLevels : (levels : Nat) → Reader
  | 0 => ⟨fun scope braced owner => readFrom none scope braced owner {},
      fun scope braced owner => rest_readFrom_suffix none scope braced owner {}⟩
  | levels + 1 => ⟨fun scope braced owner => readFrom (some (ofLevels levels)) scope braced owner {},
      fun scope braced owner => rest_readFrom_suffix (some (ofLevels levels)) scope braced owner {}⟩

end Reader

/-- How deep bodies may nest. -/
def maxNesting : Nat := 255

/-- The declarations of a whole text under a root that spans it, or all of its faults in the order they were
found. -/
def readDeclarations (tokens : List Token) : Except (List Diagnostic) Declaration :=
  let body := (Reader.ofLevels maxNesting).read .text false "" tokens
  if body.found.problems.isEmpty then
    .ok ⟨.unit, "", [], Span.zero.merge (front body.rest).span, body.found.declarations.toList⟩
  else .error body.found.problems.toList

end TestScaffold

namespace TestScaffold.DeclarationTree

/-! ## Trees -/

/-- The tree that a list of tokens declares, or all faults found. -/
def ofTokens (tokens : List Token) : Except (List Diagnostic) DeclarationTree :=
  (readDeclarations tokens).map ofDeclaration

/-- The tree that a text declares. Lexical faults, if there are any, are reported alone. -/
def ofSource (source : String) : Except (List Diagnostic) DeclarationTree := lex source >>= ofTokens

end TestScaffold.DeclarationTree
