import TestScaffold.Proofs.Reading.RoundTrip

/-!
# Directives, attributes and broken names

What a written text may hold besides declarations, and what makes it fail: directives declare nothing, attributes
change nothing about what they stand in front of, and the name of a namespace breaks off at a word that is no name.
A fault that has been found stays found.

Results:
* `Written.item_using`, `Written.item_attribute`: what is passed over.
* `Written.exists_error_of_namespace`: a namespace without a proper name is not read.
* `Reader.problems_readFrom_prefix`: reading on forgets no fault.
-/

namespace TestScaffold

open Token (front second atEnd atMark atKeyword atIdentifier atBodyEnd)
open Nesting (isPlain skipGroup skipToSemicolon)
open Reader (readFrom item dottedName)

namespace Written

/-- A directive is passed with everything up to its semicolon, and declares nothing. -/
theorem item_using (inner : Option Reader) {scope : Scope} (hs : scope ≠ .typeBody) (owner : String)
    {ks : List TokenKind} (hks : ∀ k ∈ ks, isPlain k = true ∧ k ≠ .punctuation .semicolon) (rest : List Token) :
    item inner scope owner (bare (.keyword .usingKw :: (ks ++ [.punctuation .semicolon])) ++ rest)
      = .done {} rest := by
  have hbalanced : Nesting.Balanced (· != .punctuation .semicolon) ks := by
    induction ks with
    | nil => exact .nil
    | cons k ks ih =>
      obtain ⟨hplain, hne⟩ := hks k List.mem_cons_self
      exact .plain hplain (by simpa using hne) (ih fun l hl => hks l (List.mem_cons_of_mem k hl))
  have hus : Nesting.Balanced (· != .punctuation .semicolon) ((bare ks).map Token.kind) := by
    rw [map_kind_bare]
    exact hbalanced
  have hskip := @Nesting.skipToSemicolon_of_balanced ⟨.keyword .usingKw, .zero⟩ ⟨.punctuation .semicolon, .zero⟩
    rfl (by simp) rfl _ hus rest
  have hts : bare (.keyword .usingKw :: (ks ++ [.punctuation .semicolon])) ++ rest
      = ⟨.keyword .usingKw, .zero⟩ :: (bare ks ++ ⟨.punctuation .semicolon, .zero⟩ :: rest) := by simp
  have hdirective : (scope != .typeBody && Reader.atDirective (⟨.keyword .usingKw, .zero⟩
      :: (bare ks ++ ⟨.punctuation .semicolon, .zero⟩ :: rest))) = true := by
    simp [hs, Reader.atDirective, atKeyword, front]
  rw [hts]
  unfold item
  rw [if_pos hdirective, hskip]
  rfl

/-- An attribute in brackets changes nothing about what follows, as long as no directive does. -/
theorem item_attribute (inner : Option Reader) {scope : Scope} (owner : String) {k : TokenKind}
    (hk : isPlain k = true) {us : List Token} (hu : (scope != .typeBody && Reader.atDirective us) = false) :
    item inner scope owner (bare [.punctuation .leftBracket, k, .punctuation .rightBracket] ++ us)
      = item inner scope owner us := by
  have hcontent : Nesting.Balanced (fun _ => true) ([(⟨k, .zero⟩ : Token)].map Token.kind) := .plain hk rfl .nil
  have hgroup := @Nesting.skipGroup_of_balanced _ .leftBracket .rightBracket rfl
    ⟨.punctuation .leftBracket, .zero⟩ ⟨.punctuation .rightBracket, .zero⟩ rfl rfl _ hcontent us
  have hts : bare [.punctuation .leftBracket, k, .punctuation .rightBracket] ++ us
      = ⟨.punctuation .leftBracket, .zero⟩
        :: ([⟨k, .zero⟩] ++ ⟨.punctuation .rightBracket, .zero⟩ :: us) := rfl
  have hskip : Reader.skipAttributes (⟨.punctuation .leftBracket, .zero⟩
      :: ([⟨k, .zero⟩] ++ ⟨.punctuation .rightBracket, .zero⟩ :: us)) = Reader.skipAttributes us := by
    rw [Reader.skipAttributes, hgroup]
    rfl
  have hdirective : (scope != .typeBody && Reader.atDirective (⟨.punctuation .leftBracket, .zero⟩
      :: ([⟨k, .zero⟩] ++ ⟨.punctuation .rightBracket, .zero⟩ :: us))) = false := by
    simp [Reader.atDirective, atKeyword, atIdentifier, front]
  rw [hts]
  unfold item
  simp only [hdirective, hskip, hu, Bool.false_eq_true, if_false]

/-! ## Names that break off -/

theorem exists_mem_tail {k : TokenKind} {ks : List TokenKind} {name : String} (hk : k.name? = some name)
    (h : ∃ l ∈ k :: ks, l.name? = none) : ∃ l ∈ ks, l.name? = none := by
  obtain ⟨l, hl, hnone⟩ := h
  rcases List.mem_cons.mp hl with rfl | hl
  · rw [hk] at hnone
    cases hnone
  · exact ⟨l, hl, hnone⟩

/-- A dotted name breaks off at a word that is no name. -/
theorem exists_error_of_dottedName (name : String) {ks : List TokenKind} (h : ∃ k ∈ ks, k.name? = none)
    (rest : List Token) :
    ∃ d, (dottedName name (bare (ks.flatMap fun k => [.punctuation .dot, k]) ++ rest)).result = .error d := by
  induction ks generalizing name with
  | nil =>
    obtain ⟨k, hk, -⟩ := h
    cases hk
  | cons k ks ih =>
    have hts : bare ((k :: ks).flatMap fun k => [.punctuation .dot, k]) ++ rest
        = ⟨.punctuation .dot, .zero⟩ :: ⟨k, .zero⟩
          :: (bare (ks.flatMap fun k => [.punctuation .dot, k]) ++ rest) := by simp
    rw [hts, dottedName]
    cases hn : k.name? with
    | none =>
      refine ⟨(Fault.expected .nameAfterDot k).report .zero, ?_⟩
      simp [atMark, front, hn, Step.failExpecting, Step.fail]
    | some n =>
      obtain ⟨d, hd⟩ := ih s!"{name}.{n}" (exists_mem_tail hn h)
      refine ⟨d, ?_⟩
      simpa [atMark, front, hn] using hd

/-- A namespace whose name holds a word that is no name is not read. -/
theorem exists_error_of_namespace (inner : Option Reader) (scope : Scope) {k : TokenKind} {ks : List TokenKind}
    (h : ∃ l ∈ k :: ks, l.name? = none) (rest : List Token) :
    ∃ d, (Reader.namespaceDeclaration inner scope .zero (⟨.keyword .namespaceKw, .zero⟩ :: ⟨k, .zero⟩
      :: (bare (ks.flatMap fun k => [.punctuation .dot, k]) ++ rest))).result = .error d := by
  have hname : ∃ d, (Reader.qualifiedName (⟨k, .zero⟩
      :: (bare (ks.flatMap fun k => [.punctuation .dot, k]) ++ rest))).result = .error d := by
    unfold Reader.qualifiedName Step.name
    simp only [front]
    cases hn : k.name? with
    | none => exact ⟨_, rfl⟩
    | some n => exact exists_error_of_dottedName n (exists_mem_tail hn h) rest
  obtain ⟨d, hd⟩ := hname
  refine ⟨d, ?_⟩
  unfold Reader.namespaceDeclaration Step.andThen
  rw [List.tail_cons, hd]

end Written

/-! ## Faults -/

namespace Reader

/-- Reading on forgets no fault. -/
theorem problems_readFrom_prefix (inner : Option Reader) (scope : Scope) (braced : Bool) (owner : String)
    (found : Found) (ts : List Token) :
    found.problems.toList <+: (readFrom inner scope braced owner found ts).found.problems.toList := by
  fun_induction readFrom inner scope braced owner found ts with
  | case1 found ts => exact List.prefix_rfl
  | case2 found ts => exact List.prefix_rfl
  | case3 found ts _ _ _ ih =>
    refine List.IsPrefix.trans ?_ ih
    rw [Found.report, Array.toList_push]
    exact List.prefix_append _ _
  | case4 found ts _ _ s x _ ih =>
    refine List.IsPrefix.trans ?_ ih
    rw [Found.append, Array.toList_append]
    exact List.prefix_append _ _
  | case5 found ts _ _ s d _ ih =>
    refine List.IsPrefix.trans ?_ ih
    rw [Found.report, Array.toList_push]
    exact List.prefix_append _ _

/-- Where a list is read without a fault, none had been found in front of it. -/
theorem problems_eq_empty_of_readFrom {inner : Option Reader} {scope : Scope} {braced : Bool} {owner : String}
    {found : Found} {ts : List Token} (hx : (readFrom inner scope braced owner found ts).found.problems = #[]) :
    found.problems = #[] := by
  have hprefix := problems_readFrom_prefix inner scope braced owner found ts
  rw [hx] at hprefix
  simpa using hprefix

/-- A list with an item that cannot be read has faults. -/
theorem problems_ne_nil_of_item_error {inner : Option Reader} {scope : Scope} {braced : Bool} {owner : String}
    {found : Found} {d : Diagnostic} {ts : List Token} (hb : ¬ atBodyEnd ts = true)
    (h : (item inner scope owner ts).result = .error d) :
    (readFrom inner scope braced owner found ts).found.problems.toList ≠ [] := by
  rw [readFrom_of_error hb h]
  intro hnil
  have hprefix := problems_readFrom_prefix inner scope braced owner (found.report d)
    (Nesting.recover (item inner scope owner ts).rest)
  rw [hnil, List.prefix_nil, Found.report, Array.toList_push] at hprefix
  simp at hprefix

end Reader

end TestScaffold
