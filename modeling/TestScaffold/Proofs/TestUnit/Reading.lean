import TestScaffold.Proofs.Reading.Directives
import TestScaffold.Proofs.Reading.Shape
import TestScaffold.Proofs.TestUnit.Spelling

/-!
# What a test unit declares

Directives and attributes set aside, a unit is a namespace with one class, whose stubs are its methods. It is read as
such if every word in the name of the namespace may serve as a name, and refused otherwise.

Results:
* `TestUnit.declaration`: what a unit declares.
* `TestUnit.readDeclarations_tokens`: a unit is read as it is meant.
* `TestUnit.exists_error_of_tokens`: a unit whose namespace is called by a reserved word is refused.
-/

namespace TestScaffold.TestUnit

open Token (front atEnd atMark atBodyEnd Follows)
open Reader (readFrom ofLevels below item)
open Written (bare foundAll)

/-- A stub, as a declaration. -/
def stubDeclaration (name : String) : Declaration := ⟨.method, name, [.publicKw], .zero, []⟩

/-- The class of a unit. -/
def classDeclaration (className : String) (stubs : List String) : Declaration :=
  ⟨.type .classType, className, [.publicKw], .zero, stubs.map stubDeclaration⟩

/-- The namespace of a unit. -/
def namespaceDeclaration (namespaceName className : String) (stubs : List String) : Declaration :=
  ⟨.namespaceBlock, namespaceName, [], .zero, [classDeclaration className stubs]⟩

/-- What a unit declares. -/
def declaration (namespaceName className : String) (stubs : List String) : Declaration :=
  ⟨.unit, "", [], .zero, [namespaceDeclaration namespaceName className stubs]⟩

/-! ## Stubs -/

theorem isPlain_ofWord (name : String) : Nesting.isPlain (.ofWord name) = true := by
  unfold TokenKind.ofWord
  split <;> rfl

/-- The statement in a stub is passed as a whole. -/
theorem balanced_failureTokens (f : Framework) : Nesting.Balanced (fun _ => true) (failureTokens f) := by
  cases f with
  | xunit =>
    exact .plain rfl rfl (.plain rfl rfl (.plain rfl rfl
      (.group rfl (.plain rfl rfl (.plain rfl rfl (.plain rfl rfl .nil))) (.plain rfl rfl .nil))))
  | _ =>
    exact .plain rfl rfl (.plain rfl rfl (.plain rfl rfl (.group rfl (.plain rfl rfl .nil) (.plain rfl rfl .nil))))

/-- A stub is a method, whatever its attribute. -/
theorem item_stub {levels : Nat} (owner : String) (f : Framework) (name : String) {rest : List Token}
    (hr : Follows rest) : item (below levels) .typeBody owner (bare (stubTokens f name) ++ rest)
      = .done (foundAll [stubDeclaration name]) rest := by
  have hmethod : item (below levels) .typeBody owner (bare (.keyword .publicKw :: .identifier "void"
      :: .identifier name :: (Written.inParens [] ++ Written.inBraces (failureTokens f))) ++ rest)
        = .done (foundAll [stubDeclaration name]) rest :=
    Written.item_member owner
      (.method [⟨.publicKw, isModifier_publicKw⟩] "void" name ⟨[], .nil⟩ ⟨failureTokens f, balanced_failureTokens f⟩)
      (Nat.zero_le levels) hr
  rw [← hmethod, stubTokens, attributeTokens, Written.bare_append, List.append_assoc]
  exact Written.item_attribute _ owner (isPlain_ofWord f.methodAttribute) rfl

theorem follows_stubs (f : Framework) (names : List String) {rest : List Token} (hr : Follows rest) :
    Follows (bare (names.flatMap (stubTokens f)) ++ rest) := by
  cases names with
  | nil => exact hr
  | cons name names => exact ⟨rfl, rfl⟩

/-- Stubs are read one after the other. -/
theorem readFrom_stubs {levels : Nat} (owner : String) (f : Framework) (found : Found) (names : List String)
    {rest : List Token} (hr : Follows rest) :
    readFrom (below levels) .typeBody true owner found (bare (names.flatMap (stubTokens f)) ++ rest)
      = readFrom (below levels) .typeBody true owner (found.append (foundAll (names.map stubDeclaration))) rest := by
  induction names generalizing found with
  | nil => rw [List.map_nil, Written.append_foundAll_nil, List.flatMap_nil, Written.bare_nil, List.nil_append]
  | cons name names ih =>
    have hbegin : ¬ atBodyEnd (bare (stubTokens f name) ++ (bare (names.flatMap (stubTokens f)) ++ rest)) = true :=
      Bool.false_ne_true
    rw [List.flatMap_cons, Written.bare_append, List.append_assoc,
      Written.readFrom_of_item hbegin (item_stub owner f name (follows_stubs f names hr)), ih, List.map_cons,
      Written.append_foundAll_cons]

/-! ## The class -/

/-- The class of a unit is a class with its stubs, whether it has an attribute or not. -/
theorem item_class {levels : Nat} (owner : String) (f : Framework) (name : String) (stubs : List String)
    {rest : List Token} (hr : Follows rest) :
    item (below (levels + 1)) .namespaceBody owner (bare (classTokens f name stubs) ++ rest)
      = .done (foundAll [classDeclaration name stubs]) rest := by
  have hstubs := @readFrom_stubs levels name f {} stubs _ (Written.follows_rightBrace rest)
  rw [Written.readFrom_rightBrace] at hstubs
  have hclass : item (below (levels + 1)) .namespaceBody owner
      (bare (Written.typeTokens [⟨.publicKw, isModifier_publicKw⟩] .classType name (stubs.flatMap (stubTokens f)))
        ++ rest) = .done (foundAll [classDeclaration name stubs]) rest := by
    simp only [Written.typeTokens, Written.bare_append, Written.bare_cons, List.append_assoc, List.cons_append]
    rw [Written.item_typeKeyword, Written.typeDeclaration_tokens (by simp) _ name hstubs hr, Written.wrap_foundAll]
    rfl
  rw [classTokens]
  cases f.classAttribute? with
  | none => exact hclass
  | some a =>
    rw [Option.toList_some, List.flatMap_singleton, Written.bare_append, List.append_assoc, attributeTokens, ← hclass]
    exact Written.item_attribute _ owner (isPlain_ofWord a) rfl

/-! ## The namespace -/

theorem nameTokens_cons (name : String) (more : List String) : nameTokens (name :: more)
    = .ofWord name :: (more.map .ofWord).flatMap fun k => [.punctuation .dot, k] := by
  simp [nameTokens, List.flatMap_map]

theorem readFrom_class {levels : Nat} (owner : String) (f : Framework) (className : String) (stubs : List String)
    (rest : List Token) : readFrom (below (levels + 1)) .namespaceBody true owner {}
      (bare (classTokens f className stubs) ++ ⟨.punctuation .rightBrace, .zero⟩ :: rest)
        = ⟨Found.append {} (foundAll [classDeclaration className stubs]),
          ⟨.punctuation .rightBrace, .zero⟩ :: rest⟩ := by
  have hbegin : ¬ atBodyEnd (bare (classTokens f className stubs) ++ ⟨.punctuation .rightBrace, .zero⟩ :: rest)
      = true := by cases f <;> exact Bool.false_ne_true
  rw [Written.readFrom_of_item hbegin (item_class owner f className stubs (Written.follows_rightBrace rest)),
    Written.readFrom_rightBrace]

theorem not_atBodyEnd_namespaceTokens (f : Framework) (names : List String) (className : String)
    (stubs : List String) (rest : List Token) :
    ¬ atBodyEnd (bare (namespaceTokens f names className stubs) ++ rest) = true := Bool.false_ne_true

/-- The namespace of a unit holds its class, if every word of its name may serve as a name. -/
theorem item_namespace (levels : Nat) {scope : Scope} (hs : scope ≠ .typeBody) (owner : String) (f : Framework)
    {names : List String} (hne : names ≠ []) (hnames : ∀ n ∈ names, ¬ Reserved n) (className : String)
    (stubs : List String) {rest : List Token} (hr : Follows rest) :
    item (below (levels + 2)) scope owner (bare (namespaceTokens f names className stubs) ++ rest)
      = .done (foundAll [namespaceDeclaration (".".intercalate names) className stubs]) rest := by
  obtain ⟨name, more, rfl⟩ := List.exists_cons_of_ne_nil hne
  have hname := TokenKind.name?_ofWord (hnames name List.mem_cons_self)
  have hmore : (more.map TokenKind.ofWord).map TokenKind.name? = more.map some := by
    rw [List.map_map]
    apply List.map_congr_left
    intro n hn
    exact TokenKind.name?_ofWord (hnames n (List.mem_cons_of_mem name hn))
  have hbody := @readFrom_class levels (".".intercalate (name :: more)) f className stubs rest
  simp only [namespaceTokens, nameTokens_cons, Written.bare_append, Written.bare_cons, List.append_assoc,
    List.cons_append]
  rw [Written.item_namespaceKw _ hs, Written.namespaceDeclaration_names hname hmore hbody hr, Written.wrap_foundAll]
  rfl

/-- The namespace of a unit is refused, if some word of its name is reserved. -/
theorem exists_error_of_item_namespace (inner : Option Reader) {scope : Scope} (hs : scope ≠ .typeBody)
    (owner : String) (f : Framework) {names : List String} (h : ∃ n ∈ names, Reserved n) (className : String)
    (stubs : List String) (rest : List Token) :
    ∃ d, (item inner scope owner (bare (namespaceTokens f names className stubs) ++ rest)).result = .error d := by
  obtain ⟨n, hn, hreserved⟩ := h
  obtain ⟨name, more, rfl⟩ := List.exists_cons_of_ne_nil (List.ne_nil_of_mem hn)
  have hnone : ∃ k ∈ .ofWord name :: more.map TokenKind.ofWord, k.name? = none := by
    refine ⟨.ofWord n, ?_, TokenKind.name?_ofWord_of_reserved hreserved⟩
    rw [← List.map_cons]
    exact List.mem_map_of_mem hn
  simp only [namespaceTokens, nameTokens_cons, Written.bare_append, Written.bare_cons, List.append_assoc,
    List.cons_append]
  rw [Written.item_namespaceKw _ hs]
  exact Written.exists_error_of_namespace inner scope hnone _

/-! ## The whole unit -/

theorem isPlain_of_mem_nameTokens {names : List String} {k : TokenKind} (h : k ∈ nameTokens names) :
    Nesting.isPlain k = true ∧ k ≠ .punctuation .semicolon := by
  rcases eq_of_mem_nameTokens h with rfl | ⟨name, rfl⟩
  · exact ⟨rfl, by simp⟩
  · exact ⟨isPlain_ofWord name, TokenKind.ofWord_ne_punctuation name .semicolon⟩

/-- Directives add nothing to what a unit declares. -/
theorem readFrom_using (inner : Option Reader) (found : Found) (names : List String) (rest : List Token) :
    readFrom inner .text false "" found (bare (usingTokens names) ++ rest)
      = readFrom inner .text false "" found rest := by
  have hbegin : ¬ atBodyEnd (bare (usingTokens names) ++ rest) = true := Bool.false_ne_true
  have hitem : item inner .text "" (bare (usingTokens names) ++ rest) = .done {} rest :=
    Written.item_using inner (by simp) "" (fun k hk => isPlain_of_mem_nameTokens hk) rest
  rw [Written.readFrom_of_item hbegin hitem]
  exact congrArg (readFrom inner .text false "" · rest) (Written.append_foundAll_nil found)

theorem readFrom_tokens (inner : Option Reader) (f : Framework) (segments : List String) (d : Descriptor)
    (rest : List Token) : readFrom inner .text false "" {} (bare (tokens f segments d) ++ rest)
      = readFrom inner .text false "" {} (bare (namespaceTokens f (segments ++ ["Tests"]) (Naming.testTypeName d.name)
        (Naming.stubNames d.methods)) ++ rest) := by
  rw [tokens, Written.bare_append, List.append_assoc, readFrom_using, Written.bare_append, List.append_assoc,
    readFrom_using, Written.bare_append, List.append_assoc, readFrom_using]

theorem not_reserved_tests : ¬ Reserved "Tests" := by
  rintro ⟨k, hk, -⟩
  cases k <;> exact absurd hk (by decide)

/-- A unit is read as it is meant, if every word in the name of the namespace may serve as a name. -/
theorem readDeclarations_tokens (f : Framework) {segments : List String} (h : ∀ s ∈ segments, ¬ Reserved s)
    (d : Descriptor) : readDeclarations (bare (tokens f segments d ++ [.endOfText]))
      = .ok (declaration (".".intercalate (segments ++ ["Tests"])) (Naming.testTypeName d.name)
          (Naming.stubNames d.methods)) := by
  have hnames : ∀ n ∈ segments ++ ["Tests"], ¬ Reserved n := by
    intro n hn
    rcases List.mem_append.mp hn with hn | hn
    · exact h n hn
    · rw [List.mem_singleton.mp hn]
      exact not_reserved_tests
  have hscope : Scope.text ≠ .typeBody := by simp
  have hne : segments ++ ["Tests"] ≠ [] := by simp
  have hend : Follows (bare [.endOfText]) := ⟨rfl, rfl⟩
  -- The namespace takes one level and the class another.
  have hlevels : maxNesting = 253 + 2 := rfl
  have hitem := item_namespace 253 hscope "" f hne hnames (Naming.testTypeName d.name) (Naming.stubNames d.methods)
    hend
  have hbegin := not_atBodyEnd_namespaceTokens f (segments ++ ["Tests"]) (Naming.testTypeName d.name)
    (Naming.stubNames d.methods) (bare [.endOfText])
  have hread : (ofLevels maxNesting).read .text false "" (bare (tokens f segments d ++ [.endOfText]))
      = ⟨foundAll [namespaceDeclaration (".".intercalate (segments ++ ["Tests"])) (Naming.testTypeName d.name)
          (Naming.stubNames d.methods)], bare [.endOfText]⟩ := by
    rw [Reader.read_ofLevels, Written.bare_append, readFrom_tokens, hlevels, Written.readFrom_of_item hbegin hitem,
      readFrom]
    simp [atEnd, front, Found.append, foundAll]
  unfold readDeclarations
  simp only [hread]
  rfl

/-- A unit is refused, if some word in the name of the namespace is reserved. -/
theorem exists_error_of_tokens (f : Framework) {segments : List String} (h : ∃ s ∈ segments, Reserved s)
    (d : Descriptor) : ∃ ds, readDeclarations (bare (tokens f segments d ++ [.endOfText])) = .error ds := by
  have hnames : ∃ n ∈ segments ++ ["Tests"], Reserved n := by
    obtain ⟨s, hs, hreserved⟩ := h
    exact ⟨s, List.mem_append_left _ hs, hreserved⟩
  have hscope : Scope.text ≠ .typeBody := by simp
  obtain ⟨report, hitem⟩ := exists_error_of_item_namespace (below maxNesting) hscope "" f hnames
    (Naming.testTypeName d.name) (Naming.stubNames d.methods) (bare [.endOfText])
  have hbegin := not_atBodyEnd_namespaceTokens f (segments ++ ["Tests"]) (Naming.testTypeName d.name)
    (Naming.stubNames d.methods) (bare [.endOfText])
  have hproblems := @Reader.problems_ne_nil_of_item_error _ _ false _ {} _ _ hbegin hitem
  rw [← readFrom_tokens, ← Written.bare_append, ← Reader.read_ofLevels] at hproblems
  have hempty : ¬ ((ofLevels maxNesting).read .text false ""
      (bare (tokens f segments d ++ [.endOfText]))).found.problems.isEmpty = true := by
    rw [Array.isEmpty_iff, ← Array.toList_eq_nil_iff]
    exact hproblems
  unfold readDeclarations
  simp only [if_neg hempty]
  exact ⟨_, rfl⟩

end TestScaffold.TestUnit
