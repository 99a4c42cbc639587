import TestScaffold.Proofs.Reading.Height
import TestScaffold.Proofs.Reading.Passing

/-!
# Bodies inside one another

Namespaces and types may nest 255 bodies deep. A body below that is refused at its opening brace, and nothing else is
reported: recovery passes the refused body as one group, and the bodies around it end as they would have.

Results:
* `Written.Link`, `Written.IsChain`: declarations inside one another, by their headers and braces.
* `Reader.passes_chain`, `Reader.passes_refused_chain`: chains that are read, and chains that go too deep.
* `nesting_bounded`: how deep a text may nest, and what is reported of one that nests deeper.
-/

namespace TestScaffold

open Nesting (Nested)

namespace Written

/-- A declaration around another one: what stands in front of its body, and the two braces. -/
structure Link where
  header : List Token
  opening : Token
  closing : Token

/-- Declarations inside one another, the outermost first, around `content`. -/
def chainTokens : List Link → (content : List Token) → List Token
  | [], content => content
  | l :: ls, content => l.header ++ l.opening :: (chainTokens ls content ++ [l.closing])

/-- Declarations inside one another in a list of declarations. Once a type is open, only types may follow. -/
inductive IsChain : (scope : Scope) → List Link → Prop
  | nil {scope : Scope} : IsChain scope []
  | namespaceBlock {scope : Scope} {l : Link} {ls : List Link} (hscope : scope ≠ .typeBody)
      (header : NamespaceHeader (l.header.map Token.kind)) (ho : l.opening.kind = .punctuation .leftBrace)
      (hc : l.closing.kind = .punctuation .rightBrace) (inner : IsChain .namespaceBody ls) : IsChain scope (l :: ls)
  | type {scope : Scope} {l : Link} {ls : List Link} {kind : TypeKind} (hasBody : kind ≠ .enumType)
      (header : TypeHeader kind (l.header.map Token.kind)) (ho : l.opening.kind = .punctuation .leftBrace)
      (hc : l.closing.kind = .punctuation .rightBrace) (inner : IsChain .typeBody ls) : IsChain scope (l :: ls)

variable {scope : Scope} {l : Link} {ls : List Link} {content : List Token}

/-- The outermost declaration of a chain is told by its header, and holds the rest of the chain. -/
theorem IsChain.cons_cases (h : IsChain scope (l :: ls)) : ∃ bodyScope, Reader.ReadsHeader scope bodyScope l.header ∧
    Nested false .rightBrace (l.header.map Token.kind) ∧ l.opening.kind = .punctuation .leftBrace ∧
      l.closing.kind = .punctuation .rightBrace ∧ IsChain bodyScope ls := by
  cases h with
  | namespaceBlock hscope header ho hc inner =>
    exact ⟨_, Reader.readsHeader_namespace hscope header, Nesting.nested_of_namespaceHeader header, ho, hc, inner⟩
  | type hasBody header ho hc inner =>
    exact ⟨_, Reader.readsHeader_type hasBody scope header, Nesting.nested_of_typeHeader header, ho, hc, inner⟩

/-- A chain goes on inside any of its declarations. -/
theorem IsChain.exists_drop (h : IsChain scope ls) (n : Nat) : ∃ inner, IsChain inner (ls.drop n) := by
  induction n generalizing scope ls with
  | zero => exact ⟨scope, h⟩
  | succ n ih =>
    cases ls with
    | nil => exact ⟨scope, .nil⟩
    | cons l ls =>
      obtain ⟨bodyScope, -, -, -, -, inner⟩ := h.cons_cases
      exact ih inner

theorem chainTokens_append (ls ms : List Link) (content : List Token) :
    chainTokens (ls ++ ms) content = chainTokens ls (chainTokens ms content) := by
  induction ls with
  | nil => rfl
  | cons l ls ih => rw [List.cons_append, chainTokens, chainTokens, ih]

/-- The tokens of a chain are properly nested. -/
theorem nested_chainTokens (h : IsChain scope ls) : Nested false .rightBrace ((chainTokens ls []).map Token.kind) := by
  induction ls generalizing scope with
  | nil => exact .nil
  | cons l ls ih =>
    obtain ⟨bodyScope, -, header, ho, hc, inner⟩ := h.cons_cases
    have hbraces : Nesting.closing? false .leftBrace = some .rightBrace := rfl
    have hbody := Nested.group hbraces (ih inner) (@Nested.nil false .rightBrace)
    have hkinds : (chainTokens (l :: ls) []).map Token.kind = l.header.map Token.kind ++
        .punctuation .leftBrace :: ((chainTokens ls []).map Token.kind ++ [.punctuation .rightBrace]) := by
      simp [chainTokens, ho, hc]
    rw [hkinds]
    exact header.append hbody

end Written

open Written (Link IsChain chainTokens)

namespace Reader

variable {levels : Nat} {scope : Scope} {links : List Link}

/-- A chain that does not go too deep is read without a fault. -/
theorem passes_chain (h : IsChain scope links) (hdepth : links.length ≤ levels) :
    Passes levels scope (chainTokens links []) [] := by
  induction links generalizing scope levels with
  | nil => exact .nil
  | cons l ls ih =>
    obtain ⟨bodyScope, header, -, ho, hc, inner⟩ := h.cons_cases
    cases levels with
    | zero => cases hdepth
    | succ levels => exact (ih inner (Nat.le_of_succ_le_succ hdepth)).body header ho hc

/-- A chain that goes too deep is refused at the first brace that does, and nothing else is reported of it. -/
theorem passes_refused_chain (h : IsChain scope links) {refused : Link} (hrefused : links[levels]? = some refused)
    {content : List Token} (hcontent : Nested false .rightBrace (content.map Token.kind)) :
    Passes levels scope (chainTokens (links.take (levels + 1)) content)
      [Fault.nestedTooDeeply.report refused.opening.span] := by
  induction levels generalizing scope links with
  | zero =>
    cases links with
    | nil => cases hrefused
    | cons l ls =>
      obtain rfl : l = refused := Option.some.inj hrefused
      obtain ⟨bodyScope, header, -, ho, hc, -⟩ := h.cons_cases
      exact passes_refused header ho hc hcontent
  | succ levels ih =>
    cases links with
    | nil => cases hrefused
    | cons l ls =>
      obtain ⟨bodyScope, header, -, ho, hc, inner⟩ := h.cons_cases
      exact (ih inner hrefused).body header ho hc

end Reader

/-- No node of an accepted text has more than 256 nodes around it. Declarations inside one another around an empty body
are accepted up to 255 bodies deep; where they go deeper the opening brace of the 256th body is reported and nothing
else, and so it is when any other properly nested tokens stand between its braces. -/
theorem nesting_bounded :
    (∀ ts t, DeclarationTree.ofTokens ts = .ok t → ∀ id, (t.ancestors id).length ≤ 256) ∧
      ∀ links last, IsChain .text links → last.kind = .endOfText →
        (links.length ≤ 255 → ∃ t, DeclarationTree.ofTokens (chainTokens links [] ++ [last]) = .ok t) ∧
          (256 ≤ links.length → ∃ refused d, links[255]? = some refused ∧ d.span = refused.opening.span ∧
            d.message = "declarations are nested too deeply" ∧
            DeclarationTree.ofTokens (chainTokens links [] ++ [last]) = .error [d] ∧
            ∀ content, Nested false .rightBrace (content.map Token.kind) →
              DeclarationTree.ofTokens (chainTokens (links.take 256) content ++ [last]) = .error [d]) := by
  refine ⟨fun ts t h id => DeclarationTree.length_ancestors_le h id, fun links last hchain hlast => ⟨?_, ?_⟩⟩
  · intro hdepth
    exact (reports_of_passes (Reader.passes_chain hchain hdepth) hlast).accepted rfl
  · intro hdepth
    have hrefused : links[255]? = some links[255] := List.getElem?_eq_getElem hdepth
    have hcontent (content : List Token) (h : Nested false .rightBrace (content.map Token.kind)) :
        DeclarationTree.ofTokens (chainTokens (links.take 256) content ++ [last]) =
          .error [Fault.nestedTooDeeply.report links[255].opening.span] :=
      (reports_of_passes (Reader.passes_refused_chain hchain hrefused h) hlast).refused (by simp)
    -- What the refused body of the chain itself holds is properly nested as well.
    obtain ⟨inner, hinner⟩ := hchain.exists_drop 256
    have hwhole : chainTokens links [] = chainTokens (links.take 256) (chainTokens (links.drop 256) []) := by
      rw [← Written.chainTokens_append, List.take_append_drop]
    refine ⟨links[255], _, hrefused, rfl, rfl, ?_, hcontent⟩
    rw [hwhole]
    exact hcontent _ (Written.nested_chainTokens hinner)

namespace Written

/-- The namespace `N`, around whatever stands between its braces. -/
def namespaceLink : Link :=
  ⟨[⟨.keyword .namespaceKw, ⟨0, 9⟩⟩, ⟨.identifier "N", ⟨10, 11⟩⟩], ⟨.punctuation .leftBrace, ⟨12, 13⟩⟩,
    ⟨.punctuation .rightBrace, ⟨14, 15⟩⟩⟩

theorem isChain_replicate (n : Nat) {scope : Scope} (hscope : scope ≠ .typeBody) :
    IsChain scope (List.replicate n namespaceLink) := by
  induction n generalizing scope with
  | zero => exact .nil
  | succ n ih =>
    have header : NamespaceHeader (namespaceLink.header.map Token.kind) :=
      @NamespaceHeader.mk [] [] _ .nil rfl (by simp)
    exact .namespaceBlock hscope header rfl rfl (ih (by simp))

end Written

theorem nesting_bounded_replicate :
    (∃ t, DeclarationTree.ofTokens (chainTokens (List.replicate 255 Written.namespaceLink) [] ++ [Token.final]) =
      .ok t) ∧
      ∃ d, d.span = ⟨12, 13⟩ ∧ d.message = "declarations are nested too deeply" ∧
        DeclarationTree.ofTokens (chainTokens (List.replicate 300 Written.namespaceLink) [] ++ [Token.final]) =
          .error [d] := by
  have hchain (n : Nat) : IsChain .text (List.replicate n Written.namespaceLink) :=
    Written.isChain_replicate n (by simp)
  obtain ⟨haccepted, -⟩ := nesting_bounded.2 _ Token.final (hchain 255) rfl
  obtain ⟨-, hreported⟩ := nesting_bounded.2 _ Token.final (hchain 300) rfl
  obtain ⟨refused, d, hrefused, hspan, hmessage, hd, -⟩ := hreported (by rw [List.length_replicate]; decide)
  rw [List.getElem?_replicate, if_pos (by decide)] at hrefused
  obtain rfl : Written.namespaceLink = refused := Option.some.inj hrefused
  exact ⟨haccepted (Nat.le_of_eq List.length_replicate), d, hspan, hmessage, hd⟩

end TestScaffold
