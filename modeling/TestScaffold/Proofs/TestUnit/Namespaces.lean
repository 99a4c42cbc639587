import TestScaffold.Proofs.Reading.NamespaceForms
import TestScaffold.Proofs.TestUnit.Described

/-!
# The ways of writing a namespace agree

A text that is one namespace declares the same whether the body of the namespace stands in braces or goes on to the end
of the text. Where the words of its dotted name are split up into namespaces inside one another, the tree is another
one, but its types are described alike.

Results:
* `DeclarationTree.unplaced_ofDeclaration`: a tree without its places is the tree of the declaration without its places.
* `Declaration.describedAll_nestedDeclarations`: names that are split up are joined again.
* `Written.namespaceForms_agree`: the three forms side by side.
-/

namespace TestScaffold

open Nesting (BracesBalance)

/-! ## Trees without places -/

/-- The node without its place. -/
def Node.unplaced (n : Node) : Node := { n with span := .zero }

/-- The tree without the places of its nodes. -/
def DeclarationTree.unplaced (t : DeclarationTree) : DeclarationTree :=
  ⟨t.nodes.map Node.unplaced, by simpa using t.nonempty⟩

namespace Declaration

theorem indices_unplacedAll (next : Nat) (ds : List Declaration) : indices next (unplacedAll ds) = indices next ds := by
  induction ds generalizing next with
  | nil => rfl
  | cons d ds ih => rw [unplacedAll, indices, indices, Written.size_unplaced, ih]

mutual

theorem nodes_unplaced (d : Declaration) (parent : Option Nat) (id : Nat) :
    d.unplaced.nodes parent id = (d.nodes parent id).map Node.unplaced := by
  obtain ⟨kind, name, modifiers, span, children⟩ := d
  rw [unplaced, nodes, nodes, List.map_cons, nodesAll_unplacedAll, indices_unplacedAll]
  rfl

theorem nodesAll_unplacedAll (ds : List Declaration) (parent next : Nat) :
    nodesAll parent next (unplacedAll ds) = (nodesAll parent next ds).map Node.unplaced := by
  cases ds with
  | nil => rfl
  | cons d ds =>
    rw [unplacedAll, nodesAll, nodesAll, List.map_append, nodes_unplaced, Written.size_unplaced, nodesAll_unplacedAll]

end

theorem publicMethods_unplacedAll (ds : List Declaration) : publicMethods (unplacedAll ds) = publicMethods ds := by
  induction ds with
  | nil => rfl
  | cons d ds ih =>
    obtain ⟨kind, name, modifiers, span, children⟩ := d
    unfold publicMethods at ih ⊢
    rw [unplacedAll, List.filterMap_cons, List.filterMap_cons, ih]
    rfl

mutual

theorem described_unplaced (outer : Option String) (d : Declaration) :
    d.unplaced.described outer = d.described outer := by
  obtain ⟨kind, name, modifiers, span, children⟩ := d
  rw [unplaced, described, described, publicMethods_unplacedAll, describedAll_unplacedAll]

theorem describedAll_unplacedAll (outer : Option String) (ds : List Declaration) :
    describedAll outer (unplacedAll ds) = describedAll outer ds := by
  cases ds with
  | nil => rfl
  | cons d ds => rw [unplacedAll, describedAll, describedAll, described_unplaced, describedAll_unplacedAll]

end

/-! ## Names that are split up -/

theorem describedAll_namespaceBlock (outer : Option String) (name : String) (ds : List Declaration) :
    describedAll outer [⟨.namespaceBlock, name, [], .zero, ds⟩] = describedAll (some (dottedWithin outer name)) ds := by
  simp [describedAll, described]

/-- The names of namespaces inside one another are joined with dots. -/
theorem describedAll_nestedDeclarations (outer : String) (names : List String) (ds : List Declaration) :
    describedAll (some outer) (Written.nestedDeclarations names ds) =
      describedAll (some (".".intercalate (outer :: names))) ds := by
  induction names generalizing outer with
  | nil => rfl
  | cons name names ih =>
    rw [Written.nestedDeclarations, describedAll_namespaceBlock, ih]
    rfl

end Declaration

namespace DeclarationTree

/-- A tree without its places is the tree of the declaration without its places. -/
theorem unplaced_ofDeclaration (d : Declaration) : (ofDeclaration d).unplaced = ofDeclaration d.unplaced := by
  have hnodes : (ofDeclaration d).nodes.map Node.unplaced = (ofDeclaration d.unplaced).nodes := by
    apply Array.toList_inj.mp
    rw [Array.toList_map, nodes_ofDeclaration, nodes_ofDeclaration, Declaration.nodes_unplaced]
  unfold unplaced
  simp only [hnodes]

/-- How the tree of a text is described is told by what the text declares without places. -/
theorem describe_of_ofTokens {ts : List Token} {t : DeclarationTree} {d : Declaration} {descriptors : List Descriptor}
    (h : ofTokens ts = .ok t) (hd : readDeclarations (Written.bare (ts.map Token.kind)) = .ok d)
    (hdescribed : Declaration.describedAll none d.children = descriptors.map some) (source : String) :
    t.classLikeTypes.map (fun id => Generation.describe t id source) = descriptors.map .ok := by
  obtain ⟨e, he, rfl⟩ := ofTokens_eq_ok_iff.mp h
  obtain ⟨_, he', rfl⟩ := Written.readDeclarations_bare_eq_ok_iff.mp hd
  obtain rfl := Except.ok.inj (he.symm.trans he')
  have hkind : e.kind ≠ .namespaceBlock := by
    rw [(readDeclarations_eq_ok_iff.mp he).2]
    simp
  refine map_describe hkind ?_ source
  rw [← hdescribed, ← Declaration.describedAll_unplacedAll]
  obtain ⟨kind, name, modifiers, span, children⟩ := e
  rfl

end DeclarationTree

/-! ## The forms side by side -/

namespace Written

open DeclarationTree (ofTokens)

variable {k : TokenKind} {ks body : List TokenKind}

/-- Two texts that declare the same without places have the same tree without places. -/
theorem unplaced_eq {ts us : List Token} {t u : DeclarationTree} {d : Declaration} (ht : ofTokens ts = .ok t)
    (hu : ofTokens us = .ok u) (hts : readDeclarations (bare (ts.map Token.kind)) = .ok d)
    (hus : readDeclarations (bare (us.map Token.kind)) = .ok d) : t.unplaced = u.unplaced := by
  obtain ⟨e, he, rfl⟩ := DeclarationTree.ofTokens_eq_ok_iff.mp ht
  obtain ⟨f, hf, rfl⟩ := DeclarationTree.ofTokens_eq_ok_iff.mp hu
  obtain ⟨_, he', hunplaced⟩ := readDeclarations_bare_eq_ok_iff.mp hts
  obtain ⟨_, hf', hunplaced'⟩ := readDeclarations_bare_eq_ok_iff.mp hus
  obtain rfl := Except.ok.inj (he.symm.trans he')
  obtain rfl := Except.ok.inj (hf.symm.trans hf')
  rw [DeclarationTree.unplaced_ofDeclaration, DeclarationTree.unplaced_ofDeclaration, hunplaced, hunplaced']

theorem exists_ofTokens_iff {ts : List Token} :
    (∃ t, ofTokens ts = .ok t) ↔ ∃ d, readDeclarations (bare (ts.map Token.kind)) = .ok d := by
  simp only [DeclarationTree.ofTokens_eq_ok_iff, readDeclarations_bare_eq_ok_iff]
  constructor
  · rintro ⟨_, d, hd, -⟩
    exact ⟨_, d, hd, rfl⟩
  · rintro ⟨_, d, hd, -⟩
    exact ⟨_, d, hd, rfl⟩

/-- Tokens of the same kinds have the same tree but for places. -/
theorem exists_ofTokens_of_kinds {ts us : List Token} {t : DeclarationTree} (h : ofTokens ts = .ok t)
    (hkinds : us.map Token.kind = ts.map Token.kind) : ∃ t', ofTokens us = .ok t' ∧ t'.unplaced = t.unplaced := by
  obtain ⟨d, hd⟩ := exists_ofTokens_iff.mp ⟨t, h⟩
  obtain ⟨t', ht'⟩ := exists_ofTokens_iff.mpr ⟨d, hkinds ▸ hd⟩
  exact ⟨t', ht', unplaced_eq ht' h (hkinds ▸ hd) hd⟩

/-- The ways of writing a namespace agree, for a dotted name and a body in which the braces are in balance. With a
semicolon in front of the body it is accepted exactly where it is with the body in braces, and the two trees are the
same but for places. Whichever of these two is accepted, and likewise the namespaces inside one another that are named
by the words of the name, the types in it have the same descriptors in the same order. -/
theorem namespaceForms_agree (hnames : ∀ q ∈ k :: ks, q.name?.isSome = true) (hinside : .endOfText ∉ body)
    (hbalance : BracesBalance body) {file block nested : List Token}
    (hfile : file.map Token.kind = fileTokens k ks body ++ [.endOfText])
    (hblock : block.map Token.kind = blockTokens k ks body ++ [.endOfText])
    (hnested : nested.map Token.kind = nestedTokens (k :: ks) body ++ [.endOfText]) :
    ((∃ t, ofTokens file = .ok t) ↔ ∃ t, ofTokens block = .ok t) ∧
      (∀ t u, ofTokens file = .ok t → ofTokens block = .ok u → t.unplaced = u.unplaced) ∧
        ∃ descriptors : List Descriptor, ∀ ts ∈ [file, block, nested], ∀ t, ofTokens ts = .ok t → ∀ source,
          t.classLikeTypes.map (fun id => Generation.describe t id source) = descriptors.map .ok := by
  obtain ⟨name, hk⟩ := Option.isSome_iff_exists.mp (hnames k List.mem_cons_self)
  obtain ⟨words, hks⟩ := exists_words fun q hq => hnames q (List.mem_cons_of_mem k hq)
  have ofFile (d : Declaration) := readDeclarations_file_iff (d := d) hk hks hinside hbalance
  have ofBlock (d : Declaration) := readDeclarations_block_iff (d := d) hk hks hinside hbalance
  have ofNested (d : Declaration) :=
    exists_holdsBody_of_readDeclarations_nested (d := d) hk hks hinside hbalance
  rw [← hfile] at ofFile
  rw [← hblock] at ofBlock
  rw [← hnested] at ofNested
  refine ⟨?_, fun t u ht hu => ?_, ?_⟩
  · simp only [exists_ofTokens_iff, ofFile, ofBlock]
  · obtain ⟨d, hd⟩ := exists_ofTokens_iff.mp ⟨t, ht⟩
    exact unplaced_eq ht hu hd ((ofBlock d).mpr ((ofFile d).mp hd))
  -- Whatever is accepted holds the same body, inside a namespace of the same dotted name.
  have held : ∀ ts ∈ [file, block, nested], ∀ d, readDeclarations (bare (ts.map Token.kind)) = .ok d →
      ∃ found, Reader.HoldsBody (maxNesting - 1) (bare body) found ∧ Declaration.describedAll none d.children =
        Declaration.describedAll (some (".".intercalate (name :: words))) found.declarations.toList := by
    intro ts hts d hd
    have hblocks {ds : List Declaration} : Declaration.describedAll none
        (namespaceText (".".intercalate (name :: words)) ds).children =
          Declaration.describedAll (some (".".intercalate (name :: words))) ds :=
      Declaration.describedAll_namespaceBlock none _ ds
    obtain rfl | rfl | rfl : ts = file ∨ ts = block ∨ ts = nested := by simpa using hts
    · obtain ⟨found, hfound, rfl⟩ := (ofFile d).mp hd
      exact ⟨found, hfound, hblocks⟩
    · obtain ⟨found, hfound, rfl⟩ := (ofBlock d).mp hd
      exact ⟨found, hfound, hblocks⟩
    · obtain ⟨found, hfound, rfl⟩ := ofNested d hd
      refine ⟨found, hfound, ?_⟩
      rw [nestedDeclarations, Declaration.describedAll_namespaceBlock]
      exact Declaration.describedAll_nestedDeclarations name words found.declarations.toList
  by_cases hall : ∃ found, Reader.HoldsBody (maxNesting - 1) (bare body) found
  · obtain ⟨found, hfound⟩ := hall
    obtain ⟨descriptors, hdescriptors⟩ :=
      Declaration.exists_describedAll_eq (".".intercalate (name :: words)) found.declarations.toList
    refine ⟨descriptors, fun ts hts t ht source => ?_⟩
    obtain ⟨d, hd⟩ := exists_ofTokens_iff.mp ⟨t, ht⟩
    obtain ⟨found', hfound', hdescribed⟩ := held ts hts d hd
    obtain rfl := hfound.unique hfound'
    exact DeclarationTree.describe_of_ofTokens ht hd (hdescribed.trans hdescriptors) source
  · refine ⟨[], fun ts hts t ht source => ?_⟩
    obtain ⟨d, hd⟩ := exists_ofTokens_iff.mp ⟨t, ht⟩
    obtain ⟨found, hfound, -⟩ := held ts hts d hd
    exact absurd ⟨found, hfound⟩ hall

/-- A class with a method, as the body of a namespace. -/
def orderBody : List TokenKind :=
  [.keyword .publicKw, .keyword .classKw, .identifier "Order", .punctuation .leftBrace,
    .keyword .publicKw, .identifier "void", .identifier "Add", .punctuation .leftParen, .punctuation .rightParen,
      .punctuation .leftBrace, .punctuation .rightBrace,
  .punctuation .rightBrace]

theorem namespaceForms_agree_order :
    ∃ t u v, ofTokens (bare (fileTokens (.identifier "Shop") [.identifier "Data"] orderBody ++ [.endOfText])) = .ok t ∧
      ofTokens (bare (blockTokens (.identifier "Shop") [.identifier "Data"] orderBody ++ [.endOfText])) = .ok u ∧
      ofTokens (bare (nestedTokens [.identifier "Shop", .identifier "Data"] orderBody ++ [.endOfText])) = .ok v ∧
      t.unplaced = u.unplaced ∧ ∃ descriptors : List Descriptor, ∀ source,
        t.classLikeTypes.map (fun id => Generation.describe t id source) = descriptors.map .ok ∧
          v.classLikeTypes.map (fun id => Generation.describe v id source) = descriptors.map .ok := by
  have hbalance : BracesBalance orderBody := Nesting.bracesBalance_iff.mpr (by decide)
  have hnames : ∀ q ∈ [TokenKind.identifier "Shop", .identifier "Data"], q.name?.isSome = true := by decide
  obtain ⟨-, hsame, descriptors, hdescribed⟩ := namespaceForms_agree hnames (by decide) hbalance (map_kind_bare _)
    (map_kind_bare _) (map_kind_bare _)
  obtain ⟨t, ht⟩ := @exists_eq_ok _ _
    (ofTokens (bare (fileTokens (.identifier "Shop") [.identifier "Data"] orderBody ++ [.endOfText])))
    (by decide +kernel)
  obtain ⟨u, hu⟩ := @exists_eq_ok _ _
    (ofTokens (bare (blockTokens (.identifier "Shop") [.identifier "Data"] orderBody ++ [.endOfText])))
    (by decide +kernel)
  obtain ⟨v, hv⟩ := @exists_eq_ok _ _
    (ofTokens (bare (nestedTokens [.identifier "Shop", .identifier "Data"] orderBody ++ [.endOfText])))
    (by decide +kernel)
  refine ⟨t, u, v, ht, hu, hv, hsame t u ht hu, descriptors, fun source => ⟨?_, ?_⟩⟩
  · exact hdescribed _ List.mem_cons_self t ht source
  · exact hdescribed _ (by simp) v hv source

end Written

end TestScaffold
