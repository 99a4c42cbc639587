import TestScaffold.Declaration.Reader
import TestScaffold.Proofs.Declaration.Listing
import TestScaffold.Proofs.Reading.Admission

/-!
# The shape of trees that are read

Any tokens may be given to the reader. Where it accepts them, their tree is built like the text: a parent stands before
its children and lists each of them once, and a node is only ever found inside a node that may hold it.

Results:
* `DeclarationTree.WellShaped`: what a tree that was read looks like.
* `DeclarationTree.wellShaped_of_ofTokens`: every such tree does.
-/

namespace TestScaffold

open Declaration (Fitting)

/-- Whether a node may stand directly inside another. -/
structure Node.MayHold (outer inner : Node) : Prop where
  of_namespace : inner.kind = .namespaceBlock → outer.kind = .unit ∨ outer.kind = .namespaceBlock
  of_type : ∀ kind, inner.kind = .type kind →
    outer.kind = .unit ∨ outer.kind = .namespaceBlock ∨ ∃ k, outer.kind = .type k ∧ k ≠ .enumType
  of_member : inner.kind.isMember = true → ∃ k, outer.kind = .type k ∧ k ≠ .enumType
  of_constructor : inner.kind = .constructor → inner.name = outer.name

namespace DeclarationTree

/-- The shape of a tree that was read. -/
structure WellShaped (t : DeclarationTree) : Prop where
  exists_root : ∃ root, t.get? 0 = some root
  kind_eq_unit_iff : ∀ id n, t.get? id = some n → (n.kind = .unit ↔ id = 0)
  parent_eq_none_iff : ∀ id n, t.get? id = some n → (n.parent = none ↔ id = 0)
  /-- A node stands behind its parent, which may hold it. -/
  exists_parent : ∀ id n p, t.get? id = some n → n.parent = some p →
    p < id ∧ ∃ outer, t.get? p = some outer ∧ outer.MayHold n
  /-- A node is listed once by its parent and not at all by any other node. -/
  count_children : ∀ id n p, t.get? id = some n → (t.children p).count id = if n.parent = some p then 1 else 0
  /-- Nothing is listed that is not there. -/
  lt_size_of_mem_children : ∀ id p, id ∈ t.children p → id < t.size
  preorder : t.preorder = List.range t.size
  /-- Members, what has only their form, and enumerations hold nothing. -/
  children_eq_nil : ∀ id n, t.get? id = some n →
    n.kind.isMember = true ∨ n.kind = .other ∨ n.kind = .type .enumType → t.children id = []
  modifiers_eq_nil : ∀ id n, t.get? id = some n → n.kind = .namespaceBlock → n.modifiers = []
  category_of_mem_modifiers : ∀ id n, t.get? id = some n → ∀ k ∈ n.modifiers,
    k.category = .access ∨ k.category = .modifier

theorem exists_type_of_holdsMembers {kind : DeclarationKind} (h : kind.holdsMembers = true) :
    ∃ k, kind = .type k ∧ k ≠ .enumType := by
  cases kind with
  | type k => exact ⟨k, rfl, by simpa [DeclarationKind.holdsMembers] using h⟩
  | _ => cases h

theorem mayHold_of_admits {isName : String → Prop} {outer inner : Node}
    (h : Admits isName outer.heading inner.heading) : outer.MayHold inner := by
  refine ⟨h.of_namespace, ?_, ?_, h.of_constructor⟩
  · intro kind _
    rcases h.outer_kind with hk | hk | hk
    · exact .inl hk
    · exact .inr (.inl hk)
    · exact .inr (.inr (exists_type_of_holdsMembers hk))
  · intro hm
    exact exists_type_of_holdsMembers (h.of_member hm)

theorem category_of_isModifier {k : Keyword} (h : k.isModifier = true) :
    k.category = .access ∨ k.category = .modifier := by
  cases k <;> simp_all [Keyword.isModifier, Keyword.category]

/-! ## Trees that were read -/

/-- The heading of the root of a whole text. -/
def textHeading : Heading := ⟨.unit, "", [], none⟩

/-- A tree that was read starts with a root for the whole text and gets nothing but what may stand where it is. -/
theorem grown_of_ofTokens {isName : String → Prop} (hthis : isName Keyword.thisKw.spelling)
    (hop : isName Keyword.operatorKw.spelling) {ts : List Token} (hw : Words isName ts) {t : DeclarationTree}
    (h : ofTokens ts = .ok t) : Grown (Admits isName) t ∧ t.headings[0]? = some textHeading := by
  unfold ofTokens at h
  cases hr : readDeclarations ts with
  | error ds =>
    rw [hr] at h
    cases h
  | ok d =>
    rw [hr] at h
    cases h
    obtain ⟨hroot, hfit⟩ := fitting_of_readDeclarations hthis hop hw hr
    refine ⟨grown_ofDeclaration hfit, ?_⟩
    rw [headings_ofDeclaration, textHeading, ← hroot]
    obtain ⟨kind, name, modifiers, span, children⟩ := d
    rw [Declaration.headings]
    rfl

variable {isName : String → Prop} {t : DeclarationTree} {id : Nat} {n : Node}

theorem heading_root (hroot : t.headings[0]? = some textHeading) (h : t.get? 0 = some n) : n.heading = textHeading :=
  Option.some.inj ((headings_of_get? h).symm.trans hroot)

/-- A node other than the root stands behind its parent, which admits it. -/
theorem Grown.exists_outer_node (hg : Grown (Admits isName) t) (h : t.get? id = some n) (hid : id ≠ 0) :
    ∃ p outer, n.parent = some p ∧ p < id ∧ t.get? p = some outer ∧ Admits isName outer.heading n.heading := by
  obtain ⟨p, g, hp, hlt, houter, hadmits⟩ := hg.exists_parent (headings_of_get? h) hid
  obtain ⟨outer, hget, rfl⟩ := get?_of_headings houter
  exact ⟨p, outer, hp, hlt, hget, hadmits⟩

theorem Grown.kind_eq_unit_iff (hg : Grown (Admits isName) t) (hroot : t.headings[0]? = some textHeading)
    (h : t.get? id = some n) : n.kind = .unit ↔ id = 0 := by
  constructor
  · intro hk
    by_cases hid : id = 0
    · exact hid
    · obtain ⟨p, outer, -, -, -, hadmits⟩ := hg.exists_outer_node h hid
      exact absurd hk hadmits.inner_kind
  · rintro rfl
    exact congrArg Heading.kind (heading_root hroot h)

theorem Grown.parent_eq_none_iff (hg : Grown (Admits isName) t) (hroot : t.headings[0]? = some textHeading)
    (h : t.get? id = some n) : n.parent = none ↔ id = 0 := by
  constructor
  · intro hp
    by_cases hid : id = 0
    · exact hid
    · obtain ⟨p, outer, hp', -⟩ := hg.exists_outer_node h hid
      rw [hp] at hp'
      cases hp'
  · rintro rfl
    exact congrArg Heading.parent (heading_root hroot h)

theorem Grown.exists_mayHold (hg : Grown (Admits isName) t) (hroot : t.headings[0]? = some textHeading)
    (h : t.get? id = some n) {p : Nat} (hp : n.parent = some p) :
    p < id ∧ ∃ outer, t.get? p = some outer ∧ outer.MayHold n := by
  have hid : id ≠ 0 := by
    intro hid
    rw [(hg.parent_eq_none_iff hroot h).mpr hid] at hp
    cases hp
  obtain ⟨q, outer, hq, hlt, houter, hadmits⟩ := hg.exists_outer_node h hid
  have hqp : q = p := Option.some.inj (hq.symm.trans hp)
  subst hqp
  exact ⟨hlt, outer, houter, mayHold_of_admits hadmits⟩

theorem Grown.of_mem_modifiers (hg : Grown (Admits isName) t) (hroot : t.headings[0]? = some textHeading)
    (h : t.get? id = some n) {k : Keyword} (hk : k ∈ n.modifiers) :
    k.isModifier = true ∧ n.kind ≠ .namespaceBlock := by
  by_cases hid : id = 0
  · subst hid
    have hnil : n.modifiers = [] := congrArg Heading.modifiers (heading_root hroot h)
    rw [hnil] at hk
    cases hk
  · obtain ⟨p, outer, -, -, -, hadmits⟩ := hg.exists_outer_node h hid
    exact hadmits.modifiers k hk

/-- Nothing is admitted inside a node that holds nothing. -/
theorem Grown.children_eq_nil (hg : Grown (Admits isName) t) (h : t.get? id = some n)
    (hk : n.kind.isMember = true ∨ n.kind = .other ∨ n.kind = .type .enumType) : t.children id = [] := by
  rw [hg.linked.children, List.filter_eq_nil_iff]
  intro c hc
  rw [decide_eq_true_eq]
  intro hparent
  obtain ⟨g, hchild, hgp⟩ := Option.bind_eq_some_iff.mp hparent
  obtain ⟨outer, houter, hadmits⟩ := hg.exists_outer hchild hgp
  have hsame : n.heading = outer := Option.some.inj ((headings_of_get? h).symm.trans houter)
  have hkind : outer.kind = n.kind := by rw [← hsame]; rfl
  have hholds := hadmits.outer_kind
  rw [hkind] at hholds
  cases hnk : n.kind <;> simp_all [DeclarationKind.isMember, DeclarationKind.holdsMembers]

/-- Every tree that is read from tokens is well shaped. -/
theorem wellShaped_of_ofTokens {ts : List Token} {t : DeclarationTree} (h : ofTokens ts = .ok t) : t.WellShaped := by
  have hwords : Words (fun _ => True) ts := fun _ _ _ _ => trivial
  obtain ⟨hgrown, hroot⟩ := grown_of_ofTokens trivial trivial hwords h
  refine
    { exists_root := (get?_of_headings hroot).imp fun _ hr => hr.1
      kind_eq_unit_iff := fun _ _ => hgrown.kind_eq_unit_iff hroot
      parent_eq_none_iff := fun _ _ => hgrown.parent_eq_none_iff hroot
      exists_parent := fun _ _ _ hn hp => hgrown.exists_mayHold hroot hn hp
      count_children := ?_
      lt_size_of_mem_children := fun _ _ hid => hgrown.linked.lt_size_of_mem hid
      preorder := ?_
      children_eq_nil := fun _ _ => hgrown.children_eq_nil
      modifiers_eq_nil := ?_
      category_of_mem_modifiers := ?_ }
  · intro id n p hn
    rw [hgrown.linked.count_children (lt_size_of_headings (headings_of_get? hn)), parent?_eq hn]
  · cases hr : readDeclarations ts with
    | error ds => simp [ofTokens, hr, Except.map] at h
    | ok d =>
      have hd : ofDeclaration d = t := by simpa [ofTokens, hr, Except.map] using h
      rw [← hd]
      exact preorder_ofDeclaration d
  · intro id n hn hk
    rw [List.eq_nil_iff_forall_not_mem]
    intro k hmem
    exact (hgrown.of_mem_modifiers hroot hn hmem).2 hk
  · intro id n hn k hmem
    exact category_of_isModifier (hgrown.of_mem_modifiers hroot hn hmem).1

/-- A namespace with a delegate, a class that has a constructor and holds an enumeration, and a reopened namespace. -/
def mixedTokens : List Token :=
  [.keyword .namespaceKw, .identifier "Shop", .punctuation .leftBrace,
    .keyword .publicKw, .keyword .delegateKw, .identifier "void", .identifier "Placed", .punctuation .leftParen,
      .punctuation .rightParen, .punctuation .semicolon,
    .keyword .classKw, .identifier "Order", .punctuation .leftBrace,
      .keyword .publicKw, .identifier "Order", .punctuation .leftParen, .punctuation .rightParen,
        .punctuation .leftBrace, .punctuation .rightBrace,
      .keyword .enumKw, .identifier "State", .punctuation .leftBrace, .identifier "New", .punctuation .rightBrace,
    .punctuation .rightBrace,
  .punctuation .rightBrace,
  .keyword .namespaceKw, .identifier "Shop", .punctuation .semicolon, .endOfText].map fun k => ⟨k, .zero⟩

theorem wellShaped_mixedTokens : ∃ t, ofTokens mixedTokens = .ok t ∧ t.WellShaped ∧
    t.nodes.toList.map Node.heading =
      [⟨.unit, "", [], none⟩, ⟨.namespaceBlock, "Shop", [], some 0⟩, ⟨.other, "Placed", [.publicKw], some 1⟩,
        ⟨.type .classType, "Order", [], some 1⟩, ⟨.constructor, "Order", [.publicKw], some 3⟩,
        ⟨.type .enumType, "State", [], some 3⟩, ⟨.namespaceBlock, "Shop", [], some 0⟩] := by
  have hread : (ofTokens mixedTokens).toOption.map headings =
      some [⟨.unit, "", [], none⟩, ⟨.namespaceBlock, "Shop", [], some 0⟩, ⟨.other, "Placed", [.publicKw], some 1⟩,
        ⟨.type .classType, "Order", [], some 1⟩, ⟨.constructor, "Order", [.publicKw], some 3⟩,
        ⟨.type .enumType, "State", [], some 3⟩, ⟨.namespaceBlock, "Shop", [], some 0⟩] := by decide +kernel
  cases h : ofTokens mixedTokens with
  | error ds =>
    rw [h] at hread
    cases hread
  | ok t =>
    rw [h] at hread
    exact ⟨t, rfl, wellShaped_of_ofTokens h, Option.some.inj hread⟩

end DeclarationTree

end TestScaffold
