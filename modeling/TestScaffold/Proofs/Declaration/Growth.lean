import TestScaffold.Proofs.Declaration.Preorder

/-!
# Trees that grow child by child

A tree that starts with a root and only ever gets children of nodes that are there is told by the parents of its
nodes: a parent stands before its children, and a child list holds exactly the nodes with that parent, in their
order. Whatever every new child has to do with its parent stays true of the two.

Results:
* `Linked`: parents and child lists tell the same; kept by every new child (`Linked.addChild`).
* `Grown.linked`, `Grown.exists_outer`: what is true of every grown tree.
* `grown_ofDeclaration`: nested declarations that fit each other are laid out in a grown tree.
-/

namespace TestScaffold

/-- The heading of a declaration below the node `parent`. -/
def Declaration.heading (d : Declaration) (parent : Option Nat) : Heading := ⟨d.kind, d.name, d.modifiers, parent⟩

/-- Each declaration fits the one around it, at every depth. What fits what is told by their headings; `outer` is
the heading around the declarations. -/
inductive Declaration.Fitting (fits : Heading → Heading → Prop) : (outer : Heading) → List Declaration → Prop
  | nil {outer : Heading} : Fitting fits outer []
  | cons {outer : Heading} {d : Declaration} {ds : List Declaration} (head : ∀ p, fits outer (d.heading p))
    (inside : ∀ p, Fitting fits (d.heading p) d.children) (tail : Fitting fits outer ds) :
    Fitting fits outer (d :: ds)

namespace DeclarationTree

variable {t : DeclarationTree} {parent : Nat} {kind : DeclarationKind} {name : String} {modifiers : List Keyword}
  {span : Span}

/-- The parent of a node, if the tree has the node and the node has a parent. -/
def parent? (t : DeclarationTree) (id : Nat) : Option Nat := (t.headings[id]?).bind Heading.parent

/-! ## One more child -/

theorem length_headings (t : DeclarationTree) : t.headings.length = t.size := by
  simp [headings, size]

theorem headings_getElem? (t : DeclarationTree) (id : Nat) : t.headings[id]? = (t.get? id).map Node.heading := by
  simp [headings, get?]

theorem headings_of_get? {id : Nat} {n : Node} (h : t.get? id = some n) :
    t.headings[id]? = some n.heading := by
  rw [headings_getElem?, h, Option.map_some]

theorem get?_of_headings {id : Nat} {g : Heading} (h : t.headings[id]? = some g) :
    ∃ n, t.get? id = some n ∧ n.heading = g := by
  rw [headings_getElem?] at h
  exact Option.map_eq_some_iff.mp h

theorem parent?_eq_bind (t : DeclarationTree) (id : Nat) : t.parent? id = (t.get? id).bind Node.parent := by
  rw [parent?, headings_getElem?]
  cases t.get? id <;> rfl

theorem parent?_eq {id : Nat} {n : Node} (h : t.get? id = some n) : t.parent? id = n.parent := by
  rw [parent?_eq_bind, h, Option.bind_some]

theorem get?_addChild (t : DeclarationTree) (parent : Nat) (kind : DeclarationKind) (name : String)
    (modifiers : List Keyword) (span : Span) (id : Nat) : (t.addChild parent kind name modifiers span).get? id =
      if parent = id then
        ((t.nodes.push ⟨kind, name, modifiers, span, some parent, #[]⟩)[id]?).map fun n =>
          { n with children := n.children.push t.size }
      else (t.nodes.push ⟨kind, name, modifiers, span, some parent, #[]⟩)[id]? := by
  simp only [get?, addChild, Array.getElem?_modify]

theorem parent?_addChild (t : DeclarationTree) (parent : Nat) (kind : DeclarationKind) (name : String)
    (modifiers : List Keyword) (span : Span) (id : Nat) :
    (t.addChild parent kind name modifiers span).parent? id = if id = t.size then some parent else t.parent? id := by
  have hlength := t.length_headings
  unfold parent?
  rw [headings_addChild]
  by_cases hid : id = t.size
  · subst hid
    rw [List.getElem?_append_right (by omega)]
    simp [hlength]
  · rw [if_neg hid]
    by_cases hlt : id < t.size
    · rw [List.getElem?_append_left (by omega)]
    · have hnone : t.headings[id]? = none := by
        rw [List.getElem?_eq_none_iff]
        omega
      have hnone' : (t.headings ++ [⟨kind, name, modifiers, some parent⟩])[id]? = none := by
        rw [List.getElem?_eq_none_iff, List.length_append, List.length_singleton]
        omega
      rw [hnone, hnone']

/-- A child that is added to a node stands at the end of its child list, and nothing else changes about who is
listed where. A node that is added below itself is there in time to be listed. -/
theorem children_addChild_of_le (t : DeclarationTree) (parent : Nat) (kind : DeclarationKind) (name : String)
    (modifiers : List Keyword) (span : Span) (id : Nat) :
    (t.addChild parent kind name modifiers span).children id =
      if id = parent ∧ parent ≤ t.size then t.children id ++ [t.size] else t.children id := by
  have hsize : t.nodes.size = t.size := rfl
  unfold children
  rw [get?_addChild]
  by_cases hid : id = parent
  · subst hid
    rw [if_pos rfl, Array.getElem?_push, hsize]
    rcases Nat.lt_trichotomy id t.size with hlt | rfl | hgt
    · have hget : t.get? id = some t.nodes[id] := Array.getElem?_eq_getElem hlt
      have hold : t.nodes[id]? = t.get? id := rfl
      rw [if_neg (Nat.ne_of_lt hlt), if_pos ⟨rfl, Nat.le_of_lt hlt⟩, hold, hget]
      simp
    · have hnone : t.get? t.size = none := by simp [get?, size]
      rw [if_pos rfl, if_pos ⟨rfl, Nat.le_refl _⟩, hnone]
      rfl
    · have hnone : t.nodes[id]? = none := Array.getElem?_eq_none (Nat.le_of_lt hgt)
      have hlist : ¬ (id = id ∧ id ≤ t.size) := fun h => Nat.not_le_of_lt hgt h.2
      rw [if_neg (Nat.ne_of_gt hgt), if_neg hlist, get?, hnone]
      rfl
  · have hlist : ¬ (id = parent ∧ parent ≤ t.size) := fun h => hid h.1
    rw [if_neg (Ne.symm hid), if_neg hlist, Array.getElem?_push]
    by_cases hnew : id = t.size
    · subst hnew
      have hnone : t.get? t.size = none := by simp [get?, size]
      simp [hsize, hnone]
    · rw [if_neg (by rw [hsize]; exact hnew)]
      rfl

/-- Below a node that is there, a new child stands at the end of the child list. -/
theorem children_addChild (hp : parent < t.size) (id : Nat) :
    (t.addChild parent kind name modifiers span).children id =
      if id = parent then t.children id ++ [t.size] else t.children id := by
  simp only [children_addChild_of_le, Nat.le_of_lt hp, and_true]

/-! ## Parents and child lists -/

/-- Only the root has no parent, a parent stands before its children, and a child list holds the nodes with that
parent in their order. -/
structure Linked (t : DeclarationTree) : Prop where
  parent_lt : ∀ id p, t.parent? id = some p → p < id
  exists_parent : ∀ id, id < t.size → id ≠ 0 → ∃ p, t.parent? id = some p
  children : ∀ p, t.children p = (List.range t.size).filter fun id => t.parent? id = some p

namespace Linked

theorem ofRoot {root : Node} (hp : root.parent = none) (hc : root.children = #[]) : (ofRoot root).Linked := by
  have hparent : ∀ id, (DeclarationTree.ofRoot root).parent? id = none := by
    intro id
    rcases id with - | id <;> simp [parent?, headings, DeclarationTree.ofRoot, Node.heading, hp]
  refine ⟨?_, ?_, ?_⟩
  · intro id p h
    rw [hparent] at h
    cases h
  · intro id hid hne
    have hone : id < 1 := hid
    omega
  · intro p
    have hfilter : ((List.range (DeclarationTree.ofRoot root).size).filter fun id =>
        (DeclarationTree.ofRoot root).parent? id = some p) = [] := by
      simp [hparent]
    rw [hfilter]
    rcases p with - | p <;> simp [DeclarationTree.children, get?, DeclarationTree.ofRoot, hc]

/-- A new child of a node that is there keeps the tree linked. -/
theorem addChild (h : t.Linked) (hp : parent < t.size) (kind : DeclarationKind) (name : String)
    (modifiers : List Keyword) (span : Span) : (t.addChild parent kind name modifiers span).Linked := by
  refine ⟨?_, ?_, ?_⟩
  · intro id p hid
    rw [parent?_addChild] at hid
    split at hid
    · have hpp : parent = p := Option.some.inj hid
      omega
    · exact h.parent_lt id p hid
  · intro id hid hne
    rw [parent?_addChild]
    rw [size_addChild] at hid
    split
    · exact ⟨parent, rfl⟩
    · exact h.exists_parent id (by omega) hne
  · intro p
    have hold : ((List.range t.size).filter fun id =>
        (t.addChild parent kind name modifiers span).parent? id = some p) = t.children p := by
      rw [h.children]
      apply List.filter_congr
      intro id hid
      have hne : id ≠ t.size := Nat.ne_of_lt (List.mem_range.mp hid)
      rw [parent?_addChild, if_neg hne]
    rw [children_addChild hp, size_addChild, List.range_succ, List.filter_append, hold]
    by_cases hpp : p = parent
    · subst hpp
      simp [parent?_addChild]
    · have hne : ¬ parent = p := fun he => hpp he.symm
      simp [parent?_addChild, hpp, hne]

/-- Every node but the root is listed once, as a child of its parent, and nowhere else. -/
theorem count_children (h : t.Linked) {id : Nat} (hid : id < t.size) (p : Nat) :
    (t.children p).count id = if t.parent? id = some p then 1 else 0 := by
  have hnodup : ((List.range t.size).filter fun id => t.parent? id = some p).Nodup :=
    List.nodup_range.filter _
  rw [h.children, hnodup.count]
  simp [hid]

theorem lt_size_of_mem (h : t.Linked) {id p : Nat} (hid : id ∈ t.children p) : id < t.size := by
  rw [h.children, List.mem_filter] at hid
  exact List.mem_range.mp hid.1

end Linked

/-! ## Growing -/

/-- Trees that start with a root and get children one after the other, each below a node that is there and that it
fits. -/
inductive Grown (fits : Heading → Heading → Prop) : DeclarationTree → Prop
  | root {root : Node} (hp : root.parent = none) (hc : root.children = #[]) : Grown fits (ofRoot root)
  | addChild {t : DeclarationTree} {parent : Nat} {outer : Heading} {kind : DeclarationKind} {name : String}
    {modifiers : List Keyword} {span : Span} (h : Grown fits t) (hp : t.headings[parent]? = some outer)
    (hf : fits outer ⟨kind, name, modifiers, some parent⟩) :
    Grown fits (t.addChild parent kind name modifiers span)

variable {fits : Heading → Heading → Prop}

theorem lt_size_of_headings {outer : Heading} (hp : t.headings[parent]? = some outer) : parent < t.size := by
  rw [← length_headings]
  exact (List.getElem?_eq_some_iff.mp hp).1

namespace Grown

/-- In a grown tree parents and child lists tell the same. -/
theorem linked (h : Grown fits t) : t.Linked := by
  induction h with
  | root hp hc => exact .ofRoot hp hc
  | addChild _ hp _ ih => exact ih.addChild (lt_size_of_headings hp) _ _ _ _

/-- In a grown tree every node that has a parent fits it. -/
theorem exists_outer (h : Grown fits t) {id p : Nat} {inner : Heading} (hi : t.headings[id]? = some inner)
    (hp : inner.parent = some p) : ∃ outer, t.headings[p]? = some outer ∧ fits outer inner := by
  induction h with
  | @root root hroot _ =>
    have hmem : inner ∈ (ofRoot root).headings := List.mem_of_getElem? hi
    have hinner : inner = root.heading := by simpa [headings, ofRoot] using hmem
    rw [hinner] at hp
    simp [Node.heading, hroot] at hp
  | @addChild t parent outer kind name modifiers span h hparent hf ih =>
    -- Either the node was there before, and so was its parent, or it is the new child.
    rw [headings_addChild] at hi ⊢
    have keep {q : Nat} {g : Heading} (hg : t.headings[q]? = some g) :
        (t.headings ++ [⟨kind, name, modifiers, some parent⟩])[q]? = some g := by
      rw [List.getElem?_append_left (List.getElem?_eq_some_iff.mp hg).1]
      exact hg
    by_cases hid : id < t.headings.length
    · rw [List.getElem?_append_left hid] at hi
      obtain ⟨g, hg, hfit⟩ := ih hi
      exact ⟨g, keep hg, hfit⟩
    · rw [List.getElem?_append_right (by omega)] at hi
      have hinner : inner = ⟨kind, name, modifiers, some parent⟩ := List.mem_singleton.mp (List.mem_of_getElem? hi)
      subst hinner
      have hpp : parent = p := Option.some.inj hp
      subst hpp
      exact ⟨outer, keep hparent, hf⟩

/-- Every node but the root has a parent before it, which it fits. -/
theorem exists_parent (h : Grown fits t) {id : Nat} {inner : Heading} (hi : t.headings[id]? = some inner)
    (hid : id ≠ 0) :
    ∃ p outer, inner.parent = some p ∧ p < id ∧ t.headings[p]? = some outer ∧ fits outer inner := by
  have hlt : id < t.size := by
    rw [← length_headings]
    exact (List.getElem?_eq_some_iff.mp hi).1
  obtain ⟨p, hp⟩ := h.linked.exists_parent id hlt hid
  have hpi : inner.parent = some p := by
    rw [parent?, hi] at hp
    exact hp
  obtain ⟨outer, houter, hfit⟩ := h.exists_outer hi hpi
  exact ⟨p, outer, hpi, h.linked.parent_lt id p hp, houter, hfit⟩

end Grown

/-! ## Nested declarations -/

theorem headings_getElem?_addDeclaration {outer : Heading} (hp : t.headings[parent]? = some outer) (d : Declaration) :
    (addDeclaration t parent d).headings[parent]? = some outer := by
  rw [headings_addDeclaration, List.getElem?_append_left (List.getElem?_eq_some_iff.mp hp).1]
  exact hp

mutual

theorem grown_addDeclaration {t : DeclarationTree} (h : Grown fits t) {parent : Nat} {outer : Heading}
    (hp : t.headings[parent]? = some outer) (d : Declaration) (hf : ∀ p, fits outer (d.heading p))
    (hi : ∀ p, Declaration.Fitting fits (d.heading p) d.children) : Grown fits (addDeclaration t parent d) := by
  obtain ⟨kind, name, modifiers, span, children⟩ := d
  have hnew : (t.addChild parent kind name modifiers span).headings[t.size]?
      = some ⟨kind, name, modifiers, some parent⟩ := by
    rw [headings_addChild, ← length_headings, List.getElem?_concat_length]
  rw [addDeclaration]
  exact grown_addDeclarations (h.addChild hp (hf (some parent))) hnew children (hi (some parent))

theorem grown_addDeclarations {t : DeclarationTree} (h : Grown fits t) {parent : Nat} {outer : Heading}
    (hp : t.headings[parent]? = some outer) (ds : List Declaration) (hf : Declaration.Fitting fits outer ds) :
    Grown fits (addDeclarations t parent ds) := by
  cases ds with
  | nil => exact h
  | cons d ds =>
    cases hf with
    | cons head inside tail =>
      rw [addDeclarations]
      exact grown_addDeclarations (grown_addDeclaration h hp d head inside)
        (headings_getElem?_addDeclaration hp d) ds tail

end

/-- Declarations that fit each other are laid out in a grown tree. -/
theorem grown_ofDeclaration {d : Declaration} (h : Declaration.Fitting fits (d.heading none) d.children) :
    Grown fits (ofDeclaration d) := by
  unfold ofDeclaration
  exact grown_addDeclarations (.root rfl rfl) rfl d.children h

end DeclarationTree

end TestScaffold
