import TestScaffold.Proofs.Declaration.Listing

/-!
# Nodes and the declarations they stand for

Each node of the tree of a declaration stands for that declaration or for one inside it, whose nodes follow it. What is
true of a declaration and of those directly inside it is true of a node, its parent and its children.

Results:
* `DeclarationTree.inside_ofDeclaration`: the declaration that a node stands for, and the one around it.
* `DeclarationTree.Represents.pairwise_children`: what holds of neighbouring declarations holds of the nodes in a
  child list.
-/

namespace TestScaffold

/-- The declarations inside a declaration, itself included. -/
inductive Declaration.Under (root : Declaration) : Declaration → Prop
  | refl : Under root root
  | child {outer d : Declaration} (h : Under root outer) (hd : d ∈ outer.children) : Under root d

namespace DeclarationTree

variable {t : DeclarationTree} {root : Declaration}

/-- The node of a declaration with index `id`. -/
def nodeOf (parent : Option Nat) (id : Nat) (d : Declaration) : Node :=
  ⟨d.kind, d.name, d.modifiers, d.span, parent, (Declaration.indices (id + 1) d.children).toArray⟩

theorem nodes_eq_cons (parent : Option Nat) (id : Nat) (d : Declaration) :
    d.nodes parent id = nodeOf parent id d :: Declaration.nodesAll id (id + 1) d.children := by
  obtain ⟨kind, name, modifiers, span, children⟩ := d
  rw [Declaration.nodes]
  rfl

/-- The node `id` stands for the declaration `d`, whose nodes follow it. -/
def Represents (t : DeclarationTree) (parent : Option Nat) (id : Nat) (d : Declaration) : Prop :=
  t.Stand id (d.nodes parent id)

namespace Represents

variable {parent : Option Nat} {id : Nat} {d : Declaration}

theorem get? (h : t.Represents parent id d) : t.get? id = some (nodeOf parent id d) := by
  rw [Represents, nodes_eq_cons] at h
  exact Stand.get? h

theorem children (h : t.Represents parent id d) : t.children id = Declaration.indices (id + 1) d.children := by
  simp [DeclarationTree.children, h.get?, nodeOf]

theorem below (h : t.Represents parent id d) :
    t.Stand (id + 1) (Declaration.nodesAll id (id + 1) d.children) := by
  rw [Represents, nodes_eq_cons] at h
  exact h.tail

end Represents

/-- The node `k` stands for a declaration directly inside another one, which its parent stands for. -/
def Inside (t : DeclarationTree) (root : Declaration) (k : Nat) : Prop := ∃ p q outer d, t.Represents q p outer ∧
  root.Under outer ∧ d ∈ outer.children ∧ t.Represents (some p) k d

mutual

theorem eq_or_inside {parent : Option Nat} {id : Nat} {d : Declaration} (hd : root.Under d)
    (h : t.Represents parent id d) {k : Nat} (hk : id ≤ k) (hlt : k < id + d.size) : k = id ∨ t.Inside root k := by
  by_cases hself : k = id
  · exact .inl hself
  · obtain ⟨kind, name, modifiers, span, children⟩ := d
    rw [Declaration.size] at hlt
    have hbelow : t.Stand (id + 1) (Declaration.nodesAll id (id + 1) children) := h.below
    have hlt : k < id + 1 + Declaration.sizeAll children := by omega
    exact .inr (inside_of_stand hd h (fun _ hc => hc) hbelow (by omega) hlt)

theorem inside_of_stand {p : Nat} {q : Option Nat} {outer : Declaration} (houter : root.Under outer)
    (hp : t.Represents q p outer) {next : Nat} {ds : List Declaration} (hds : ∀ d ∈ ds, d ∈ outer.children)
    (h : t.Stand next (Declaration.nodesAll p next ds)) {k : Nat} (hk : next ≤ k)
    (hlt : k < next + Declaration.sizeAll ds) : t.Inside root k := by
  cases ds with
  | nil =>
    rw [Declaration.sizeAll] at hlt
    omega
  | cons d ds =>
    rw [Declaration.nodesAll] at h
    rw [Declaration.sizeAll] at hlt
    have hd : d ∈ outer.children := hds d List.mem_cons_self
    have hmore := h.right
    rw [Declaration.length_nodes] at hmore
    -- The node belongs to the first of the declarations, or to one of the others.
    by_cases hfirst : k < next + d.size
    · rcases eq_or_inside (houter.child hd) h.left hk hfirst with rfl | hinside
      · exact ⟨p, q, outer, d, hp, houter, hd, h.left⟩
      · exact hinside
    · exact inside_of_stand houter hp (fun e he => hds e (List.mem_cons_of_mem d he)) hmore (by omega) (by omega)

end

theorem represents_ofDeclaration (d : Declaration) : (ofDeclaration d).Represents none 0 d := by
  rw [Represents, Stand, nodes_ofDeclaration]
  exact List.prefix_rfl

/-- Every node but the root stands for a declaration directly inside another one, which its parent stands for. -/
theorem inside_ofDeclaration (d : Declaration) {id : Nat} {n : Node} (hn : (ofDeclaration d).get? id = some n)
    (hid : id ≠ 0) : (ofDeclaration d).Inside d id := by
  have hlt : id < (ofDeclaration d).size := (Array.getElem?_eq_some_iff.mp hn).1
  rw [size_ofDeclaration] at hlt
  exact (eq_or_inside .refl (represents_ofDeclaration d) (Nat.zero_le id) (by omega)).resolve_left hid

theorem exists_represents_of_mem_indices {parent next : Nat} {ds : List Declaration}
    (h : t.Stand next (Declaration.nodesAll parent next ds)) {i : Nat} (hi : i ∈ Declaration.indices next ds) :
    ∃ d ∈ ds, t.Represents (some parent) i d := by
  induction ds generalizing next with
  | nil => cases hi
  | cons d ds ih =>
    rw [Declaration.nodesAll] at h
    have hmore := h.right
    rw [Declaration.length_nodes] at hmore
    rcases List.mem_cons.mp hi with rfl | hi
    · exact ⟨d, List.mem_cons_self, h.left⟩
    · obtain ⟨e, he, hrepresents⟩ := ih hmore hi
      exact ⟨e, List.mem_cons_of_mem d he, hrepresents⟩

theorem pairwise_indices {parent next : Nat} {ds : List Declaration} {r : Declaration → Declaration → Prop}
    (h : t.Stand next (Declaration.nodesAll parent next ds)) (hds : ds.Pairwise r) :
    (Declaration.indices next ds).Pairwise fun i j => ∃ d e, t.Represents (some parent) i d ∧
      t.Represents (some parent) j e ∧ r d e := by
  induction hds generalizing next with
  | nil => exact .nil
  | @cons d ds hd _ ih =>
    rw [Declaration.nodesAll] at h
    have hmore := h.right
    rw [Declaration.length_nodes] at hmore
    refine .cons (fun j hj => ?_) (ih hmore)
    obtain ⟨e, he, hrepresents⟩ := exists_represents_of_mem_indices hmore hj
    exact ⟨d, e, h.left, hrepresents, hd e he⟩

/-- The children of a node represent the declarations directly inside its own, in their order. -/
theorem Represents.pairwise_children {parent : Option Nat} {id : Nat} {d : Declaration}
    {r : Declaration → Declaration → Prop} (h : t.Represents parent id d) (hd : d.children.Pairwise r) :
    (t.children id).Pairwise fun i j => ∃ d e, t.Represents (some id) i d ∧ t.Represents (some id) j e ∧ r d e := by
  rw [h.children]
  exact pairwise_indices h.below hd

end DeclarationTree

end TestScaffold
