import TestScaffold.Proofs.Declaration.Nested

/-!
# Trees side by side

Two trees become one when the declarations of the second one are put behind those of the first one. The nodes of the
first one stay as they are. Those of the second one have as many nodes more in front of them as the first tree has below
its root, and as many bytes more in front of their text as the first text takes up.

Results:
* `DeclarationTree.joined`: the tree of two texts.
* `DeclarationTree.joined_ofDeclaration`: it is the tree of the declarations of both.
-/

namespace TestScaffold

/-- The span `n` bytes further on. -/
def Span.shifted (n : Nat) (s : Span) : Span := ⟨n + s.start, n + s.stop⟩

/-- A node below the root where `k` nodes and `n` bytes come to stand in front of it. What stands directly below the
root still does. -/
def Node.shifted (k n : Nat) (x : Node) : Node :=
  { x with
    span := x.span.shifted n
    parent := x.parent.map fun p => if p = 0 then 0 else p + k
    children := x.children.map (· + k) }

namespace DeclarationTree

/-- The node at the root. -/
def root (t : DeclarationTree) : Node :=
  have := t.nonempty
  t.nodes[0]

/-- The nodes below the root. -/
def belowRoot (t : DeclarationTree) : List Node := t.nodes.toList.tail

theorem nodes_eq_cons_belowRoot (t : DeclarationTree) : t.nodes.toList = t.root :: t.belowRoot := by
  obtain ⟨⟨nodes⟩, h⟩ := t
  cases nodes with
  | nil => cases h
  | cons n ns => rfl

/-- The tree of two texts, the second of which begins at the offset `n` of both. The root has the children of both
roots, and the nodes of the second tree stand behind those of the first. -/
def joined (a b : DeclarationTree) (n : Nat) : DeclarationTree :=
  let k := a.belowRoot.length
  let root := { a.root with
    span := a.root.span.merge (b.root.span.shifted n)
    children := a.root.children ++ b.root.children.map (· + k) }
  ⟨(root :: (a.belowRoot ++ b.belowRoot.map (Node.shifted k n))).toArray, Nat.succ_pos _⟩

theorem nodes_joined (a b : DeclarationTree) (n : Nat) : (a.joined b n).nodes.toList =
    { a.root with
      span := a.root.span.merge (b.root.span.shifted n)
      children := a.root.children ++ b.root.children.map (· + a.belowRoot.length) } ::
    (a.belowRoot ++ b.belowRoot.map (Node.shifted a.belowRoot.length n)) := rfl

end DeclarationTree

namespace Declaration

mutual

/-- The declaration `n` bytes further on, and everything inside it likewise. -/
def shifted (n : Nat) : Declaration → Declaration
  | ⟨kind, name, modifiers, span, children⟩ => ⟨kind, name, modifiers, span.shifted n, shiftedAll n children⟩

/-- Declarations `n` bytes further on. -/
def shiftedAll (n : Nat) : List Declaration → List Declaration
  | [] => []
  | d :: ds => d.shifted n :: shiftedAll n ds

end

/-! ## Numbering -/

mutual

theorem size_shifted (n : Nat) (d : Declaration) : (d.shifted n).size = d.size := by
  obtain ⟨kind, name, modifiers, span, children⟩ := d
  rw [shifted, size, size, sizeAll_shiftedAll]

theorem sizeAll_shiftedAll (n : Nat) (ds : List Declaration) : sizeAll (shiftedAll n ds) = sizeAll ds := by
  cases ds with
  | nil => rfl
  | cons d ds => rw [shiftedAll, sizeAll, sizeAll, size_shifted, sizeAll_shiftedAll]

end

theorem indices_append (next : Nat) (ds es : List Declaration) :
    indices next (ds ++ es) = indices next ds ++ indices (next + sizeAll ds) es := by
  induction ds generalizing next with
  | nil => rfl
  | cons d ds ih => rw [List.cons_append, indices, indices, sizeAll, ih, List.cons_append, Nat.add_assoc]

theorem nodesAll_append (parent next : Nat) (ds es : List Declaration) :
    nodesAll parent next (ds ++ es) = nodesAll parent next ds ++ nodesAll parent (next + sizeAll ds) es := by
  induction ds generalizing next with
  | nil => rfl
  | cons d ds ih => rw [List.cons_append, nodesAll, nodesAll, sizeAll, ih, List.append_assoc, Nat.add_assoc]

theorem indices_shiftedAll (k n next : Nat) (ds : List Declaration) :
    indices (next + k) (shiftedAll n ds) = (indices next ds).map (· + k) := by
  induction ds generalizing next with
  | nil => rfl
  | cons d ds ih =>
    rw [shiftedAll, indices, indices, List.map_cons, size_shifted, Nat.add_right_comm, ih]

mutual

/-- The nodes of a declaration further on, below the same root and behind `k` more nodes. -/
theorem nodes_shifted (k n parent id : Nat) (hid : id ≠ 0) (d : Declaration) :
    (d.shifted n).nodes (some (if parent = 0 then 0 else parent + k)) (id + k) =
      (d.nodes (some parent) id).map (Node.shifted k n) := by
  obtain ⟨kind, name, modifiers, span, children⟩ := d
  have hbelow := nodesAll_shiftedAll k n id (id + 1) (Nat.succ_ne_zero id) children
  rw [if_neg hid] at hbelow
  rw [shifted, nodes, nodes, List.map_cons, Nat.add_right_comm, hbelow, indices_shiftedAll]
  simp [Node.shifted]

theorem nodesAll_shiftedAll (k n parent next : Nat) (hnext : next ≠ 0) (ds : List Declaration) :
    nodesAll (if parent = 0 then 0 else parent + k) (next + k) (shiftedAll n ds) =
      (nodesAll parent next ds).map (Node.shifted k n) := by
  cases ds with
  | nil => rfl
  | cons d ds =>
    have hmore := nodesAll_shiftedAll k n parent (next + d.size) (by omega) ds
    rw [shiftedAll, nodesAll, nodesAll, List.map_append, nodes_shifted k n parent next hnext, size_shifted,
      Nat.add_right_comm, hmore]

end

end Declaration

namespace DeclarationTree

theorem root_ofDeclaration (d : Declaration) : (ofDeclaration d).root = nodeOf none 0 d := by
  have hnodes := nodes_ofDeclaration d
  rw [nodes_eq_cons_belowRoot, nodes_eq_cons] at hnodes
  exact (List.cons.inj hnodes).1

theorem belowRoot_ofDeclaration (d : Declaration) :
    (ofDeclaration d).belowRoot = Declaration.nodesAll 0 1 d.children := by
  have hnodes := nodes_ofDeclaration d
  rw [nodes_eq_cons_belowRoot, nodes_eq_cons] at hnodes
  exact (List.cons.inj hnodes).2

/-- Trees that hold the same nodes are the same. -/
theorem eq_of_nodes {a b : DeclarationTree} (h : a.nodes.toList = b.nodes.toList) : a = b := by
  obtain ⟨as, ha⟩ := a
  obtain ⟨bs, hb⟩ := b
  have hsame : as = bs := Array.toList_inj.mp h
  subst hsame
  rfl

/-- The joined tree is the tree of the declarations of both. -/
theorem joined_ofDeclaration (d e : Declaration) (n : Nat) : (ofDeclaration d).joined (ofDeclaration e) n =
    ofDeclaration { d with
      span := d.span.merge (e.span.shifted n)
      children := d.children ++ Declaration.shiftedAll n e.children } := by
  have hlater := Declaration.nodesAll_shiftedAll (Declaration.sizeAll d.children) n 0 1 Nat.one_ne_zero e.children
  rw [if_pos rfl] at hlater
  refine eq_of_nodes ?_
  rw [nodes_ofDeclaration, nodes_eq_cons, Declaration.nodesAll_append, hlater, nodes_joined, root_ofDeclaration,
    root_ofDeclaration, belowRoot_ofDeclaration, belowRoot_ofDeclaration, Declaration.length_nodesAll]
  simp [nodeOf, Declaration.indices_append, Declaration.indices_shiftedAll]

/-- A declaration directly below the root has a node of its own. -/
theorem exists_node_of_mem_children {d e : Declaration} (he : e ∈ d.children) :
    ∃ n ∈ (ofDeclaration d).nodes.toList, n.kind = e.kind ∧ n.span = e.span := by
  obtain ⟨before, after, hchildren⟩ := List.append_of_mem he
  refine ⟨nodeOf (some 0) (1 + Declaration.sizeAll before) e, ?_, rfl, rfl⟩
  rw [nodes_ofDeclaration, nodes_eq_cons, hchildren, Declaration.nodesAll_append, Declaration.nodesAll, nodes_eq_cons]
  simp

end DeclarationTree

end TestScaffold
