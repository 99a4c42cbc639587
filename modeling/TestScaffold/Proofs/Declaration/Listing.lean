import TestScaffold.Proofs.Declaration.Preorder

/-!
# Trees are numbered in preorder

A walk from the root that follows the child lists meets each node before the nodes below it, and neighbours in their
order. In the tree of nested declarations it meets the nodes in the order of their indices, and all of them.

Results:
* `Declaration.nodes`: the nodes of a declaration with their child lists.
* `DeclarationTree.nodes_ofDeclaration`: a tree holds exactly the nodes of the declaration it was made of.
* `DeclarationTree.preorder_ofDeclaration`: the walk counts the indices up.
-/

namespace TestScaffold

/-- The node with more children behind its own. -/
def Node.withChildren (n : Node) (ids : List Nat) : Node := { n with children := n.children ++ ids.toArray }

namespace Declaration

/-- The indices of neighbouring declarations, the first of which has index `next`. -/
def indices (next : Nat) : List Declaration → List Nat
  | [] => []
  | d :: ds => next :: indices (next + d.size) ds

mutual

/-- The nodes of a declaration with index `id` and of everything inside it. -/
def nodes (parent : Option Nat) (id : Nat) : Declaration → List Node
  | ⟨kind, name, modifiers, span, children⟩ =>
    ⟨kind, name, modifiers, span, parent, (indices (id + 1) children).toArray⟩ :: nodesAll id (id + 1) children

/-- The nodes of the declarations inside `parent`, the first of which has index `next`. -/
def nodesAll (parent next : Nat) : List Declaration → List Node
  | [] => []
  | d :: ds => d.nodes (some parent) next ++ nodesAll parent (next + d.size) ds

end

mutual

theorem length_nodes (parent : Option Nat) (id : Nat) (d : Declaration) : (d.nodes parent id).length = d.size := by
  obtain ⟨kind, name, modifiers, span, children⟩ := d
  rw [nodes, size, List.length_cons, length_nodesAll]

theorem length_nodesAll (parent next : Nat) (ds : List Declaration) :
    (nodesAll parent next ds).length = sizeAll ds := by
  cases ds with
  | nil => rfl
  | cons d ds => rw [nodesAll, sizeAll, List.length_append, length_nodes, length_nodesAll]

end

end Declaration

namespace DeclarationTree

/-! ## The nodes of a tree -/

theorem modify_append_left {α : Type} {i : Nat} (f : α → α) {xs : List α} (hi : i < xs.length) (ys : List α) :
    (xs ++ ys).modify i f = xs.modify i f ++ ys := by
  induction xs generalizing i with
  | nil => simp at hi
  | cons x xs ih =>
    cases i with
    | zero => rfl
    | succ i => simp [ih (Nat.lt_of_succ_lt_succ hi)]

theorem modify_concat {α : Type} {i : Nat} (f : α → α) {xs : List α} (hi : i = xs.length) (x : α) :
    (xs ++ [x]).modify i f = xs ++ [f x] := by
  subst hi
  induction xs with
  | nil => rfl
  | cons y xs ih => simp [ih]

theorem withChildren_comp (ids ids' : List Nat) :
    (fun n => Node.withChildren n ids') ∘ (fun n => Node.withChildren n ids)
      = fun n => Node.withChildren n (ids ++ ids') := by
  funext n
  simp [Node.withChildren]

theorem nodes_addChild (t : DeclarationTree) {parent : Nat} (hp : parent < t.size) (kind : DeclarationKind)
    (name : String) (modifiers : List Keyword) (span : Span) :
    (t.addChild parent kind name modifiers span).nodes.toList
      = t.nodes.toList.modify parent (·.withChildren [t.size])
        ++ [⟨kind, name, modifiers, span, some parent, #[]⟩] := by
  have hlength : parent < t.nodes.toList.length := hp
  have hpush : (fun n : Node => { n with children := n.children.push t.size })
      = fun n => n.withChildren [t.size] := by
    funext n
    simp [Node.withChildren]
  simp only [addChild, Array.toList_modify, Array.toList_push, hpush]
  rw [modify_append_left _ hlength]

mutual

theorem nodes_addDeclaration (t : DeclarationTree) {parent : Nat} (hp : parent < t.size) (d : Declaration) :
    (addDeclaration t parent d).nodes.toList
      = t.nodes.toList.modify parent (·.withChildren [t.size]) ++ d.nodes (some parent) t.size := by
  obtain ⟨kind, name, modifiers, span, children⟩ := d
  have hnew : t.size < (t.addChild parent kind name modifiers span).size := by simp
  have hlength : t.size = (t.nodes.toList.modify parent (·.withChildren [t.size])).length := by simp [size]
  rw [addDeclaration, nodes_addDeclarations _ hnew, nodes_addChild t hp, modify_concat _ hlength, size_addChild,
    Declaration.nodes, List.append_assoc, List.singleton_append]
  simp [Node.withChildren]

theorem nodes_addDeclarations (t : DeclarationTree) {parent : Nat} (hp : parent < t.size) (ds : List Declaration) :
    (addDeclarations t parent ds).nodes.toList
      = t.nodes.toList.modify parent (·.withChildren (Declaration.indices t.size ds))
        ++ Declaration.nodesAll parent t.size ds := by
  cases ds with
  | nil =>
    have hsame : (fun n : Node => n.withChildren []) = id := by
      funext n
      simp [Node.withChildren]
    simp [addDeclarations, Declaration.indices, Declaration.nodesAll, hsame]
  | cons d ds =>
    have hp' : parent < (addDeclaration t parent d).size := by
      rw [size_addDeclaration]
      omega
    have hlength : parent < (t.nodes.toList.modify parent (·.withChildren [t.size])).length := by
      rw [List.length_modify]
      exact hp
    rw [addDeclarations, nodes_addDeclarations _ hp', nodes_addDeclaration t hp, size_addDeclaration,
      modify_append_left _ hlength, List.modify_modify_eq, withChildren_comp, Declaration.indices,
      Declaration.nodesAll, List.append_assoc, List.singleton_append]

end

/-- A tree holds exactly the nodes of the declaration it was made of. -/
theorem nodes_ofDeclaration (d : Declaration) : (ofDeclaration d).nodes.toList = d.nodes none 0 := by
  obtain ⟨kind, name, modifiers, span, children⟩ := d
  have hroot : 0 < (ofRoot ⟨kind, name, modifiers, span, none, #[]⟩).size := Nat.one_pos
  rw [ofDeclaration, nodes_addDeclarations _ hroot, Declaration.nodes]
  simp [ofRoot, size, Node.withChildren]

/-! ## Walking in preorder -/

/-- A node and the nodes below it, down to `bound` levels: each before what is below it, neighbours in their
order. -/
def preorderFrom (t : DeclarationTree) : (bound : Nat) → (id : Nat) → List Nat
  | 0, _ => []
  | bound + 1, id => id :: (t.children id).flatMap (preorderFrom t bound)

/-- The nodes reached from the root, in preorder. -/
def preorder (t : DeclarationTree) : List Nat := t.preorderFrom t.size 0

/-- The nodes `ns` stand side by side in the tree, from index `id` on. -/
def Stand (t : DeclarationTree) (id : Nat) (ns : List Node) : Prop := ns <+: t.nodes.toList.drop id

namespace Stand

variable {t : DeclarationTree} {id : Nat}

theorem get? {n : Node} {ns : List Node} (h : t.Stand id (n :: ns)) : t.get? id = some n := by
  obtain ⟨rest, hrest⟩ := h
  have hhead : (t.nodes.toList.drop id)[0]? = some n := by rw [← hrest]; rfl
  simpa [DeclarationTree.get?] using hhead

theorem left {ns ms : List Node} (h : t.Stand id (ns ++ ms)) : t.Stand id ns := (List.prefix_append ns ms).trans h

theorem right {ns ms : List Node} (h : t.Stand id (ns ++ ms)) : t.Stand (id + ns.length) ms := by
  obtain ⟨rest, hrest⟩ := h
  refine ⟨rest, ?_⟩
  rw [← List.drop_drop, ← hrest, List.append_assoc, List.drop_left]

theorem tail {n : Node} {ns : List Node} (h : t.Stand id (n :: ns)) : t.Stand (id + 1) ns :=
  @right t id [n] ns h

end Stand

mutual

/-- The walk from a declaration's node counts up from its index to the last index inside it. -/
theorem preorderFrom_of_stand {t : DeclarationTree} {bound id : Nat} {parent : Option Nat} {d : Declaration}
    (hb : d.size ≤ bound) (h : t.Stand id (d.nodes parent id)) :
    t.preorderFrom bound id = List.range' id d.size := by
  obtain ⟨kind, name, modifiers, span, children⟩ := d
  rw [Declaration.nodes] at h
  rw [Declaration.size] at hb ⊢
  -- Below a node stand fewer nodes than from it on, so one level is left for every node.
  obtain ⟨b, rfl⟩ : ∃ b, bound = b + 1 := ⟨bound - 1, by omega⟩
  have hchildren : t.children id = Declaration.indices (id + 1) children := by
    simp [DeclarationTree.children, h.get?]
  have hbelow := flatMap_preorderFrom_of_stand (Nat.le_of_succ_le_succ hb) h.tail
  rw [preorderFrom, hchildren, hbelow, List.range'_succ]

theorem flatMap_preorderFrom_of_stand {t : DeclarationTree} {bound next parent : Nat} {ds : List Declaration}
    (hb : Declaration.sizeAll ds ≤ bound) (h : t.Stand next (Declaration.nodesAll parent next ds)) :
    (Declaration.indices next ds).flatMap (t.preorderFrom bound) = List.range' next (Declaration.sizeAll ds) := by
  cases ds with
  | nil => rfl
  | cons d ds =>
    rw [Declaration.nodesAll] at h
    rw [Declaration.sizeAll] at hb ⊢
    have hright := h.right
    rw [Declaration.length_nodes] at hright
    have hfirst := preorderFrom_of_stand (by omega : d.size ≤ bound) h.left
    have hmore := flatMap_preorderFrom_of_stand (by omega : Declaration.sizeAll ds ≤ bound) hright
    rw [Declaration.indices, List.flatMap_cons, hfirst, hmore, List.range'_append_1]

end

/-- A tree is numbered in preorder. -/
theorem preorder_ofDeclaration (d : Declaration) :
    (ofDeclaration d).preorder = List.range (ofDeclaration d).size := by
  have hall : (ofDeclaration d).Stand 0 (d.nodes none 0) := by
    rw [Stand, nodes_ofDeclaration]
    exact List.prefix_rfl
  rw [preorder, size_ofDeclaration, preorderFrom_of_stand (Nat.le_refl d.size) hall, List.range_eq_range']

end DeclarationTree

end TestScaffold
