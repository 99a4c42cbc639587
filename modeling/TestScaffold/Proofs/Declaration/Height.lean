import TestScaffold.Proofs.Declaration.Nested

/-!
# How deep declarations nest

The height of a declaration is how many declarations nest inside it, each in the one before. A node of its tree has no
more nodes around it than that.

Results:
* `Declaration.height`: how deep the declarations inside a declaration nest.
* `DeclarationTree.length_ancestors_le_height`: the nodes around a node are at most as many as the root is high.
-/

namespace TestScaffold

namespace Declaration

mutual

/-- How many declarations nest inside this one, each in the one before. -/
def height : Declaration → Nat
  | ⟨_, _, _, _, children⟩ => heightAll children

/-- How many declarations nest in a list of declarations. -/
def heightAll : List Declaration → Nat
  | [] => 0
  | d :: ds => max (d.height + 1) (heightAll ds)

end

theorem height_eq (d : Declaration) : d.height = heightAll d.children := by
  obtain ⟨kind, name, modifiers, span, children⟩ := d
  rw [height]

theorem heightAll_le_iff {n : Nat} {ds : List Declaration} : heightAll ds ≤ n ↔ ∀ d ∈ ds, d.height < n := by
  induction ds with
  | nil => simp [heightAll]
  | cons d ds ih =>
    rw [heightAll, Nat.max_le, ih, List.forall_mem_cons]
    rfl

end Declaration

namespace DeclarationTree

variable {t : DeclarationTree}

/-- From `next` on, at most `n` nodes stand on the way along the parent links. -/
def AtDepth (t : DeclarationTree) (n : Nat) (next : Option Nat) : Prop :=
  ∀ bound, (t.ancestorsFrom bound next).length ≤ n

namespace AtDepth

theorem outside (t : DeclarationTree) : t.AtDepth 0 none := by
  intro bound
  cases bound <;> exact Nat.le_refl 0

theorem mono {n m : Nat} {next : Option Nat} (h : t.AtDepth n next) (hm : n ≤ m) : t.AtDepth m next :=
  fun bound => Nat.le_trans (h bound) hm

/-- Below a node the way is one node longer. -/
theorem below {n : Nat} {parent : Option Nat} {id : Nat} {d : Declaration} (h : t.AtDepth n parent)
    (hd : t.Represents parent id d) : t.AtDepth (n + 1) (some id) := by
  intro bound
  cases bound with
  | zero => exact Nat.zero_le _
  | succ bound =>
    rw [ancestorsFrom, hd.get?]
    exact Nat.succ_le_succ (h bound)

end AtDepth

mutual

/-- The way from a node inside a declaration is longer than the way from the declaration itself by no more than the
height of the declaration. -/
theorem atDepth_of_represents {n : Nat} {parent : Option Nat} {id : Nat} {d : Declaration} (hn : t.AtDepth n parent)
    (h : t.Represents parent id d) {k : Nat} (hk : id ≤ k) (hlt : k < id + d.size) {node : Node}
    (hnode : t.get? k = some node) : t.AtDepth (n + d.height) node.parent := by
  by_cases hself : k = id
  · subst hself
    obtain rfl : nodeOf parent k d = node := Option.some.inj (h.get?.symm.trans hnode)
    exact hn.mono (Nat.le_add_right n d.height)
  · obtain ⟨kind, name, modifiers, span, children⟩ := d
    rw [Declaration.size] at hlt
    have hbelow : t.Stand (id + 1) (Declaration.nodesAll id (id + 1) children) := h.below
    rw [Declaration.height]
    exact atDepth_of_stand (hn.below h) hbelow (by omega) (by omega) hnode

theorem atDepth_of_stand {n p next : Nat} {ds : List Declaration} (hn : t.AtDepth (n + 1) (some p))
    (h : t.Stand next (Declaration.nodesAll p next ds)) {k : Nat} (hk : next ≤ k)
    (hlt : k < next + Declaration.sizeAll ds) {node : Node} (hnode : t.get? k = some node) :
    t.AtDepth (n + Declaration.heightAll ds) node.parent := by
  cases ds with
  | nil =>
    rw [Declaration.sizeAll] at hlt
    omega
  | cons d ds =>
    rw [Declaration.nodesAll] at h
    rw [Declaration.sizeAll] at hlt
    rw [Declaration.heightAll]
    have hmore := h.right
    rw [Declaration.length_nodes] at hmore
    -- The node belongs to the first of the declarations, or to one of the others.
    by_cases hfirst : k < next + d.size
    · exact (atDepth_of_represents hn h.left hk hfirst hnode).mono (by omega)
    · exact (atDepth_of_stand hn hmore (by omega) (by omega) hnode).mono (by omega)

end

/-- The nodes around a node are at most as many as the root of the tree is high. -/
theorem length_ancestors_le_height (d : Declaration) (id : Nat) :
    ((ofDeclaration d).ancestors id).length ≤ d.height := by
  rw [ancestors]
  cases hnode : (ofDeclaration d).get? id with
  | none => exact Nat.le_trans (AtDepth.outside _ _) (Nat.zero_le _)
  | some node =>
    have hlt : id < 0 + d.size := by
      have hlt : id < (ofDeclaration d).size := (Array.getElem?_eq_some_iff.mp hnode).1
      rwa [size_ofDeclaration, ← Nat.zero_add d.size] at hlt
    have hdepth := atDepth_of_represents (AtDepth.outside _) (represents_ofDeclaration d) (Nat.zero_le id) hlt hnode
    rw [Nat.zero_add] at hdepth
    exact hdepth _

end DeclarationTree

end TestScaffold
