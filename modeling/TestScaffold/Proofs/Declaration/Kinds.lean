import TestScaffold.Proofs.Declaration.Joining

/-!
# Kinds in preorder

The kinds of the nodes of a tree are those of the declarations it was made of, each in front of those inside it. Two
trees are told apart by the first place where these differ, whatever stands behind it.

Results:
* `Departs`: two lists that agree up to a place where they hold different members.
* `Declaration.kinds`, `DeclarationTree.kinds_ofDeclaration`: the kinds in a declaration, and those in its tree.
-/

namespace TestScaffold

/-- Two lists agree up to a place where they hold different members. -/
def Departs {α : Type} (as bs : List α) : Prop :=
  ∃ common a as' b bs', a ≠ b ∧ as = common ++ a :: as' ∧ bs = common ++ b :: bs'

namespace Departs

variable {α : Type} {as bs : List α}

theorem of_head {a b : α} (h : a ≠ b) (as bs : List α) : Departs (a :: as) (b :: bs) := ⟨[], a, as, b, bs, h, rfl, rfl⟩

theorem append (h : Departs as bs) (cs ds : List α) : Departs (as ++ cs) (bs ++ ds) := by
  obtain ⟨common, a, as, b, bs, hne, rfl, rfl⟩ := h
  exact ⟨common, a, as ++ cs, b, bs ++ ds, hne, by simp, by simp⟩

theorem prepend (h : Departs as bs) (cs : List α) : Departs (cs ++ as) (cs ++ bs) := by
  obtain ⟨common, a, as, b, bs, hne, rfl, rfl⟩ := h
  exact ⟨cs ++ common, a, as, b, bs, hne, by simp, by simp⟩

theorem ne (h : Departs as bs) : as ≠ bs := by
  obtain ⟨common, a, as, b, bs, hne, rfl, rfl⟩ := h
  intro heq
  exact hne (List.cons.inj (List.append_cancel_left heq)).1

end Departs

namespace Declaration

mutual

/-- The kind of a declaration, and then the kinds inside it. -/
def kinds : Declaration → List DeclarationKind
  | ⟨kind, _, _, _, children⟩ => kind :: kindsAll children

/-- The kinds of neighbouring declarations, each in front of those inside it. -/
def kindsAll : List Declaration → List DeclarationKind
  | [] => []
  | d :: ds => d.kinds ++ kindsAll ds

end

theorem kindsAll_append (ds es : List Declaration) : kindsAll (ds ++ es) = kindsAll ds ++ kindsAll es := by
  induction ds with
  | nil => rfl
  | cons d ds ih => rw [List.cons_append, kindsAll, kindsAll, ih, List.append_assoc]

theorem kindsAll_singleton (d : Declaration) : kindsAll [d] = d.kind :: kindsAll d.children := by
  obtain ⟨kind, name, modifiers, span, children⟩ := d
  rw [kindsAll, kinds, kindsAll, List.append_nil]

mutual

theorem map_kind_nodes (parent : Option Nat) (id : Nat) (d : Declaration) :
    (d.nodes parent id).map Node.kind = d.kinds := by
  obtain ⟨kind, name, modifiers, span, children⟩ := d
  rw [nodes, kinds, List.map_cons, map_kind_nodesAll]

theorem map_kind_nodesAll (parent next : Nat) (ds : List Declaration) :
    (nodesAll parent next ds).map Node.kind = kindsAll ds := by
  cases ds with
  | nil => rfl
  | cons d ds => rw [nodesAll, kindsAll, List.map_append, map_kind_nodes, map_kind_nodesAll]

end

end Declaration

namespace DeclarationTree

/-- The kinds of the nodes, in the order of their indices. -/
def kinds (t : DeclarationTree) : List DeclarationKind := t.nodes.toList.map Node.kind

theorem kinds_ofDeclaration (d : Declaration) : (ofDeclaration d).kinds = d.kinds := by
  rw [kinds, nodes_ofDeclaration, Declaration.map_kind_nodes]

end DeclarationTree

end TestScaffold
