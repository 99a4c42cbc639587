import TestScaffold.Proofs.Declaration.Joining

/-!
# Names, and all the rest

A tree is told by the names of its nodes and by everything else in it. Both are those of the declaration it was made of,
so what keeps all but the names of a declaration keeps all but the names of its tree.

Results:
* `Declaration.names`, `Declaration.anonymous`: the names in a declaration, and what is left without them.
* `DeclarationTree.names_ofDeclaration`, `DeclarationTree.anonymous_ofDeclaration`: the same for its tree.
-/

namespace TestScaffold

namespace Declaration

mutual

/-- The declaration without its name, and everything inside it likewise. -/
def anonymous : Declaration → Declaration
  | ⟨kind, _, modifiers, span, children⟩ => ⟨kind, "", modifiers, span, anonymousAll children⟩

/-- Declarations without their names. -/
def anonymousAll : List Declaration → List Declaration
  | [] => []
  | d :: ds => d.anonymous :: anonymousAll ds

end

mutual

/-- The name of a declaration, and then the names inside it. -/
def names : Declaration → List String
  | ⟨_, name, _, _, children⟩ => name :: namesAll children

/-- The names of neighbouring declarations, each in front of those inside it. -/
def namesAll : List Declaration → List String
  | [] => []
  | d :: ds => d.names ++ namesAll ds

end

theorem anonymousAll_append (ds es : List Declaration) :
    anonymousAll (ds ++ es) = anonymousAll ds ++ anonymousAll es := by
  induction ds with
  | nil => rfl
  | cons d ds ih => rw [List.cons_append, anonymousAll, anonymousAll, ih, List.cons_append]

theorem namesAll_append (ds es : List Declaration) : namesAll (ds ++ es) = namesAll ds ++ namesAll es := by
  induction ds with
  | nil => rfl
  | cons d ds ih => rw [List.cons_append, namesAll, namesAll, ih, List.append_assoc]

mutual

theorem size_anonymous (d : Declaration) : d.anonymous.size = d.size := by
  obtain ⟨kind, name, modifiers, span, children⟩ := d
  rw [anonymous, size, size, sizeAll_anonymousAll]

theorem sizeAll_anonymousAll (ds : List Declaration) : sizeAll (anonymousAll ds) = sizeAll ds := by
  cases ds with
  | nil => rfl
  | cons d ds => rw [anonymousAll, sizeAll, sizeAll, size_anonymous, sizeAll_anonymousAll]

end

theorem indices_anonymousAll (next : Nat) (ds : List Declaration) : indices next (anonymousAll ds) = indices next ds := by
  induction ds generalizing next with
  | nil => rfl
  | cons d ds ih => rw [anonymousAll, indices, indices, size_anonymous, ih]

end Declaration

/-- The node without its name. -/
def Node.anonymous (n : Node) : Node := { n with name := "" }

namespace Declaration

mutual

theorem nodes_anonymous (parent : Option Nat) (id : Nat) (d : Declaration) :
    d.anonymous.nodes parent id = (d.nodes parent id).map Node.anonymous := by
  obtain ⟨kind, name, modifiers, span, children⟩ := d
  rw [anonymous, nodes, nodes, List.map_cons, nodesAll_anonymousAll, indices_anonymousAll]
  rfl

theorem nodesAll_anonymousAll (parent next : Nat) (ds : List Declaration) :
    nodesAll parent next (anonymousAll ds) = (nodesAll parent next ds).map Node.anonymous := by
  cases ds with
  | nil => rfl
  | cons d ds =>
    rw [anonymousAll, nodesAll, nodesAll, List.map_append, nodes_anonymous, size_anonymous, nodesAll_anonymousAll]

end

mutual

theorem map_name_nodes (parent : Option Nat) (id : Nat) (d : Declaration) :
    (d.nodes parent id).map Node.name = d.names := by
  obtain ⟨kind, name, modifiers, span, children⟩ := d
  rw [nodes, names, List.map_cons, map_name_nodesAll]

theorem map_name_nodesAll (parent next : Nat) (ds : List Declaration) :
    (nodesAll parent next ds).map Node.name = namesAll ds := by
  cases ds with
  | nil => rfl
  | cons d ds => rw [nodesAll, namesAll, List.map_append, map_name_nodes, map_name_nodesAll]

end

end Declaration

namespace DeclarationTree

/-- The tree without the names of its nodes. -/
def anonymous (t : DeclarationTree) : DeclarationTree := ⟨t.nodes.map Node.anonymous, by simp [t.nonempty]⟩

/-- The names of the nodes, in the order of their indices. -/
def names (t : DeclarationTree) : List String := t.nodes.toList.map Node.name

theorem anonymous_ofDeclaration (d : Declaration) : (ofDeclaration d).anonymous = ofDeclaration d.anonymous := by
  refine eq_of_nodes ?_
  rw [nodes_ofDeclaration, Declaration.nodes_anonymous, ← nodes_ofDeclaration, anonymous, Array.toList_map]

theorem names_ofDeclaration (d : Declaration) : (ofDeclaration d).names = d.names := by
  rw [names, nodes_ofDeclaration, Declaration.map_name_nodes]

end DeclarationTree

end TestScaffold
