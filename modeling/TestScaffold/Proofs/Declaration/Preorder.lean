import TestScaffold.Declaration.Tree

/-!
# Trees list declarations in preorder

Laying nested declarations out in a tree gives one node per declaration, each before everything inside it, and
neighbours in source order. A node's index is therefore its place in the preorder listing.

Results:
* `Declaration.headings`: the preorder listing of a declaration, with the index of the declaration around each.
* `DeclarationTree.headings_ofDeclaration`: the nodes of a tree, one by one, are the preorder listing.
-/

namespace TestScaffold

/-- What a declaration is called, and where it belongs. -/
structure Heading where
  kind : DeclarationKind
  name : String
  modifiers : List Keyword
  parent : Option Nat
  deriving DecidableEq, Repr

/-- The heading of a node. -/
def Node.heading (n : Node) : Heading := ⟨n.kind, n.name, n.modifiers, n.parent⟩

namespace Declaration

mutual

/-- The headings of a declaration with index `id` and of everything inside it, in preorder. -/
def headings (parent : Option Nat) (id : Nat) : Declaration → List Heading
  | ⟨kind, name, modifiers, _, children⟩ => ⟨kind, name, modifiers, parent⟩ :: headingsAll id (id + 1) children

/-- The headings of the declarations inside `parent`, the first of which has index `next`. -/
def headingsAll (parent next : Nat) : List Declaration → List Heading
  | [] => []
  | d :: ds => d.headings (some parent) next ++ headingsAll parent (next + d.size) ds

end

end Declaration

namespace DeclarationTree

/-- The headings of all nodes, by their indices. -/
def headings (t : DeclarationTree) : List Heading := t.nodes.toList.map Node.heading

theorem map_heading_modify (nodes : List Node) (i : Nat) (f : Node → Node) (hf : ∀ n, (f n).heading = n.heading) :
    (nodes.modify i f).map Node.heading = nodes.map Node.heading := by
  apply List.ext_getElem
  · simp
  · intro n h₁ h₂
    simp only [List.getElem_map, List.getElem_modify]
    split
    · rw [hf]
    · rfl

theorem headings_addChild (t : DeclarationTree) (parent : Nat) (kind : DeclarationKind) (name : String)
    (modifiers : List Keyword) (span : Span) : (t.addChild parent kind name modifiers span).headings =
      t.headings ++ [⟨kind, name, modifiers, some parent⟩] := by
  simp only [headings, addChild, Array.toList_modify]
  rw [map_heading_modify]
  · simp [Node.heading]
  · intro n; rfl

mutual

theorem headings_addDeclaration (t : DeclarationTree) (parent : Nat) (d : Declaration) :
    (addDeclaration t parent d).headings = t.headings ++ d.headings (some parent) t.size := by
  obtain ⟨kind, name, modifiers, span, children⟩ := d
  rw [addDeclaration, headings_addDeclarations, headings_addChild, size_addChild, Declaration.headings]
  simp

theorem headings_addDeclarations (t : DeclarationTree) (parent : Nat) (ds : List Declaration) :
    (addDeclarations t parent ds).headings = t.headings ++ Declaration.headingsAll parent t.size ds := by
  cases ds with
  | nil => simp [addDeclarations, Declaration.headingsAll]
  | cons d ds =>
    rw [addDeclarations, headings_addDeclarations, headings_addDeclaration, size_addDeclaration,
      Declaration.headingsAll, List.append_assoc]

end

/-- The nodes of a tree are the preorder listing of the declaration it was made of. -/
theorem headings_ofDeclaration (d : Declaration) : (ofDeclaration d).headings = d.headings none 0 := by
  obtain ⟨kind, name, modifiers, span, children⟩ := d
  rw [ofDeclaration, headings_addDeclarations, Declaration.headings]
  simp [ofRoot, headings, size, Node.heading]

end DeclarationTree

end TestScaffold
