import TestScaffold.Declaration

/-!
# Declaration trees

All declarations of a text in one array, in which each node knows its parent and its children by their indices.
The root stands at index 0. Nodes are only ever appended, and a child list only ever grows at its end.

* `DeclarationTree.addChild` never checks its parent: a node may name a parent that comes later or never, or
  itself.
* `DeclarationTree.ofDeclaration` lays nested declarations out in preorder.
* `ancestors` and `outline` are bounded by the number of nodes, so they end on any tree.
-/

namespace TestScaffold

/-- One declaration of a tree. -/
structure Node where
  kind : DeclarationKind
  name : String
  modifiers : List Keyword
  span : Span
  parent : Option Nat
  children : Array Nat
  deriving DecidableEq, Repr

namespace Node

/-- Whether the declaration is written with the modifier `k`. -/
def hasModifier (n : Node) (k : Keyword) : Bool := n.modifiers.contains k

/-- Whether the declaration is written with `public`. -/
def isPublic (n : Node) : Bool := n.hasModifier .publicKw

end Node

/-- Declarations in an array, the root first. -/
structure DeclarationTree where
  nodes : Array Node
  nonempty : 0 < nodes.size

namespace DeclarationTree

/-- The tree that holds nothing but the given root. -/
def ofRoot (root : Node) : DeclarationTree := ⟨#[root], Nat.one_pos⟩

/-- The tree in which nothing is declared. -/
def empty : DeclarationTree := ofRoot ⟨.unit, "", [], .zero, none, #[]⟩

/-- The number of nodes, the root included. -/
def size (t : DeclarationTree) : Nat := t.nodes.size

/-- Whether nothing is declared below the root. -/
def isEmpty (t : DeclarationTree) : Bool := t.size == 1

/-- The node with an index, if the tree has it. -/
def get? (t : DeclarationTree) (id : Nat) : Option Node := t.nodes[id]?

/-- The indices of the children of a node, in source order; none for an index the tree does not have. -/
def children (t : DeclarationTree) (id : Nat) : List Nat := (t.get? id).elim [] fun n => n.children.toList

/-- Appends a node and enters it into its parent's child list, if there is such a parent by then. The new index is
the former size. -/
def addChild (t : DeclarationTree) (parent : Nat) (kind : DeclarationKind) (name : String)
    (modifiers : List Keyword) (span : Span) : DeclarationTree :=
  let nodes := t.nodes.push ⟨kind, name, modifiers, span, some parent, #[]⟩
  ⟨nodes.modify parent fun p => { p with children := p.children.push t.size }, by simp [nodes]⟩

/-- Widens the span of a node. -/
def extendSpan (t : DeclarationTree) (id : Nat) (span : Span) : DeclarationTree :=
  ⟨t.nodes.modify id fun n => { n with span := n.span.merge span }, by simp [t.nonempty]⟩

@[simp] theorem size_addChild (t : DeclarationTree) (parent : Nat) (kind : DeclarationKind) (name : String)
    (modifiers : List Keyword) (span : Span) :
    (t.addChild parent kind name modifiers span).size = t.size + 1 := by
  simp [addChild, size]

@[simp] theorem size_extendSpan (t : DeclarationTree) (id : Nat) (span : Span) :
    (t.extendSpan id span).size = t.size := by
  simp [extendSpan, size]

/-! ## Nested declarations as a tree -/

mutual

/-- Appends a declaration, and then everything inside it. -/
def addDeclaration (t : DeclarationTree) (parent : Nat) : Declaration → DeclarationTree
  | ⟨kind, name, modifiers, span, children⟩ =>
    addDeclarations (t.addChild parent kind name modifiers span) t.size children

/-- Appends declarations one after the other. -/
def addDeclarations (t : DeclarationTree) (parent : Nat) : List Declaration → DeclarationTree
  | [] => t
  | d :: ds => addDeclarations (addDeclaration t parent d) parent ds

end

/-- The tree of a declaration, which becomes the root. -/
def ofDeclaration (d : Declaration) : DeclarationTree :=
  addDeclarations (ofRoot ⟨d.kind, d.name, d.modifiers, d.span, none, #[]⟩) 0 d.children

mutual

theorem size_addDeclaration (t : DeclarationTree) (parent : Nat) (d : Declaration) :
    (addDeclaration t parent d).size = t.size + d.size := by
  obtain ⟨kind, name, modifiers, span, children⟩ := d
  simp only [addDeclaration, size_addDeclarations, size_addChild, Declaration.size]
  omega

theorem size_addDeclarations (t : DeclarationTree) (parent : Nat) (ds : List Declaration) :
    (addDeclarations t parent ds).size = t.size + Declaration.sizeAll ds := by
  cases ds with
  | nil => simp [addDeclarations, Declaration.sizeAll]
  | cons d ds =>
    simp only [addDeclarations, size_addDeclarations, size_addDeclaration, Declaration.sizeAll]
    omega

end

/-- The tree has one node per declaration. -/
theorem size_ofDeclaration (d : Declaration) : (ofDeclaration d).size = d.size := by
  obtain ⟨kind, name, modifiers, span, children⟩ := d
  simp only [ofDeclaration, size_addDeclarations, Declaration.size]
  simp [ofRoot, size, Nat.add_comm]

/-! ## Walks -/

/-- At most `bound` nodes on the way from `next` along the parent links. -/
def ancestorsFrom (t : DeclarationTree) : (bound : Nat) → (next : Option Nat) → List Nat
  | 0, _ => []
  | _, none => []
  | bound + 1, some id =>
    match t.get? id with
    | some n => id :: ancestorsFrom t bound n.parent
    | none => []

/-- The indices of the nodes around a node, nearest first. The walk stops at a missing index, and after as many
nodes as there are. -/
def ancestors (t : DeclarationTree) (id : Nat) : List Nat := t.ancestorsFrom t.size ((t.get? id).bind (·.parent))

/-- A line of an outline: the kind and name of a node, and its modifiers in brackets. -/
def outlineLine (depth : Nat) (n : Node) : String :=
  let indent := String.join (List.replicate depth "  ")
  let heading := s!"{indent}{n.kind.label} {n.name}"
  if n.modifiers.isEmpty then heading
  else
    let words := " ".intercalate (n.modifiers.map Keyword.spelling)
    s!"{heading} [{words}]"

/-- The lines of a node and of the nodes below it, down to `bound` levels. -/
def outlineFrom (t : DeclarationTree) : (bound depth : Nat) → (id : Nat) → List String
  | 0, _, _ => []
  | bound + 1, depth, id =>
    match t.get? id with
    | some n => outlineLine depth n :: n.children.toList.flatMap (outlineFrom t bound (depth + 1))
    | none => []

/-- The declarations of the tree one to a line, indented by depth. The root is not shown. -/
def outline (t : DeclarationTree) : String :=
  let lines := (t.children 0).flatMap (t.outlineFrom t.size 0)
  String.join (lines.map fun line => line ++ "\n")

end DeclarationTree

end TestScaffold
