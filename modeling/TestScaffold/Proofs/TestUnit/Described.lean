import TestScaffold.Generation.Run
import TestScaffold.Proofs.Declaration.Nested

/-!
# Descriptors told from nested declarations

The walk along the parent links of a tree collects the names of the namespaces that are passed on the way down to a
type. What the types of a tree are described by is therefore told from the declarations it was made of, in one pass that
carries the dotted name along.

Results:
* `Declaration.described`: the descriptors of a declaration, inside a namespace or outside of any.
* `DeclarationTree.map_ofNode?_classLikeTypes`: a tree is described as its declarations are.
* `DeclarationTree.map_describe`: inside of namespaces no description fails.
-/

namespace TestScaffold

namespace Declaration

/-- The dotted name of a namespace inside `outer`. -/
def dottedWithin (outer : Option String) (name : String) : String := outer.elim name (· ++ "." ++ name)

/-- The names of the public methods among some declarations. -/
def publicMethods (ds : List Declaration) : List String :=
  ds.filterMap fun d => if d.kind == .method && d.modifiers.contains .publicKw then some d.name else none

mutual

/-- The descriptors of the class-like types that are reached through namespaces, inside the namespace `outer`. A type
outside of any namespace has none. -/
def described (outer : Option String) : Declaration → List (Option Descriptor)
  | ⟨kind, name, _, _, children⟩ =>
    if kind = .namespaceBlock then describedAll (some (dottedWithin outer name)) children
    else if kind.isClassLike then [outer.map fun namespaceName => ⟨name, namespaceName, publicMethods children⟩]
    else []

/-- The descriptors of some declarations, one after the other. -/
def describedAll (outer : Option String) : List Declaration → List (Option Descriptor)
  | [] => []
  | d :: ds => d.described outer ++ describedAll outer ds

end

mutual

/-- Inside a namespace every class-like type has a descriptor. -/
theorem exists_described_eq (namespaceName : String) (d : Declaration) :
    ∃ descriptors : List Descriptor, d.described (some namespaceName) = descriptors.map some := by
  obtain ⟨kind, name, modifiers, span, children⟩ := d
  rw [described]
  split
  · exact exists_describedAll_eq (dottedWithin (some namespaceName) name) children
  · split
    · exact ⟨[_], rfl⟩
    · exact ⟨[], rfl⟩

theorem exists_describedAll_eq (namespaceName : String) (ds : List Declaration) :
    ∃ descriptors : List Descriptor, describedAll (some namespaceName) ds = descriptors.map some := by
  cases ds with
  | nil => exact ⟨[], rfl⟩
  | cons d ds =>
    obtain ⟨first, hfirst⟩ := exists_described_eq namespaceName d
    obtain ⟨more, hmore⟩ := exists_describedAll_eq namespaceName ds
    exact ⟨first ++ more, by rw [describedAll, hfirst, hmore, List.map_append]⟩

end

end Declaration

namespace DeclarationTree

open Declaration (dottedWithin indices nodesAll sizeAll described describedAll)

variable {t : DeclarationTree}

/-! ## Names along the parent links -/

/-- The dotted name of namespaces whose names are given innermost first, if there are any. -/
def dotted? : List String → Option String
  | [] => none
  | names => some (".".intercalate names.reverse)

theorem dotted?_cons (name : String) (names : List String) :
    dotted? (name :: names) = some (dottedWithin (dotted? names) name) := by
  cases names with
  | nil => rfl
  | cons outer names =>
    have hjoin : ".".intercalate ((outer :: names).reverse ++ [name]) =
        ".".intercalate (outer :: names).reverse ++ "." ++ name :=
      String.intercalate_append_of_ne_nil (by simp) (by simp)
    rw [← List.reverse_cons] at hjoin
    exact congrArg some hjoin

/-- The namespaces around a node with index `id`, whose parent is given, have the dotted name `outer`. As a parent
stands before its children, a walk of `id` steps meets all of them. -/
def NamesAround (t : DeclarationTree) (parent : Option Nat) (id : Nat) (outer : Option String) : Prop :=
  ∀ bound, id ≤ bound → dotted? ((t.ancestorsFrom bound parent).filterMap t.namespaceName?) = outer

theorem NamesAround.none (id : Nat) : t.NamesAround none id none := by
  intro bound _
  cases bound <;> rfl

section

variable {parent : Option Nat} {id : Nat} {d : Declaration} {outer : Option String}

/-- A namespace puts its name behind the names around it. -/
theorem NamesAround.child (h : t.NamesAround parent id outer) (hd : t.Represents parent id d) {child : Nat}
    (hlt : id < child) : t.NamesAround (some id) child
      (if d.kind = .namespaceBlock then some (dottedWithin outer d.name) else outer) := by
  intro bound hbound
  obtain ⟨bound, rfl⟩ : ∃ b, bound = b + 1 := ⟨bound - 1, by omega⟩
  have hnames := h bound (by omega)
  have hparent : (nodeOf parent id d).parent = parent := rfl
  rw [ancestorsFrom, hd.get?]
  simp only [hparent, List.filterMap_cons, namespaceName?, hd.get?, Option.bind_some]
  by_cases hk : d.kind = .namespaceBlock
  · simp only [nodeOf, hk, beq_self_eq_true, if_true, dotted?_cons, ← hnames]
  · simp only [nodeOf, beq_iff_eq, hk, if_false]
    exact hnames

theorem enclosingNamespace?_eq (h : t.NamesAround parent id outer) (hd : t.Represents parent id d) :
    t.enclosingNamespace? id = outer := by
  have hlt : id < t.size := (Array.getElem?_eq_some_iff.mp hd.get?).1
  have hparent : (t.get? id).bind (·.parent) = parent := by
    rw [hd.get?]
    rfl
  rw [← h t.size (Nat.le_of_lt hlt), enclosingNamespace?, ancestors, hparent]
  cases (t.ancestorsFrom t.size parent).filterMap t.namespaceName? <;> rfl

/-! ## Types -/

theorem filterMap_indices {α : Type} {f : Node → Option α} {g : Declaration → Option α}
    (hfg : ∀ p i d, f (nodeOf p i d) = g d) {p next : Nat} {ds : List Declaration}
    (h : t.Stand next (nodesAll p next ds)) :
    ((indices next ds).filterMap fun i => (t.get? i).bind f) = ds.filterMap g := by
  induction ds generalizing next with
  | nil => rfl
  | cons d ds ih =>
    rw [nodesAll] at h
    have hmore := h.right
    rw [Declaration.length_nodes] at hmore
    have hfirst : t.Represents (some p) next d := h.left
    rw [indices, List.filterMap_cons, List.filterMap_cons, hfirst.get?, Option.bind_some, hfg, ih hmore]

theorem ofNode?_eq (houter : t.NamesAround parent id outer) (hd : t.Represents parent id d) :
    Descriptor.ofNode? t id =
      outer.map fun namespaceName => ⟨d.name, namespaceName, Declaration.publicMethods d.children⟩ := by
  have hmethods : t.publicMethods id = Declaration.publicMethods d.children := by
    rw [publicMethods, hd.children]
    exact filterMap_indices (fun _ _ _ => rfl) hd.below
  have hname : t.nameOf id = d.name := by
    rw [nameOf, hd.get?]
    rfl
  rw [Descriptor.ofNode?, enclosingNamespace?_eq houter hd, hmethods, hname]

end

theorem classLikeFrom_succ (bound : Nat) {id : Nat} {kind : DeclarationKind}
    (hkind : (t.get? id).map Node.kind = some kind) : t.classLikeFrom (bound + 1) id =
      if kind = .namespaceBlock then (t.children id).flatMap (t.classLikeFrom bound)
      else if kind.isClassLike then [id] else [] := by
  rw [classLikeFrom, hkind]
  cases kind <;> simp

mutual

/-- The types at or below a node are described as those of the declaration it stands for. -/
theorem map_ofNode?_classLikeFrom {bound id : Nat} {parent : Option Nat} {d : Declaration} {outer : Option String}
    (hb : d.size ≤ bound) (hd : t.Represents parent id d) (houter : t.NamesAround parent id outer) :
    (t.classLikeFrom bound id).map (Descriptor.ofNode? t) = d.described outer := by
  obtain ⟨kind, name, modifiers, span, children⟩ := d
  rw [Declaration.size] at hb
  -- Below a node stand fewer nodes than from it on, so one level is left for every node.
  obtain ⟨b, rfl⟩ : ∃ b, bound = b + 1 := ⟨bound - 1, by omega⟩
  have hkind : (t.get? id).map Node.kind = some kind := by
    rw [hd.get?]
    rfl
  rw [classLikeFrom_succ b hkind, described]
  by_cases hk : kind = .namespaceBlock
  · have hbelow := map_ofNode?_flatMap (Nat.le_of_succ_le_succ hb) hd.below fun _ hlt => houter.child hd hlt
    rw [if_pos hk] at hbelow
    rw [if_pos hk, if_pos hk, ← hbelow, hd.children]
  · rw [if_neg hk, if_neg hk]
    split
    · exact List.map_singleton.trans (congrArg (fun x => [x]) (ofNode?_eq houter hd))
    · rfl

theorem map_ofNode?_flatMap {bound next p : Nat} {ds : List Declaration} {outer : Option String}
    (hb : sizeAll ds ≤ bound) (h : t.Stand next (nodesAll p next ds))
    (houter : ∀ id, next ≤ id → t.NamesAround (some p) id outer) :
    ((indices next ds).flatMap (t.classLikeFrom bound)).map (Descriptor.ofNode? t) = describedAll outer ds := by
  cases ds with
  | nil => rfl
  | cons d ds =>
    rw [nodesAll] at h
    rw [sizeAll] at hb
    have hright := h.right
    rw [Declaration.length_nodes] at hright
    have hfirst := map_ofNode?_classLikeFrom (by omega : d.size ≤ bound) h.left (houter next (Nat.le_refl next))
    have hmore := map_ofNode?_flatMap (by omega : sizeAll ds ≤ bound) hright fun id hid => houter id (by omega)
    rw [indices, List.flatMap_cons, List.map_append, hfirst, hmore, describedAll]

end

/-- The types of a tree are described as those of the declarations it was made of. -/
theorem map_ofNode?_classLikeTypes {d : Declaration} (hd : d.kind ≠ .namespaceBlock) :
    (ofDeclaration d).classLikeTypes.map (Descriptor.ofNode? (ofDeclaration d)) =
      describedAll none d.children := by
  have hrepresents := represents_ofDeclaration d
  have hsize : sizeAll d.children ≤ (ofDeclaration d).size := by
    obtain ⟨kind, name, modifiers, span, children⟩ := d
    rw [size_ofDeclaration, Declaration.size]
    exact Nat.le_succ _
  rw [classLikeTypes, hrepresents.children]
  refine map_ofNode?_flatMap hsize hrepresents.below fun id hid => ?_
  have hroot : (ofDeclaration d).NamesAround none 0 none := .none 0
  have hnames := hroot.child hrepresents (Nat.lt_of_succ_le hid)
  rwa [if_neg hd] at hnames

/-- Where every type is inside a namespace, no description fails. -/
theorem map_describe {d : Declaration} {descriptors : List Descriptor} (hd : d.kind ≠ .namespaceBlock)
    (h : describedAll none d.children = descriptors.map some) (source : String) :
    (ofDeclaration d).classLikeTypes.map (fun id => Generation.describe (ofDeclaration d) id source) =
      descriptors.map .ok := by
  have hall := (map_ofNode?_classLikeTypes hd).trans h
  have hsome (id : Nat) {x : Descriptor} (hx : Descriptor.ofNode? (ofDeclaration d) id = some x) :
      Generation.describe (ofDeclaration d) id source = .ok x := by rw [Generation.describe, hx]
  clear h
  generalize (ofDeclaration d).classLikeTypes = ids at hall ⊢
  induction ids generalizing descriptors with
  | nil => rw [List.map_nil, List.map_eq_nil_iff.mp hall.symm, List.map_nil]
  | cons id ids ih =>
    obtain ⟨x, more, rfl, hx, hmore⟩ := List.map_eq_cons_iff.mp hall.symm
    rw [List.map_cons, List.map_cons, hsome id hx.symm, ih hmore.symm]

end DeclarationTree

end TestScaffold
