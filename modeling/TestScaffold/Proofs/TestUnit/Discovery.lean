import Mathlib.Logic.Relation
import TestScaffold.Proofs.Reading.Laying
import TestScaffold.Proofs.TestUnit.Search

/-!
# Types found downwards, namespaces found upwards

Types are searched for along the child lists, and the namespaces around a type along the parent links. In a tree whose
nodes were all appended below nodes that were there, the two agree: the way up from a type is the way down to it,
backwards, and is never longer than the bound of the walk. So a type that is found lacks a namespace only if it stands
directly below the root.

Results:
* `mem_classLikeTypes_iff`: the types found are those that stand in nothing but namespaces.
* `PathTo.ancestors_eq`: the way up is the way down, backwards.
* `types_found_described`: which types are found, in which order, and how each of them is described.
-/

namespace TestScaffold.DeclarationTree

variable {t : DeclarationTree} {id : Nat}

/-- The node `a` is met on the way from `id` along the parent links. -/
def Above (t : DeclarationTree) (id a : Nat) : Prop := Relation.TransGen (fun k p => t.parent? k = some p) id a

/-- Around a node there are only namespaces, up to the root. -/
def InNamespaces (t : DeclarationTree) (id : Nat) : Prop :=
  ∀ a, t.Above id a → a ≠ 0 → ∃ n, t.get? a = some n ∧ n.kind = .namespaceBlock

/-- A class, struct or record around which there are only namespaces, up to the root. -/
structure Unnested (t : DeclarationTree) (id : Nat) : Prop where
  exists_classLike : ∃ n, t.get? id = some n ∧ n.kind.isClassLike = true
  inNamespaces : t.InNamespaces id

/-- Every tree that is read is made by appending nodes below nodes that are there. -/
theorem attached_of_ofTokens {ts : List Token} (h : ofTokens ts = .ok t) : t.Attached := by
  obtain ⟨d, hd, rfl⟩ := ofTokens_eq_ok_iff.mp h
  obtain ⟨-, rfl⟩ := readDeclarations_eq_ok_iff.mp hd
  -- The root of a text that was read is the empty one, widened up to the end of the text.
  exact (Attached.empty.extendSpan 0 _).addDeclarations Nat.one_pos _

/-! ## Everything is reached -/

namespace Attached

theorem exists_mem_children (h : t.Attached) (hid : id < t.size) (hne : id ≠ 0) :
    ∃ p, id ∈ t.children p ∧ p < id := by
  obtain ⟨p, hp⟩ := h.linked.exists_parent id hid hne
  refine ⟨p, ?_, h.linked.parent_lt id p hp⟩
  rw [h.linked.children, List.mem_filter]
  exact ⟨List.mem_range.mpr hid, decide_eq_true hp⟩

/-- The root leads to every node. -/
theorem reached (h : t.Attached) (hid : id < t.size) : t.Reached id := by
  induction id using Nat.strongRecOn with
  | ind id ih =>
    by_cases hne : id = 0
    · subst hne
      exact .root
    · obtain ⟨p, hmem, hlt⟩ := h.exists_mem_children hid hne
      exact .child (ih p hlt (by omega)) hmem

/-- Each node comes once in preorder. -/
theorem preorder_complete (h : t.Attached) : t.preorder.Nodup ∧ ∀ id, id ∈ t.preorder ↔ id < t.size := by
  have ht := h.entered
  obtain ⟨met, lines, hwalk⟩ := exists_walk ht (Room.start t) 0
  have hmet {id : Nat} : id ∈ met ↔ t.Reached id ∧ id ≠ 0 := hwalk.mem_iff_reached ht
  rw [hwalk.preorder_eq ht]
  refine ⟨List.nodup_cons.mpr ⟨fun hmem => (hmet.mp hmem).2 rfl, hwalk.nodup ht⟩, fun id => ?_⟩
  rw [List.mem_cons, hmet]
  constructor
  · rintro (rfl | ⟨hreached, -⟩)
    · exact t.nonempty
    · exact hreached.lt_size ht
  · intro hid
    by_cases hne : id = 0
    · exact .inl hne
    · exact .inr ⟨h.reached hid, hne⟩

theorem get?_zero (h : t.Attached) : ∃ n, t.get? 0 = some n ∧ n.kind = .unit := by
  obtain ⟨n, hn, hheading⟩ := get?_of_headings h.headings_zero
  exact ⟨n, hn, congrArg Heading.kind hheading⟩

end Attached

/-! ## Which types are found -/

theorem InNamespaces.child {p : Nat} {n : Node} (ht : t.Entered) (h : t.InNamespaces p) (hn : t.get? p = some n)
    (hk : p = 0 ∨ n.kind = .namespaceBlock) (hid : id ∈ t.children p) : t.InNamespaces id := by
  intro a ha hne
  have hparent := ht.parent?_of_mem p id hid
  -- Around a child there is its parent, and what is around that one.
  obtain ⟨q, hq, hrest⟩ := Relation.TransGen.head'_iff.mp ha
  obtain rfl : p = q := Option.some.inj (hparent.symm.trans hq)
  rcases Relation.reflTransGen_iff_eq_or_transGen.mp hrest with rfl | habove
  · exact ⟨n, hn, hk.resolve_left hne⟩
  · exact h a habove hne

theorem inNamespaces_zero (ht : t.Entered) : t.InNamespaces 0 := by
  intro a ha
  obtain ⟨q, hq, -⟩ := Relation.TransGen.head'_iff.mp ha
  rw [ht.parent?_zero] at hq
  cases hq

theorem unnested_of_mem_classLikeFrom (ht : t.Entered) {bound k : Nat} (hk : t.InNamespaces k)
    (hid : id ∈ t.classLikeFrom bound k) : t.Unnested id := by
  induction bound generalizing k with
  | zero => cases hid
  | succ bound ih =>
    cases hn : t.get? k with
    | none =>
      rw [classLikeFrom, hn] at hid
      cases hid
    | some n =>
      have hkind : (t.get? k).map Node.kind = some n.kind := by rw [hn, Option.map_some]
      rw [classLikeFrom_succ bound hkind] at hid
      split_ifs at hid with hns hclass
      · obtain ⟨c, hc, hid⟩ := List.mem_flatMap.mp hid
        exact ih (hk.child ht hn (.inr hns) hc) hid
      · obtain rfl := List.mem_singleton.mp hid
        exact ⟨⟨n, hn, hclass⟩, hk⟩
      · cases hid

/-- Whatever is found from a node that stands only in namespaces is found from the root. -/
theorem exists_classLikeFrom_subset (ht : t.Entered) (hreached : t.Reached id) (hid : t.InNamespaces id)
    (hne : id ≠ 0) : ∃ bound, t.size ≤ id + bound ∧ t.classLikeFrom bound id ⊆ t.classLikeTypes := by
  induction hreached with
  | root => exact absurd rfl hne
  | @child p id hp hmem ih =>
    have hparent := ht.parent?_of_mem p id hmem
    by_cases hzero : p = 0
    · subst hzero
      exact ⟨t.size, Nat.le_add_left _ _, fun x hx => List.mem_flatMap.mpr ⟨id, hmem, hx⟩⟩
    · obtain ⟨n, hn, hns⟩ := hid p (.single hparent) hzero
      obtain ⟨bound, hbound, hsubset⟩ := ih (fun a ha => hid a (.head hparent ha)) hzero
      have hlt : p < id := hp.lt_of_mem ht hmem
      have hsize : p < t.size := hp.lt_size ht
      obtain ⟨b, rfl⟩ : ∃ b, bound = b + 1 := ⟨bound - 1, by omega⟩
      have hkind : (t.get? p).map Node.kind = some .namespaceBlock := by rw [hn, Option.map_some, hns]
      rw [classLikeFrom_succ b hkind, if_pos rfl] at hsubset
      exact ⟨b, by omega, fun x hx => hsubset (List.mem_flatMap.mpr ⟨id, hmem, hx⟩)⟩

/-- The types that are found are those that stand in nothing but namespaces. -/
theorem mem_classLikeTypes_iff (h : t.Attached) : id ∈ t.classLikeTypes ↔ t.Unnested id := by
  have ht := h.entered
  constructor
  · intro hid
    obtain ⟨k, hk, hid⟩ := List.mem_flatMap.mp hid
    obtain ⟨root, hroot, -⟩ := h.get?_zero
    exact unnested_of_mem_classLikeFrom ht ((inNamespaces_zero ht).child ht hroot (.inl rfl) hk) hid
  · rintro ⟨⟨n, hn, hclass⟩, hid⟩
    have hsize : id < t.size := (Array.getElem?_eq_some_iff.mp hn).1
    have hne : id ≠ 0 := by
      rintro rfl
      obtain ⟨root, hroot, hunit⟩ := h.get?_zero
      rw [Option.some.inj (hn.symm.trans hroot), hunit] at hclass
      cases hclass
    obtain ⟨bound, hbound, hsubset⟩ := exists_classLikeFrom_subset ht (h.reached hsize) hid hne
    obtain ⟨b, rfl⟩ : ∃ b, bound = b + 1 := ⟨bound - 1, by omega⟩
    have hkind : (t.get? id).map Node.kind = some n.kind := by rw [hn, Option.map_some]
    have hns : n.kind ≠ .namespaceBlock := by
      intro hns
      rw [hns] at hclass
      cases hclass
    apply hsubset
    rw [classLikeFrom_succ b hkind, if_neg hns, if_pos hclass]
    exact List.mem_singleton_self id

/-! ## The way down and the way up -/

/-- The way down from the root to a node along the child lists, without the node itself. -/
inductive PathTo (t : DeclarationTree) : (id : Nat) → List Nat → Prop
  | root : PathTo t 0 []
  | child {p id : Nat} {path : List Nat} (h : PathTo t p path) (hid : id ∈ t.children p) : PathTo t id (path ++ [p])

namespace PathTo

variable {path : List Nat}

theorem reached (h : t.PathTo id path) : t.Reached id := by
  induction h with
  | root => exact .root
  | child _ hid ih => exact .child ih hid

/-- A way down has no more steps than the index it leads to. -/
theorem length_le (ht : t.Entered) (h : t.PathTo id path) : path.length ≤ id := by
  induction h with
  | root => exact Nat.le_refl 0
  | child hp hid ih =>
    have hlt := hp.reached.lt_of_mem ht hid
    rw [List.length_append, List.length_singleton]
    omega

theorem ancestorsFrom_eq (ht : t.Entered) (h : t.PathTo id path) {bound : Nat} (hbound : path.length ≤ bound) :
    t.ancestorsFrom bound (t.parent? id) = path.reverse := by
  induction h generalizing bound with
  | root =>
    rw [ht.parent?_zero]
    cases bound <;> rfl
  | @child p id path hp hid ih =>
    rw [List.length_append, List.length_singleton] at hbound
    obtain ⟨b, rfl⟩ : ∃ b, bound = b + 1 := ⟨bound - 1, by omega⟩
    obtain ⟨n, hn⟩ := exists_get?_of_lt_size (hp.reached.lt_size ht)
    rw [ht.parent?_of_mem p id hid, ancestorsFrom, hn, List.reverse_append, List.reverse_singleton]
    simp only [← parent?_eq hn, ih (by omega : path.length ≤ b), List.singleton_append]

/-- The walk along the parent links gives the way down to a node, backwards and as a whole. -/
theorem ancestors_eq (ht : t.Entered) (h : t.PathTo id path) : t.ancestors id = path.reverse := by
  have hlength := h.length_le ht
  have hlt := h.reached.lt_size ht
  rw [ancestors, ← parent?_eq_bind]
  exact h.ancestorsFrom_eq ht (by omega)

/-- The namespaces around a node are named by the way down to it. -/
theorem enclosingNamespace?_eq (ht : t.Entered) (h : t.PathTo id path) : t.enclosingNamespace? id =
    if path.filterMap t.namespaceName? = [] then none
    else some (".".intercalate (path.filterMap t.namespaceName?)) := by
  rw [enclosingNamespace?, h.ancestors_eq ht, List.filterMap_reverse]
  cases hnames : path.filterMap t.namespaceName? with
  | nil => rfl
  | cons name names =>
    rw [if_neg (List.cons_ne_nil _ _)]
    split
    case h_1 hnil => exact absurd (List.reverse_eq_nil_iff.mp hnil) (List.cons_ne_nil _ _)
    case h_2 => rw [List.reverse_reverse]

end PathTo

theorem Reached.exists_pathTo (h : t.Reached id) : ∃ path, t.PathTo id path := by
  induction h with
  | root => exact ⟨[], .root⟩
  | @child p id _ hid ih =>
    obtain ⟨path, hpath⟩ := ih
    exact ⟨path ++ [p], .child hpath hid⟩

/-! ## Descriptions -/

/-- A type that is found has no namespace on the way down to it exactly if it stands directly below the root. -/
theorem Unnested.filterMap_namespaceName?_eq_nil_iff (h : t.Attached) (hid : t.Unnested id) {path : List Nat}
    (hpath : t.PathTo id path) : path.filterMap t.namespaceName? = [] ↔ id ∈ t.children 0 := by
  have ht := h.entered
  obtain ⟨root, hroot, hunit⟩ := h.get?_zero
  cases hpath with
  | root =>
    obtain ⟨n, hn, hclass⟩ := hid.exists_classLike
    rw [Option.some.inj (hn.symm.trans hroot), hunit] at hclass
    cases hclass
  | @child p _ path hp hmem =>
    have hparent := ht.parent?_of_mem p id hmem
    by_cases hzero : p = 0
    · subst hzero
      have hnil : path = [] := by
        cases hp with
        | root => rfl
        | child hq hzero => exact absurd (hq.reached.lt_of_mem ht hzero) (Nat.not_lt_zero _)
      subst hnil
      simp [namespaceName?, hroot, hunit, hmem]
    · obtain ⟨n, hn, hns⟩ := hid.inNamespaces p (.single hparent) hzero
      have hchild : id ∉ t.children 0 := fun hmem' => hzero (ht.eq_of_mem hmem hmem')
      simp [namespaceName?, hn, hns, hchild]

/-- How the types of a tree are found and described. -/
structure TypesAgree (t : DeclarationTree) (source : String) : Prop where
  /-- The search comes to its end. -/
  exists_runs : ∃ looked, Search.Runs t (.start t) looked ⟨[], t.classLikeTypes⟩
  /-- Every node comes once in preorder, and the types are found in that order. -/
  preorder : t.preorder.Nodup ∧ (∀ id, id ∈ t.preorder ↔ id < t.size) ∧ t.classLikeTypes.Sublist t.preorder
  mem_iff : ∀ id, id ∈ t.classLikeTypes ↔ t.Unnested id
  /-- A type that is found has no description if it stands directly below the root. Otherwise its namespace is named by
  the namespaces on the way down to it, which is what is met on the way up, backwards. -/
  describe : ∀ id ∈ t.classLikeTypes, ∃ path, t.PathTo id path ∧ t.ancestors id = path.reverse ∧
    (id ∈ t.children 0 → Generation.describe t id source = .error (.missingNamespace (t.nameOf id) source)) ∧
      (id ∉ t.children 0 → Generation.describe t id source =
        .ok ⟨t.nameOf id, ".".intercalate (path.filterMap t.namespaceName?), t.publicMethods id⟩)

/-- Discovering types downwards agrees with resolving their namespaces upwards, in every tree whose nodes were appended
below nodes that were there. Every tree that is read is one. -/
theorem types_found_described : (∀ ts t, ofTokens ts = .ok t → t.Attached) ∧
    ∀ t : DeclarationTree, t.Attached → ∀ source, t.TypesAgree source := by
  refine ⟨fun ts t => attached_of_ofTokens, fun t h source => ?_⟩
  have ht := h.entered
  obtain ⟨met, lines, hwalk⟩ := exists_walk ht (Room.start t) 0
  obtain ⟨looked, hmet, hfound, hruns⟩ := hwalk.exists_runs_start ht
  have hsublist : t.classLikeTypes.Sublist t.preorder := by
    rw [hwalk.preorder_eq ht]
    exact (hfound.trans hmet).cons 0
  obtain ⟨hnodup, hmem⟩ := h.preorder_complete
  refine ⟨⟨looked, hruns⟩, ⟨hnodup, hmem, hsublist⟩, fun _ => mem_classLikeTypes_iff h, fun id hid => ?_⟩
  have hunnested := (mem_classLikeTypes_iff h).mp hid
  obtain ⟨n, hn, -⟩ := hunnested.exists_classLike
  obtain ⟨path, hpath⟩ := (h.reached (Array.getElem?_eq_some_iff.mp hn).1).exists_pathTo
  have hnil := hunnested.filterMap_namespaceName?_eq_nil_iff h hpath
  have hnamespace := hpath.enclosingNamespace?_eq ht
  refine ⟨path, hpath, hpath.ancestors_eq ht, fun hroot => ?_, fun hroot => ?_⟩
  · rw [if_pos (hnil.mpr hroot)] at hnamespace
    rw [Generation.describe, Descriptor.ofNode?, hnamespace]
    rfl
  · rw [if_neg (mt hnil.mp hroot)] at hnamespace
    rw [Generation.describe, Descriptor.ofNode?, hnamespace]
    rfl

/-- A namespace with a class in it, and a record that stands in no namespace. -/
def looseRecord : DeclarationTree :=
  ((empty.addChild 0 .namespaceBlock "Shop" [] .zero).addChild 1 (.type .classType) "Order" [] .zero).addChild 0
    (.type .recordType) "Loose" [] .zero

theorem types_found_described_looseRecord : looseRecord.Attached ∧
    Generation.describe looseRecord 2 "Shop.cs" = .ok ⟨"Order", "Shop", []⟩ ∧
      Generation.describe looseRecord 3 "Shop.cs" = .error (.missingNamespace "Loose" "Shop.cs") := by
  have hattached : looseRecord.Attached :=
    ((Attached.empty.addChild (by decide) _ _ _ _).addChild (by decide) _ _ _ _).addChild (by decide) _ _ _ _
  have hagree := types_found_described.2 looseRecord hattached "Shop.cs"
  obtain ⟨path, -, hup, -, hinside⟩ := hagree.describe 2 (by decide)
  obtain ⟨-, -, -, hloose, -⟩ := hagree.describe 3 (by decide)
  have hpath : path.reverse = [1, 0] := hup.symm.trans (by decide)
  obtain rfl : path = [0, 1] := List.reverse_injective hpath
  exact ⟨hattached, hinside (by decide), hloose (by decide)⟩

end TestScaffold.DeclarationTree
